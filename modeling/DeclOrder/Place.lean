import DeclOrder.Path
import DeclOrder.Text.Lossy

/-!
# Places

The names that a system gives to the entries of its directories are octets. Those that are UTF-8 are
texts, and the way to a place is a path as long as all its names are texts. Otherwise the place is
known by the path to a directory and the names from there.
-/

namespace DeclOrder

/-- The name of an entry of a directory. -/
inductive EntryName where
  /-- A text. -/
  | text (spelling : String)
  /-- Octets that are no text. -/
  | foreign (octets : List UInt8) (undecodable : String.fromUTF8? ⟨octets.toArray⟩ = none)
  deriving DecidableEq

namespace EntryName

/-- The text of a name that is one. -/
def text? : EntryName → Option String
  | .text spelling => some spelling
  | .foreign .. => none

/-- The octets of a name. -/
def octets : EntryName → List UInt8
  | .text spelling => spelling.toUTF8.data.toList
  | .foreign bytes _ => bytes

/-- A name as it is shown. -/
def shown : EntryName → String
  | .text spelling => spelling
  | .foreign bytes _ => Text.lossy bytes

/-- The name comes before another in the order of their octets. -/
def precedes (left right : EntryName) : Bool := left.octets < right.octets

/-- The number of octets of names with a slash between each two. -/
def rowSize : List EntryName → Nat
  | [] => 0
  | [name] => name.octets.length
  | name :: rest => name.octets.length + 1 + rowSize rest

/-- The names come before others: they do so at the first difference, or end first. -/
def rowPrecedes : List EntryName → List EntryName → Bool
  | _, [] => false
  | [], _ :: _ => true
  | left :: lefts, right :: rights =>
    left.precedes right || (left == right && rowPrecedes lefts rights)

/-- The texts of names that all are texts. -/
def texts? (names : List EntryName) : Option (List String) := names.mapM text?

/-- Names are texts exactly if they come of them. -/
theorem texts?_eq_some_iff {names : List EntryName} {texts : List String} :
    texts? names = some texts ↔ names = texts.map .text := by
  induction names generalizing texts with
  | nil => cases texts <;> simp [texts?]
  | cons name names ih =>
    rw [texts?] at ih ⊢
    cases name with
    | text spelling =>
      simp only [List.mapM_cons, text?, Option.bind_eq_bind, Option.bind_some, Option.pure_def,
        Option.bind_eq_some_iff, Option.some.injEq, ih]
      constructor
      · rintro ⟨later, rfl, rfl⟩
        rfl
      · intro same
        cases texts with
        | nil => exact nomatch same
        | cons first later =>
          obtain ⟨head, tail⟩ := List.cons.inj same
          exact ⟨later, tail, congrArg (· :: later) (EntryName.text.inj head)⟩
    | foreign bytes undecodable => cases texts <;> simp [text?]

/-- Names that come of texts are these texts. -/
@[simp] theorem texts?_map_text (texts : List String) : texts? (texts.map .text) = some texts :=
  texts?_eq_some_iff.mpr rfl

end EntryName

/-- Names of which one at least is no text. -/
abbrev ForeignNames := { names : List EntryName // EntryName.texts? names = none }

/-- The names with more after them. -/
def ForeignNames.append (names : ForeignNames) (more : List EntryName) : ForeignNames :=
  ⟨names.1 ++ more, by
    have foreign := names.2
    rw [EntryName.texts?] at foreign ⊢
    rw [List.mapM_append, foreign]
    rfl⟩

/-- Where a way leads. -/
inductive Place where
  /-- The way is a path. -/
  | text (path : Path)
  /-- The way is a path and the names after it, which are not all texts. -/
  | foreign (base : Path) (names : ForeignNames)
  deriving DecidableEq

namespace Place

/-- The path of an entry of a directory. Entries of the directory that a program runs in go by
their names alone. -/
def entryPath (directory : Path) (entry : String) : Path :=
  if directory.parts = [.here] then ⟨entry⟩ else directory.join ⟨entry⟩

/-- The place that names lead to from a directory. -/
def enter (place : Place) (names : List EntryName) : Place :=
  if names.isEmpty then place
  else
    match place with
    | .text path =>
      match decoded : EntryName.texts? names with
      | some texts => .text (entryPath path (Path.joinSegments texts))
      | none => .foreign path ⟨names, decoded⟩
    | .foreign base before => .foreign base (before.append names)

/-- The directory itself, by the name `.`, or its parent, by the name `..`. -/
def special (place : Place) (name : String) : Place :=
  match place with
  | .text path => .text (path.join ⟨name⟩)
  | .foreign base names => .foreign base (names.append [.text name])

/-- The spelling of a place as it is shown. -/
def shown : Place → String
  | .text path => path.text
  | .foreign base names =>
    (entryPath base "").text ++ Path.joinSegments (names.1.map EntryName.shown)

/-- The number of octets in the spelling of a place. -/
def size : Place → Nat
  | .text path => path.text.utf8ByteSize
  | .foreign base names => (entryPath base "").text.utf8ByteSize + EntryName.rowSize names.1

end Place

end DeclOrder
