import DeclOrder.Proofs.Timestamp
import DeclOrder.Report.Exchange

/-!
# Reports read back from their values

A reader is faithful to a writer when it reads every value back from what is written for it. What
a record leaves out is nothing: an optional value that is absent, or a list that is empty. Reading
takes a field that is not there as just that, so each record is read back from its fields, and a
report from the records in it.
-/

namespace DeclOrder

namespace Json

variable {α : Type} {toJson : α → Json} {value? : Json → Option α} {name other : String}

/-- Each value is read back from what is written for it, and is never written as the absent
value. -/
structure Faithful (toJson : α → Json) (value? : Json → Option α) : Prop where
  /-- A value is read back. -/
  back : ∀ value, value? (toJson value) = some value
  /-- Something is written. -/
  proper : ∀ value, toJson value ≠ .null

/-- A text is written. -/
theorem string_ne_null (text : String) : Json.string text ≠ .null := nofun

/-- A record is written. -/
theorem object_ne_null (fields : List (String × Json)) : Json.object fields ≠ .null := nofun

/-- Texts are read back. -/
theorem faithful_string : Faithful .string string? := ⟨fun _ => rfl, string_ne_null⟩

/-- Truth values are read back. -/
theorem faithful_boolean : Faithful .boolean boolean? := ⟨fun _ => rfl, nofun⟩

/-- Numbers are read back. -/
theorem faithful_word : Faithful ofWord word? := by
  refine ⟨fun word => ?_, nofun⟩
  have within : (0 : Int) ≤ word.toNat ∧ (word.toNat : Int) < UInt64.size :=
    ⟨Int.natCast_nonneg _, Int.ofNat_lt.mpr word.toNat_lt_size⟩
  rw [ofWord, word?, if_pos within, Int.toNat_natCast, UInt64.ofNat_toNat]

/-- Alternatives with names of their own are read back from them. -/
theorem faithful_alternative {nameOf : α → String} {ofName? : String → Option α}
    (named : ∀ value, ofName? (nameOf value) = some value) :
    Faithful (fun value => .string (nameOf value)) (alternative? ofName?) :=
  ⟨named, fun _ => string_ne_null _⟩

namespace Faithful

/-- A list is read back from its items. -/
theorem list (faithful : Faithful toJson value?) :
    Faithful (fun values => .array (values.map toJson)) (list? value?) := by
  refine ⟨fun values => ?_, nofun⟩
  have items : value? ∘ toJson = fun value => pure value := funext faithful.back
  rw [list?, List.mapM_map, items, List.mapM_pure, List.map_id']
  rfl

/-- A value that may be null is read back from what is written for a value. -/
theorem nullable (faithful : Faithful toJson value?) (value : α) :
    nullable? value? (toJson value) = some (some value) := by
  have proper := faithful.proper value
  rw [nullable?, faithful.back value, Option.map_some]
  exact proper

end Faithful

/-- What a field holds for a list: nothing for an empty one. -/
def filled (toJson : α → Json) (values : List α) : Option Json :=
  if values.isEmpty then none else some (.array (values.map toJson))

/-- A field is found by its name, and no other field is. -/
@[simp]
theorem lookup_field (value : Json) (rest : List (String × Json)) :
    ((other, value) :: rest).lookup name =
      if name == other then some value else rest.lookup name := by
  rw [List.lookup_cons]
  cases name == other <;> rfl

/-- The field of an optional value holds what there is. -/
@[simp]
theorem lookup_optionalField (value : Option α) :
    (optionalField other value toJson).lookup name =
      if name == other then value.map toJson else none := by
  cases value with
  | none => exact (ite_self _).symm
  | some value => exact lookup_field _ []

/-- The field of a list holds what there is. -/
@[simp]
theorem lookup_listField (values : List α) :
    (listField other values toJson).lookup name =
      if name == other then filled toJson values else none := by
  unfold listField filled
  split
  · exact (ite_self _).symm
  · exact lookup_field _ []

-- A definition of its own: what a reader makes of a value is left to `Faithful`, and no proof runs
-- the reader.
/-- Read what a field holds, with what is read where it is left out. -/
def readHeld (field : Option Json) (default : Option α) (value? : Json → Option α) : Option α :=
  field.elim default value?

/-- The fields of an object are read by name. -/
@[simp]
theorem bind_record? {β : Type} (size : Nat) (fields : List (String × Json))
    (next : Record → Option β) :
    ((object fields).record? size).bind next = next (.named fields) := by
  rw [record?, Option.bind_some]

namespace Record

variable {place : Nat} (fields : List (String × Json))

/-- A field that must be there is looked up by its name. -/
@[simp]
theorem required_named :
    (named fields).required place name value? = readHeld (fields.lookup name) none value? := by
  rw [required, field?]
  cases fields.lookup name <;> rfl

/-- A field with a default is looked up by its name. -/
@[simp]
theorem optional_named (default : α) :
    (named fields).optional place name default value? =
      readHeld (fields.lookup name) (some default) value? := by
  rw [optional, field?]
  cases fields.lookup name <;> rfl

end Record

namespace Faithful

/-- What is there is read back from its field. -/
theorem there (faithful : Faithful toJson value?) (value : α) (default : Option α) :
    readHeld (some (toJson value)) default value? = some value :=
  faithful.back value

/-- An optional value is read back from its field. -/
theorem absent_or (faithful : Faithful toJson value?) (value : Option α) :
    readHeld (value.map toJson) (some none) (nullable? value?) = some value := by
  cases value with
  | none => rfl
  | some value => exact faithful.nullable value

/-- A list is read back from its field. -/
theorem empty_or (faithful : Faithful toJson value?) (values : List α) :
    readHeld (filled toJson values) (some []) (list? value?) = some values := by
  cases values with
  | nil => rfl
  | cons first rest => exact faithful.list.back (first :: rest)

end Faithful

end Json

open Json

/-- Modes are read back from their names. -/
theorem Mode.faithful : Faithful (fun mode => .string (name mode)) (alternative? ofName?) :=
  faithful_alternative fun mode => by cases mode <;> decide

/-- Statuses are read back from their names. -/
theorem Status.faithful : Faithful (fun status => .string (name status)) (alternative? ofName?) :=
  faithful_alternative fun status => by cases status <;> decide

/-- Moments are read back from their texts. -/
theorem Timestamp.faithful : Faithful (fun time => .string (text time)) ofJson? := by
  refine ⟨fun time => ?_, fun _ => string_ne_null _⟩
  rw [ofJson?, string?, Option.bind_some, ofText?_text]

/-- A tool is read back. -/
theorem Tool.faithful : Faithful toJson ofJson? := by
  refine ⟨fun tool => ?_, fun _ => object_ne_null _⟩
  simp [ofJson?, toJson, faithful_string.there, faithful_string.absent_or]

/-- The times of a run are read back. -/
theorem RunTimes.faithful : Faithful toJson ofJson? := by
  refine ⟨fun run => ?_, fun _ => object_ne_null _⟩
  simp [ofJson?, toJson, List.lookup_append, Timestamp.faithful.absent_or]

/-- Totals are read back. -/
theorem Totals.faithful : Faithful toJson ofJson? := by
  refine ⟨fun totals => ?_, fun _ => object_ne_null _⟩
  simp [ofJson?, toJson, faithful_word.there]

/-- A duplicate is read back. -/
theorem Duplicate.faithful : Faithful toJson ofJson? := by
  refine ⟨fun duplicate => ?_, fun _ => object_ne_null _⟩
  simp [ofJson?, toJson, faithful_string.there]

/-- A move is read back. -/
theorem Move.faithful : Faithful toJson ofJson? := by
  refine ⟨fun move => ?_, fun _ => object_ne_null _⟩
  simp [ofJson?, toJson, faithful_string.there, faithful_word.there]

/-- A summary is read back. -/
theorem Summary.faithful : Faithful toJson ofJson? := by
  refine ⟨fun summary => ?_, fun _ => object_ne_null _⟩
  simp [ofJson?, toJson, List.lookup_append, faithful_string.there, faithful_word.there,
    faithful_boolean.there, faithful_string.empty_or, Duplicate.faithful.empty_or,
    Move.faithful.empty_or]

/-- An entry is read back. -/
theorem Entry.faithful : Faithful toJson ofJson? := by
  refine ⟨fun entry => ?_, fun _ => object_ne_null _⟩
  simp [ofJson?, toJson, List.lookup_append, faithful_string.there, Status.faithful.there,
    faithful_string.absent_or, Summary.faithful.absent_or]

/-- A report is read back. -/
theorem Report.faithful : Faithful toJson ofJson? := by
  refine ⟨fun report => ?_, fun _ => object_ne_null _⟩
  simp [ofJson?, toJson, faithful_string.there, Tool.faithful.there, RunTimes.faithful.there,
    Mode.faithful.there, Totals.faithful.there, Entry.faithful.list.there]

namespace Report

/-- No report is lost on the way: each is read back from its value, and reading any value, writing
what was read and reading that again comes to the same as reading the value. -/
theorem exchange_lossless : (∀ report, ofJson? (toJson report) = some report) ∧
    ∀ value, ((ofJson? value).map toJson).bind ofJson? = ofJson? value := by
  refine ⟨faithful.back, fun value => ?_⟩
  cases ofJson? value with
  | none => rfl
  | some report => exact faithful.back report

/-- A report is also read from a list of its first fields, and a mode from an object. -/
example : ofJson? (.array [.string "declfix.report.v1", .array [.string "declfix", .null],
    .object [("note", .null)], .object [("dry_run", .null)], .string "scc"]) =
      some { tool := { name := "declfix", version := none }, mode := .dryRun, strategy := "scc" } :=
  rfl

end Report

end DeclOrder
