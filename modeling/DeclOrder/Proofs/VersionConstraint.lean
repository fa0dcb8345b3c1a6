import DeclOrder.Proofs.Source
import DeclOrder.VersionConstraint

/-!
# Constrained lines

The line that a constraint writes has the indentation and the field of the line that it was made
from, so the constraint finds the field there again. The annotation written has its brackets closed
and its quotes paired, so the default is what follows it, and the same line comes out again. Since
it has a colon after the field, the line is neither blank nor a forward statement, and it opens a
declaration only if the line before did, so a block that was read stays one.
-/

namespace DeclOrder.VersionConstraint

/-- What a constrained line keeps of the annotation and the default that it had. -/
def kept (annotated : List Char) : List Char :=
  match default? 0 none annotated with
  | some value => " = ".toList ++ Text.trim value
  | none => []

/-- The characters of a constrained line. -/
def written (constraint : VersionConstraint) (indent tail : List Char) : List Char :=
  indent ++ constraint.field.toList ++ ": ".toList ++ constraint.annotation.toList ++ tail

/-- The characters of an annotation. -/
theorem annotation_chars (constraint : VersionConstraint) :
    constraint.annotation.toList =
      "constr(regex=r\x27".toList ++ constraint.pattern.toList ++ "\x27)".toList := by
  unfold annotation
  rw [String.toList_append, String.toList_append]

/-- A line is constrained when the field and a colon follow its indentation. -/
theorem constrainLine?_eq_some_iff {constraint : VersionConstraint} {line result : String} :
    constraint.constrainLine? line = some result ↔
      ∃ named annotated, line.toList.dropWhile Text.isBlank = constraint.field.toList ++ named ∧
        named.dropWhile Text.isBlank = ':' :: annotated ∧
        result = String.ofList
          (constraint.written (line.toList.takeWhile Text.isBlank) (kept annotated)) := by
  simp only [constrainLine?, Option.bind_eq_bind, Option.bind_eq_some_iff,
    Text.after?_eq_some_iff, Option.pure_def, Option.some.injEq]
  constructor
  · rintro ⟨named, begins, annotated, colon, rfl⟩
    exact ⟨named, annotated, begins, colon, rfl⟩
  · rintro ⟨named, annotated, begins, colon, rfl⟩
    exact ⟨named, begins, annotated, colon, rfl⟩

/-- A quoted text without its quote inside is passed over with its closing quote. -/
theorem default?_quoted {depth : Int32} {quote : Char} {inside : List Char} (missing : quote ∉ inside)
    (rest : List Char) :
    default? depth (some quote) (inside ++ quote :: rest) = default? depth none rest := by
  induction inside with
  | nil => simp [default?]
  | cons char inside ih =>
    rw [List.mem_cons, not_or] at missing
    rw [List.cons_append, default?, if_neg (Ne.symm missing.1)]
    exact ih missing.2

/-- The annotation written is passed over, after a blank too. -/
theorem default?_annotation (constraint : VersionConstraint) (rest : List Char) :
    default? 0 none (' ' :: (constraint.annotation.toList ++ rest)) = default? 0 none rest := by
  have shape : ' ' :: (constraint.annotation.toList ++ rest) =
      " constr(regex=r\x27".toList ++ (constraint.pattern.toList ++ '\x27' :: ')' :: rest) := by
    rw [annotation_chars, List.append_assoc, List.append_assoc]
    rfl
  have opened (inside : List Char) : default? 0 none (" constr(regex=r\x27".toList ++ inside) =
      default? 1 (some '\x27') inside := rfl
  rw [shape, opened, default?_quoted constraint.unquoted]
  rfl

/-- What is kept of a kept default is the same. -/
theorem kept_constrained (constraint : VersionConstraint) (annotated : List Char) :
    kept (' ' :: (constraint.annotation.toList ++ kept annotated)) = kept annotated := by
  rw [kept, default?_annotation, kept]
  cases default? 0 none annotated with
  | none => rfl
  | some value =>
    have found : default? 0 none (" = ".toList ++ Text.trim value) =
        some (' ' :: Text.trim value) := rfl
    dsimp only
    rw [found]
    dsimp only
    rw [Text.trim, Text.strip_cons (by decide), Text.trim, Text.strip_strip]

/-- Blanks in front of a text that does not begin with one are cut off exactly. -/
theorem cut_blanks {front text : List Char} (blank : ∀ char ∈ front, Text.isBlank char = true)
    (visible : text.head?.any Text.isBlank = false) :
    (front ++ text).takeWhile Text.isBlank = front ∧
      (front ++ text).dropWhile Text.isBlank = text := by
  have begins : text.takeWhile Text.isBlank = [] ∧ text.dropWhile Text.isBlank = text := by
    cases text with
    | nil => exact ⟨rfl, rfl⟩
    | cons first others =>
      have first_visible : Text.isBlank first = false := visible
      simp [first_visible]
  constructor
  · rw [List.takeWhile_append_of_pos blank, begins.1, List.append_nil]
  · rw [List.dropWhile_append_of_pos blank, begins.2]

/-- A line that declares the field is constrained: its indentation and its default stay. -/
theorem constrainLine?_declaration (constraint : VersionConstraint) {indent gap : List Char}
    (blank_indent : ∀ char ∈ indent, Text.isBlank char = true)
    (blank_gap : ∀ char ∈ gap, Text.isBlank char = true) {annotated : List Char}
    (visible : (constraint.field.toList ++ (gap ++ ':' :: annotated)).head?.any Text.isBlank =
      false) :
    constraint.constrainLine?
        (String.ofList (indent ++ (constraint.field.toList ++ (gap ++ ':' :: annotated)))) =
      some (String.ofList (constraint.written indent (kept annotated))) := by
  obtain ⟨front, begins⟩ := cut_blanks blank_indent visible
  have colon : (':' :: annotated).head?.any Text.isBlank = false :=
    (by decide : Text.isBlank ':' = false)
  refine constrainLine?_eq_some_iff.mpr
    ⟨gap ++ ':' :: annotated, annotated, ?_, (cut_blanks blank_gap colon).2, ?_⟩
  · rw [String.toList_ofList, begins]
  · rw [String.toList_ofList, front]

/-- A constrained line is constrained to itself. -/
theorem constrainLine?_constrained {constraint : VersionConstraint} {line result : String}
    (rewritten : constraint.constrainLine? line = some result) :
    constraint.constrainLine? result = some result := by
  obtain ⟨named, annotated, begins, colon, rfl⟩ := constrainLine?_eq_some_iff.mp rewritten
  have blank : ∀ char ∈ line.toList.takeWhile Text.isBlank, Text.isBlank char = true :=
    List.all_eq_true.mp List.all_takeWhile
  generalize line.toList.takeWhile Text.isBlank = indent at blank ⊢
  have shape : constraint.written indent (kept annotated) = indent ++ (constraint.field.toList ++
      ([] ++ ':' :: ' ' :: (constraint.annotation.toList ++ kept annotated))) := by
    simp [written]
  -- The field does not begin with a blank, since no blank was left in front of it.
  have visible : (constraint.field.toList ++ ([] ++ ':' :: ' ' ::
      (constraint.annotation.toList ++ kept annotated))).head?.any Text.isBlank = false := by
    cases field_eq : constraint.field.toList with
    | nil => rfl
    | cons first others =>
      have starts := List.head?_dropWhile_not Text.isBlank line.toList
      rw [begins, field_eq] at starts
      have first_visible : Text.isBlank first = false := by simpa using starts
      exact first_visible
  calc constraint.constrainLine? (String.ofList (constraint.written indent (kept annotated)))
      = some (String.ofList (constraint.written indent
          (kept (' ' :: (constraint.annotation.toList ++ kept annotated))))) := by
        rw [shape]
        exact constraint.constrainLine?_declaration blank (List.forall_mem_nil _) visible
    _ = some (String.ofList (constraint.written indent (kept annotated))) := by
        rw [kept_constrained]

/-- A constrained line has a colon. -/
theorem colon_mem_of_constrained {constraint : VersionConstraint} {line result : String}
    (rewritten : constraint.constrainLine? line = some result) : ':' ∈ result.toList := by
  obtain ⟨named, annotated, -, -, rfl⟩ := constrainLine?_eq_some_iff.mp rewritten
  simp [written]

/-- A constrained line opens a declaration only if the line that it was made from does. -/
theorem opens_of_constrained {constraint : VersionConstraint} {line result : String}
    (rewritten : constraint.constrainLine? line = some result)
    (opens : opensDeclaration result = true) : opensDeclaration line = true := by
  obtain ⟨named, annotated, begins, -, rfl⟩ := constrainLine?_eq_some_iff.mp rewritten
  have blank := List.all_takeWhile (p := Text.isBlank) (l := line.toList)
  have whole := List.takeWhile_append_dropWhile (p := Text.isBlank) (l := line.toList)
  rw [opensDeclaration_iff] at opens ⊢
  rw [String.toList_ofList] at opens
  rw [begins] at whole
  cases indent_eq : line.toList.takeWhile Text.isBlank with
  | cons first others =>
    -- An indented line does not begin with the marker, whose first character is not blank.
    rw [indent_eq] at blank opens
    have starts : first = 'c' := by
      obtain ⟨rest, whole⟩ := opens
      exact (List.cons.inj whole).1.symm
    rw [List.all_cons, Bool.and_eq_true, starts] at blank
    exact absurd blank.1 (by decide)
  | nil =>
    rw [indent_eq, List.nil_append] at whole
    rw [indent_eq] at opens
    have begins_field : classMarker.toList <+: constraint.field.toList ++ ':' ::
        (' ' :: (constraint.annotation.toList ++ kept annotated)) := by
      simpa [written] using opens
    rcases Nat.lt_or_ge constraint.field.toList.length classMarker.toList.length with longer | fits
    rotate_left
    · have inField := List.prefix_of_prefix_length_le begins_field (List.prefix_append ..) fits
      exact whole ▸ inField.trans (List.prefix_append ..)
    · -- The marker would have to go on over the colon, but it has none.
      have colon_first : constraint.field.toList ++ [':'] <+: constraint.field.toList ++ ':' ::
          (' ' :: (constraint.annotation.toList ++ kept annotated)) := ⟨_, by simp; rfl⟩
      have inMarker : constraint.field.toList ++ [':'] <+: classMarker.toList := by
        refine List.prefix_of_prefix_length_le colon_first begins_field ?_
        rw [List.length_append, List.length_singleton]
        exact longer
      exact absurd (inMarker.subset (by simp : ':' ∈ constraint.field.toList ++ [':'])) (by decide)

/-- The default is a tail of what it was found in. -/
theorem default?_suffix {depth : Int32} {quote : Option Char} {chars value : List Char}
    (found : default? depth quote chars = some value) : value <:+ chars := by
  induction chars generalizing depth quote with
  | nil => exact absurd found (Option.some_ne_none value).symm
  | cons char rest ih =>
    have later {depth : Int32} {quote : Option Char}
        (found : default? depth quote rest = some value) : value <:+ char :: rest :=
      (ih found).trans (List.suffix_cons char rest)
    unfold default? at found
    split at found
    · exact later found
    · split at found
      · exact later found
      · split at found
        · exact later found
        · split at found
          · exact later found
          · split at found
            · exact Option.some.inj found ▸ List.suffix_cons char rest
            · exact later found

/-- What is kept comes from a default or surrounds one. -/
theorem mem_kept {annotated : List Char} {char : Char} (member : char ∈ kept annotated) :
    char ∈ " = ".toList ∨ char ∈ annotated := by
  unfold kept at member
  split at member
  · next value found =>
    rcases List.mem_append.mp member with around | inValue
    · exact .inl around
    · exact .inr ((default?_suffix found).subset (Text.mem_of_mem_strip inValue))
  · exact absurd member List.not_mem_nil

/-- What is kept does not end in a carriage return. -/
theorem unreturned_kept (annotated : List Char) : (kept annotated).getLast? ≠ some '\r' := by
  unfold kept
  split
  · next value _ =>
    rw [List.getLast?_append]
    cases ends : (Text.trim value).getLast? with
    | none => decide
    | some last =>
      have visible : Text.isBlank last = false := Text.getLast_dropTailWhile ends
      rw [Option.some_or]
      intro same
      rw [Option.some.inj same] at visible
      exact absurd visible (by decide)
  · exact Option.some_ne_none '\r' ∘ Eq.symm

/-- A constrained line can be read back if the line it was made from can and the pattern has no
line feed. -/
theorem plain_of_constrained {constraint : VersionConstraint} {line result : String}
    (rewritten : constraint.constrainLine? line = some result) (plain : Text.Plain line)
    (single : '\n' ∉ constraint.pattern.toList) : Text.Plain result := by
  obtain ⟨named, annotated, begins, colon, rfl⟩ := constrainLine?_eq_some_iff.mp rewritten
  have inNamed {char : Char} (member : char ∈ named) : char ∈ line.toList := by
    refine (line.toList.dropWhile_sublist Text.isBlank).subset ?_
    rw [begins]
    exact List.mem_append_right _ member
  have inField {char : Char} (member : char ∈ constraint.field.toList) : char ∈ line.toList := by
    refine (line.toList.dropWhile_sublist Text.isBlank).subset ?_
    rw [begins]
    exact List.mem_append_left _ member
  have inAnnotated {char : Char} (member : char ∈ annotated) : char ∈ line.toList := by
    refine inNamed ((named.dropWhile_sublist Text.isBlank).subset ?_)
    rw [colon]
    exact List.mem_cons_of_mem _ member
  constructor
  · rw [String.toList_ofList]
    intro member
    simp only [written, annotation_chars, List.mem_append] at member
    rcases member with (((inIndent | member) | member) | ((member | member) | member)) | member
    · exact plain.unbroken ((line.toList.takeWhile_sublist Text.isBlank).subset inIndent)
    · exact plain.unbroken (inField member)
    · exact absurd member (by decide)
    · exact absurd member (by decide)
    · exact single member
    · exact absurd member (by decide)
    · rcases mem_kept member with around | inside
      · exact absurd around (by decide)
      · exact plain.unbroken (inAnnotated inside)
  · have kept_ends := unreturned_kept annotated
    have closes : constraint.annotation.toList.getLast? = some ')' := by
      rw [annotation_chars, List.getLast?_append]
      rfl
    rw [String.toList_ofList, written, List.getLast?_append]
    cases ends : (kept annotated).getLast? with
    | none =>
      rw [Option.none_or, List.getLast?_append, closes, Option.some_or]
      decide
    | some last =>
      rw [ends] at kept_ends
      rwa [Option.some_or]

/-- The line as the constraint leaves it. -/
def rewrite (constraint : VersionConstraint) (line : String) : String :=
  (constraint.constrainLine? line).getD line

/-- A line stays or is constrained. -/
theorem rewrite_cases (constraint : VersionConstraint) (line : String) :
    constraint.rewrite line = line ∨
      constraint.constrainLine? line = some (constraint.rewrite line) := by
  unfold rewrite
  cases constraint.constrainLine? line with
  | none => exact .inl rfl
  | some result => exact .inr rfl

/-- Constraining a line again changes nothing. -/
theorem rewrite_rewrite (constraint : VersionConstraint) (line : String) :
    constraint.rewrite (constraint.rewrite line) = constraint.rewrite line := by
  rcases constraint.rewrite_cases line with same | rewritten
  · rw [same, same]
  · rw [rewrite, constrainLine?_constrained rewritten, Option.getD_some]

/-- A constraint makes no line one of another kind. -/
theorem keepsKinds_rewrite (constraint : VersionConstraint) :
    Block.KeepsKinds constraint.rewrite where
  opens line opens := by
    rcases constraint.rewrite_cases line with same | rewritten
    · exact same ▸ opens
    · exact opens_of_constrained rewritten opens
  statement line recognised := by
    rcases constraint.rewrite_cases line with same | rewritten
    · exact same ▸ recognised
    · exact absurd (colon_mem_of_constrained rewritten)
        (colon_not_mem_of_isForwardStatement recognised)
  blank line blank := by
    rcases constraint.rewrite_cases line with same | rewritten
    · exact same ▸ blank
    · have colon := List.all_eq_true.mp blank ':' (colon_mem_of_constrained rewritten)
      exact absurd colon (by decide)

/-- A constraint leaves lines that can be read back so. -/
theorem plain_rewrite {constraint : VersionConstraint} {line : String} (plain : Text.Plain line)
    (single : '\n' ∉ constraint.pattern.toList) : Text.Plain (constraint.rewrite line) := by
  rcases constraint.rewrite_cases line with same | rewritten
  · rwa [same]
  · exact plain_of_constrained rewritten plain single

/-- Constraining a block again changes nothing. -/
theorem apply_apply (constraint : VersionConstraint) (block : Block) :
    constraint.apply (constraint.apply block) = constraint.apply block := by
  obtain ⟨name, lines, mentions, references, refersToSelf⟩ := block
  cases lines with
  | nil => rfl
  | cons signature body =>
    have again : (body.map constraint.rewrite).map constraint.rewrite =
        body.map constraint.rewrite := by
      rw [List.map_map]
      exact List.map_congr_left fun line _ => constraint.rewrite_rewrite line
    exact congrArg (fun body => Block.mk name (signature :: body) mentions references refersToSelf)
      again

/-- Constraining concerns the lines after the signature. -/
theorem lines_apply (constraint : VersionConstraint) {block : Block} {signature : String}
    (whole : block.lines = signature :: block.body) :
    (constraint.apply block).lines = signature :: block.body.map constraint.rewrite := by
  rw [apply, whole]
  rfl

/-- A block can still be written and read back when it is constrained, if the pattern can. -/
theorem writable_apply {constraint : VersionConstraint}
    (single : '\n' ∉ constraint.pattern.toList) {block : Block} (writable : block.Writable) :
    (constraint.apply block).Writable := by
  obtain ⟨signature, whole, opens, named⟩ := writable.declares
  refine ⟨writable.toReadable.rewritten constraint.keepsKinds_rewrite
    (constraint.lines_apply whole) opens named, fun line member => ?_⟩
  rcases List.mem_append.mp member with inSignature | inBody
  · exact writable.plain line (List.mem_of_mem_take inSignature)
  · obtain ⟨original, known, rfl⟩ := List.mem_map.mp inBody
    exact plain_rewrite (writable.plain original (List.mem_of_mem_drop known)) single

/-- Constraining a block keeps its first line and rewrites every other. -/
theorem getElem?_lines_apply (constraint : VersionConstraint) (block : Block) (index : Nat) :
    (constraint.apply block).lines[index]? =
      block.lines[index]?.map fun line => if index = 0 then line else constraint.rewrite line := by
  cases whole : block.lines with
  | nil => simp [apply, Block.body, whole]
  | cons signature body =>
    have body_eq : block.body = body := by rw [Block.body, whole, List.drop_one, List.tail_cons]
    rw [constraint.lines_apply (body_eq ▸ whole), body_eq]
    cases index with
    | zero => simp
    | succ rest => simp

/-- Constraining keeps the number of lines. -/
theorem length_lines_apply (constraint : VersionConstraint) (block : Block) :
    (constraint.apply block).lines.length = block.lines.length := by
  have parted := List.take_append_drop 1 block.lines
  calc (constraint.apply block).lines.length
      = (block.lines.take 1 ++ block.body).length := by simp [apply]
    _ = block.lines.length := congrArg List.length parted

/-- A constraint changes a block exactly if it changes a line after the signature. -/
theorem changes_iff {constraint : VersionConstraint} {block : Block} :
    constraint.changes block = true ↔
      ∃ line ∈ block.body, ∃ result,
        constraint.constrainLine? line = some result ∧ result ≠ line := by
  have parted : block.lines.take 1 ++ block.body = block.lines :=
    List.take_append_drop 1 block.lines
  have same_iff : (constraint.apply block).lines = block.lines ↔
      ∀ line ∈ block.body, constraint.rewrite line = line := by
    calc (constraint.apply block).lines = block.lines
        ↔ block.lines.take 1 ++ block.body.map constraint.rewrite =
            block.lines.take 1 ++ block.body := by rw [parted]; rfl
      _ ↔ block.body.map constraint.rewrite = block.body.map id := by
          rw [List.append_cancel_left_eq, List.map_id]
      _ ↔ ∀ line ∈ block.body, constraint.rewrite line = line := List.map_inj_left
  have line_iff (line : String) : ¬ constraint.rewrite line = line ↔
      ∃ result, constraint.constrainLine? line = some result ∧ result ≠ line := by
    rw [rewrite]
    cases constraint.constrainLine? line <;> simp
  rw [changes, bne_iff_ne, Ne, same_iff]
  simp only [not_forall, line_iff, exists_prop]

/-- A constraint settles what it touches in one run and touches nothing else. A constrained line is
constrained to itself; constraining a block again changes nothing, and that it was changed is told
exactly if some line after the signature was; the signature and every line that does not declare the
field stay, and every other line is the constrained one. -/
theorem constrain_settles (constraint : VersionConstraint) :
    (∀ line result, constraint.constrainLine? line = some result →
      constraint.constrainLine? result = some result) ∧
      ∀ block : Block,
        constraint.apply (constraint.apply block) = constraint.apply block ∧
        constraint.changes (constraint.apply block) = false ∧
        (constraint.changes block = true ↔
          ∃ line ∈ block.body, ∃ result,
            constraint.constrainLine? line = some result ∧ result ≠ line) ∧
        (constraint.apply block).lines.length = block.lines.length ∧
        ∀ index line, block.lines[index]? = some line →
          (index = 0 ∨ constraint.constrainLine? line = none →
            (constraint.apply block).lines[index]? = some line) ∧
          (0 < index → ∀ result, constraint.constrainLine? line = some result →
            (constraint.apply block).lines[index]? = some result) := by
  refine ⟨fun line result rewritten => constrainLine?_constrained rewritten, fun block => ?_⟩
  refine ⟨constraint.apply_apply block, ?_, changes_iff, constraint.length_lines_apply block,
    fun index line found => ⟨fun untouched => ?_, fun later result rewritten => ?_⟩⟩
  · rw [changes, apply_apply, bne_self_eq_false]
  · rw [getElem?_lines_apply, found, Option.map_some]
    rcases untouched with first | undeclared
    · rw [if_pos first]
    · rw [rewrite, undeclared, Option.getD_none, ite_self]
  · rw [getElem?_lines_apply, found, Option.map_some, if_neg (Nat.ne_of_gt later), rewrite,
      rewritten, Option.getD_some]

/-- A constraint of the empty field by a pattern with brackets, a quote and an equals sign, none of
which is paired. -/
def unpaired : VersionConstraint where
  field := ""
  pattern := "[=)\""

/-- A block with a line whose brackets are not paired either, and with an empty default there. -/
def lopsided : Block where
  name := "Odd"
  lines := ["class Odd(Base):", "\t : ](\"x=\"=", "    id: str"]

/-- The line that declares the empty field is settled in one run, and the others stay. -/
theorem constrain_settles_unpaired :
    unpaired.constrainLine? "\t : ](\"x=\"=" = some "\t : constr(regex=r'[=)\"') = " ∧
      unpaired.constrainLine? "\t : constr(regex=r'[=)\"') = " =
        some "\t : constr(regex=r'[=)\"') = " ∧
      (unpaired.apply lopsided).lines[0]? = some "class Odd(Base):" ∧
      (unpaired.apply lopsided).lines[1]? = some "\t : constr(regex=r'[=)\"') = " ∧
      (unpaired.apply lopsided).lines[2]? = some "    id: str" := by
  have rewritten : unpaired.constrainLine? "\t : ](\"x=\"=" =
      some "\t : constr(regex=r'[=)\"') = " := by decide +kernel
  have undeclared : unpaired.constrainLine? "    id: str" = none := by decide +kernel
  obtain ⟨settled, blocks⟩ := unpaired.constrain_settles
  obtain ⟨-, -, -, -, places⟩ := blocks lopsided
  exact ⟨rewritten, settled _ _ rewritten, (places 0 _ rfl).1 (.inl rfl),
    (places 1 _ rfl).2 Nat.one_pos _ rewritten, (places 2 _ rfl).1 (.inr undeclared)⟩

end DeclOrder.VersionConstraint
