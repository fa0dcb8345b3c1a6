import DeclOrder.Proofs.OptionalUnion

/-!
# Annotations of generated fields

A generated field is annotated with a name, with a container of one or two names, or with a
container of such an annotation, nested to any depth. The scan for innermost brackets knows nothing
of nesting: it finds those of an annotation one after the other, and nothing that it has read before
an annotation makes a difference to what it finds in it.
-/

namespace DeclOrder

open DeclOrder.Text

/-- Blank characters. -/
structure Blanks where
  /-- The characters. -/
  chars : List Char
  /-- Every character is blank. -/
  blank : ∀ char ∈ chars, isBlank char = true

/-- No blanks. -/
def Blanks.empty : Blanks := ⟨[], fun _ member => absurd member List.not_mem_nil⟩

/-- A word. -/
structure Identifier where
  /-- The characters. -/
  chars : List Char
  /-- The characters make up a word. -/
  word : Word chars

/-- The word that a name is. -/
def Identifier.ofName (name : String) (isWord : isWord name = true) : Identifier :=
  ⟨name.toList, isWord_iff_word.mp isWord⟩

/-- How a name is quoted. -/
inductive Quoting where
  /-- Without quotes. -/
  | bare
  /-- In single quotes. -/
  | single
  /-- In double quotes. -/
  | double

/-- The mark on either side of a quoted name. -/
def Quoting.mark : Quoting → List Char
  | .bare => []
  | .single => ['\x27']
  | .double => ['"']

/-- The name of a type, possibly quoted. -/
structure TypeName extends Identifier where
  /-- How the name is quoted. -/
  quoting : Quoting := .bare

namespace TypeName

/-- The name as it is written. -/
def text (name : TypeName) : List Char := name.quoting.mark ++ (name.chars ++ name.quoting.mark)

/-- The name without its quotes. -/
def bare (name : TypeName) : String := String.ofList name.chars

end TypeName

/-- An entry of brackets: a name with blanks around it. -/
structure TypeEntry extends TypeName where
  /-- What stands in front of the name. -/
  left : Blanks
  /-- What stands behind the name. -/
  right : Blanks

/-- The entry as it is written. -/
def TypeEntry.padded (entry : TypeEntry) : List Char :=
  entry.left.chars ++ (entry.text ++ entry.right.chars)

/-- The annotations of generated fields. -/
inductive TypeExpression where
  /-- A name. -/
  | leaf (name : TypeName)
  /-- A container of one type, with blanks around it. -/
  | generic (container : Identifier) (left : Blanks) (argument : TypeExpression) (right : Blanks)
  /-- A container of two names. -/
  | pair (container : Identifier) (first second : TypeEntry)
  /-- A container of a type by keys, with blanks around the type. -/
  | keyed (container : Identifier) (key : TypeEntry) (left : Blanks) (value : TypeExpression)
    (right : Blanks)
  /-- An optional union of a name and a type, with blanks around the type and between the closing
  brackets. -/
  | union (first : TypeEntry) (left : Blanks) (second : TypeExpression) (right outer : Blanks)

namespace TypeExpression

open DeclOrder.Mention

/-- The annotation as it is written. -/
def text : TypeExpression → List Char
  | leaf name => name.text
  | generic container left argument right =>
    container.chars ++ '[' :: (left.chars ++ (argument.text ++ (right.chars ++ [']'])))
  | pair container first second =>
    container.chars ++ '[' :: (first.padded ++ ',' :: (second.padded ++ [']']))
  | keyed container key left value right =>
    container.chars ++
      '[' :: (key.padded ++ ',' :: (left.chars ++ (value.text ++ (right.chars ++ [']']))))
  | union first left second right outer =>
    unionOpening.toList ++ (first.padded ++
      ',' :: (left.chars ++ (second.text ++ (right.chars ++ ']' :: (outer.chars ++ [']'])))))

/-- The annotation has brackets. -/
def bracketed : TypeExpression → Bool
  | leaf _ => false
  | _ => true

/-- The names of types in the annotation; containers and keys are left out. -/
def names : TypeExpression → List TypeName
  | leaf name => [name]
  | generic _ _ argument _ => argument.names
  | pair _ first second => [first.toTypeName, second.toTypeName]
  | keyed _ _ _ value _ => value.names
  | union first _ second _ _ => first.toTypeName :: second.names

/-- The names that the scans find in the annotation behind what stands before it: all but those
first alternatives of unions that are covered and not beside a second name. -/
def exposed (before : List Char) : TypeExpression → List TypeName
  | leaf name => [name]
  | generic container left argument _ =>
    argument.exposed (before ++ (container.chars ++ '[' :: left.chars))
  | pair _ first second => [first.toTypeName, second.toTypeName]
  | keyed container key left value _ =>
    value.exposed (before ++ (container.chars ++ '[' :: (key.padded ++ ',' :: left.chars)))
  | union first left second _ _ =>
    (if second.bracketed ∧ Covered before then [] else [first.toTypeName]) ++
      second.exposed (before ++ (unionOpening.toList ++ (first.padded ++ ',' :: left.chars)))

/-- The contents of the innermost brackets of an annotation that stands in brackets between a front
and a back. -/
def innermost (front back : List Char) : TypeExpression → List (List Char)
  | leaf name => [front ++ (name.text ++ back)]
  | generic _ left argument right => argument.innermost left.chars right.chars
  | pair _ first second => [first.padded ++ ',' :: second.padded]
  | keyed _ key left value right => value.innermost (key.padded ++ ',' :: left.chars) right.chars
  | union first left second right _ =>
    second.innermost (first.padded ++ ',' :: left.chars) right.chars

end TypeExpression

section Characters

/-- A character between the blanks, quotes and brackets of an annotation, and no separator of it. -/
def isPart (char : Char) : Bool :=
  isWordChar char || isBlank char || char == '\x27' || char == '"'

/-- No part of an annotation is a bracket or a comma. -/
theorem ne_of_isPart {char stop : Char} (part : isPart char = true) (other : isPart stop = false) :
    char ≠ stop := by
  rintro rfl
  rw [part] at other
  exact Bool.noConfusion other

/-- Blanks are parts of annotations. -/
theorem Blanks.parts (blanks : Blanks) : ∀ char ∈ blanks.chars, isPart char = true := by
  intro char member
  simp [isPart, blanks.blank char member]

/-- Words are parts of annotations. -/
theorem Identifier.parts (identifier : Identifier) :
    ∀ char ∈ identifier.chars, isPart char = true := by
  intro char member
  simp [isPart, identifier.word.letters char member]

/-- Names are made up of quotes and word characters. -/
theorem TypeName.letters (name : TypeName) :
    ∀ char ∈ name.text, isWordChar char = true ∨ char ∈ name.quoting.mark := by
  intro char member
  rw [TypeName.text, List.mem_append, List.mem_append] at member
  rcases member with mark | letter | mark
  · exact .inr mark
  · exact .inl (name.word.letters char letter)
  · exact .inr mark

/-- A mark is a quote. -/
theorem Quoting.isQuote {quoting : Quoting} {char : Char} (member : char ∈ quoting.mark) :
    char = '\x27' ∨ char = '"' := by
  cases quoting with
  | bare => exact absurd member List.not_mem_nil
  | single => exact .inl (List.mem_singleton.mp member)
  | double => exact .inr (List.mem_singleton.mp member)

/-- Names are parts of annotations. -/
theorem TypeName.parts (name : TypeName) : ∀ char ∈ name.text, isPart char = true := by
  intro char member
  rcases name.letters char member with letter | mark
  · simp [isPart, letter]
  · rcases Quoting.isQuote mark with rfl | rfl <;> decide

/-- Entries are parts of annotations. -/
theorem TypeEntry.parts (entry : TypeEntry) : ∀ char ∈ entry.padded, isPart char = true := by
  intro char member
  rw [TypeEntry.padded, List.mem_append, List.mem_append] at member
  rcases member with left | name | right
  · exact entry.left.parts char left
  · exact entry.toTypeName.parts char name
  · exact entry.right.parts char right

/-- No blank stands in a name. -/
theorem TypeName.isBlank_eq_false (name : TypeName) : ∀ char ∈ name.text, isBlank char = false := by
  intro char member
  rcases name.letters char member with letter | mark
  · exact answers_isBlank char letter
  · rcases Quoting.isQuote mark with rfl | rfl <;> decide

/-- A name is not empty. -/
theorem TypeName.text_ne_nil (name : TypeName) : name.text ≠ [] := by
  intro empty
  have no_chars := (List.append_eq_nil_iff.mp (List.append_eq_nil_iff.mp empty).2).1
  exact name.word.nonempty no_chars

/-- An entry is not empty. -/
theorem TypeEntry.padded_ne_nil (entry : TypeEntry) : entry.padded ≠ [] := by
  intro empty
  have no_name := (List.append_eq_nil_iff.mp (List.append_eq_nil_iff.mp empty).2).1
  exact entry.text_ne_nil no_name

end Characters

namespace Mention

/-- What satisfies the test on both sides is stripped off what does not. -/
theorem strip_padded {test : Char → Bool} {left inside right : List Char}
    (left_passes : ∀ char ∈ left, test char = true)
    (inside_fails : ∀ char ∈ inside, test char = false)
    (right_passes : ∀ char ∈ right, test char = true) :
    strip test (left ++ (inside ++ right)) = inside := by
  rw [strip, List.dropWhile_append_of_pos left_passes]
  cases inside with
  | nil =>
    rw [List.nil_append, List.dropWhile_eq_nil_iff.mpr right_passes]
    rfl
  | cons first rest =>
    have kept := inside_fails first List.mem_cons_self
    rw [List.cons_append, List.dropWhile_cons_of_neg (by rw [kept]; exact Bool.false_ne_true),
      ← List.cons_append, dropTailWhile_append right_passes]
    exact dropTailWhile_eq_self fun last ends =>
      inside_fails last (List.mem_of_getLast? ends)

/-- An entry mentions its name. -/
theorem name?_padded (left right : Blanks) (name : TypeName) :
    name? (left.chars ++ (name.text ++ right.chars)) = some name.bare := by
  have trimmed : trim (left.chars ++ (name.text ++ right.chars)) = name.text :=
    strip_padded left.blank name.isBlank_eq_false right.blank
  have marks : ∀ char ∈ name.quoting.mark, (char == '\x27' || char == '"') = true := by
    intro char member
    rcases Quoting.isQuote member with rfl | rfl <;> rfl
  have letters : ∀ char ∈ name.chars, (char == '\x27' || char == '"') = false := by
    intro char member
    have letter := name.word.letters char member
    have single := ne_of_isWordChar letter (by decide : isWordChar '\x27' = false)
    have double := ne_of_isWordChar letter (by decide : isWordChar '"' = false)
    simp [single, double]
  have stripped : strip (fun char => char == '\x27' || char == '"') name.text = name.chars :=
    strip_padded marks letters marks
  have blanks : ∀ char ∈ name.chars, isBlank char = false := fun char member =>
    answers_isBlank char (name.word.letters char member)
  have whole : trim name.chars = name.chars := by
    have none : ∀ char ∈ ([] : List Char), isBlank char = true := by simp
    have padded := strip_padded none blanks none
    rwa [List.nil_append, List.append_nil] at padded
  have unquoted_eq : unquoted (left.chars ++ (name.text ++ right.chars)) = name.chars := by
    rw [unquoted, trimmed, stripped, whole]
  have unqualified : name.chars.contains '.' = false := by
    rw [← Bool.not_eq_true, List.contains_iff_mem]
    intro member
    exact ne_of_isWordChar (name.word.letters _ member) (by decide) rfl
  rw [name?_eq, unquoted_eq, unqualified, List.isEmpty_eq_false_iff.mpr name.word.nonempty]
  rfl

/-- The text has no brackets. -/
def Unbracketed (text : List Char) : Prop := ∀ char ∈ text, char ≠ '[' ∧ char ≠ ']'

/-- Parts of annotations have no brackets. -/
theorem unbracketed_of_parts {text : List Char} (parts : ∀ char ∈ text, isPart char = true) :
    Unbracketed text := fun char member =>
  ⟨ne_of_isPart (parts char member) (by decide), ne_of_isPart (parts char member) (by decide)⟩

/-- Texts without brackets in a row have none. -/
theorem Unbracketed.append {front back : List Char} (front_plain : Unbracketed front)
    (back_plain : Unbracketed back) : Unbracketed (front ++ back) := fun char member =>
  (List.mem_append.mp member).elim (front_plain char) (back_plain char)

/-- What stands between a key and the type by it has no brackets. -/
theorem unbracketed_key (key : TypeEntry) {back : List Char} (back_plain : Unbracketed back) :
    Unbracketed (key.padded ++ ',' :: back) := by
  refine (unbracketed_of_parts key.parts).append fun char member => ?_
  rcases List.mem_cons.mp member with rfl | behind
  · decide
  · exact back_plain char behind

/-- A bracket opens a group afresh. -/
theorem innermostGroups_front {front : List Char} (plain : Unbracketed front)
    (pending : Option (List Char)) (rest : List Char) :
    innermostGroups pending (front ++ '[' :: rest) = innermostGroups (some []) rest := by
  rw [innermostGroups_append plain, innermostGroups_open]

/-- What stands between brackets without having any is a group. -/
theorem innermostGroups_group {inside : List Char} (plain : Unbracketed inside)
    (nonempty : inside ≠ []) (rest : List Char) :
    innermostGroups (some []) (inside ++ ']' :: rest) = inside :: innermostGroups none rest := by
  have kept : inside.reverse.isEmpty = false := by
    rw [List.isEmpty_reverse]
    exact List.isEmpty_eq_false_iff.mpr nonempty
  rw [innermostGroups_append plain, innermostGroups_close, Option.map_some, List.append_nil,
    Option.filter_some, kept]
  simp

/-- Behind a closed bracket nothing is read up to the next one. -/
theorem innermostGroups_back {back : List Char} (plain : Unbracketed back) (rest : List Char) :
    innermostGroups none (back ++ ']' :: rest) = innermostGroups none rest := by
  rw [innermostGroups_append plain, Option.map_none, innermostGroups_close]
  rfl

end Mention

namespace TypeExpression

open DeclOrder.Mention

/-- The scan for innermost brackets finds those of a bracketed annotation, and goes on behind it
with no group begun. -/
def Scanned (expression : TypeExpression) : Prop :=
  expression.bracketed = true → ∀ pending front rest, Unbracketed front →
    innermostGroups pending (front ++ (expression.text ++ rest)) =
      expression.innermost [] [] ++ innermostGroups none rest

/-- An annotation without brackets is a name. -/
theorem exists_leaf {expression : TypeExpression} (plain : expression.bracketed = false) :
    ∃ name, expression = .leaf name := by
  cases expression with
  | leaf name => exact ⟨name, rfl⟩
  | _ => exact absurd plain.symm Bool.false_ne_true

/-- The innermost brackets of a bracketed annotation are its own. -/
theorem innermost_of_bracketed {expression : TypeExpression}
    (bracketed : expression.bracketed = true) (front back : List Char) :
    expression.innermost front back = expression.innermost [] [] := by
  cases expression with
  | leaf name => exact absurd bracketed Bool.false_ne_true
  | _ => rfl

/-- In brackets, an annotation is scanned with what stands around it. -/
theorem Scanned.enclosed {expression : TypeExpression} (scanned : expression.Scanned)
    {front back : List Char} (front_plain : Unbracketed front) (back_plain : Unbracketed back)
    (rest : List Char) :
    innermostGroups (some []) ((front ++ (expression.text ++ back)) ++ ']' :: rest) =
      expression.innermost front back ++ innermostGroups none rest := by
  cases bracketed : expression.bracketed with
  | true =>
    rw [List.append_assoc, List.append_assoc, scanned bracketed _ _ _ front_plain,
      innermostGroups_back back_plain, innermost_of_bracketed bracketed front back]
  | false =>
    obtain ⟨name, rfl⟩ := exists_leaf bracketed
    have name_plain := unbracketed_of_parts name.parts
    have nonempty : front ++ (name.text ++ back) ≠ [] := by
      simp [name.text_ne_nil]
    exact innermostGroups_group (front_plain.append (name_plain.append back_plain)) nonempty rest

/-- Every annotation is scanned. -/
theorem scanned (expression : TypeExpression) : expression.Scanned := by
  induction expression with
  | leaf name => exact fun bracketed => absurd bracketed Bool.false_ne_true
  | generic container left argument right ih =>
    intro _ pending front rest front_plain
    have opened := innermostGroups_front
      (front_plain.append (unbracketed_of_parts container.parts)) pending
    have inside := ih.enclosed (unbracketed_of_parts left.parts)
      (unbracketed_of_parts right.parts) rest
    rw [text]
    simp only [List.append_assoc, List.cons_append, List.nil_append] at opened inside ⊢
    rw [opened, inside, innermost]
  | pair container first second =>
    intro _ pending front rest front_plain
    have opened := innermostGroups_front
      (front_plain.append (unbracketed_of_parts container.parts)) pending
    have inside := innermostGroups_group
      (unbracketed_key first (unbracketed_of_parts second.parts)) (by simp) rest
    rw [text]
    simp only [List.append_assoc, List.cons_append, List.nil_append] at opened inside ⊢
    rw [opened, inside, innermost, List.singleton_append]
  | keyed container key left value right ih =>
    intro _ pending front rest front_plain
    have opened := innermostGroups_front
      (front_plain.append (unbracketed_of_parts container.parts)) pending
    have inside := ih.enclosed (unbracketed_key key (unbracketed_of_parts left.parts))
      (unbracketed_of_parts right.parts) rest
    rw [text]
    simp only [List.append_assoc, List.cons_append, List.nil_append] at opened inside ⊢
    rw [opened, inside, innermost]
  | union first left second right outer ih =>
    intro _ pending front rest front_plain
    have optional : Unbracketed (front ++ "Optional".toList) :=
      front_plain.append (unbracketed_of_parts (List.all_eq_true.mp (by decide)))
    have union : Unbracketed "Union".toList :=
      unbracketed_of_parts (List.all_eq_true.mp (by decide))
    have inside := ih.enclosed (unbracketed_key first (unbracketed_of_parts left.parts))
      (unbracketed_of_parts right.parts) (outer.chars ++ ']' :: rest)
    have opening : unionOpening.toList = "Optional".toList ++ '[' :: ("Union".toList ++ ['[']) := by
      decide
    rw [text, opening]
    have opened := innermostGroups_front optional pending
    have reopened := innermostGroups_front union (some [])
    simp only [List.append_assoc, List.cons_append, List.nil_append] at opened reopened inside ⊢
    rw [opened, reopened, inside, innermost,
      innermostGroups_back (unbracketed_of_parts outer.parts)]

end TypeExpression

end DeclOrder
