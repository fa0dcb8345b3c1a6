import DeclOrder.Proofs.TypeExpression

/-!
# Mentions of a generated field

Three scans find the names in the annotation of a field: a lone name is what stands behind the colon
without brackets, the names of an innermost bracket are its first two entries, and the first
alternative of an optional union stands behind the opening. Only the last of these can be passed
over, where the opening is covered by an earlier one.
-/

namespace DeclOrder

open DeclOrder.Text

namespace Mention

/-- The first two entries of a group mention the name. -/
def Holds (group : List Char) (name : TypeName) : Prop :=
  ∃ token ∈ (group.splitOn ',').take 2, name? token = some name.bare

/-- What stands in a bracket in front of a type: blanks, or a key and blanks. -/
inductive Leads : List Char → Prop where
  /-- Blanks. -/
  | blanks (left : Blanks) : Leads left.chars
  /-- A key and blanks. -/
  | key (key : TypeEntry) (left : Blanks) : Leads (key.padded ++ ',' :: left.chars)

/-- No part of an annotation has a comma. -/
theorem comma_not_mem {text : List Char} (parts : ∀ char ∈ text, isPart char = true) :
    ',' ∉ text := fun member => ne_of_isPart (parts _ member) (by decide) rfl

/-- A group that begins with an entry holds its name. -/
theorem holds_first (entry : TypeEntry) (rest : List Char) :
    Holds (entry.padded ++ ',' :: rest) entry.toTypeName := by
  refine ⟨entry.padded, ?_, name?_padded entry.left entry.right entry.toTypeName⟩
  rw [List.splitOn_append_cons_self_of_not_mem (comma_not_mem entry.parts), List.take_succ_cons]
  exact List.mem_cons_self

/-- A group holds the name of its only entry or of the one behind a key. -/
theorem Leads.holds {front : List Char} (leads : Leads front) (name : TypeName) (back : Blanks) :
    Holds (front ++ (name.text ++ back.chars)) name := by
  have alone (left : Blanks) : ',' ∉ left.chars ++ (name.text ++ back.chars) := by
    simp only [List.mem_append, not_or]
    exact ⟨comma_not_mem left.parts, comma_not_mem name.parts, comma_not_mem back.parts⟩
  cases leads with
  | blanks left =>
    refine ⟨_, ?_, name?_padded left back name⟩
    rw [List.splitOn_eq_singleton (alone left)]
    exact List.mem_singleton.mpr rfl
  | key key left =>
    refine ⟨_, ?_, name?_padded left back name⟩
    rw [List.append_assoc, List.cons_append,
      List.splitOn_append_cons_self_of_not_mem (comma_not_mem key.parts),
      List.splitOn_eq_singleton (alone left)]
    exact List.mem_cons_of_mem _ List.mem_cons_self

/-- Every exposed name of an annotation is held by one of its innermost brackets, or is the first
alternative of a union found in the line. -/
theorem holds_or_mem_unionTokens {head : List Char}
    (apart : ∀ text, Covered (head ++ text) → Covered text) (expression : TypeExpression)
    {before front : List Char} (leads : Leads front) (back : Blanks) (rest : List Char)
    {name : TypeName} (exposed : name ∈ expression.exposed before) :
    (∃ group ∈ expression.innermost front back.chars, Holds group name) ∨
      ∃ token ∈ unionTokens (head ++ (before ++ (expression.text ++ rest))),
        name? token = some name.bare := by
  induction expression generalizing before front back rest with
  | leaf own =>
    obtain rfl := List.mem_singleton.mp exposed
    exact .inl ⟨_, List.mem_singleton.mpr rfl, leads.holds name back⟩
  | generic container left argument right ih =>
    have inner := ih (.blanks left) right (right.chars ++ ']' :: rest) exposed
    simp only [TypeExpression.text, List.append_assoc, List.cons_append, List.nil_append]
      at inner ⊢
    exact inner
  | pair container first second =>
    left
    rcases List.mem_cons.mp exposed with rfl | later
    · exact ⟨_, List.mem_singleton.mpr rfl, holds_first first second.padded⟩
    · obtain rfl := List.mem_singleton.mp later
      refine ⟨_, List.mem_singleton.mpr rfl, ?_⟩
      have held := (Leads.key first second.left).holds second.toTypeName second.right
      rwa [List.append_assoc, List.cons_append] at held
  | keyed container key left value right ih =>
    have inner := ih (.key key left) right (right.chars ++ ']' :: rest) exposed
    simp only [TypeExpression.text, List.append_assoc, List.cons_append, List.nil_append]
      at inner ⊢
    exact inner
  | union first left second right outer ih =>
    rcases List.mem_append.mp exposed with here | later
    · have same : name = first.toTypeName := by
        split at here
        · exact absurd here List.not_mem_nil
        · exact List.mem_singleton.mp here
      subst same
      cases bracketed : second.bracketed with
      | true =>
        right
        have uncovered : ¬ Covered (head ++ before) := by
          intro covered
          rw [if_pos ⟨bracketed, apart before covered⟩] at here
          exact List.not_mem_nil here
        have passes : ∀ char ∈ first.padded, inAlternative char = true := by
          intro char member
          have comma := ne_of_isPart (first.parts char member) (by decide : isPart ',' = false)
          have bracket := ne_of_isPart (first.parts char member) (by decide : isPart ']' = false)
          simp [inAlternative, comma, bracket]
        have found := mem_unionTokens uncovered first.padded_ne_nil passes
          (left.chars ++ (second.text ++ (right.chars ++ ']' :: (outer.chars ++ ']' :: rest))))
        refine ⟨first.padded, ?_, name?_padded first.left first.right first.toTypeName⟩
        simp only [TypeExpression.text, List.append_assoc, List.cons_append, List.nil_append]
          at found ⊢
        exact found
      | false =>
        left
        obtain ⟨other, rfl⟩ := TypeExpression.exists_leaf bracketed
        refine ⟨_, List.mem_singleton.mpr rfl, ?_⟩
        rw [List.append_assoc, List.cons_append]
        exact holds_first first _
    · have inner := ih (.key first left) right
        (right.chars ++ ']' :: (outer.chars ++ ']' :: rest)) later
      simp only [TypeExpression.text, List.append_assoc, List.cons_append, List.nil_append]
        at inner ⊢
      exact inner

end Mention

/-- What may stand behind the annotation of a field: nothing, or a default. -/
inductive Default : List Char → Prop where
  /-- Nothing. -/
  | none : Default []
  /-- Anything set off by a blank or an equals sign. -/
  | some (first : Char) (rest : List Char) (sets_off : isBlank first = true ∨ first = '=') :
    Default (first :: rest)

/-- Nothing of a default belongs to the annotation: it is cut off at the blank or at the equals sign
that sets it off. -/
theorem Default.cut {tail : List Char} (set_off : Default tail) :
    (tail.takeWhile fun char => !(isBlank char || char == '[' || char == ']')).takeWhile
      (fun char => !(['(', '=', ','].contains char)) = [] := by
  cases set_off with
  | none => rfl
  | some first rest sets_off =>
    rcases sets_off with blank | rfl
    · simp [blank]
    · rw [List.takeWhile_cons_of_pos (by decide), List.takeWhile_cons_of_neg (by decide)]

/-- A field of a generated declaration. -/
structure Field where
  /-- The indentation. -/
  indent : Blanks
  /-- The name of the field. -/
  name : Identifier
  /-- What stands in front of the colon. -/
  gap : Blanks
  /-- What stands behind the colon. -/
  lead : Blanks
  /-- The annotation. -/
  type : TypeExpression
  /-- What stands behind the annotation. -/
  tail : List Char
  /-- This is nothing, or a default. -/
  set_off : Default tail

namespace Field

open DeclOrder.Mention

/-- What stands in front of the annotation. -/
def head (field : Field) : List Char :=
  field.indent.chars ++ (field.name.chars ++ (field.gap.chars ++ ':' :: field.lead.chars))

/-- The line that declares the field. -/
def line (field : Field) : String :=
  String.ofList (field.head ++ (field.type.text ++ field.tail))

/-- No brackets stand in front of an annotation. -/
theorem unbracketed_head (field : Field) : Unbracketed field.head := by
  have behind : Unbracketed (field.gap.chars ++ ':' :: field.lead.chars) := by
    refine (unbracketed_of_parts field.gap.parts).append fun char member => ?_
    rcases List.mem_cons.mp member with rfl | lead
    · decide
    · exact unbracketed_of_parts field.lead.parts char lead
  exact (unbracketed_of_parts field.indent.parts).append
    ((unbracketed_of_parts field.name.parts).append behind)

/-- What is covered in the line of a field is covered in its annotation. -/
theorem covered_of_head (field : Field) (text : List Char)
    (covered : Covered (field.head ++ text)) : Covered text := by
  refine Covered.of_append ?_ ?_ covered
  · intro bracket
    exact (field.unbracketed_head _ bracket).1 rfl
  · intro last ends
    have opening : ∀ char ∈ unionOpening.toList, isBlank char = false ∧ char ≠ ':' := by
      have each : unionOpening.toList.all (fun char => !isBlank char && char != ':') = true := by
        decide
      simpa using List.all_eq_true.mp each
    have behind_colon : last = ':' ∨ last ∈ field.lead.chars := by
      have whole : field.head =
          field.indent.chars ++ (field.name.chars ++ field.gap.chars) ++
            ':' :: field.lead.chars := by
        simp only [head, List.append_assoc]
      rw [whole, List.getLast?_append_of_ne_nil _ (List.cons_ne_nil _ _)] at ends
      exact List.mem_cons.mp (List.mem_of_getLast? ends)
    intro member
    obtain ⟨visible, other⟩ := opening last member
    rcases behind_colon with colon | blank
    · exact other colon
    · rw [field.lead.blank last blank] at visible
      exact Bool.noConfusion visible

/-- The annotation of a field is what stands behind its colon. -/
theorem dropWhile_head (field : Field) (rest : List Char) :
    ((((field.head ++ rest).dropWhile isBlank).dropWhile isWordChar).dropWhile isBlank) =
      ':' :: (field.lead.chars ++ rest) := by
  have letters : Answers isWordChar true := fun _ letter => letter
  have gap_stops : (field.gap.chars ++ ':' :: (field.lead.chars ++ rest)).dropWhile isWordChar =
      field.gap.chars ++ ':' :: (field.lead.chars ++ rest) := by
    cases gap_eq : field.gap.chars with
    | nil => exact List.dropWhile_cons_of_neg (by decide)
    | cons first others =>
      have blank := field.gap.blank first (gap_eq ▸ List.mem_cons_self)
      have other := isWordChar_of_isBlank blank
      exact List.dropWhile_cons_of_neg (by rw [other]; exact Bool.false_ne_true)
  simp only [head, List.append_assoc, List.cons_append]
  rw [List.dropWhile_append_of_pos field.indent.blank,
    dropWhile_word_append answers_isBlank field.name.word, if_neg Bool.false_ne_true,
    dropWhile_word_append letters field.name.word, if_pos rfl, gap_stops,
    List.dropWhile_append_of_pos field.gap.blank, List.dropWhile_cons_of_neg (by decide)]

/-- A field has a name. -/
theorem takeWhile_head (field : Field) (rest : List Char) :
    ((field.head ++ rest).dropWhile isBlank).takeWhile isWordChar ≠ [] := by
  have letters : Answers isWordChar true := fun _ letter => letter
  simp only [head, List.append_assoc, List.cons_append]
  rw [List.dropWhile_append_of_pos field.indent.blank,
    dropWhile_word_append answers_isBlank field.name.word, if_neg Bool.false_ne_true,
    takeWhile_word_append letters field.name.word, if_pos rfl]
  intro empty
  exact field.name.word.nonempty (List.append_eq_nil_iff.mp empty).1

/-- A lone name is found in front of what follows the annotation. -/
theorem scalarToken?_head (field : Field) (name : TypeName) :
    scalarToken? (field.head ++ (name.text ++ field.tail)) = some name.text := by
  have visible : ∀ char ∈ name.text, isBlank char = false := name.isBlank_eq_false
  have kept : ∀ char ∈ name.text, (!(isBlank char || char == '[' || char == ']')) = true := by
    intro char member
    have opening := ne_of_isPart (name.parts char member) (by decide : isPart '[' = false)
    have closing := ne_of_isPart (name.parts char member) (by decide : isPart ']' = false)
    simp [visible char member, opening, closing]
  have uncalled : ∀ char ∈ name.text, (!(['(', '=', ','].contains char)) = true := by
    intro char member
    have call := ne_of_isPart (name.parts char member) (by decide : isPart '(' = false)
    have equals := ne_of_isPart (name.parts char member) (by decide : isPart '=' = false)
    have comma := ne_of_isPart (name.parts char member) (by decide : isPart ',' = false)
    simp [call, equals, comma]
  have lead_cut : (field.lead.chars ++ (name.text ++ field.tail)).dropWhile isBlank =
      name.text ++ field.tail := by
    obtain ⟨first, rest, name_eq⟩ := List.exists_cons_of_ne_nil name.text_ne_nil
    have first_visible := visible first (name_eq ▸ List.mem_cons_self)
    rw [List.dropWhile_append_of_pos field.lead.blank, name_eq, List.cons_append,
      List.dropWhile_cons_of_neg (by rw [first_visible]; exact Bool.false_ne_true)]
  have found : after? [':']
      ((((field.head ++ (name.text ++ field.tail)).dropWhile isBlank).dropWhile
        isWordChar).dropWhile isBlank) = some (field.lead.chars ++ (name.text ++ field.tail)) := by
    rw [field.dropWhile_head]
    exact after?_eq_some_iff.mpr rfl
  have named := List.isEmpty_eq_false_iff.mpr (field.takeWhile_head (name.text ++ field.tail))
  have nonempty : (name.text ++ field.tail.takeWhile fun char =>
      !(isBlank char || char == '[' || char == ']')).isEmpty = false := by
    simp [name.text_ne_nil]
  rw [scalarToken?, named, if_neg Bool.false_ne_true]
  dsimp only
  rw [found]
  simp only [Option.bind_eq_bind, Option.bind_some]
  rw [lead_cut, List.takeWhile_append_of_pos kept, nonempty, if_neg Bool.false_ne_true,
    List.takeWhile_append_of_pos uncalled, field.set_off.cut, List.append_nil]

end Field

/-- The mentions of a field are added to what is known, and these are all exposed names of its
annotation. -/
theorem Mention.addLine_field (set : NameSet) (field : Field) :
    (∀ member ∈ set, member ∈ addLine set field.line) ∧
      ∀ name ∈ field.type.exposed [], name.bare ∈ addLine set field.line := by
  have chars_eq : field.line.toList = field.head ++ (field.type.text ++ field.tail) :=
    String.toList_ofList
  constructor
  · intro member known
    exact NameSet.mem_insertAll.mpr (.inr known)
  · intro name exposed
    refine NameSet.mem_insertAll.mpr (.inl (List.mem_filterMap.mpr ?_))
    simp only [chars_eq, List.mem_append]
    cases bracketed : field.type.bracketed with
    | false =>
      obtain ⟨own, shape⟩ := TypeExpression.exists_leaf bracketed
      rw [shape] at exposed ⊢
      obtain rfl := List.mem_singleton.mp exposed
      have alone := name?_padded Blanks.empty Blanks.empty name
      rw [Blanks.empty, List.nil_append, List.append_nil] at alone
      have scalar := Option.mem_toList.mpr (field.scalarToken?_head name)
      exact ⟨name.text, .inl (.inl scalar), alone⟩
    | true =>
      have scanned := field.type.scanned bracketed none field.head field.tail
        field.unbracketed_head
      rcases holds_or_mem_unionTokens field.covered_of_head field.type
        (.blanks Blanks.empty) Blanks.empty field.tail exposed with
        ⟨group, member, token, taken, named⟩ | ⟨token, member, named⟩
      · refine ⟨token, .inl (.inr ?_), named⟩
        rw [bracketTokens, scanned]
        exact List.mem_flatMap.mpr ⟨group, List.mem_append_left _ member, taken⟩
      · exact ⟨token, .inr member, named⟩

/-- An entry without blanks. -/
def TypeEntry.ofName (name : String) (isWord : isWord name = true) : TypeEntry :=
  { toIdentifier := .ofName name isWord, left := .empty, right := .empty }

/-- A name in a list. -/
def TypeExpression.listOf (name : String) (isWord : isWord name = true) : TypeExpression :=
  .generic (.ofName "List" (by decide)) .empty (.leaf { toIdentifier := .ofName name isWord })
    .empty

/-- Some spaces. -/
def Blanks.spaces (count : Nat) : Blanks :=
  ⟨List.replicate count ' ', fun _ member => (List.mem_replicate.mp member).2 ▸ rfl⟩

/-- The field `x` of a type. -/
def Field.ofType (type : TypeExpression) : Field :=
  { indent := .spaces 4, name := .ofName "x" (by decide), gap := .empty
    lead := .spaces 1, type, tail := [], set_off := .none }

/-- An optional union of a role and a list of parts. -/
def optionalUnion : TypeExpression :=
  .union (.ofName "Role" (by decide)) (.spaces 1) (.listOf "Part" (by decide)) .empty .empty

/-- An optional union in a list: all its names are found, and what was known stays. -/
theorem Mention.addLine_field_listed :
    ∃ field : Field, field.line = "    x: List[Optional[Union[Role, List[Part]]]]" ∧
      ∀ name ∈ ["Link", "Role", "Part"],
        name ∈ Mention.addLine (NameSet.ofList ["Link"]) field.line := by
  have exposed : ((TypeExpression.generic (.ofName "List" (by decide)) .empty optionalUnion
      .empty).exposed []).map TypeName.bare = ["Role", "Part"] := by
    decide +kernel
  obtain ⟨known, found⟩ := Mention.addLine_field (NameSet.ofList ["Link"])
    (.ofType (.generic (.ofName "List" (by decide)) .empty optionalUnion .empty))
  refine ⟨_, by decide +kernel, List.forall_mem_cons.mpr ⟨known "Link" (by decide), ?_⟩⟩
  intro name member
  rw [← exposed] at member
  obtain ⟨own, listed, rfl⟩ := List.mem_map.mp member
  exact found own listed

/-- The same union is covered as the only alternative of another one. Its role is missed. -/
theorem Mention.not_addLine_field_nested :
    ∃ field : Field, field.line = "    x: Optional[Union[Optional[Union[Role, List[Part]]]]]" ∧
      ∃ name ∈ field.type.names, name.bare = "Role" ∧
        name.bare ∉ Mention.addLine ∅ field.line := by
  refine ⟨.ofType (.generic (.ofName "Optional" (by decide)) .empty
    (.generic (.ofName "Union" (by decide)) .empty optionalUnion .empty) .empty), ?_, ?_⟩
  · decide +kernel
  · refine ⟨(TypeEntry.ofName "Role" (by decide)).toTypeName, List.mem_cons_self, ?_, ?_⟩
    · decide +kernel
    · decide +kernel

end DeclOrder
