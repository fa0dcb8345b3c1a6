import DeclOrder.Mention
import DeclOrder.Proofs.Text.Cutting

/-!
# Mentions in renamed lines

The three scans cut a line at characters that do not belong to words, so what they find in a renamed
line is what they find in the line, renamed. Only the opening of an optional union has words of its
own: the scan for it stays in step as long as renaming neither makes nor takes away the word `Union`
and an ending in `Optional`.
-/

namespace DeclOrder.Mention

open DeclOrder.Text

section Pieces

/-- The token without blanks and quotes around it. -/
def unquoted (token : List Char) : List Char :=
  trim (strip (fun char => char == '\x27' || char == '"') (trim token))

/-- A token mentions what is within its quotes, unless this is empty or carries a qualifier. -/
theorem name?_eq (token : List Char) :
    name? token =
      if (unquoted token).isEmpty || (unquoted token).contains '.' then none
      else some (String.ofList (unquoted token)) := rfl

variable {rename : List Char → List Char} (keeps : KeepsWords rename)

include keeps

/-- A renamed text is empty exactly if the text is. -/
theorem isEmpty_mapWords (text : List Char) : (mapWords rename text).isEmpty = text.isEmpty := by
  rw [Bool.eq_iff_iff, List.isEmpty_iff, List.isEmpty_iff, mapWords_eq_nil keeps]

/-- The annotation of a field is renamed with its line. -/
theorem scalarToken?_mapWords (line : List Char) :
    scalarToken? (mapWords rename line) = (scalarToken? line).map (mapWords rename) := by
  have letters : Answers isWordChar true := fun _ letter => letter
  have unbracketed : Answers (fun char => !(isBlank char || char == '[' || char == ']')) true :=
    ((answers_isBlank.or (answers_beq (by decide))).or (answers_beq (by decide))).not
  have uncalled : Answers (fun char => !(['(', '=', ','].contains char)) true :=
    (answers_contains (by decide)).not
  simp only [scalarToken?, dropWhile_mapWords keeps answers_isBlank,
    takeWhile_mapWords keeps letters, dropWhile_mapWords keeps letters, isEmpty_mapWords keeps,
    after?_mapWords keeps (by decide : isWordChar ':' = false)]
  split
  · rfl
  · cases after? [':'] (((line.dropWhile isBlank).dropWhile isWordChar).dropWhile isBlank) with
    | none => rfl
    | some annotated =>
      simp only [Option.map_some, Option.bind_eq_bind, Option.bind_some,
        dropWhile_mapWords keeps answers_isBlank, takeWhile_mapWords keeps unbracketed,
        takeWhile_mapWords keeps uncalled, isEmpty_mapWords keeps]
      split
      · rfl
      · rfl

/-- What a token mentions is renamed with the token. -/
theorem unquoted_mapWords (token : List Char) :
    unquoted (mapWords rename token) = mapWords rename (unquoted token) := by
  have quotes : Answers (fun char : Char => char == '\x27' || char == '"') false :=
    (answers_beq (by decide)).or (answers_beq (by decide))
  rw [unquoted, trim, trim, strip_mapWords keeps answers_isBlank, strip_mapWords keeps quotes,
    strip_mapWords keeps answers_isBlank]
  rfl

/-- The name that a token mentions is renamed with the token. -/
theorem name?_mapWords (token : List Char) :
    name? (mapWords rename token) = (name? token).map (mapLine rename) := by
  have qualified (name : List Char) : (mapWords rename name).contains '.' = name.contains '.' := by
    rw [Bool.eq_iff_iff, List.contains_iff_mem, List.contains_iff_mem,
      mem_mapWords keeps (by decide)]
  rw [name?_eq, name?_eq, unquoted_mapWords keeps, isEmpty_mapWords keeps, qualified,
    apply_ite (Option.map _), Option.map_some, mapLine, String.toList_ofList]
  rfl

end Pieces

section Brackets

/-- An opening bracket starts a group afresh. -/
theorem innermostGroups_open (pending : Option (List Char)) (rest : List Char) :
    innermostGroups pending ('[' :: rest) = innermostGroups (some []) rest := by
  rw [innermostGroups.eq_def]
  exact if_pos rfl

/-- A closing bracket ends the group that is read, unless it is empty. -/
theorem innermostGroups_close (pending : Option (List Char)) (rest : List Char) :
    innermostGroups pending (']' :: rest) =
      ((pending.filter (!·.isEmpty)).map List.reverse).toList ++ innermostGroups none rest := by
  match pending with
  | none => rfl
  | some [] => rfl
  | some (last :: earlier) => rfl

/-- Characters other than brackets are added to the group that is read. -/
theorem innermostGroups_append {inside : List Char}
    (unbracketed : ∀ char ∈ inside, char ≠ '[' ∧ char ≠ ']') (pending : Option (List Char))
    (rest : List Char) :
    innermostGroups pending (inside ++ rest) =
      innermostGroups (pending.map (inside.reverse ++ ·)) rest := by
  induction inside generalizing pending with
  | nil => simp
  | cons char others ih =>
    obtain ⟨notOpening, notClosing⟩ := unbracketed char List.mem_cons_self
    have step : innermostGroups pending (char :: (others ++ rest)) =
        innermostGroups (pending.map (char :: ·)) (others ++ rest) := by
      rw [innermostGroups.eq_def]
      exact (if_neg notOpening).trans (if_neg notClosing)
    rw [List.cons_append, step,
      ih fun other member => unbracketed other (List.mem_cons_of_mem char member)]
    cases pending <;> simp

variable {rename : List Char → List Char} (keeps : KeepsWords rename)

include keeps

/-- Characters other than brackets are added to the renamed group renamed. -/
theorem innermostGroups_mapWords_append {inside : List Char}
    (unbracketed : ∀ char ∈ inside, char ≠ '[' ∧ char ≠ ']') {pending : Option (List Char)}
    (apart : ∀ read ∈ pending, Apart read.reverse inside) (rest : List Char) :
    innermostGroups (pending.map fun read => (mapWords rename read.reverse).reverse)
        (mapWords rename inside ++ rest) =
      innermostGroups ((pending.map (inside.reverse ++ ·)).map fun read =>
        (mapWords rename read.reverse).reverse) rest := by
  have unbracketed_renamed : ∀ char ∈ mapWords rename inside, char ≠ '[' ∧ char ≠ ']' := by
    intro char member
    constructor
    · rintro rfl
      exact (unbracketed _ ((mem_mapWords keeps (by decide)).mp member)).1 rfl
    · rintro rfl
      exact (unbracketed _ ((mem_mapWords keeps (by decide)).mp member)).2 rfl
  rw [innermostGroups_append unbracketed_renamed]
  cases pending with
  | none => rfl
  | some read =>
    simp only [Option.map_some, List.reverse_append, List.reverse_reverse,
      mapWords_append (apart read rfl)]

/-- The innermost groups are renamed with the text, as is the group that is read. -/
theorem innermostGroups_mapWords (text : List Char) (pending : Option (List Char))
    (apart : ∀ read ∈ pending, Apart read.reverse text) :
    innermostGroups (pending.map fun read => (mapWords rename read.reverse).reverse)
        (mapWords rename text) =
      (innermostGroups pending text).map (mapWords rename) := by
  induction text using run_induction generalizing pending with
  | nil => simp [innermostGroups]
  | other char rest notLetter ih =>
    by_cases opening : char = '['
    · subst opening
      have empty : Apart [] rest := by simp [Apart]
      rw [mapWords_other notLetter, innermostGroups_open, innermostGroups_open,
        ← ih (some []) fun read started => Option.some.inj started ▸ empty]
      simp
    by_cases closing : char = ']'
    · subst closing
      rw [mapWords_other notLetter, innermostGroups_close, innermostGroups_close, List.map_append,
        ← ih none fun read started => by simp at started]
      refine congrArg (· ++ _) ?_
      cases pending with
      | none => rfl
      | some read =>
        have empty : (mapWords rename read.reverse).reverse.isEmpty = read.isEmpty := by
          rw [List.isEmpty_reverse, isEmpty_mapWords keeps, List.isEmpty_reverse]
        rw [Option.map_some, Option.filter_some, Option.filter_some, empty]
        split
        · simp
        · rfl
    · have single : mapWords rename [char] = [char] := by
        rw [mapWords_other notLetter, mapWords_nil]
      have unbracketed : ∀ other ∈ [char], other ≠ '[' ∧ other ≠ ']' := by
        simpa using ⟨opening, closing⟩
      have apart_char : ∀ read ∈ pending, Apart read.reverse [char] := by
        intro _ _ _ _ first starts _
        exact Option.some.inj starts ▸ notLetter
      have added := innermostGroups_mapWords_append keeps unbracketed apart_char
      rw [single] at added
      have whole : innermostGroups pending (char :: rest) =
          innermostGroups (pending.map ([char].reverse ++ ·)) rest :=
        innermostGroups_append unbracketed pending rest
      rw [mapWords_other notLetter, ← List.singleton_append, added, whole]
      refine ih _ fun read started last ends first starts letter => ?_
      obtain ⟨earlier, -, rfl⟩ := Option.map_eq_some_iff.mp started
      rw [List.reverse_append, List.reverse_reverse, List.getLast?_concat] at ends
      exact absurd (Option.some.inj ends ▸ letter) (Bool.eq_false_iff.mp notLetter)
  | run word rest run ih =>
    have unbracketed : ∀ char ∈ word, char ≠ '[' ∧ char ≠ ']' := fun char member =>
      ⟨ne_of_isWordChar (run.letters char member) (by decide),
        ne_of_isWordChar (run.letters char member) (by decide)⟩
    have apart_word : ∀ read ∈ pending, Apart read.reverse word := by
      intro read started last ends first starts
      refine apart read started last ends first ?_
      rw [Option.mem_def] at starts ⊢
      rw [List.head?_append, starts]
      rfl
    have alone : mapWords rename word = rename word := mapWords_word run.toWord
    rw [mapWords_run run, ← alone,
      innermostGroups_mapWords_append keeps unbracketed apart_word,
      innermostGroups_append unbracketed]
    refine ih _ fun read _ _ _ first starts _ => ?_
    exact run.stops first starts

/-- The entries of the innermost brackets are renamed with the line. -/
theorem bracketTokens_mapWords (line : List Char) :
    bracketTokens (mapWords rename line) = (bracketTokens line).map (mapWords rename) := by
  have groups := innermostGroups_mapWords keeps line none (by simp)
  rw [Option.map_none] at groups
  rw [bracketTokens, bracketTokens, groups, List.flatMap_map, List.map_flatMap]
  refine congrArg (List.flatMap · _) (funext fun group => ?_)
  rw [splitOn_mapWords keeps (by decide), List.map_take]

end Brackets

section Unions

/-- The first alternative of a union behind the word that makes it optional, and what follows this
alternative. -/
def alternative? (behind : List Char) : Option (List Char × List Char) :=
  (after? "[Union[".toList behind).bind fun inside =>
    if inside.takeWhile inAlternative = [] then none
    else some (inside.takeWhile inAlternative, inside.dropWhile inAlternative)

/-- The next union opens at the front of the line, or behind its first character. -/
theorem unionTokens_cons (char : Char) (rest : List Char) :
    unionTokens (char :: rest) =
      match (after? "Optional".toList (char :: rest)).bind alternative? with
      | some (token, behind) => token :: unionTokens behind
      | none => unionTokens rest := by
  have opening : after? unionOpening.toList (char :: rest) =
      (after? "Optional".toList (char :: rest)).bind (after? "[Union[".toList) :=
    after?_append "Optional".toList "[Union[".toList (char :: rest)
  have found : (after? "Optional".toList (char :: rest)).bind alternative? =
      (after? unionOpening.toList (char :: rest)).bind fun inside =>
        if inside.takeWhile inAlternative = [] then none
        else some (inside.takeWhile inAlternative, inside.dropWhile inAlternative) := by
    rw [opening, Option.bind_assoc]
    rfl
  rw [unionTokens, found]
  split
  · next missing => rw [missing]; rfl
  · next inside opened =>
    rw [opened, Option.bind_some]
    split
    · next empty => rw [if_pos empty]
    · next token nonempty => rw [if_neg nonempty]

/-- An alternative stands behind brackets. -/
theorem exists_of_alternative? {behind : List Char} {found : List Char × List Char}
    (stands : alternative? behind = some found) : ∃ inside, behind = '[' :: inside := by
  obtain ⟨inside, opened, -⟩ := Option.bind_eq_some_iff.mp stands
  exact ⟨"Union[".toList ++ inside, after?_eq_some_iff.mp opened⟩

/-- Less is left behind an alternative. -/
theorem alternative?_length {behind : List Char} {found : List Char × List Char}
    (stands : alternative? behind = some found) : found.2.length < behind.length := by
  obtain ⟨inside, opened, taken⟩ := Option.bind_eq_some_iff.mp stands
  have shorter := (inside.dropWhile_sublist inAlternative).length_le
  rw [after?_eq_some_iff.mp opened]
  split at taken
  · exact absurd taken (by simp)
  · obtain rfl := Option.some.inj taken
    rw [List.length_append]
    exact Nat.lt_of_le_of_lt shorter (Nat.lt_add_of_pos_left (by decide))

/-- Behind a run, a union opens if the run ends in the word that makes it optional. -/
theorem unionTokens_run {word rest : List Char} (letters : ∀ char ∈ word, isWordChar char = true)
    (stops : ∀ char ∈ rest.head?, isWordChar char = false) :
    unionTokens (word ++ rest) =
      match if "Optional".toList <:+ word then alternative? rest else none with
      | some (token, behind) => token :: unionTokens behind
      | none => unionTokens rest := by
  induction word with
  | nil => rfl
  | cons char others ih =>
    have inner := ih fun other member => letters other (List.mem_cons_of_mem char member)
    rw [List.cons_append, unionTokens_cons, ← List.cons_append]
    by_cases whole : char :: others = "Optional".toList
    · have shorter : ¬ "Optional".toList <:+ others := by
        intro suffix
        have too_long := suffix.length_le
        rw [← whole, List.length_cons] at too_long
        omega
      rw [if_neg shorter] at inner
      rw [after?_eq_some_iff.mpr (congrArg (· ++ rest) whole), Option.bind_some, inner,
        if_pos (whole ▸ List.suffix_rfl)]
    · -- A union that opens here would make the word that makes it optional the whole run.
      have missing : (after? "Optional".toList (char :: others ++ rest)).bind alternative? = none := by
        apply Option.eq_none_iff_forall_ne_some.mpr
        intro found stands
        obtain ⟨behind, opened, alternative⟩ := Option.bind_eq_some_iff.mp stands
        obtain ⟨inside, rfl⟩ := exists_of_alternative? alternative
        have isWord : Word "Optional".toList := isWord_iff_word.mp (by decide)
        have run : Run (char :: others) rest := ⟨⟨List.cons_ne_nil _ _, letters⟩, stops⟩
        exact whole (run.unique (isWord.run_cons (by decide) inside)
          (after?_eq_some_iff.mp opened)).1
      rw [missing, inner, if_congr (List.suffix_cons_iff.trans (or_iff_right (Ne.symm whole))) rfl rfl]

/-- No union opens at a character that does not belong to words. -/
theorem unionTokens_other {char : Char} (other : isWordChar char = false) (rest : List Char) :
    unionTokens (char :: rest) = unionTokens rest := by
  have stops : ∀ first ∈ (char :: rest).head?, isWordChar first = false := by simpa using other
  have missing : after? "Optional".toList (char :: rest) = none := by
    apply Option.eq_none_iff_forall_ne_some.mpr
    intro behind opened
    have same := (List.cons.inj (after?_eq_some_iff.mp opened)).1
    rw [same] at other
    exact absurd other (by decide)
  rw [unionTokens_cons, missing]
  rfl

/-- The words that open a union are kept apart from all others. -/
structure KeepsUnions (rename : List Char → List Char) : Prop where
  /-- The word for unions, and no other, stays one. -/
  union : ∀ word, rename word = "Union".toList ↔ word = "Union".toList
  /-- The ends of words that make a union optional are kept, and no others come up. -/
  optional : ∀ word, Word word →
    ("Optional".toList <:+ rename word ↔ "Optional".toList <:+ word)

variable {rename : List Char → List Char} (keeps : KeepsWords rename)

include keeps

/-- The alternative is renamed with the text, if the word for unions is kept apart. -/
theorem alternative?_mapWords (union : ∀ word, rename word = "Union".toList ↔ word = "Union".toList)
    (behind : List Char) :
    alternative? (mapWords rename behind) =
      (alternative? behind).map (Prod.map (mapWords rename) (mapWords rename)) := by
  have isWord : Word "Union".toList := isWord_iff_word.mp (by decide)
  have opening (text : List Char) : after? "[Union[".toList text =
      (after? ['['] text).bind (after? ("Union".toList ++ ['['])) :=
    after?_append ['['] ("Union".toList ++ ['[']) text
  have opened : after? "[Union[".toList (mapWords rename behind) =
      (after? "[Union[".toList behind).map (mapWords rename) := by
    rw [opening, opening, after?_mapWords keeps (by decide), Option.bind_map, Option.map_bind]
    exact congrArg _ (funext fun inside =>
      after?_word_mapWords keeps isWord union (by decide) inside)
  have inside_word : Answers inAlternative true :=
    ((answers_beq (by decide)).or (answers_beq (by decide))).not
  rw [alternative?, alternative?, opened, Option.bind_map, Option.map_bind]
  refine congrArg _ (funext fun inside => ?_)
  rw [Function.comp_apply, Function.comp_apply, takeWhile_mapWords keeps inside_word,
    dropWhile_mapWords keeps inside_word, apply_ite (Option.map _)]
  exact if_congr (mapWords_eq_nil keeps) rfl rfl

/-- The first alternatives of unions are renamed with the line, if the words that open a union are
kept apart. -/
theorem unionTokens_mapWords (unions : KeepsUnions rename) (line : List Char) :
    unionTokens (mapWords rename line) = (unionTokens line).map (mapWords rename) := by
  -- The scan goes on behind an alternative, so the induction is on the length of what is left.
  induction length : line.length using Nat.strong_induction_on generalizing line with
  | _ size ih =>
    cases line using run_induction with
    | nil => simp [unionTokens]
    | other char rest notLetter _ =>
      have shorter : rest.length < size := by
        rw [← length, List.length_cons]
        omega
      rw [mapWords_other notLetter, unionTokens_other notLetter, unionTokens_other notLetter,
        ih _ shorter rest rfl]
    | run word rest run _ =>
      have positive := List.length_pos_iff.mpr run.nonempty
      rw [List.length_append] at length
      have renamed_run := run.mapWords keeps
      rw [mapWords_run run, unionTokens_run renamed_run.letters renamed_run.stops,
        unionTokens_run run.letters run.stops,
        if_congr (unions.optional word run.toWord) (alternative?_mapWords keeps unions.union rest) rfl]
      by_cases suffix : "Optional".toList <:+ word
      · rw [if_pos suffix, if_pos suffix]
        cases stands : alternative? rest with
        | none =>
          exact ih _ (by omega) rest rfl
        | some found =>
          have shorter := alternative?_length stands
          exact congrArg _ (ih _ (by omega) found.2 rfl)
      · rw [if_neg suffix, if_neg suffix]
        exact ih _ (by omega) rest rfl

end Unions

section Lines

variable {rename : List Char → List Char} (keeps : KeepsWords rename)

include keeps

/-- The names that a renamed line mentions are the renamed names that the line mentions. -/
theorem namesOfLine_mapLine (unions : KeepsUnions rename) (line : String) :
    namesOfLine (mapLine rename line) = (namesOfLine line).map (mapLine rename) := by
  rw [namesOfLine, namesOfLine, toList_mapLine, scalarToken?_mapWords keeps, Option.toList_map,
    bracketTokens_mapWords keeps, unionTokens_mapWords keeps unions, ← List.map_append,
    ← List.map_append, List.filterMap_map, List.map_filterMap]
  exact congrArg (List.filterMap · _) (funext fun token => name?_mapWords keeps token)

end Lines

/-- What lines mention is what each of them mentions. -/
theorem mem_ofLines {lines : List String} {name : String} :
    name ∈ ofLines lines ↔ ∃ line ∈ lines, name ∈ namesOfLine line := by
  have from_set (set : NameSet) : name ∈ lines.foldl addLine set ↔
      name ∈ set ∨ ∃ line ∈ lines, name ∈ namesOfLine line := by
    induction lines generalizing set with
    | nil => simp
    | cons first others ih =>
      rw [List.foldl_cons, ih, addLine, NameSet.mem_insertAll, List.exists_mem_cons_iff,
        or_assoc, or_left_comm]
  rw [ofLines, from_set, or_iff_right NameSet.not_mem_empty]

/-- The names that renamed lines mention are the renamed names that the lines mention. -/
theorem mem_ofLines_map {rename : List Char → List Char} (keeps : KeepsWords rename)
    (unions : KeepsUnions rename) {lines : List String} {name : String} :
    name ∈ ofLines (lines.map (mapLine rename)) ↔
      ∃ original ∈ ofLines lines, mapLine rename original = name := by
  simp only [mem_ofLines, List.mem_map, exists_exists_and_eq_and,
    namesOfLine_mapLine keeps unions]
  constructor
  · rintro ⟨line, member, original, mentioned, same⟩
    exact ⟨original, ⟨line, member, mentioned⟩, same⟩
  · rintro ⟨original, ⟨line, member, mentioned⟩, same⟩
    exact ⟨line, member, original, mentioned, same⟩

end DeclOrder.Mention
