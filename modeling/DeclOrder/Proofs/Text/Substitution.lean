import DeclOrder.Proofs.Text.Words
import DeclOrder.Text.Substitution

/-!
# Substitution of words

Substituting a word for the whole occurrences of another renames the runs that are this word and
keeps all others: an occurrence with a boundary on either side is a run, and every run that is the
word is found, since the search goes on at a boundary.
-/

namespace DeclOrder.Text

/-- A template without a dollar sign is filled in as it stands. -/
theorem expandTemplate_eq_self {template : List Char} (plain : '$' ∉ template)
    (whole : List Char) : expandTemplate whole template = template := by
  induction template with
  | nil => rw [expandTemplate]
  | cons first rest ih =>
    rw [List.mem_cons, not_or] at plain
    have different : first ≠ '$' := Ne.symm plain.1
    rw [expandTemplate, ih plain.2]
    all_goals simp [different]

/-- A word ends in a word character. -/
theorem Word.letter_getLast? {word : List Char} (isWord : Word word) :
    word.getLast?.any isWordChar = true := by
  rw [List.getLast?_eq_some_getLast isWord.nonempty, Option.any_some]
  exact isWord.letters _ (List.getLast_mem isWord.nonempty)

/-- A text that starts with a word starts with a word character. -/
theorem Word.letter_head? {word : List Char} (isWord : Word word) (rest : List Char) :
    (word ++ rest).head?.any isWordChar = true := by
  obtain ⟨first, others, rfl⟩ := List.exists_cons_of_ne_nil isWord.nonempty
  exact isWord.letters first List.mem_cons_self

/-- What follows a run starts with no word character. -/
theorem Run.letter_head? {word rest : List Char} (run : Run word rest) :
    rest.head?.any isWordChar = false := by
  cases rest with
  | nil => rfl
  | cons first others => exact run.stops first rfl

/-- A word stands whole in front of a text exactly if it is the run there. -/
theorem standsWhole_iff {name word rest : List Char} (isWord : Word name) (run : Run word rest)
    {before : Option Char} (apart : before.any isWordChar = false) :
    standsWhole name before (word ++ rest) = true ↔ word = name := by
  rw [standsWhole, Bool.and_eq_true, Bool.and_eq_true, List.isPrefixOf_iff_prefix, isBoundary,
    isBoundary, apart, run.toWord.letter_head? rest, isWord.letter_getLast?]
  constructor
  · rintro ⟨⟨⟨tail, whole⟩, -⟩, ends⟩
    rw [← whole, List.drop_left] at ends
    have stops : ∀ char ∈ tail.head?, isWordChar char = false := by
      intro char starts
      rw [Option.mem_def] at starts
      simpa [starts] using ends
    exact (run.unique ⟨isWord, stops⟩ whole.symm).1
  · rintro rfl
    rw [List.drop_left, run.letter_head?]
    exact ⟨⟨List.prefix_append word rest, rfl⟩, rfl⟩

/-- Past its first character, no whole occurrence of a word starts in a run. -/
theorem replaceWhole_inside (name replacement : List Char) {before : Char}
    (letter : isWordChar before = true) {inside : List Char}
    (letters : ∀ char ∈ inside, isWordChar char = true) (rest : List Char) :
    ∃ last, replaceWhole name replacement (some before) (inside ++ rest) =
      inside ++ replaceWhole name replacement (some last) rest := by
  induction inside generalizing before with
  | nil => exact ⟨before, rfl⟩
  | cons first others ih =>
    have first_letter := letters first List.mem_cons_self
    have notWhole : standsWhole name (some before) (first :: (others ++ rest)) = false := by
      simp [standsWhole, isBoundary, letter, first_letter]
    obtain ⟨last, replaced⟩ :=
      ih first_letter fun char member => letters char (List.mem_cons_of_mem first member)
    refine ⟨last, ?_⟩
    rw [List.cons_append, replaceWhole, if_neg (by simp [notWhole]), replaced, List.cons_append]

/-- Where no run goes on from the character before, replacing the whole occurrences of a word is
renaming that word and no other. -/
theorem replaceWhole_eq_mapWords {name : List Char} (isWord : Word name)
    (replacement : List Char) {before : Option Char} {text : List Char}
    (apart : before.any isWordChar = false ∨ text.head?.any isWordChar = false) :
    replaceWhole name replacement before text =
      mapWords (fun word => if word = name then replacement else word) text := by
  induction text using run_induction generalizing before with
  | nil => rw [replaceWhole, mapWords_nil]
  | other char rest notLetter ih =>
    have notWhole : standsWhole name before (char :: rest) = false := by
      apply Bool.eq_false_iff.mpr
      intro whole
      rw [standsWhole, Bool.and_eq_true, Bool.and_eq_true, List.isPrefixOf_iff_prefix] at whole
      obtain ⟨first, others, rfl⟩ := List.exists_cons_of_ne_nil isWord.nonempty
      have same := (List.cons_prefix_cons.mp whole.1.1).1
      exact isWord.not_mem notLetter (same ▸ List.mem_cons_self)
    rw [replaceWhole, if_neg (by simp [notWhole]), mapWords_other notLetter,
      ih (.inl (by simp [notLetter]))]
  | run word rest run ih =>
    have apart_before : before.any isWordChar = false := by
      refine apart.resolve_right fun starts => ?_
      exact Bool.false_ne_true (starts.symm.trans (run.toWord.letter_head? rest))
    have stands := standsWhole_iff isWord run apart_before
    have after_rest : replaceWhole name replacement name.getLast? rest =
        mapWords (fun word => if word = name then replacement else word) rest :=
      ih (.inr run.letter_head?)
    rw [mapWords_run run]
    obtain ⟨first, others, rfl⟩ := List.exists_cons_of_ne_nil run.nonempty
    by_cases same : first :: others = name
    · have skipped : (others ++ rest).drop (name.length - 1) = rest := by
        rw [← same, List.length_cons, Nat.add_sub_cancel, List.drop_left]
      rw [List.cons_append] at stands
      rw [if_pos same, List.cons_append, replaceWhole, if_pos (stands.mpr same), skipped,
        after_rest]
    · obtain ⟨last, replaced⟩ := replaceWhole_inside name replacement
        (run.letters first List.mem_cons_self)
        (fun char member => run.letters char (List.mem_cons_of_mem first member)) rest
      rw [List.cons_append] at stands
      rw [if_neg same, List.cons_append, replaceWhole, if_neg (stands.not.mpr same), replaced,
        ih (.inr run.letter_head?), List.cons_append]

/-- Substituting a word for a word renames that word and no other. -/
theorem substitute_eq_mapLine {name base : String} (isWord : Word name.toList)
    (base_word : Word base.toList) (line : String) :
    substitute name base line =
      mapLine (fun word => if word = name.toList then base.toList else word) line := by
  have plain : '$' ∉ base.toList := base_word.not_mem (by decide)
  rw [substitute, expandTemplate_eq_self plain, replaceWhole_eq_mapWords isWord _ (.inl rfl),
    mapLine]

end DeclOrder.Text
