import DeclOrder.Proofs.Text.Ends
import DeclOrder.Proofs.Text.Words

/-!
# Renamed texts cut into pieces

Where a test has one answer for all word characters, a text is cut by it between words only. So
taking the front or the tail that satisfies the test, splitting at a separator and stripping both
ends give the same pieces before renaming as after it.
-/

namespace DeclOrder.Text

variable {rename : List Char → List Char} {test : Char → Bool}

/-- The test has one answer for all word characters. -/
def Answers (test : Char → Bool) (answer : Bool) : Prop :=
  ∀ char, isWordChar char = true → test char = answer

/-- No word character is blank. -/
theorem answers_isBlank : Answers isBlank false := fun _ letter =>
  Bool.eq_false_iff.mpr fun blank => ne_of_isWordChar letter (isWordChar_of_isBlank blank) rfl

/-- No word character is one that does not belong to words. -/
theorem answers_beq {stop : Char} (other : isWordChar stop = false) :
    Answers (· == stop) false := fun _ letter =>
  beq_eq_false_iff_ne.mpr (ne_of_isWordChar letter other)

/-- No word character is among characters that do not belong to words. -/
theorem answers_contains {stops : List Char} (others : stops.any isWordChar = false) :
    Answers (stops.contains ·) false := fun char letter => by
  rw [← Bool.not_eq_true, List.contains_iff_mem]
  exact fun member => List.any_eq_false.mp others char member letter

/-- The opposite test has the opposite answer. -/
theorem Answers.not {answer : Bool} (answers : Answers test answer) :
    Answers (fun char => !test char) (!answer) := fun char letter =>
  congrArg (!·) (answers char letter)

/-- What fails two tests fails the test for either. -/
theorem Answers.or {other : Char → Bool} (answers : Answers test false)
    (other_answers : Answers other false) :
    Answers (fun char => test char || other char) false := fun char letter => by
  dsimp only
  rw [answers char letter, other_answers char letter, Bool.or_false]

/-- A word in front is taken with what follows it, or nothing is. -/
theorem takeWhile_word_append {answer : Bool} (answers : Answers test answer) {word : List Char}
    (isWord : Word word) (rest : List Char) :
    (word ++ rest).takeWhile test = if answer then word ++ rest.takeWhile test else [] := by
  split
  · next passes =>
    exact List.takeWhile_append_of_pos fun char member =>
      (answers char (isWord.letters char member)).trans passes
  · next fails =>
    obtain ⟨first, others, rfl⟩ := List.exists_cons_of_ne_nil isWord.nonempty
    have answer_first := answers first (isWord.letters first List.mem_cons_self)
    exact List.takeWhile_cons_of_neg (answer_first ▸ fails)

/-- A word in front is dropped and what follows it considered, or all stays. -/
theorem dropWhile_word_append {answer : Bool} (answers : Answers test answer) {word : List Char}
    (isWord : Word word) (rest : List Char) :
    (word ++ rest).dropWhile test = if answer then rest.dropWhile test else word ++ rest := by
  split
  · next passes =>
    exact List.dropWhile_append_of_pos fun char member =>
      (answers char (isWord.letters char member)).trans passes
  · next fails =>
    obtain ⟨first, others, rfl⟩ := List.exists_cons_of_ne_nil isWord.nonempty
    have answer_first := answers first (isWord.letters first List.mem_cons_self)
    exact List.dropWhile_cons_of_neg (answer_first ▸ fails)

/-- A word in front stays if its characters may not be taken off. -/
theorem dropTailWhile_word_append (answers : Answers test false) {word : List Char}
    (letters : ∀ char ∈ word, isWordChar char = true) (rest : List Char) :
    dropTailWhile test (word ++ rest) = word ++ dropTailWhile test rest := by
  induction word with
  | nil => rfl
  | cons first others ih =>
    have fails := answers first (letters first List.mem_cons_self)
    have inner := ih fun char member => letters char (List.mem_cons_of_mem first member)
    rw [List.cons_append, dropTailWhile, inner, List.cons_append]
    cases others ++ dropTailWhile test rest with
    | nil => simp [fails]
    | cons second further => rfl

variable (keeps : KeepsWords rename)

include keeps

/-- Taking a front and renaming commute. -/
theorem takeWhile_mapWords {answer : Bool} (answers : Answers test answer) (text : List Char) :
    (mapWords rename text).takeWhile test = mapWords rename (text.takeWhile test) := by
  induction text using run_induction with
  | nil => simp
  | other char rest notLetter ih =>
    rw [mapWords_other notLetter, List.takeWhile_cons, List.takeWhile_cons, ih]
    split
    · rw [mapWords_other notLetter]
    · rw [mapWords_nil]
  | run word rest run ih =>
    rw [mapWords_run run, takeWhile_word_append answers (keeps word run.toWord),
      takeWhile_word_append answers run.toWord, ih]
    split
    · rw [mapWords_run (run.of_front (List.takeWhile_prefix test))]
    · rw [mapWords_nil]

/-- Dropping a front and renaming commute. -/
theorem dropWhile_mapWords {answer : Bool} (answers : Answers test answer) (text : List Char) :
    (mapWords rename text).dropWhile test = mapWords rename (text.dropWhile test) := by
  induction text using run_induction with
  | nil => simp
  | other char rest notLetter ih =>
    rw [mapWords_other notLetter, List.dropWhile_cons, List.dropWhile_cons, ih]
    split
    · rfl
    · rw [mapWords_other notLetter]
  | run word rest run ih =>
    rw [mapWords_run run, dropWhile_word_append answers (keeps word run.toWord),
      dropWhile_word_append answers run.toWord, ih]
    split
    · rfl
    · rw [mapWords_run run]

/-- Dropping a tail and renaming commute. -/
theorem dropTailWhile_mapWords (answers : Answers test false) (text : List Char) :
    dropTailWhile test (mapWords rename text) = mapWords rename (dropTailWhile test text) := by
  induction text using run_induction with
  | nil => simp [dropTailWhile]
  | other char rest notLetter ih =>
    rw [mapWords_other notLetter, dropTailWhile, dropTailWhile, ih]
    cases shape : dropTailWhile test rest with
    | nil =>
      rw [mapWords_nil]
      dsimp only
      split
      · rw [mapWords_nil]
      · rw [mapWords_other notLetter, mapWords_nil]
    | cons first others =>
      have nonempty : mapWords rename (first :: others) ≠ [] :=
        (mapWords_eq_nil keeps).not.mpr (List.cons_ne_nil first others)
      obtain ⟨newFirst, newOthers, renamed⟩ := List.exists_cons_of_ne_nil nonempty
      rw [mapWords_other notLetter, renamed]
  | run word rest run ih =>
    rw [mapWords_run run, dropTailWhile_word_append answers (keeps word run.toWord).letters,
      dropTailWhile_word_append answers run.letters, ih,
      mapWords_run (run.of_front (front_dropTailWhile test rest))]

/-- Stripping both ends and renaming commute. -/
theorem strip_mapWords (answers : Answers test false) (text : List Char) :
    strip test (mapWords rename text) = mapWords rename (strip test text) := by
  rw [strip, dropWhile_mapWords keeps answers, dropTailWhile_mapWords keeps answers, strip]

/-- Splitting at a character that does not belong to words and renaming commute. -/
theorem splitOn_mapWords {separator : Char} (other : isWordChar separator = false)
    (text : List Char) :
    (mapWords rename text).splitOn separator = (text.splitOn separator).map (mapWords rename) := by
  induction length : text.length using Nat.strong_induction_on generalizing text with
  | _ size ih =>
    by_cases member : separator ∈ text
    · obtain ⟨front, back, rfl, missing⟩ := List.eq_append_cons_of_mem member
      have missing_renamed : separator ∉ mapWords rename front :=
        (mem_mapWords keeps other).not.mpr missing
      have shorter : back.length < size := by
        rw [← length, List.length_append, List.length_cons]
        omega
      rw [mapWords_append_cons other, List.splitOn_append_cons_self_of_not_mem missing_renamed,
        List.splitOn_append_cons_self_of_not_mem missing, ih _ shorter back rfl, List.map_cons]
    · have missing : separator ∉ mapWords rename text := (mem_mapWords keeps other).not.mpr member
      rw [List.splitOn_eq_singleton missing, List.splitOn_eq_singleton member, List.map_singleton]

/-- What follows a character that does not belong to words is renamed apart. -/
theorem after?_mapWords {char : Char} (other : isWordChar char = false) (text : List Char) :
    after? [char] (mapWords rename text) = (after? [char] text).map (mapWords rename) := by
  apply Option.ext
  intro rest
  rw [after?_eq_some_iff, Option.map_eq_some_iff]
  constructor
  · intro renamed
    obtain ⟨original, rfl, same⟩ := exists_of_mapWords_eq_cons keeps other renamed
    exact ⟨original, after?_eq_some_iff.mpr rfl, same⟩
  · rintro ⟨original, found, rfl⟩
    rw [after?_eq_some_iff.mp found, List.singleton_append, mapWords_other other]
    rfl

/-- What follows a word that is kept apart and its end is renamed apart. -/
theorem after?_word_mapWords {fixed : List Char} (isWord : Word fixed)
    (apart : ∀ word, rename word = fixed ↔ word = fixed) {stop : Char}
    (other : isWordChar stop = false) (text : List Char) :
    after? (fixed ++ [stop]) (mapWords rename text) =
      (after? (fixed ++ [stop]) text).map (mapWords rename) := by
  apply Option.ext
  intro rest
  rw [after?_eq_some_iff, Option.map_eq_some_iff, List.append_assoc, List.singleton_append]
  constructor
  · intro renamed
    obtain ⟨word, tail, rfl, -, same, tail_eq⟩ :=
      exists_of_mapWords_eq_run keeps (isWord.run_cons other rest) renamed
    obtain ⟨original, rfl, rest_eq⟩ := exists_of_mapWords_eq_cons keeps other tail_eq
    refine ⟨original, after?_eq_some_iff.mpr ?_, rest_eq⟩
    rw [(apart word).mp same, List.append_assoc, List.singleton_append]
  · rintro ⟨original, found, rfl⟩
    rw [after?_eq_some_iff.mp found, List.append_assoc, List.singleton_append,
      mapWords_run (isWord.run_cons other original), mapWords_other other, (apart fixed).mpr rfl]

end DeclOrder.Text
