import DeclOrder.Text.Blank
import DeclOrder.Text.Word
import Mathlib.Data.List.Basic

/-!
# Texts renamed word by word

A text falls apart into its longest runs of word characters and the other characters between them.
`mapWords` puts another word in the place of each run and keeps every other character. A renaming of
words by words moves no boundary, so renamings compose, and the characters that do not belong to
words are found after renaming where they were before.
-/

namespace DeclOrder.Text

/-- A blank character does not belong to words. -/
theorem isWordChar_of_isBlank {char : Char} (blank : isBlank char = true) :
    isWordChar char = false := by
  let codes := List.range' 0x09 5 ++ [0x20, 0x85, 0xA0, 0x1680] ++ List.range' 0x2000 11 ++
    [0x2028, 0x2029, 0x202F, 0x205F, 0x3000]
  have listed : char.toNat ∈ codes := by
    simp only [isBlank, Bool.or_eq_true, Bool.and_eq_true, decide_eq_true_eq, beq_iff_eq] at blank
    simp only [codes, List.mem_append, List.mem_range'_1, List.mem_cons, List.not_mem_nil]
    omega
  have outside : ∀ code ∈ codes, isWordChar (Char.ofNat code) = false := by decide +kernel
  exact Char.ofNat_toNat char ▸ outside char.toNat listed

/-- A word character is none that does not belong to words. -/
theorem ne_of_isWordChar {char stop : Char} (letter : isWordChar char = true)
    (other : isWordChar stop = false) : char ≠ stop := by
  rintro rfl
  exact Bool.false_ne_true (other.symm.trans letter)

/-- The characters make up a word. -/
structure Word (chars : List Char) : Prop where
  /-- There is a character. -/
  nonempty : chars ≠ []
  /-- Every character belongs to words. -/
  letters : ∀ char ∈ chars, isWordChar char = true

/-- The characters of a word. -/
theorem isWord_iff_word {name : String} : isWord name = true ↔ Word name.toList := by
  rw [isWord, Bool.and_eq_true, Bool.not_eq_true', ← Bool.not_eq_true, String.isEmpty_iff,
    ← String.toList_eq_nil_iff, List.all_eq_true]
  exact ⟨fun both => ⟨both.1, both.2⟩, fun word => ⟨word.nonempty, word.letters⟩⟩

/-- A character that does not belong to words is none of a word. -/
theorem Word.not_mem {chars : List Char} (word : Word chars) {char : Char}
    (other : isWordChar char = false) : char ∉ chars := fun member =>
  ne_of_isWordChar (word.letters char member) other rfl

/-- The word is the longest run of word characters in front of the rest. -/
structure Run (word rest : List Char) : Prop extends Word word where
  /-- The rest does not go on with a word character. -/
  stops : ∀ char ∈ rest.head?, isWordChar char = false

namespace Run

variable {word rest : List Char}

/-- A run is what the longest run of word characters is. -/
theorem takeWhile_append (run : Run word rest) : (word ++ rest).takeWhile isWordChar = word := by
  rw [List.takeWhile_append_of_pos run.letters]
  cases rest with
  | nil => simp
  | cons first others => simp [run.stops first rfl]

/-- What follows a run is what follows the longest run of word characters. -/
theorem dropWhile_append (run : Run word rest) : (word ++ rest).dropWhile isWordChar = rest := by
  rw [List.dropWhile_append_of_pos run.letters]
  cases rest with
  | nil => rfl
  | cons first others => exact List.dropWhile_cons_of_neg (by simp [run.stops first rfl])

/-- A text starts with one run only. -/
theorem unique (run : Run word rest) {otherWord otherRest : List Char}
    (other : Run otherWord otherRest) (same : word ++ rest = otherWord ++ otherRest) :
    word = otherWord ∧ rest = otherRest := by
  constructor
  · rw [← run.takeWhile_append, same, other.takeWhile_append]
  · rw [← run.dropWhile_append, same, other.dropWhile_append]

/-- A run stays one when the rest is cut off later. -/
theorem of_front (run : Run word rest) {front : List Char} (isFront : front <+: rest) :
    Run word front := by
  refine ⟨run.toWord, fun char starts => run.stops char ?_⟩
  obtain ⟨tail, rfl⟩ := isFront
  rw [Option.mem_def] at starts
  rw [List.head?_append, starts]
  rfl

end Run

/-- A word that nothing follows is a run. -/
theorem Word.run {word : List Char} (isWord : Word word) : Run word [] :=
  ⟨isWord, by simp⟩

/-- A word is a run in front of a character that does not belong to words. -/
theorem Word.run_cons {word : List Char} (isWord : Word word) {char : Char}
    (other : isWordChar char = false) (rest : List Char) : Run word (char :: rest) :=
  ⟨isWord, by simpa using other⟩

/-- The text with each longest run of word characters renamed. -/
def mapWords (rename : List Char → List Char) : List Char → List Char
  | [] => []
  | char :: rest =>
    if isWordChar char then
      rename (char :: rest.takeWhile isWordChar) ++ mapWords rename (rest.dropWhile isWordChar)
    else
      char :: mapWords rename rest
  termination_by text => text.length
  decreasing_by
    · exact Nat.lt_succ_of_le (rest.dropWhile_sublist isWordChar).length_le
    · exact Nat.lt_succ_self _

/-- The line with each longest run of word characters renamed. -/
def mapLine (rename : List Char → List Char) (line : String) : String :=
  String.ofList (mapWords rename line.toList)

/-- The characters of a renamed line. -/
@[simp] theorem toList_mapLine (rename : List Char → List Char) (line : String) :
    (mapLine rename line).toList = mapWords rename line.toList := String.toList_ofList

/-- A text is empty, or starts with a character that does not belong to words, or with a run. -/
@[elab_as_elim]
theorem run_induction {motive : List Char → Prop} (nil : motive [])
    (other : ∀ char rest, isWordChar char = false → motive rest → motive (char :: rest))
    (run : ∀ word rest, Run word rest → motive rest → motive (word ++ rest))
    (text : List Char) : motive text := by
  induction text using mapWords.induct with
  | case1 => exact nil
  | case2 char rest letter ih =>
    have word : Word (char :: rest.takeWhile isWordChar) := by
      refine ⟨List.cons_ne_nil _ _, List.forall_mem_cons.mpr ⟨letter, ?_⟩⟩
      exact List.all_eq_true.mp List.all_takeWhile
    have stops : ∀ next ∈ (rest.dropWhile isWordChar).head?, isWordChar next = false := by
      intro next starts
      have fails := List.head?_dropWhile_not isWordChar rest
      rw [Option.mem_def] at starts
      simpa [starts] using fails
    have whole : char :: rest.takeWhile isWordChar ++ rest.dropWhile isWordChar = char :: rest := by
      rw [List.cons_append, List.takeWhile_append_dropWhile]
    exact whole ▸ run _ _ ⟨word, stops⟩ ih
  | case3 char rest notLetter ih => exact other char rest (Bool.eq_false_iff.mpr notLetter) ih

section MapWords

variable {rename : List Char → List Char}

/-- There is nothing to rename in an empty text. -/
@[simp] theorem mapWords_nil : mapWords rename [] = [] := by
  rw [mapWords]

/-- A character that does not belong to words stays. -/
theorem mapWords_other {char : Char} (other : isWordChar char = false) (rest : List Char) :
    mapWords rename (char :: rest) = char :: mapWords rename rest := by
  rw [mapWords, if_neg (by simp [other])]

/-- A run is renamed. -/
theorem mapWords_run {word rest : List Char} (run : Run word rest) :
    mapWords rename (word ++ rest) = rename word ++ mapWords rename rest := by
  have front := run.takeWhile_append
  have back := run.dropWhile_append
  obtain ⟨first, others, rfl⟩ := List.exists_cons_of_ne_nil run.nonempty
  have letter := run.letters first List.mem_cons_self
  rw [List.cons_append, List.takeWhile_cons_of_pos letter] at front
  rw [List.cons_append, List.dropWhile_cons_of_pos letter] at back
  rw [List.cons_append, mapWords, if_pos letter, front, back]

/-- A word is renamed as a whole. -/
theorem mapWords_word {word : List Char} (isWord : Word word) :
    mapWords rename word = rename word := by
  have whole : mapWords rename (word ++ []) = rename word ++ mapWords rename [] :=
    mapWords_run isWord.run
  rwa [List.append_nil, mapWords_nil, List.append_nil] at whole

/-- Only what the renaming does to words matters. -/
theorem mapWords_congr {other : List Char → List Char}
    (same : ∀ word, Word word → rename word = other word) (text : List Char) :
    mapWords rename text = mapWords other text := by
  induction text using run_induction with
  | nil => rw [mapWords_nil, mapWords_nil]
  | other char rest notLetter ih => rw [mapWords_other notLetter, mapWords_other notLetter, ih]
  | run word rest run ih => rw [mapWords_run run, mapWords_run run, same word run.toWord, ih]

/-- A renaming that keeps every word keeps every text. -/
theorem mapWords_eq_self (same : ∀ word, Word word → rename word = word) (text : List Char) :
    mapWords rename text = text := by
  induction text using run_induction with
  | nil => exact mapWords_nil
  | other char rest notLetter ih => rw [mapWords_other notLetter, ih]
  | run word rest run ih => rw [mapWords_run run, same word run.toWord, ih]

/-- What starts with no word character starts with the same character after renaming. -/
theorem head?_mapWords {text : List Char} (stops : ∀ char ∈ text.head?, isWordChar char = false) :
    (mapWords rename text).head? = text.head? := by
  cases text with
  | nil => rw [mapWords_nil]
  | cons char rest => rw [mapWords_other (stops char rfl), List.head?_cons, List.head?_cons]

/-- No run goes on from the one text into the other. -/
def Apart (front back : List Char) : Prop :=
  ∀ last ∈ front.getLast?, ∀ first ∈ back.head?, isWordChar last = true → isWordChar first = false

/-- Texts between which no run goes on are renamed one by one. -/
theorem mapWords_append {front back : List Char} (apart : Apart front back) :
    mapWords rename (front ++ back) = mapWords rename front ++ mapWords rename back := by
  induction front using run_induction with
  | nil => rw [mapWords_nil, List.nil_append, List.nil_append]
  | other char rest notLetter ih =>
    have apart_rest : Apart rest back := by
      intro last ends
      refine apart last ?_
      rw [Option.mem_def] at ends ⊢
      rw [List.getLast?_cons, ends]
      rfl
    rw [List.cons_append, mapWords_other notLetter, mapWords_other notLetter, ih apart_rest,
      List.cons_append]
  | run word rest run ih =>
    have apart_rest : Apart rest back := by
      intro last ends
      refine apart last ?_
      rw [Option.mem_def] at ends ⊢
      rw [List.getLast?_append, ends]
      rfl
    have run_append : Run word (rest ++ back) := by
      refine ⟨run.toWord, fun first starts => ?_⟩
      cases rest with
      | cons char others => exact run.stops first starts
      | nil =>
        rw [List.append_nil] at apart
        have ends := List.getLast?_eq_some_getLast run.nonempty
        exact apart _ ends first starts (run.letters _ (List.getLast_mem run.nonempty))
    rw [List.append_assoc, mapWords_run run_append, ih apart_rest, mapWords_run run,
      List.append_assoc]

/-- A text is renamed in front of a character that does not belong to words and behind it. -/
theorem mapWords_append_cons {char : Char} (other : isWordChar char = false)
    (front rest : List Char) :
    mapWords rename (front ++ char :: rest) =
      mapWords rename front ++ char :: mapWords rename rest := by
  have apart : Apart front (char :: rest) := by
    intro _ _ first starts _
    obtain rfl := Option.some.inj starts
    exact other
  rw [mapWords_append apart, mapWords_other other]

end MapWords

/-- The renaming makes words of words. -/
def KeepsWords (rename : List Char → List Char) : Prop := ∀ word, Word word → Word (rename word)

section KeepsWords

variable {rename : List Char → List Char} (keeps : KeepsWords rename)

include keeps

/-- A run stays a run. -/
theorem Run.mapWords {word rest : List Char} (run : Run word rest) :
    Run (rename word) (mapWords rename rest) :=
  ⟨keeps word run.toWord, fun char starts => run.stops char (head?_mapWords run.stops ▸ starts)⟩

/-- Renaming again is renaming once by both. -/
theorem mapWords_mapWords (outer : List Char → List Char) (text : List Char) :
    mapWords outer (mapWords rename text) = mapWords (fun word => outer (rename word)) text := by
  induction text using run_induction with
  | nil => simp only [mapWords_nil]
  | other char rest notLetter ih =>
    rw [mapWords_other notLetter, mapWords_other notLetter, mapWords_other notLetter, ih]
  | run word rest run ih =>
    rw [mapWords_run run, mapWords_run run, mapWords_run (run.mapWords keeps), ih]

/-- Renaming adds and removes no characters but those of words. -/
theorem mem_mapWords {char : Char} (other : isWordChar char = false) {text : List Char} :
    char ∈ mapWords rename text ↔ char ∈ text := by
  induction text using run_induction with
  | nil => rw [mapWords_nil]
  | other first rest notLetter ih => rw [mapWords_other notLetter, List.mem_cons, List.mem_cons, ih]
  | run word rest run ih =>
    rw [mapWords_run run, List.mem_append, List.mem_append, ih,
      or_iff_right (run.toWord.not_mem other), or_iff_right ((keeps word run.toWord).not_mem other)]

/-- A text without word characters stays, and no other text becomes one. -/
theorem mapWords_eq_of_other {text : List Char}
    (others : ∀ char ∈ mapWords rename text, isWordChar char = false) :
    mapWords rename text = text := by
  induction text using run_induction with
  | nil => exact mapWords_nil
  | other char rest notLetter ih =>
    rw [mapWords_other notLetter] at others ⊢
    rw [ih fun char member => others char (List.mem_cons_of_mem _ member)]
  | run word rest run ih =>
    rw [mapWords_run run] at others
    obtain ⟨isWord, -⟩ := run.mapWords keeps
    obtain ⟨first, member⟩ := List.exists_mem_of_ne_nil _ isWord.nonempty
    have other := others first (List.mem_append_left _ member)
    exact absurd member (isWord.not_mem other)

/-- What starts with a character that does not belong to words did so before renaming. -/
theorem exists_of_mapWords_eq_cons {text rest : List Char} {char : Char}
    (other : isWordChar char = false) (renamed : mapWords rename text = char :: rest) :
    ∃ original, text = char :: original ∧ mapWords rename original = rest := by
  induction text using run_induction with
  | nil => simp at renamed
  | other first original notLetter _ =>
    rw [mapWords_other notLetter] at renamed
    obtain ⟨rfl, rest_eq⟩ := List.cons.inj renamed
    exact ⟨original, rfl, rest_eq⟩
  | run word original run _ =>
    rw [mapWords_run run] at renamed
    have isWord := keeps word run.toWord
    obtain ⟨first, others, whole⟩ := List.exists_cons_of_ne_nil isWord.nonempty
    rw [whole, List.cons_append] at renamed
    have same := (List.cons.inj renamed).1
    exact absurd (whole ▸ same ▸ List.mem_cons_self) (isWord.not_mem other)

/-- What starts with a run started with one before renaming. -/
theorem exists_of_mapWords_eq_run {text word rest : List Char} (run : Run word rest)
    (renamed : mapWords rename text = word ++ rest) :
    ∃ original tail, text = original ++ tail ∧ Run original tail ∧ rename original = word ∧
      mapWords rename tail = rest := by
  induction text using run_induction with
  | nil =>
    rw [mapWords_nil] at renamed
    exact absurd (List.append_eq_nil_iff.mp renamed.symm).1 run.nonempty
  | other first original notLetter _ =>
    rw [mapWords_other notLetter] at renamed
    obtain ⟨letter, others, rfl⟩ := List.exists_cons_of_ne_nil run.nonempty
    have same := (List.cons.inj renamed).1
    exact absurd (same ▸ List.mem_cons_self) (run.toWord.not_mem notLetter)
  | run original tail originalRun _ =>
    rw [mapWords_run originalRun] at renamed
    obtain ⟨same, rests⟩ := (originalRun.mapWords keeps).unique run renamed
    exact ⟨original, tail, rfl, originalRun, same, rests⟩

/-- Nothing is left of a text only if it was empty before renaming. -/
theorem mapWords_eq_nil {text : List Char} : mapWords rename text = [] ↔ text = [] := by
  constructor
  · intro empty
    have others : ∀ char ∈ mapWords rename text, isWordChar char = false :=
      empty ▸ List.forall_mem_nil _
    rw [← mapWords_eq_of_other keeps others, empty]
  · rintro rfl
    exact mapWords_nil

/-- Only words become words. -/
theorem word_of_mapWords {text : List Char} (isWord : Word (mapWords rename text)) : Word text := by
  obtain ⟨word, tail, rfl, run, -, tail_eq⟩ :=
    exists_of_mapWords_eq_run keeps isWord.run (List.append_nil _).symm
  rw [(mapWords_eq_nil keeps).mp tail_eq, List.append_nil]
  exact run.toWord

/-- What ends in a character that does not belong to words did so before renaming. -/
theorem getLast?_of_mapWords {char : Char} (other : isWordChar char = false) {text : List Char}
    (ends : (mapWords rename text).getLast? = some char) : text.getLast? = some char := by
  induction text using run_induction with
  | nil => simp at ends
  | other first rest notLetter ih =>
    rw [mapWords_other notLetter, List.getLast?_cons] at ends
    cases last : (mapWords rename rest).getLast? with
    | none =>
      obtain rfl := (mapWords_eq_nil keeps).mp (List.getLast?_eq_none_iff.mp last)
      rwa [last] at ends
    | some final =>
      rw [last, Option.getD_some] at ends
      rw [List.getLast?_cons, ih (last.trans ends)]
      rfl
  | run word rest run ih =>
    rw [mapWords_run run, List.getLast?_append] at ends
    cases last : (mapWords rename rest).getLast? with
    | none =>
      rw [last, Option.none_or] at ends
      exact absurd (List.mem_of_getLast? ends) ((keeps word run.toWord).not_mem other)
    | some final =>
      rw [last, Option.some_or] at ends
      rw [List.getLast?_append, ih (last.trans ends), Option.some_or]

/-- Whether nothing but characters other than those of words makes up a text shows after renaming:
a test that no word character satisfies is satisfied by a text exactly if it is afterwards. -/
theorem all_of_all_mapWords {test : Char → Bool}
    (fails : ∀ char, isWordChar char = true → test char = false) {text : List Char}
    (passes : ∀ char ∈ mapWords rename text, test char = true) :
    ∀ char ∈ text, test char = true := by
  have others : ∀ char ∈ mapWords rename text, isWordChar char = false := by
    intro char member
    apply Bool.eq_false_iff.mpr
    intro letter
    exact Bool.false_ne_true ((fails char letter).symm.trans (passes char member))
  exact mapWords_eq_of_other keeps others ▸ passes

end KeepsWords

end DeclOrder.Text
