import DeclOrder.Timestamp
import Mathlib.Algebra.Group.Nat.Defs

/-!
# Moments read back from their text

The text of a moment has its numbers in decimal digits, filled up to a width, with a mark behind
each. Reading takes digits as long as there are any, so each number is read back with what follows
it, and the text names the moment it was written for.
-/

namespace DeclOrder.Timestamp

/-- One more digit at the end. -/
theorem ofDigits_concat (digits : List Char) (digit : Char) :
    ofDigits (digits ++ [digit]) = 10 * ofDigits digits + (digit.toNat - '0'.toNat) := by
  simp [ofDigits]

/-- The digits of a number write it. -/
theorem ofDigits_toDigits (number : Nat) : ofDigits (Nat.toDigits 10 number) = number := by
  have digit_value : ∀ digit < 10, digit.digitChar.toNat - '0'.toNat = digit := by decide
  induction number using Nat.strongRecOn with
  | _ number ih =>
    by_cases single : number < 10
    · rw [Nat.toDigits_of_lt_base single]
      exact (ofDigits_concat [] _).trans ((Nat.zero_add _).trans (digit_value number single))
    · rw [Nat.toDigits_of_base_le (by decide) (Nat.le_of_not_lt single), ofDigits_concat,
        ih (number / 10) (by omega), digit_value _ (Nat.mod_lt _ (by decide))]
      exact Nat.div_add_mod number 10

/-- Zeros in front make no difference. -/
theorem ofDigits_zeros_append (zeros : Nat) (digits : List Char) :
    ofDigits (List.replicate zeros '0' ++ digits) = ofDigits digits := by
  induction zeros with
  | zero => rfl
  | succ zeros ih => exact ih

/-- Zeros at the end multiply by powers of ten. -/
theorem ofDigits_append_zeros (digits : List Char) (zeros : Nat) :
    ofDigits (digits ++ List.replicate zeros '0') = ofDigits digits * 10 ^ zeros := by
  induction zeros with
  | zero => simp
  | succ zeros ih =>
    rw [List.replicate_succ', ← List.append_assoc, ofDigits_concat, ih, Nat.sub_self, Nat.add_zero,
      Nat.pow_succ, Nat.mul_comm 10, Nat.mul_assoc]

/-- The characters are decimal digits that write the number. -/
structure Writes (digits : List Char) (number : Nat) : Prop where
  /-- There is a digit. -/
  nonempty : digits ≠ []
  /-- Every character is a digit. -/
  all_digits : ∀ digit ∈ digits, digit.isDigit = true
  /-- Together they write the number. -/
  value : ofDigits digits = number

/-- A digit is not blank. -/
theorem isBlank_of_isDigit {char : Char} (digit : char.isDigit = true) :
    Text.isBlank char = false := by
  have range : 48 ≤ char.toNat ∧ char.toNat ≤ 57 := by
    simpa [Char.isDigit, UInt32.le_iff_toNat_le] using digit
  simp [Text.isBlank]
  omega

/-- A padded number is written by its digits. -/
theorem writes_padded (width number : Nat) : Writes (padded width number).toList number := by
  refine ⟨?_, ?_, ?_⟩
  · simp [padded, Nat.toDigits_ne_nil]
  · intro digit member
    rw [padded, String.toList_ofList] at member
    rcases List.mem_append.mp member with zero | proper
    · rw [List.eq_of_mem_replicate zero]
      decide
    · exact Nat.isDigit_of_mem_toDigits (by decide) (by decide) proper
  · rw [padded, String.toList_ofList, ofDigits_zeros_append, ofDigits_toDigits]

/-- A number that fits the width is padded to it. -/
theorem length_padded {width number : Nat} (positive : 0 < width) (fits : number < 10 ^ width) :
    (padded width number).toList.length = width := by
  have short := (Nat.length_toDigits_le_iff (by decide) positive).mpr fits
  rw [padded, String.toList_ofList, List.length_append, List.length_replicate]
  omega

/-- A character that is no digit ends the digits in front of it. -/
theorem stops_cons {mark : Char} (none : mark.isDigit = false) (rest : List Char) :
    ∀ char ∈ (mark :: rest).head?, char.isDigit = false := by
  simpa using none

namespace Writes

variable {digits rest : List Char} {number most : Nat}

/-- The digits in front of a text are read up to the first character that is none. -/
theorem digits?_eq (writes : Writes digits number) (fits : digits.length ≤ most)
    (stops : ∀ char ∈ rest.head?, char.isDigit = false) :
    digits? most (digits ++ rest) = some (digits, rest) := by
  have stopped : (rest.take (most - digits.length)).takeWhile Char.isDigit = [] := by
    cases rest with
    | nil => simp
    | cons first others =>
      cases most - digits.length with
      | zero => rfl
      | succ count => simp [stops first rfl]
  have taken : ((digits ++ rest).take most).takeWhile Char.isDigit = digits := by
    rw [List.take_append, List.take_of_length_le fits,
      List.takeWhile_append_of_pos writes.all_digits, stopped, List.append_nil]
  obtain ⟨first, others, rfl⟩ := List.exists_cons_of_ne_nil writes.nonempty
  rw [digits?, taken]
  dsimp only
  rw [List.drop_left]

/-- A text that starts with digits does not start with a blank. -/
theorem dropWhile_isBlank (writes : Writes digits number) (rest : List Char) :
    (digits ++ rest).dropWhile Text.isBlank = digits ++ rest := by
  obtain ⟨first, others, rfl⟩ := List.exists_cons_of_ne_nil writes.nonempty
  have digit := writes.all_digits first List.mem_cons_self
  exact List.dropWhile_cons_of_neg (by simp [isBlank_of_isDigit digit])

/-- A number is read from its digits. -/
theorem number?_eq (writes : Writes digits number) (fits : digits.length ≤ most)
    (stops : ∀ char ∈ rest.head?, char.isDigit = false) :
    number? most (digits ++ rest) = some (number, rest) := by
  rw [number?, writes.dropWhile_isBlank, writes.digits?_eq fits stops, Option.map_some]
  dsimp only
  rw [writes.value]

end Writes

/-- A number that fits the width is read from its padded digits. -/
theorem number?_padded {width number : Nat} (positive : 0 < width) (fits : number < 10 ^ width)
    {rest : List Char} (stops : ∀ char ∈ rest.head?, char.isDigit = false) :
    number? width ((padded width number).toList ++ rest) = some (number, rest) :=
  (writes_padded width number).number?_eq (Nat.le_of_eq (length_padded positive fits)) stops

/-- A mark is read. -/
theorem mark?_cons {mark : Char} (proper : Text.isBlank mark = false) (rest : List Char) :
    mark? mark (mark :: rest) = some rest := by
  rw [mark?, List.dropWhile_cons_of_neg (by simp [proper])]
  exact Text.after?_eq_some_iff.mpr rfl

/-- A year without a sign is read from its digits. -/
theorem Writes.year?_eq {digits rest : List Char} {number : Nat} (writes : Writes digits number)
    (fits : digits.length ≤ 4) (stops : ∀ char ∈ rest.head?, char.isDigit = false) :
    year? (digits ++ rest) = some ((number : Int), rest) := by
  have unsigned (sign : Char) (others : List Char) (none : sign.isDigit = false) :
      digits ++ rest ≠ sign :: others := by
    obtain ⟨first, later, rfl⟩ := List.exists_cons_of_ne_nil writes.nonempty
    intro same
    have digit := writes.all_digits first List.mem_cons_self
    rw [(List.cons.inj same).1, none] at digit
    exact Bool.false_ne_true digit
  rw [year?, writes.dropWhile_isBlank]
  split
  · next others shape => exact absurd shape (unsigned _ _ (by decide))
  · next others shape => exact absurd shape (unsigned _ _ (by decide))
  · rw [writes.number?_eq fits stops, Option.map_some]

/-- A year with a sign is read from the digits behind it. -/
theorem Writes.year?_signed {digits rest : List Char} {number : Nat} (writes : Writes digits number)
    (stops : ∀ char ∈ rest.head?, char.isDigit = false) :
    year? ('-' :: (digits ++ rest)) = some (-(number : Int), rest) ∧
      year? ('+' :: (digits ++ rest)) = some ((number : Int), rest) := by
  have read : digits? (digits ++ rest).length (digits ++ rest) = some (digits, rest) :=
    writes.digits?_eq (by simp) stops
  have behind (sign : Char) (proper : Text.isBlank sign = false) :
      (sign :: (digits ++ rest)).dropWhile Text.isBlank = sign :: (digits ++ rest) :=
    List.dropWhile_cons_of_neg (by simp [proper])
  constructor
  · rw [year?, behind '-' (by decide)]
    change Option.map _ (digits? (digits ++ rest).length (digits ++ rest)) = _
    rw [read, Option.map_some]
    dsimp only
    rw [writes.value]
  · rw [year?, behind '+' (by decide)]
    change Option.map _ (digits? (digits ++ rest).length (digits ++ rest)) = _
    rw [read, Option.map_some]
    dsimp only
    rw [writes.value]

/-- A year is read from its text. -/
theorem year?_yearText (year : Int) {rest : List Char}
    (stops : ∀ char ∈ rest.head?, char.isDigit = false) :
    year? ((yearText year).toList ++ rest) = some (year, rest) := by
  have signed := (writes_padded 4 year.natAbs).year?_signed stops
  unfold yearText
  split
  · next within =>
    have fits : (padded 4 year.toNat).toList.length ≤ 4 :=
      Nat.le_of_eq (length_padded (by decide) (by omega))
    rw [(writes_padded 4 year.toNat).year?_eq fits stops, Int.toNat_of_nonneg within.1]
  · next outside =>
    rw [String.toList_append]
    split
    · next negative =>
      have magnitude : -(year.natAbs : Int) = year := by omega
      exact signed.1.trans (by rw [magnitude])
    · next positive =>
      have magnitude : (year.natAbs : Int) = year := by omega
      exact signed.2.trans (by rw [magnitude])

/-- The nanoseconds are read from so many digits of a fraction. -/
theorem fraction?_padded {width number : Nat} (positive : 0 < width) (fits : number < 10 ^ width)
    (most : width ≤ 9) {rest : List Char} (stops : ∀ char ∈ rest.head?, char.isDigit = false) :
    fraction? ('.' :: ((padded width number).toList ++ rest)) =
      some (number * 10 ^ (9 - width), rest) := by
  have writes := writes_padded width number
  have length := length_padded positive fits
  have passed : rest.dropWhile Char.isDigit = rest := by
    cases rest with
    | nil => rfl
    | cons first others => exact List.dropWhile_cons_of_neg (by simp [stops first rfl])
  rw [fraction?, writes.digits?_eq (Nat.le_trans (Nat.le_of_eq length) most) stops]
  dsimp only [bind, Option.bind_some, pure]
  rw [ofDigits_append_zeros, writes.value, length, passed]

/-- The nanoseconds are read from the text of the fraction. -/
theorem fraction?_fractionText {nanosecond : Nat} (fits : nanosecond < 1000000000) :
    fraction? ((fractionText nanosecond).toList ++ ['Z']) = some (nanosecond, ['Z']) := by
  have stops := stops_cons (by decide : 'Z'.isDigit = false) []
  have shape (digits : String) : ("." ++ digits).toList ++ ['Z'] =
      '.' :: (digits.toList ++ ['Z']) := by simp
  unfold fractionText
  split
  · next zero =>
    rw [zero]
    rfl
  · split
    · next millis =>
      rw [shape, fraction?_padded (by decide) (by omega) (by decide) stops]
      congr 2
      omega
    · split
      · next micros =>
        rw [shape, fraction?_padded (by decide) (by omega) (by decide) stops]
        congr 2
        omega
      · rw [shape, fraction?_padded (by decide) (by omega) (by decide) stops]
        congr 2
        omega

/-- What the fields of a moment are bounded by. -/
theorem bounds (time : Timestamp) : time.month < 100 ∧ time.day < 100 ∧ time.hour < 24 ∧
    time.minute < 60 ∧ time.second ≤ 60 ∧ time.nanosecond < 1000000000 := by
  have moment := time.exists_moment
  have days : daysInMonth time.year time.month ≤ 31 := by
    unfold daysInMonth
    split
    · split <;> decide
    · split <;> decide
  simp only [isMoment, Bool.and_eq_true, decide_eq_true_eq] at moment
  omega

/-- The fields of a moment name it. -/
theorem ofFields?_eq (time : Timestamp) :
    ofFields? time.year time.month time.day time.hour time.minute time.second time.nanosecond =
      some time :=
  dif_pos time.exists_moment

/-- Nothing changes without an offset. -/
theorem less?_zero (time : Timestamp) : time.less? 0 = some time := by
  obtain ⟨-, -, hour, minute, -, -⟩ := time.bounds
  have not_before : ¬ (time.hour * 60 + time.minute - 0 : Int) < 0 := by omega
  have not_after : ¬ (1440 : Int) ≤ time.hour * 60 + time.minute - 0 := by omega
  have hours : ((time.hour * 60 + time.minute - 0 : Int) % 1440).toNat / 60 = time.hour := by omega
  have minutes : ((time.hour * 60 + time.minute - 0 : Int) % 1440).toNat % 60 = time.minute := by
    omega
  rw [less?, if_neg not_before, if_neg not_after]
  dsimp only
  rw [hours, minutes, time.ofFields?_eq]

/-- A character that is no digit follows the seconds. -/
theorem fractionText_stops (nanosecond : Nat) :
    ∀ char ∈ ((fractionText nanosecond).toList ++ ['Z']).head?, char.isDigit = false := by
  unfold fractionText
  split
  · simp
  · split
    · simp
    · split <;> simp

/-- A moment is read back from its text. -/
theorem ofText?_text (time : Timestamp) : ofText? time.text = some time := by
  obtain ⟨month, day, hour, minute, second, nanosecond⟩ := time.bounds
  have shape : time.text.toList = (yearText time.year).toList ++ '-' ::
      ((padded 2 time.month).toList ++ '-' :: ((padded 2 time.day).toList ++ 'T' ::
        ((padded 2 time.hour).toList ++ ':' :: ((padded 2 time.minute).toList ++ ':' ::
          ((padded 2 time.second).toList ++
            ((fractionText time.nanosecond).toList ++ ['Z'])))))) := by
    simp [text]
  -- Each part is read with what stands behind it, up to the mark that ends it.
  have dash : '-'.isDigit = false := by decide
  have divider : 'T'.isDigit = false := by decide
  have colon : ':'.isDigit = false := by decide
  have year (rest : List Char) := year?_yearText time.year (stops_cons dash rest)
  have pair {number : Nat} (fits : number < 100) {mark : Char} (none : mark.isDigit = false)
      (rest : List Char) := number?_padded (by decide : 0 < 2) fits (stops_cons none rest)
  have seconds := number?_padded (by decide) (Nat.lt_of_le_of_lt second (by decide : 60 < 10 ^ 2))
    (fractionText_stops time.nanosecond)
  have zone : offset? (['Z'].dropWhile Text.isBlank) = some (0, []) := rfl
  rw [ofText?, shape]
  dsimp only [bind]
  rw [year, Option.bind_some]
  dsimp only
  rw [mark?_cons (by decide), Option.bind_some, pair month dash, Option.bind_some]
  dsimp only
  rw [mark?_cons (by decide), Option.bind_some, pair day divider, Option.bind_some]
  dsimp only
  rw [if_pos (by decide), Option.bind_some, pair (Nat.lt_trans hour (by decide)) colon,
    Option.bind_some]
  dsimp only
  rw [mark?_cons (by decide), Option.bind_some, pair (Nat.lt_trans minute (by decide)) colon,
    Option.bind_some]
  dsimp only
  rw [mark?_cons (by decide), Option.bind_some, seconds, Option.bind_some]
  dsimp only
  rw [fraction?_fractionText nanosecond, Option.bind_some]
  dsimp only
  rw [zone, Option.bind_some]
  dsimp only
  rw [time.ofFields?_eq, Option.bind_some, if_pos List.all_nil, time.less?_zero]

end DeclOrder.Timestamp
