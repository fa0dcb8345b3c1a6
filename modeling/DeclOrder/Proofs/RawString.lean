import DeclOrder.Proofs.VersionConstraint
import Mathlib.Data.List.DropRight

/-!
# Patterns in raw strings

An annotation has its pattern in a raw string. Whoever reads it there reads the pattern character
by character, but a backslash takes the next character with it, even the closing quote. A pattern
that is accepted has no quote, so it is read as it is up to its end; the string is closed there
unless the backslashes at the end of the pattern are odd in number, and it is one line unless the
pattern has a line feed.
-/

namespace DeclOrder.VersionConstraint

/-- Read a raw string of one line from behind its opening quote: its content, and what follows its
closing quote. A backslash takes the next character with it, so a quote that is taken closes
nothing; `taken` tells this of the first character. No line feed may stand in the string. -/
def rawString? (taken : Bool) : List Char → Option (List Char × List Char)
  | [] => none
  | char :: rest =>
    if char = '\n' then none
    else if char = '\x27' ∧ taken = false then some ([], rest)
    else (rawString? (!taken && char == '\\') rest).map fun (content, after) =>
      (char :: content, after)

/-- The raw string in the annotation, as it is read from behind its opening quote. -/
def embedded? (constraint : VersionConstraint) : Option (List Char × List Char) :=
  (Text.after? "constr(regex=r\x27".toList constraint.annotation.toList).bind (rawString? false)

/-- What follows the characters is taken by a backslash at their end that is not taken itself. -/
def takesNext (taken : Bool) (chars : List Char) : Bool :=
  chars.foldl (fun taken char => !taken && char == '\\') taken

/-- The number of backslashes at the end. -/
def backslashes (chars : List Char) : Nat := (chars.rtakeWhile (· == '\\')).length

/-- What follows is taken if the backslashes at the end are odd in number. -/
theorem takesNext_false (chars : List Char) :
    takesNext false chars = decide (backslashes chars % 2 = 1) := by
  induction chars using List.reverseRecOn with
  | nil => rfl
  | append_singleton front last ih =>
    have step : takesNext false (front ++ [last]) = (!takesNext false front && last == '\\') := by
      rw [takesNext, List.foldl_append]
      rfl
    have count : backslashes (front ++ [last]) =
        if last == '\\' then backslashes front + 1 else 0 := by
      rw [backslashes, List.rtakeWhile_concat]
      split
      · rw [List.length_append, List.length_singleton, backslashes]
      · rfl
    rw [step, count, ih]
    by_cases backslash : (last == '\\') = true
    · rw [backslash, Bool.and_true, if_pos rfl, ← decide_not, decide_eq_decide]
      omega
    · rw [Bool.eq_false_iff.mpr backslash, Bool.and_false]
      rfl

/-- Characters of one line without a quote are read as they are, and reading goes on behind them. -/
theorem rawString?_append {front : List Char} (unquoted : '\x27' ∉ front) (taken : Bool)
    (rest : List Char) :
    rawString? taken (front ++ rest) =
      if '\n' ∈ front then none
      else (rawString? (takesNext taken front) rest).map fun (content, after) =>
        (front ++ content, after) := by
  induction front generalizing taken with
  | nil => simp [takesNext]
  | cons char others ih =>
    rw [List.mem_cons, not_or] at unquoted
    have char_unquoted : ¬ (char = '\x27' ∧ taken = false) := fun both => unquoted.1 both.1.symm
    rw [List.cons_append, rawString?, if_neg char_unquoted, ih unquoted.2]
    by_cases feed : char = '\n'
    · rw [if_pos feed, if_pos (feed ▸ List.mem_cons_self)]
    · have member : '\n' ∈ char :: others ↔ '\n' ∈ others := by simp [Ne.symm feed]
      rw [if_neg feed, if_congr member rfl rfl]
      split
      · rfl
      · rw [Option.map_map]
        rfl

/-- The string in an annotation is read as the pattern and closed in front of the last parenthesis,
or it is no string of one line. -/
theorem embedded?_eq (constraint : VersionConstraint) :
    constraint.embedded? =
      if '\n' ∈ constraint.pattern.toList ∨ backslashes constraint.pattern.toList % 2 = 1 then none
      else some (constraint.pattern.toList, [')']) := by
  have opened : Text.after? "constr(regex=r\x27".toList constraint.annotation.toList =
      some (constraint.pattern.toList ++ ['\x27', ')']) := by
    rw [Text.after?_eq_some_iff, annotation_chars, List.append_assoc]
    rfl
  rw [embedded?, opened, Option.bind_some, rawString?_append constraint.unquoted, takesNext_false]
  by_cases feed : '\n' ∈ constraint.pattern.toList
  · rw [if_pos feed, if_pos (.inl feed)]
  · by_cases odd : backslashes constraint.pattern.toList % 2 = 1
    · -- The quote behind the pattern is taken, and no other follows.
      rw [if_neg feed, if_pos (.inr odd), decide_eq_true odd]
      rfl
    · rw [if_neg feed, if_neg (not_or.mpr ⟨feed, odd⟩), decide_eq_false odd]
      simp [rawString?]

/-- The constraints are what accepting a field and a pattern gives. -/
theorem ofPattern_eq_ok_iff {field pattern : String} {constraint : VersionConstraint} :
    ofPattern field pattern = .ok constraint ↔
      constraint.field = field ∧ constraint.pattern = pattern := by
  constructor
  · intro accepted
    rw [ofPattern] at accepted
    split at accepted
    · exact absurd accepted (by simp)
    · split at accepted
      · exact absurd accepted (by simp)
      · exact Except.ok.inj accepted ▸ ⟨rfl, rfl⟩
  · rintro ⟨rfl, rfl⟩
    rw [ofPattern, dif_neg constraint.unquoted, dif_neg constraint.nonempty]

/-- A pattern is accepted if it has no single quote and is not empty. In the annotation of a
constraint that accepts it, the string is closed by the quote in front of the last parenthesis and
has exactly the pattern for its content if and only if the pattern has no line feed and an even
number of backslashes at its end. Otherwise there is no string of one line to read. -/
theorem ofPattern_embeds_iff (field pattern : String) :
    ((∃ constraint, ofPattern field pattern = .ok constraint) ↔
        '\x27' ∉ pattern.toList ∧ pattern ≠ "") ∧
      ∀ constraint, ofPattern field pattern = .ok constraint →
        (constraint.embedded? = some (pattern.toList, [')']) ↔
          '\n' ∉ pattern.toList ∧ backslashes pattern.toList % 2 = 0) ∧
        (constraint.embedded? = none ↔
          '\n' ∈ pattern.toList ∨ backslashes pattern.toList % 2 = 1) := by
  constructor
  · constructor
    · rintro ⟨constraint, accepted⟩
      obtain ⟨-, rfl⟩ := ofPattern_eq_ok_iff.mp accepted
      exact ⟨constraint.unquoted, constraint.nonempty⟩
    · rintro ⟨unquoted, nonempty⟩
      exact ⟨{ field, pattern, unquoted, nonempty }, ofPattern_eq_ok_iff.mpr ⟨rfl, rfl⟩⟩
  · intro constraint accepted
    obtain ⟨-, rfl⟩ := ofPattern_eq_ok_iff.mp accepted
    have parity := Nat.mod_two_eq_zero_or_one (backslashes constraint.pattern.toList)
    rw [embedded?_eq]
    split
    · next broken =>
      refine ⟨iff_of_false (by simp) ?_, iff_of_true rfl broken⟩
      rintro ⟨unbroken, even⟩
      exact broken.elim unbroken (by omega)
    · next whole =>
      obtain ⟨unbroken, notOdd⟩ := not_or.mp whole
      exact ⟨iff_of_true rfl ⟨unbroken, by omega⟩, iff_of_false (by simp) whole⟩

/-- A pattern with backslashes inside and two at its end can be read back from its annotation. -/
theorem ofPattern_embeds_doubled :
    ∃ constraint, ofPattern "oscal_version" "^1\\.[0-9]+\\\\" = .ok constraint ∧
      constraint.annotation = "constr(regex=r'^1\\.[0-9]+\\\\')" ∧
      constraint.embedded? = some ("^1\\.[0-9]+\\\\".toList, [')']) := by
  obtain ⟨accepts, reads⟩ := ofPattern_embeds_iff "oscal_version" "^1\\.[0-9]+\\\\"
  obtain ⟨constraint, accepted⟩ := accepts.mpr (by decide)
  obtain ⟨-, pattern_eq⟩ := ofPattern_eq_ok_iff.mp accepted
  refine ⟨constraint, accepted, ?_, (reads constraint accepted).1.mpr (by decide)⟩
  unfold annotation
  rw [pattern_eq]
  rfl

/-- A pattern with one backslash at its end is accepted although it takes the closing quote with it,
and a pattern with a line feed although it breaks the line: neither can be read back. -/
theorem not_embedded_accepted :
    (∃ constraint, ofPattern "oscal_version" "^1\\.0\\" = .ok constraint ∧
      constraint.annotation = "constr(regex=r'^1\\.0\\')" ∧ constraint.embedded? = none) ∧
    ∃ constraint, ofPattern "oscal_version" "^1\n$" = .ok constraint ∧
      constraint.annotation = "constr(regex=r'^1\n$')" ∧ constraint.embedded? = none := by
  refine ⟨⟨{ pattern := "^1\\.0\\" }, rfl, rfl, ?_⟩, ⟨{ pattern := "^1\n$" }, rfl, rfl, ?_⟩⟩
  · decide
  · decide

end DeclOrder.VersionConstraint
