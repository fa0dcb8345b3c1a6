import DeclOrder.Glob
import Mathlib.Data.List.Basic

/-!
# Escaped patterns

An escaped text is a pattern that matches the text and nothing else, and its components are the
escaped components of the text. The characters that a pattern has literal tokens for are its own.
-/

namespace DeclOrder.Glob

/-- The character has a meaning of its own in a pattern. -/
def isWild (char : Char) : Bool := ['?', '*', '[', ']'].contains char

/-- The pattern that matches the character and nothing else. -/
def escapedChar (char : Char) : List Char := if isWild char then ['[', char, ']'] else [char]

/-- The token of a pattern that matches the character and nothing else. -/
def standing (char : Char) : Token := if isWild char then .within [.single char] else .literal char

/-- The characters of an escaped text. -/
theorem toList_escape (text : String) : (escape text).toList = text.toList.flatMap escapedChar := by
  rw [escape, String.toList_join, List.flatMap_map]
  apply congrArg (List.flatMap · text.toList)
  funext char
  rw [escapedChar, isWild]
  split <;> simp

variable {char : Char} {chars : List Char}

/-- A slash has no meaning of its own. -/
theorem ne_slash_of_isWild (wild : isWild char = true) : char ≠ '/' := by
  rintro rfl
  exact absurd wild (by decide)

/-- A character without a meaning of its own is a literal token. -/
theorem compileFrom_plain (plain : isWild char = false) (position : Nat) (before : Option Char)
    (rest : List Char) :
    compileFrom position before (char :: rest) =
      (compileFrom (position + 1) (some char) rest).map (.literal char :: ·) := by
  have others : char ≠ '?' ∧ char ≠ '*' ∧ char ≠ '[' := by
    refine ⟨?_, ?_, ?_⟩ <;> (rintro rfl; exact absurd plain (by decide))
  obtain ⟨noMark, noStar, noBracket⟩ := others
  rw [compileFrom] <;> simp_all

/-- A bracket around one character is a token for it. -/
theorem compileFrom_bracket (wild : isWild char = true) (position : Nat) (before : Option Char)
    (rest : List Char) :
    compileFrom position before ('[' :: char :: ']' :: rest) =
      (compileFrom (position + 3) (some ']') rest).map (.within [.single char] :: ·) := by
  have listed : char ≠ '!' := by
    rintro rfl
    exact absurd wild (by decide)
  have taken : inside? (char :: ']' :: rest) = some ([char], rest) := by simp [inside?]
  have one : items [char] = [.single char] := by simp [items]
  rw [compileFrom]
  · split
    · next inner after found =>
      rw [taken] at found
      obtain ⟨rfl, rfl⟩ := Prod.mk.inj (Option.some.inj found)
      rw [one]
      rfl
    · next missing =>
      rw [taken] at missing
      exact absurd missing (by simp)
  · rintro after same
    exact listed (List.cons.inj same).1

/-- An escaped text is a pattern of tokens for its characters. -/
theorem compileFrom_escaped (position : Nat) (before : Option Char) (chars : List Char) :
    compileFrom position before (chars.flatMap escapedChar) = .ok (chars.map standing) := by
  induction chars generalizing position before with
  | nil => rw [List.flatMap_nil, compileFrom, List.map_nil]
  | cons char rest ih =>
    rw [List.flatMap_cons, List.map_cons]
    cases wild : isWild char with
    | true => simp [escapedChar, standing, wild, compileFrom_bracket wild, ih, Except.map]
    | false => simp [escapedChar, standing, wild, compileFrom_plain wild, ih, Except.map]

/-- An escaped text is compiled to tokens for its characters. -/
theorem compile_escape (text : String) :
    compile (escape text) = .ok (text.toList.map standing) := by
  rw [compile, toList_escape, compileFrom_escaped]

/-- The token of a character is for one character. -/
theorem standing_single (char : Char) : standing char ≠ .run ∧ standing char ≠ .directories := by
  cases wild : isWild char <;> simp [standing, wild]

/-- The token of a character takes the character and no other. -/
theorem takes_standing (char other : Char) : (standing char).takes other = (char == other) := by
  cases wild : isWild char with
  | false => simp [standing, wild, Token.takes]
  | true =>
    have noSlash := ne_slash_of_isWild wild
    by_cases same : char = other
    · simp [standing, wild, Token.takes, Item.holds, ← same, noSlash]
    · simp [standing, wild, Token.takes, Item.holds, same]

/-- A token for one character does not match the empty text. -/
theorem isMatch_single_nil {token : Token} (single : token ≠ .run ∧ token ≠ .directories)
    (tokens : List Token) : isMatch (token :: tokens) [] = false := by
  cases token <;> simp_all [isMatch, matchRow, Token.row]

/-- The tokens of characters match these and nothing else. -/
theorem isMatch_standing (chars text : List Char) :
    isMatch (chars.map standing) text = true ↔ text = chars := by
  induction chars generalizing text with
  | nil => simp [isMatch_nil]
  | cons char rest ih =>
    rw [List.map_cons]
    cases text with
    | nil => simp [isMatch_single_nil (standing_single char)]
    | cons first later =>
      rw [isMatch_takes _ _ _ _ (standing_single char), takes_standing, Bool.and_eq_true, ih,
        beq_iff_eq, List.cons.injEq, eq_comm]

/-- An escaped character other than a slash has no slash. -/
theorem slash_not_mem_escapedChar (other : char ≠ '/') : '/' ∉ escapedChar char := by
  cases wild : isWild char <;> simp [escapedChar, wild, Ne.symm other]

/-- Characters without a slash belong to the first component of what they stand before. -/
theorem splitOn_append_of_not_mem {front : List Char} (plain : '/' ∉ front) (back : List Char) :
    (front ++ back).splitOn '/' = (back.splitOn '/').modifyHead (front ++ ·) := by
  induction front with
  | nil => cases pieces : back.splitOn '/' <;> simp [pieces]
  | cons first front ih =>
    rw [List.mem_cons, not_or] at plain
    rw [List.cons_append, List.splitOn_cons_eq_if_modifyHead,
      if_neg (by simpa using Ne.symm plain.1), ih plain.2, List.modifyHead_modifyHead]
    rfl

/-- The components of an escaped text are the escaped components of the text. -/
theorem splitOn_escaped (chars : List Char) :
    (chars.flatMap escapedChar).splitOn '/' =
      (chars.splitOn '/').map (·.flatMap escapedChar) := by
  induction chars with
  | nil => rfl
  | cons char rest ih =>
    obtain ⟨piece, pieces, shape⟩ := List.exists_cons_of_ne_nil (List.splitOn_ne_nil '/' rest)
    rw [List.flatMap_cons, List.splitOn_cons_eq_if_modifyHead char rest]
    by_cases slash : char = '/'
    · have escaped : escapedChar '/' = ['/'] := by decide
      rw [if_pos (by simpa using slash), slash, escaped, List.singleton_append,
        List.splitOn_cons_eq_if_modifyHead, if_pos (by decide), ih]
      rfl
    · rw [splitOn_append_of_not_mem (slash_not_mem_escapedChar slash), ih,
        if_neg (by simpa using slash), shape]
      rfl

/-- What follows a bracket comes from the text with the bracket. -/
theorem mem_of_mem_inside? {text inner after : List Char}
    (found : inside? text = some (inner, after)) (member : char ∈ after) : char ∈ text := by
  unfold inside? at found
  split at found
  · exact absurd found (by simp)
  · next first rest =>
    split at found
    · exact absurd found (by simp)
    · next close after' ends =>
      obtain ⟨-, rfl⟩ := Prod.mk.inj (Option.some.inj found)
      have inRest : char ∈ rest.dropWhile (· != ']') := by
        rw [ends]
        exact List.mem_cons_of_mem _ member
      exact List.mem_cons_of_mem _ ((rest.dropWhile_sublist _).subset inRest)

/-- A literal token among a token and those of a pattern is the token or one of these. -/
theorem literal_of_map {token : Token} {result : Except SyntaxError (List Token)}
    {tokens : List Token} (compiled : result.map (token :: ·) = .ok tokens)
    (literal : .literal char ∈ tokens) :
    token = .literal char ∨ ∃ later, result = .ok later ∧ .literal char ∈ later := by
  cases result with
  | error error => exact absurd compiled (by simp [Except.map])
  | ok later =>
    obtain rfl := Except.ok.inj compiled
    rcases List.mem_cons.mp literal with same | member
    · exact .inl same.symm
    · exact .inr ⟨later, rfl, member⟩

/-- The characters that a pattern has literal tokens for are its own. -/
theorem mem_of_literal {position : Nat} {before : Option Char} {text : List Char}
    {tokens : List Token} (compiled : compileFrom position before text = .ok tokens)
    (literal : .literal char ∈ tokens) : char ∈ text := by
  fun_induction compileFrom position before text generalizing tokens with
  | case1 => simp_all
  | case2 position before rest ih =>
    obtain same | ⟨later, compiled, member⟩ := literal_of_map compiled literal
    · exact absurd same (by simp)
    · exact List.mem_cons_of_mem _ (ih compiled member)
  | case3 | case4 | case7 | case10 | case12 => exact absurd compiled (by simp)
  | case5 =>
    obtain rfl := Except.ok.inj compiled
    simp at literal
  | case6 position before free rest _ ih =>
    obtain same | ⟨later, compiled, member⟩ := literal_of_map compiled literal
    · exact absurd same (by simp)
    · simp [ih compiled member]
  | case8 position before rest _ _ ih =>
    obtain same | ⟨later, compiled, member⟩ := literal_of_map compiled literal
    · exact absurd same (by simp)
    · exact List.mem_cons_of_mem _ (ih compiled member)
  | case9 position before rest inner after found ih =>
    obtain same | ⟨later, compiled, member⟩ := literal_of_map compiled literal
    · exact absurd same (by simp)
    · simp [mem_of_mem_inside? found (ih compiled member)]
  | case11 position before rest _ inner after found ih =>
    obtain same | ⟨later, compiled, member⟩ := literal_of_map compiled literal
    · exact absurd same (by simp)
    · simp [mem_of_mem_inside? found (ih compiled member)]
  | case13 position before first rest _ _ _ _ _ _ ih =>
    obtain same | ⟨later, compiled, member⟩ := literal_of_map compiled literal
    · simp [Token.literal.inj same]
    · exact List.mem_cons_of_mem _ (ih compiled member)

/-- A pattern without a slash has no literal token for one. -/
theorem slash_of_compile {text : String} {tokens : List Token} (plain : '/' ∉ text.toList)
    (compiled : compile text = .ok tokens) : .literal '/' ∉ tokens :=
  fun literal => plain (mem_of_literal compiled literal)

end DeclOrder.Glob
