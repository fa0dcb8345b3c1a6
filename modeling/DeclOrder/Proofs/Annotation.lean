import DeclOrder.Proofs.VersionConstraint

/-!
# Annotations with a default

An annotation is built from plain characters, quoted texts and bracket groups, and only inside a
group may an equals sign stand among the plain characters. As long as the groups are not nested
deeper than the search can count, it passes over each of these parts with the depth that it met it
with and no quote open, so over the whole annotation. So it finds the first equals sign after the
annotation and none where there is none, and a constraint keeps exactly the default.
-/

namespace DeclOrder.VersionConstraint

/-- The kinds of brackets. -/
inductive Bracket where
  /-- Parentheses. -/
  | round
  /-- Square brackets. -/
  | square
  /-- Braces. -/
  | curly
  deriving DecidableEq, Repr

/-- The character that opens a group. -/
def Bracket.opening : Bracket → Char
  | .round => '('
  | .square => '['
  | .curly => '\x7b'

/-- The character that closes a group. -/
def Bracket.closing : Bracket → Char
  | .round => ')'
  | .square => ']'
  | .curly => '\x7d'

/-- The character is no quote and no bracket, and an equals sign only where one may stand. -/
def isPlain (equals : Bool) (char : Char) : Bool :=
  !isQuote char && !(['(', ')', '[', ']', '\x7b', '\x7d'].contains char) && (equals || char != '=')

/-- The text of an annotation, or of a part of one, in which an equals sign may stand among the
plain characters or not, and groups are nested at most to the depth. -/
inductive Balanced : (equals : Bool) → (depth : Nat) → List Char → Prop
  /-- Nothing. -/
  | nil {equals : Bool} {depth : Nat} : Balanced equals depth []
  /-- A plain character and what follows it. -/
  | plain {equals : Bool} {depth : Nat} {char : Char} {rest : List Char}
      (plain : isPlain equals char = true) (after : Balanced equals depth rest) :
      Balanced equals depth (char :: rest)
  /-- A text between two quotes of one kind that does not have this quote inside, and what follows
  it. -/
  | quoted {equals : Bool} {depth : Nat} {quote : Char} {inside rest : List Char}
      (quotes : isQuote quote = true) (missing : quote ∉ inside)
      (after : Balanced equals depth rest) :
      Balanced equals depth (quote :: (inside ++ quote :: rest))
  /-- A group, inside which equals signs may stand, and what follows it. -/
  | group {equals : Bool} {depth : Nat} {inside rest : List Char} (bracket : Bracket)
      (within : Balanced true depth inside) (after : Balanced equals (depth + 1) rest) :
      Balanced equals (depth + 1) (bracket.opening :: (inside ++ bracket.closing :: rest))

/-- Plain characters in front leave a text balanced. -/
theorem Balanced.plains {equals : Bool} {depth : Nat} {front rest : List Char}
    (plain : front.all (isPlain equals) = true) (after : Balanced equals depth rest) :
    Balanced equals depth (front ++ rest) := by
  induction front with
  | nil => exact after
  | cons char others ih =>
    rw [List.all_cons, Bool.and_eq_true] at plain
    exact .plain plain.1 (ih plain.2)

section Search

variable {depth : Int32}

/-- An opening bracket adds to the depth. -/
theorem default?_opening (bracket : Bracket) (rest : List Char) :
    default? depth none (bracket.opening :: rest) = default? (depth + 1) none rest := by
  cases bracket <;> rfl

/-- A closing bracket takes from the depth. -/
theorem default?_closing (bracket : Bracket) (rest : List Char) :
    default? depth none (bracket.closing :: rest) = default? (depth - 1) none rest := by
  cases bracket <;> rfl

/-- A quote opens a quoted text. -/
theorem default?_quote {quote : Char} (quotes : isQuote quote = true) (rest : List Char) :
    default? depth none (quote :: rest) = default? depth (some quote) rest := by
  rw [default?]
  exact if_pos quotes

/-- A plain character is passed over, an equals sign only inside brackets. -/
theorem default?_plain {equals : Bool} {char : Char} (plain : isPlain equals char = true)
    (inside : equals = true → depth ≠ 0) (rest : List Char) :
    default? depth none (char :: rest) = default? depth none rest := by
  simp only [isPlain, Bool.and_eq_true, Bool.not_eq_true', Bool.or_eq_true, bne_iff_ne,
    List.contains_eq_mem, List.mem_cons, List.not_mem_nil, or_false, decide_eq_false_iff_not,
    not_or] at plain
  obtain ⟨⟨unquoted, opens_round, closes_round, opens_square, closes_square, opens_curly,
    closes_curly⟩, allowed⟩ := plain
  have no_default : ¬ (char = '=' ∧ depth = 0) := fun ⟨sign, outside⟩ =>
    allowed.elim (fun equals => inside equals outside) (fun different => different sign)
  rw [default?]
  simp [unquoted, opens_round, closes_round, opens_square, closes_square, opens_curly, closes_curly,
    no_default]

/-- As many open brackets as can be counted, but one at least, are not counted as none. -/
theorem ofNat_ne_zero {opened : Nat} (positive : 0 < opened)
    (fits : opened ≤ Int32.maxValue.toNatClampNeg) : Int32.ofNat opened ≠ 0 := by
  intro none
  have counted : (Int32.ofNat opened).toInt = opened :=
    Int32.toInt_ofNat_of_lt (Nat.lt_succ_of_le fits)
  rw [none, Int32.toInt_zero] at counted
  omega

/-- A balanced text is passed over with the depth that it was met with, as long as all its brackets
can be counted. Outside brackets it must have no equals sign among its plain characters. -/
theorem Balanced.default?_append {equals : Bool} {nested : Nat} {text : List Char}
    (balanced : Balanced equals nested text) {opened : Nat}
    (fits : opened + nested ≤ Int32.maxValue.toNatClampNeg) (inside : equals = true → 0 < opened)
    (rest : List Char) :
    default? (.ofNat opened) none (text ++ rest) = default? (.ofNat opened) none rest := by
  induction balanced generalizing opened rest with
  | nil => rfl
  | plain plain _ ih =>
    rw [List.cons_append, default?_plain plain fun allowed =>
      ofNat_ne_zero (inside allowed) (by omega)]
    exact ih fits inside rest
  | quoted quotes missing _ ih =>
    rw [List.cons_append, List.append_assoc, List.cons_append, default?_quote quotes,
      default?_quoted missing]
    exact ih fits inside rest
  | group bracket _ _ ih_within ih_after =>
    -- Inside the group one bracket more is open, whatever is open outside.
    have deeper : Int32.ofNat opened + 1 = .ofNat (opened + 1) := (Int32.ofNat_add opened 1).symm
    have back : Int32.ofNat (opened + 1) - 1 = .ofNat opened := by
      rw [← deeper, Int32.add_sub_cancel]
    rw [List.cons_append, List.append_assoc, List.cons_append, default?_opening, deeper,
      ih_within (by omega) (fun _ => Nat.succ_pos opened), default?_closing,
      back]
    exact ih_after fits inside rest

/-- Opening brackets that follow each other are counted. -/
theorem default?_openings (bracket : Bracket) (opened count : Nat) (rest : List Char) :
    default? (.ofNat opened) none (List.replicate count bracket.opening ++ rest) =
      default? (.ofNat (opened + count)) none rest := by
  induction count generalizing opened with
  | zero => rfl
  | succ count ih =>
    have deeper : Int32.ofNat opened + 1 = .ofNat (opened + 1) := (Int32.ofNat_add opened 1).symm
    rw [List.replicate_succ, List.cons_append, default?_opening, deeper, ih]
    congr 2
    omega

/-- Beyond what can be counted an equals sign is found inside brackets: once the count has wrapped
around, they are taken for closed. -/
theorem default?_wrapped (bracket : Bracket) (rest : List Char) :
    default? 0 none (List.replicate Int32.size bracket.opening ++ '=' :: rest) = some rest := by
  have around : Int32.ofNat (0 + Int32.size) = 0 := rfl
  have counted := default?_openings bracket 0 Int32.size ('=' :: rest)
  rw [around] at counted
  exact counted

end Search

section Kept

variable {depth : Nat} {annotated : List Char} (balanced : Balanced false depth annotated)
  (fits : depth ≤ Int32.maxValue.toNatClampNeg)

include balanced fits

/-- An annotation is passed over. -/
theorem default?_balanced (rest : List Char) :
    default? 0 none (annotated ++ rest) = default? 0 none rest :=
  balanced.default?_append (by rwa [Nat.zero_add])
    (fun allowed => absurd allowed Bool.false_ne_true) rest

/-- What follows the first equals sign after an annotation is kept, without blanks around it. -/
theorem kept_balanced_equals (value : List Char) :
    kept (annotated ++ '=' :: value) = " = ".toList ++ Text.trim value := by
  have found : default? 0 none (annotated ++ '=' :: value) = some value := by
    rw [default?_balanced balanced fits]
    rfl
  rw [kept, found]

/-- An annotation alone has no default. -/
theorem kept_balanced : kept annotated = [] := by
  have missing : default? 0 none annotated = none := by
    rw [← List.append_nil annotated, default?_balanced balanced fits]
    rfl
  rw [kept, missing]

end Kept

/-- A constraint keeps the default exactly. Where the field, which begins with a character that is
not blank, is declared with a balanced annotation whose nested brackets can be counted, the
annotation of the constraint takes its place; the indentation stays, and the default is what follows
the first equals sign after the annotation, whatever it is, without the blanks around it. Without
such a sign there is no default. -/
theorem constrainLine?_balanced (constraint : VersionConstraint)
    (nonempty : constraint.field ≠ "")
    (visible : constraint.field.toList.head?.any Text.isBlank = false)
    {indent gap annotated : String} (blank_indent : Text.isBlankLine indent = true)
    (blank_gap : Text.isBlankLine gap = true) {depth : Nat}
    (balanced : Balanced false depth annotated.toList)
    (fits : depth ≤ Int32.maxValue.toNatClampNeg) :
    (∀ value : String,
      constraint.constrainLine?
          (indent ++ constraint.field ++ gap ++ ":" ++ annotated ++ "=" ++ value) =
        some (indent ++ constraint.field ++ ": " ++ constraint.annotation ++ " = " ++
          String.ofList (Text.trim value.toList))) ∧
      constraint.constrainLine? (indent ++ constraint.field ++ gap ++ ":" ++ annotated) =
        some (indent ++ constraint.field ++ ": " ++ constraint.annotation) := by
  have declaration (rest : List Char) : constraint.constrainLine?
      (String.ofList (indent.toList ++ (constraint.field.toList ++
        (gap.toList ++ ':' :: rest)))) =
      some (String.ofList (constraint.written indent.toList (kept rest))) := by
    refine constraint.constrainLine?_declaration (List.all_eq_true.mp blank_indent)
      (List.all_eq_true.mp blank_gap) ?_
    have listed : constraint.field.toList ≠ [] := mt String.toList_eq_nil_iff.mp nonempty
    rwa [List.head?_append_of_ne_nil _ listed]
  constructor
  · intro value
    have line_eq : indent ++ constraint.field ++ gap ++ ":" ++ annotated ++ "=" ++ value =
        String.ofList (indent.toList ++ (constraint.field.toList ++
          (gap.toList ++ ':' :: (annotated.toList ++ '=' :: value.toList)))) := by
      rw [← String.toList_inj]
      simp
    have result_eq : indent ++ constraint.field ++ ": " ++ constraint.annotation ++ " = " ++
          String.ofList (Text.trim value.toList) =
        String.ofList
          (constraint.written indent.toList (" = ".toList ++ Text.trim value.toList)) := by
      rw [← String.toList_inj]
      simp [written]
    rw [line_eq, declaration, kept_balanced_equals balanced fits, result_eq]
  · have line_eq : indent ++ constraint.field ++ gap ++ ":" ++ annotated =
        String.ofList (indent.toList ++ (constraint.field.toList ++
          (gap.toList ++ ':' :: annotated.toList))) := by
      rw [← String.toList_inj]
      simp
    have result_eq : indent ++ constraint.field ++ ": " ++ constraint.annotation =
        String.ofList (constraint.written indent.toList []) := by
      rw [← String.toList_inj]
      simp [written]
    rw [line_eq, declaration, kept_balanced balanced fits, result_eq]

/-- An annotation with a bracket in quotes, quotes in brackets, and equals signs in both. -/
def entangled : String := " \"[=\" constr(regex=r'^[a=]$', tags=\x7b\"'\"\x7d)"

/-- The entangled annotation is balanced, with groups in groups. -/
theorem balanced_entangled : Balanced false 2 entangled.toList := by
  have shape : entangled.toList = " ".toList ++ '"' :: ("[=".toList ++ '"' :: (" constr".toList ++
      '(' :: (("regex=r".toList ++ '\x27' :: ("^[a=]$".toList ++ '\x27' :: (", tags=".toList ++
        '\x7b' :: (('"' :: ("\x27".toList ++ '"' :: [])) ++ '\x7d' :: [])))) ++ ')' :: []))) := rfl
  have tags : Balanced true 0 ('"' :: ("\x27".toList ++ '"' :: [])) :=
    .quoted (by decide) (by decide) .nil
  have inside : Balanced true 1 ("regex=r".toList ++ '\x27' :: ("^[a=]$".toList ++ '\x27' ::
      (", tags=".toList ++ '\x7b' :: (('"' :: ("\x27".toList ++ '"' :: [])) ++ '\x7d' :: [])))) :=
    .plains (by decide) (.quoted (by decide) (by decide)
      (.plains (by decide) (.group .curly tags .nil)))
  rw [shape]
  exact .plains (by decide) (.quoted (by decide) (by decide)
    (.plains (by decide) (.group .round inside .nil)))

/-- The default behind the entangled annotation is kept with its own brackets and equals sign. -/
theorem constrainLine?_balanced_entangled :
    ({} : VersionConstraint).constrainLine?
        ("  oscal_version\t:" ++ entangled ++ "=  Field(..., a='=')") =
        some "  oscal_version: constr(regex=r'^1\\.[0-9]+\\.[0-9]+$') = Field(..., a='=')" ∧
      ({} : VersionConstraint).constrainLine? ("  oscal_version\t:" ++ entangled) =
        some "  oscal_version: constr(regex=r'^1\\.[0-9]+\\.[0-9]+$')" := by
  have kept := constrainLine?_balanced {} (by decide) (by decide)
    (by decide : Text.isBlankLine "  " = true) (by decide : Text.isBlankLine "\t" = true)
    balanced_entangled (by decide)
  exact ⟨kept.1 "  Field(..., a='=')", kept.2⟩

end DeclOrder.VersionConstraint
