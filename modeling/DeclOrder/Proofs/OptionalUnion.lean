import DeclOrder.Proofs.Mention
import Mathlib.Data.List.DropRight

/-!
# First alternatives of optional unions

The scan for optional unions goes on behind each alternative that it takes. An opening behind
another one is therefore passed over, unless a comma or a closing bracket stands between the two:
then the alternative of the earlier one has come to its end, and the later one is found wherever it
stands.
-/

namespace DeclOrder.Mention

open DeclOrder.Text

/-- An opening of an optional union stands in the text, and its first alternative has not come to
its end. -/
def Covered (before : List Char) : Prop := unionOpening.toList <:+: before.rtakeWhile inAlternative

instance (before : List Char) : Decidable (Covered before) :=
  inferInstanceAs (Decidable (unionOpening.toList <:+: before.rtakeWhile inAlternative))

/-- An opening covers what follows it up to a comma or a closing bracket. -/
theorem covered_iff {before : List Char} :
    Covered before ↔ ∃ front inside, before = front ++ (unionOpening.toList ++ inside) ∧
      ∀ char ∈ inside, inAlternative char = true := by
  constructor
  · rintro ⟨start, inside, whole⟩
    have parted : before.rdropWhile inAlternative ++ before.rtakeWhile inAlternative = before :=
      List.rdropWhile_append_rtakeWhile
    refine ⟨before.rdropWhile inAlternative ++ start, inside, ?_, ?_⟩
    · calc before
          = before.rdropWhile inAlternative ++ before.rtakeWhile inAlternative := parted.symm
        _ = before.rdropWhile inAlternative ++ start ++ (unionOpening.toList ++ inside) := by
          rw [← whole]
          simp only [List.append_assoc]
    · intro char member
      have taken : char ∈ before.rtakeWhile inAlternative :=
        whole ▸ List.mem_append_right _ member
      exact List.mem_rtakeWhile_imp taken
  · rintro ⟨front, inside, rfl, passes⟩
    have all_pass : ∀ char ∈ (unionOpening.toList ++ inside).reverse,
        inAlternative char = true := by
      intro char member
      rcases List.mem_append.mp (List.mem_reverse.mp member) with opening | behind
      · have opening_passes : ∀ char ∈ unionOpening.toList, inAlternative char = true :=
          List.all_eq_true.mp (by decide)
        exact opening_passes char opening
      · exact passes char behind
    rw [Covered, List.rtakeWhile, List.reverse_append, List.takeWhile_append_of_pos all_pass,
      List.reverse_append, List.reverse_reverse]
    exact ⟨_, inside, List.append_assoc _ _ _⟩

/-- What is covered stays so behind more. -/
theorem Covered.append (front : List Char) {before : List Char} (covered : Covered before) :
    Covered (front ++ before) := by
  obtain ⟨start, inside, rfl, passes⟩ := covered_iff.mp covered
  exact covered_iff.mpr ⟨front ++ start, inside, (List.append_assoc _ _ _).symm, passes⟩

/-- What is covered behind a text without brackets is covered by itself, if the text does not end in
a letter of the opening. -/
theorem Covered.of_append {head text : List Char} (plain : '[' ∉ head)
    (ends : ∀ last ∈ head.getLast?, last ∉ unionOpening.toList) (covered : Covered (head ++ text)) :
    Covered text := by
  obtain ⟨front, inside, whole, passes⟩ := covered_iff.mp covered
  rcases List.append_eq_append_iff.mp whole with ⟨middle, -, text_eq⟩ | ⟨middle, head_eq, opened⟩
  · exact covered_iff.mpr ⟨middle, inside, text_eq, passes⟩
  · by_cases empty : middle = []
    · rw [empty, List.nil_append] at opened
      exact covered_iff.mpr ⟨[], inside, opened.symm, passes⟩
    · have last_mem : middle.getLast empty ∈ head.getLast? := by
        rw [head_eq, List.getLast?_append, List.getLast?_eq_some_getLast empty]
        rfl
      rcases List.append_eq_append_iff.mp opened with ⟨rest, middle_eq, -⟩ | ⟨rest, opening_eq, -⟩
      · have bracket : '[' ∈ unionOpening.toList := by decide
        exact absurd (head_eq ▸ List.mem_append_right front
          (middle_eq ▸ List.mem_append_left rest bracket)) plain
      · refine absurd ?_ (ends _ last_mem)
        rw [opening_eq]
        exact List.mem_append_left rest (List.getLast_mem empty)

/-- No union opens at the front of a text that does not start with the opening. -/
theorem unionTokens_unopened {char : Char} {rest : List Char}
    (missing : ¬ unionOpening.toList <+: char :: rest) :
    unionTokens (char :: rest) = unionTokens rest := by
  have closed : after? unionOpening.toList (char :: rest) = none := by
    apply Option.eq_none_iff_forall_ne_some.mpr
    intro inside opened
    exact missing ⟨inside, (after?_eq_some_iff.mp opened).symm⟩
  rw [unionTokens]
  split
  · rfl
  · next inside opened => exact absurd (closed.symm.trans opened) (Option.some_ne_none inside).symm

/-- Behind the opening of a union stands its first alternative, if that is anything. -/
theorem unionTokens_opening {char : Char} {rest inside : List Char}
    (opens : char :: rest = unionOpening.toList ++ inside) :
    unionTokens (char :: rest) =
      if inside.takeWhile inAlternative = [] then unionTokens rest
      else inside.takeWhile inAlternative :: unionTokens (inside.dropWhile inAlternative) := by
  have opened : after? unionOpening.toList (char :: rest) = some inside :=
    after?_eq_some_iff.mpr opens
  rw [unionTokens]
  split
  · next missing => exact absurd (missing.symm.trans opened) (Option.some_ne_none inside).symm
  · next found standing =>
    obtain rfl := Option.some.inj (opened.symm.trans standing)
    split
    · next empty => rw [if_pos empty]
    · next token nonempty => rw [if_neg nonempty]

/-- An opening that begins in front of another one ends there. -/
theorem opening_of_prefix {before behind : List Char} (nonempty : before ≠ [])
    (opens : unionOpening.toList <+: before ++ (unionOpening.toList ++ behind)) :
    unionOpening.toList <+: before := by
  obtain ⟨inside, whole⟩ := opens
  rcases List.append_eq_append_iff.mp whole with ⟨middle, before_eq, -⟩ | ⟨middle, opening_eq, rest⟩
  · exact ⟨middle, before_eq.symm⟩
  · -- Both openings begin with the same letter, which comes up nowhere else in them.
    cases middle with
    | nil => exact ⟨[], by rw [List.append_nil, opening_eq, List.append_nil]⟩
    | cons letter others =>
      have starts : unionOpening.toList = 'O' :: unionOpening.toList.drop 1 := by decide
      have same : 'O' = letter := by
        rw [starts, List.cons_append, List.cons_append] at rest
        exact (List.cons.inj rest).1
      obtain ⟨first, tail, rfl⟩ := List.exists_cons_of_ne_nil nonempty
      have inside_tail : 'O' ∈ unionOpening.toList.drop 1 := by
        rw [opening_eq, same]
        simp
      exact absurd inside_tail (by decide)

/-- The first alternative of a union that is not covered is found. -/
theorem mem_unionTokens {before first : List Char} (uncovered : ¬ Covered before)
    (nonempty : first ≠ []) (passes : ∀ char ∈ first, inAlternative char = true)
    (rest : List Char) :
    first ∈ unionTokens (before ++ (unionOpening.toList ++ (first ++ ',' :: rest))) := by
  -- The scan goes on behind an alternative, so the induction is on the length of what is before.
  induction length : before.length using Nat.strong_induction_on generalizing before with
  | _ size ih =>
    cases before with
    | nil =>
      have taken : (first ++ ',' :: rest).takeWhile inAlternative = first := by
        rw [List.takeWhile_append_of_pos passes, List.takeWhile_cons_of_neg (by decide),
          List.append_nil]
      have starts : unionOpening.toList = 'O' :: unionOpening.toList.drop 1 := by decide
      have opens : 'O' :: (unionOpening.toList.drop 1 ++ (first ++ ',' :: rest)) =
          unionOpening.toList ++ (first ++ ',' :: rest) := by
        rw [starts]
        rfl
      rw [List.nil_append, ← opens, unionTokens_opening opens, taken, if_neg nonempty]
      exact List.mem_cons_self
    | cons char later =>
      have later_uncovered : ¬ Covered later := fun covered => uncovered (covered.append [char])
      have shorter : later.length < size := by
        rw [← length, List.length_cons]
        omega
      have in_later := ih later.length shorter later_uncovered rfl
      by_cases opens : unionOpening.toList <+:
          char :: later ++ (unionOpening.toList ++ (first ++ ',' :: rest))
      · obtain ⟨inside, whole⟩ := opening_of_prefix (List.cons_ne_nil char later) opens
        have ends : inside.dropWhile inAlternative ≠ [] := by
          intro all
          refine uncovered (covered_iff.mpr ⟨[], inside, whole.symm, ?_⟩)
          exact List.dropWhile_eq_nil_iff.mp all
        have stands : char :: (later ++ (unionOpening.toList ++ (first ++ ',' :: rest))) =
            unionOpening.toList ++ (inside ++ (unionOpening.toList ++ (first ++ ',' :: rest))) := by
          rw [← List.cons_append, ← whole, List.append_assoc]
        rw [List.cons_append, unionTokens_opening stands]
        split
        · exact in_later
        · -- The alternative that begins at the front comes to its end in front of the union.
          have behind : unionOpening.toList ++ inside.takeWhile inAlternative ++
              inside.dropWhile inAlternative = char :: later := by
            rw [List.append_assoc, List.takeWhile_append_dropWhile, whole]
          have uncovered_behind : ¬ Covered (inside.dropWhile inAlternative) := fun covered =>
            uncovered (behind ▸ covered.append _)
          have shorter : (inside.dropWhile inAlternative).length < size := by
            have lengths := congrArg List.length behind
            have opening : unionOpening.toList.length = 15 := by decide
            simp only [List.length_append] at lengths
            omega
          rw [List.dropWhile_append, if_neg (by simpa using ends)]
          exact List.mem_cons_of_mem _ (ih _ shorter uncovered_behind rfl)
      · rw [List.cons_append] at opens ⊢
        rw [unionTokens_unopened opens]
        exact in_later

end DeclOrder.Mention
