import DeclOrder.Text.Ends
import Mathlib.Data.List.DropRight

/-!
# Ends taken off

Taking the elements that satisfy a test off the end of a list is the library's `rdropWhile`. It
leaves a front of the list whose last element fails the test, so taking them off again changes
nothing, and elements that satisfy the test may be put at the end without a difference. A given
front can be taken off piece by piece.
-/

namespace DeclOrder.Text

variable {α : Type} {test : α → Bool}

/-- Taking elements off the end one by one is dropping the longest such tail. -/
theorem dropTailWhile_eq_rdropWhile (test : α → Bool) (elements : List α) :
    dropTailWhile test elements = elements.rdropWhile test := by
  induction elements with
  | nil => rfl
  | cons first rest ih =>
    rw [dropTailWhile, ih, List.rdropWhile, List.rdropWhile, List.reverse_cons,
      List.dropWhile_append]
    cases rest.reverse.dropWhile test with
    | nil => by_cases passes : test first = true <;> simp [passes]
    | cons last others => simp

/-- What is left is a front of the list. -/
theorem front_dropTailWhile (test : α → Bool) (elements : List α) :
    dropTailWhile test elements <+: elements :=
  dropTailWhile_eq_rdropWhile test elements ▸ List.rdropWhile_prefix test elements

/-- What is taken off the end satisfies the test. -/
theorem exists_dropTailWhile_append (test : α → Bool) (elements : List α) :
    ∃ tail, (∀ element ∈ tail, test element = true) ∧
      dropTailWhile test elements ++ tail = elements := by
  refine ⟨(elements.reverse.takeWhile test).reverse, ?_, ?_⟩
  · intro element member
    exact List.mem_takeWhile_imp (List.mem_reverse.mp member)
  · rw [dropTailWhile_eq_rdropWhile, List.rdropWhile, ← List.reverse_append,
      List.takeWhile_append_dropWhile, List.reverse_reverse]

/-- What is left of a list comes from the list. -/
theorem mem_of_mem_dropTailWhile {elements : List α} {element : α}
    (member : element ∈ dropTailWhile test elements) : element ∈ elements :=
  (front_dropTailWhile test elements).subset member

/-- What is left does not end in an element that satisfies the test. -/
theorem getLast_dropTailWhile {elements : List α} {last : α}
    (ends : (dropTailWhile test elements).getLast? = some last) : test last = false := by
  rw [dropTailWhile_eq_rdropWhile] at ends
  have nonempty : elements.rdropWhile test ≠ [] := by
    intro empty
    simp [empty] at ends
  rw [List.getLast?_eq_some_getLast nonempty] at ends
  obtain rfl := Option.some.inj ends
  exact Bool.eq_false_iff.mpr (List.rdropWhile_last_not test elements nonempty)

/-- A list whose last element fails the test stays. -/
theorem dropTailWhile_eq_self {elements : List α}
    (ends : ∀ last, elements.getLast? = some last → test last = false) :
    dropTailWhile test elements = elements := by
  rw [dropTailWhile_eq_rdropWhile, List.rdropWhile_eq_self_iff]
  intro nonempty passes
  exact absurd passes (by simp [ends _ (List.getLast?_eq_some_getLast nonempty)])

/-- An element that fails the test stays in front. -/
theorem dropTailWhile_cons {first : α} (fails : test first = false) (rest : List α) :
    dropTailWhile test (first :: rest) = first :: dropTailWhile test rest := by
  rw [dropTailWhile]
  split
  · next none => rw [none, if_neg (by simp [fails])]
  · rfl

/-- Taking elements off the end again changes nothing. -/
theorem dropTailWhile_idem (elements : List α) :
    dropTailWhile test (dropTailWhile test elements) = dropTailWhile test elements :=
  dropTailWhile_eq_self fun _ ends => getLast_dropTailWhile ends

/-- Elements that satisfy the test make no difference at the end. -/
theorem dropTailWhile_append {elements tail : List α} (passes : ∀ element ∈ tail, test element) :
    dropTailWhile test (elements ++ tail) = dropTailWhile test elements := by
  have passes_reverse : ∀ element ∈ tail.reverse, test element = true := fun element member =>
    passes element (List.mem_reverse.mp member)
  rw [dropTailWhile_eq_rdropWhile, dropTailWhile_eq_rdropWhile, List.rdropWhile,
    List.reverse_append, List.dropWhile_append_of_pos passes_reverse]
  rfl

/-- What is stripped does not start with an element that satisfies the test. -/
theorem dropWhile_strip (test : α → Bool) (elements : List α) :
    (strip test elements).dropWhile test = strip test elements := by
  have front : strip test elements <+: elements.dropWhile test := front_dropTailWhile ..
  cases shape : strip test elements with
  | nil => rfl
  | cons first rest =>
    obtain ⟨tail, whole⟩ := front
    have fails := List.head?_dropWhile_not test elements
    rw [← whole, shape] at fails
    exact List.dropWhile_cons_of_neg (by simpa using fails)

/-- Stripping again changes nothing. -/
theorem strip_strip (test : α → Bool) (elements : List α) :
    strip test (strip test elements) = strip test elements := by
  rw [strip, dropWhile_strip, strip, dropTailWhile_idem]

/-- An element that satisfies the test makes no difference at the start. -/
theorem strip_cons {first : α} (passes : test first = true) (rest : List α) :
    strip test (first :: rest) = strip test rest := by
  rw [strip, List.dropWhile_cons_of_pos passes, strip]

/-- What is stripped off a list comes from the list. -/
theorem mem_of_mem_strip {elements : List α} {element : α}
    (member : element ∈ strip test elements) : element ∈ elements :=
  (elements.dropWhile_sublist test).subset (mem_of_mem_dropTailWhile member)

/-- A front in two pieces is taken off piece by piece. -/
theorem after?_append [DecidableEq α] (first second elements : List α) :
    after? (first ++ second) elements = (after? first elements).bind (after? second) := by
  refine Option.ext fun rest => ?_
  rw [after?_eq_some_iff, Option.bind_eq_some_iff]
  constructor
  · intro whole
    refine ⟨second ++ rest, after?_eq_some_iff.mpr ?_, after?_eq_some_iff.mpr rfl⟩
    rw [whole, List.append_assoc]
  · rintro ⟨middle, taken, left⟩
    rw [after?_eq_some_iff.mp taken, after?_eq_some_iff.mp left, List.append_assoc]

end DeclOrder.Text
