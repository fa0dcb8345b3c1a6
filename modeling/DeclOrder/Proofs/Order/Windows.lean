import DeclOrder.Order.Window

/-!
# What windows say

The two ends of a window in terms of the order: a block is placed beyond its earliest dependent
exactly when some block at a smaller place refers to it, whether or not the end of the window is
the last place for want of a dependent, and a place reaches its latest dependency when it reaches
the place of every name that the block refers to.
-/

namespace DeclOrder.Order

variable {blocks : List Block} {block : Block} {place : Nat}

/-- A window contains the places from its latest dependency to its earliest dependent. -/
theorem Window.contains_iff {window : Window} :
    window.contains place = true ↔
      window.latestDependency ≤ place ∧ place ≤ window.earliestDependent := by
  simp [Window.contains]

/-- A place is beyond the earliest dependent of a block exactly when some block at a smaller place
refers to the block. -/
theorem earliestDependent_lt_iff (inside : place < blocks.length) :
    (window blocks block).earliestDependent < place ↔
      ∃ (earlier : Nat) (other : Block),
        earlier < place ∧ blocks[earlier]? = some other ∧ block.name ∈ other.references := by
  cases found : firstDependent? blocks block.name with
  | none =>
    have none_refers := List.findIdx?_eq_none_iff.mp found
    constructor
    · intro beyond
      simp only [window, found, Option.getD_none] at beyond
      omega
    · rintro ⟨earlier, other, _, stands, refers⟩
      have refuted := none_refers other (List.mem_of_getElem? stands)
      exact absurd refers (of_decide_eq_false refuted)
  | some first =>
    obtain ⟨firstInside, refers, least⟩ := List.findIdx?_eq_some_iff_getElem.mp found
    simp only [window, found, Option.getD_some]
    constructor
    · intro before
      exact ⟨first, blocks[first], before, List.getElem?_eq_getElem firstInside,
        of_decide_eq_true refers⟩
    · rintro ⟨earlier, other, before, stands, otherRefers⟩
      obtain ⟨otherInside, rfl⟩ := List.getElem?_eq_some_iff.mp stands
      have notSooner : ¬ earlier < first := fun sooner =>
        least earlier sooner (decide_eq_true otherRefers)
      omega

/-- The latest dependency of a block is within a place when every place of a name that the block
refers to is. -/
theorem latestDependency_le_iff :
    (window blocks block).latestDependency ≤ place ↔
      ∀ name ∈ block.references, ∀ dependency, place? blocks name = some dependency →
        dependency ≤ place := by
  have within (places : List Nat) :
      places.max?.getD 0 ≤ place ↔ ∀ other ∈ places, other ≤ place := by
    constructor
    · intro bound other member
      exact Nat.le_trans (List.le_max?_getD_of_mem member) bound
    · intro bound
      cases greatest : places.max? with
      | none => exact Nat.zero_le _
      | some maximum => exact bound maximum (List.max?_mem greatest)
  simp only [window, within, List.mem_filterMap, forall_exists_index, and_imp]
  exact ⟨fun bound name refers dependency found => bound dependency name refers found,
    fun bound dependency name refers found => bound name refers dependency found⟩

end DeclOrder.Order
