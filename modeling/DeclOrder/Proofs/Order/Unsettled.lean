import DeclOrder.Proofs.Order.Reference
import DeclOrder.Proofs.Order.Repair

/-!
# The unsettled part of an order

The front of an order whose references all lie within it is settled for good: its blocks are in
their windows, and no repair moves them. What follows is unsettled. Its first block refers to a
later one, so a repair takes a later block to its place: the first of those that refer to it, or
the last of all if none does.
-/

namespace DeclOrder.Order.Repair

/-- The blocks from the first one on that refers to a name neither known nor declared before it. -/
def unsettled (known : List String) : List Block → List Block
  | [] => []
  | block :: rest =>
    if ∀ name ∈ block.references.names, name ∈ known then unsettled (block.name :: known) rest
    else block :: rest

/-- What is unsettled is not longer than the whole. -/
theorem length_unsettled_le (known : List String) (blocks : List Block) :
    (unsettled known blocks).length ≤ blocks.length := by
  induction blocks generalizing known with
  | nil => exact Nat.le_refl _
  | cons block rest ih =>
    unfold unsettled
    split
    · exact Nat.le_succ_of_le (ih _)
    · exact Nat.le_refl _

/-- The blocks before the unsettled ones leave nothing unsettled themselves. -/
theorem exists_settled (known : List String) (blocks : List Block) :
    ∃ done, blocks = done ++ unsettled known blocks ∧ unsettled known done = [] := by
  induction blocks generalizing known with
  | nil => exact ⟨[], rfl, rfl⟩
  | cons block rest ih =>
    by_cases within : ∀ name ∈ block.references.names, name ∈ known
    · obtain ⟨done, whole, settled⟩ := ih (block.name :: known)
      refine ⟨block :: done, ?_, ?_⟩
      · rw [unsettled, if_pos within, List.cons_append, ← whole]
      · rw [unsettled, if_pos within, settled]
    · exact ⟨[], by rw [unsettled, if_neg within, List.nil_append], rfl⟩

/-- Behind a settled front, the names of the front are known. -/
theorem unsettled_append {known : List String} {done : List Block}
    (settled : unsettled known done = []) (rest : List Block) :
    unsettled known (done ++ rest) = unsettled ((done.map (·.name)).reverse ++ known) rest := by
  induction done generalizing known with
  | nil => rfl
  | cons block done ih =>
    unfold unsettled at settled
    split at settled
    · next within =>
      rw [List.cons_append, unsettled, if_pos within, ih settled]
      simp
    · exact absurd settled (List.cons_ne_nil _ _)

/-- In a settled front, a reference is to a known name or to a block at a smaller place. -/
theorem known_or_earlier {known : List String} {done : List Block}
    (settled : unsettled known done = []) {place : Nat} {block : Block}
    (stands : done[place]? = some block) {name : String} (refers : name ∈ block.references) :
    name ∈ known ∨ ∃ (earlier : Nat) (other : Block),
      earlier < place ∧ done[earlier]? = some other ∧ other.name = name := by
  induction done generalizing known place with
  | nil => simp at stands
  | cons first done ih =>
    unfold unsettled at settled
    split at settled
    · next within =>
      cases place with
      | zero =>
        obtain rfl : first = block := by simpa using stands
        exact Or.inl (within name refers)
      | succ place =>
        obtain isKnown | ⟨earlier, other, before, found, same⟩ :=
          ih settled (by simpa using stands)
        · rcases List.mem_cons.mp isKnown with rfl | isKnown
          · exact Or.inr ⟨0, first, Nat.succ_pos place, rfl, rfl⟩
          · exact Or.inl isKnown
        · exact Or.inr ⟨earlier + 1, other, by omega, by simpa using found, same⟩
    · exact absurd settled (List.cons_ne_nil _ _)

/-- The first unsettled block refers to a name that is neither known nor in the front. -/
theorem exists_missing {known : List String} {done later : List Block} {first : Block}
    (settled : unsettled known done = [])
    (rest : unsettled known (done ++ first :: later) = first :: later) :
    ∃ name ∈ first.references, name ∉ known ∧ name ∉ done.map (·.name) := by
  rw [unsettled_append settled, unsettled] at rest
  split at rest
  · have shorter := length_unsettled_le
      (first.name :: ((done.map (·.name)).reverse ++ known)) later
    rw [rest, List.length_cons] at shorter
    omega
  · next outside =>
    push Not at outside
    obtain ⟨name, refers, missing⟩ := outside
    refine ⟨name, refers, fun isKnown => ?_, fun declared => ?_⟩
    · exact missing (List.mem_append_right _ isKnown)
    · exact missing (List.mem_append_left _ (List.mem_reverse.mpr declared))

/-- Dependencies are first exactly when nothing is unsettled. -/
theorem dependenciesFirst_iff {blocks : List Block} :
    DependenciesFirst blocks ↔ unsettled [] blocks = [] := by
  constructor
  · intro first
    obtain ⟨done, whole, settled⟩ := exists_settled [] blocks
    cases rest : unsettled [] blocks with
    | nil => rfl
    | cons block later =>
      rw [rest] at whole
      obtain ⟨name, refers, _, missing⟩ := exists_missing settled (whole ▸ rest)
      obtain ⟨earlier, other, before, found, same⟩ :=
        first done.length block (by rw [whole]; simp) name refers
      rw [whole, List.getElem?_append_left before] at found
      exact absurd (List.mem_map.mpr ⟨other, List.mem_of_getElem? found, same⟩) missing
  · intro settled place block stands name refers
    exact (known_or_earlier settled stands refers).resolve_left List.not_mem_nil

section

variable {done later : List Block} {first : Block}

/-- The blocks of a settled front are in their windows. -/
theorem contains_of_settled {rest : List Block} (resolved : Resolved (done ++ rest))
    (settled : unsettled [] done = []) {place : Nat} {block : Block}
    (stands : done[place]? = some block) :
    (window (done ++ rest) block).contains place = true := by
  obtain ⟨inside, _⟩ := List.getElem?_eq_some_iff.mp stands
  have lift {at_ : Nat} {other : Block} (found : done[at_]? = some other) :
      (done ++ rest)[at_]? = some other :=
    (List.getElem?_append_left (List.getElem?_eq_some_iff.mp found).1).trans found
  have back {at_ : Nat} {other : Block} (found : done[at_]? = some other) {name : String}
      (refers : name ∈ other.references) :=
    (known_or_earlier settled found refers).resolve_left List.not_mem_nil
  rw [Window.contains_iff, latestDependency_le_iff]
  refine ⟨fun name refers dependency found => ?_, Nat.not_lt.mp fun beyond => ?_⟩
  · obtain ⟨earlier, other, before, there, rfl⟩ := back stands refers
    rw [place?_eq_some resolved.distinct (lift there)] at found
    obtain rfl := Option.some.inj found
    exact Nat.le_of_lt before
  · have whole : place < (done ++ rest).length := by
      rw [List.length_append]
      omega
    obtain ⟨earlier, other, before, there, refers⟩ := (earliestDependent_lt_iff whole).mp beyond
    rw [List.getElem?_append_left (by omega)] at there
    obtain ⟨evenEarlier, same, stillBefore, found, named⟩ := back there refers
    have places := place_unique resolved.distinct (lift found) (lift stands) named
    omega

/-- The first unsettled block refers to a block behind it. -/
theorem exists_later_dependency (resolved : Resolved (done ++ first :: later))
    (settled : unsettled [] done = [])
    (rest : unsettled [] (done ++ first :: later) = first :: later) :
    ∃ name ∈ first.references, ∃ dependency,
      place? (done ++ first :: later) name = some dependency ∧ done.length < dependency := by
  obtain ⟨name, refers, _, missing⟩ := exists_missing settled rest
  have member : first ∈ done ++ first :: later := by simp
  obtain ⟨dependency, found⟩ := exists_place? (resolved.declared first member name refers)
  refine ⟨name, refers, dependency, found, ?_⟩
  obtain ⟨other, there, rfl⟩ := exists_of_place? found
  rcases Nat.lt_trichotomy dependency done.length with inFront | own | behind
  · rw [List.getElem?_append_left inFront] at there
    exact absurd (List.mem_map.mpr ⟨other, List.mem_of_getElem? there, rfl⟩) missing
  · subst own
    obtain rfl : first = other := by simpa using there
    exact absurd refers (resolved.irreflexive first member)
  · exact behind

/-- The window of the first unsettled block ends at a block behind it, which refers to it or is
the last of all. -/
theorem exists_moved (resolved : Resolved (done ++ first :: later))
    (settled : unsettled [] done = []) (some_later : later ≠ []) :
    ∃ between moved after, later = between ++ moved :: after ∧
      (first.name ∈ moved.references ∨ after = []) ∧
      (window (done ++ first :: later) first).earliestDependent =
        (done ++ first :: between).length := by
  have own : (done ++ first :: later)[done.length]? = some first := by simp
  cases found : firstDependent? (done ++ first :: later) first.name with
  | none =>
    refine ⟨later.dropLast, later.getLast some_later, [], ?_, Or.inr rfl, ?_⟩
    · exact (List.dropLast_append_getLast some_later).symm
    · have positive := List.length_pos_of_ne_nil some_later
      simp only [window, found, Option.getD_none, List.length_append, List.length_cons,
        List.length_dropLast]
      omega
  | some dependent =>
    obtain ⟨inside, refers, _⟩ := List.findIdx?_eq_some_iff_getElem.mp found
    have refers := of_decide_eq_true refers
    rcases Nat.lt_trichotomy dependent done.length with inFront | same | behind
    · rw [List.getElem_append_left inFront] at refers
      obtain ⟨earlier, other, before, there, named⟩ :=
        (known_or_earlier settled (List.getElem?_eq_getElem inFront) refers).resolve_left
          List.not_mem_nil
      have places := place_unique resolved.distinct
        ((List.getElem?_append_left (by omega)).trans there) own named
      omega
    · subst same
      have irreflexive := resolved.irreflexive first (by simp)
      simp only [List.getElem_append_right (Nat.le_refl _), Nat.sub_self,
        List.getElem_cons_zero] at refers
      exact absurd refers irreflexive
    · obtain ⟨offset, rfl⟩ : ∃ offset, dependent = done.length + (offset + 1) :=
        ⟨dependent - done.length - 1, by omega⟩
      have room : offset < later.length := by
        simp only [List.length_append, List.length_cons] at inside
        omega
      simp only [List.getElem_append_right (Nat.le_add_right _ _), Nat.add_sub_cancel_left,
        List.getElem_cons_succ] at refers
      refine ⟨later.take offset, later[offset], later.drop (offset + 1), ?_, Or.inl refers, ?_⟩
      · simp
      · simp only [window, found, Option.getD_some, List.length_append, List.length_cons,
          List.length_take, Nat.min_eq_left (Nat.le_of_lt room)]

/-- What a repair does while something is unsettled: a later block, which refers to the first
unsettled one or is the last of all, is put in front of that one. -/
theorem step?_of_unsettled {blocks : List Block} (resolved : Resolved blocks)
    (rest : unsettled [] blocks = first :: later) :
    ∃ done between moved after, later = between ++ moved :: after ∧
      blocks = done ++ first :: (between ++ moved :: after) ∧ unsettled [] done = [] ∧
      (first.name ∈ moved.references ∨ after = []) ∧
      step? blocks = some (done ++ moved :: first :: (between ++ after)) := by
  obtain ⟨done, whole, settled⟩ := exists_settled [] blocks
  rw [rest] at whole
  subst whole
  obtain ⟨name, refers, dependency, found, behind⟩ :=
    exists_later_dependency resolved settled rest
  have some_later : later ≠ [] := by
    rintro rfl
    obtain ⟨other, there, _⟩ := exists_of_place? found
    obtain ⟨inside, _⟩ := List.getElem?_eq_some_iff.mp there
    simp only [List.length_append, List.length_singleton] at inside
    omega
  have outside : (window (done ++ first :: later) first).contains done.length = false := by
    rw [← Bool.not_eq_true, Window.contains_iff, latestDependency_le_iff]
    intro within
    have bound := within.1 name refers dependency found
    omega
  obtain ⟨between, moved, after, split, reason, source⟩ :=
    exists_moved resolved settled some_later
  refine ⟨done, between, moved, after, split, split ▸ rfl, settled, reason, ?_⟩
  have relocated := relocate_append done (first :: between) after moved
  have within (place : Nat) (other : Block) (stands : done[place]? = some other) :=
    contains_of_settled resolved settled stands
  rw [step?, misplaced?_of_front within outside, Option.map_some, source]
  simpa only [split, List.append_assoc, List.cons_append, Option.some.injEq] using relocated

/-- Among resolved blocks there is nothing to repair exactly when dependencies are first. -/
theorem step?_eq_none_iff {blocks : List Block} (resolved : Resolved blocks) :
    step? blocks = none ↔ DependenciesFirst blocks := by
  rw [dependenciesFirst_iff]
  constructor
  · intro finished
    cases rest : unsettled [] blocks with
    | nil => rfl
    | cons first later =>
      obtain ⟨_, _, _, _, _, _, _, _, step⟩ := step?_of_unsettled resolved rest
      exact absurd (finished.symm.trans step) (by simp)
  · intro settled
    have whole : Resolved (blocks ++ []) := by simpa using resolved
    rw [step?, Option.map_eq_none_iff, misplaced?_eq_none_iff]
    intro place block stands
    simpa using contains_of_settled whole settled stands

end

end DeclOrder.Order.Repair
