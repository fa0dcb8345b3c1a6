import DeclOrder.Proofs.Order.Repair

/-!
# Passes of local repair

A run of local repair makes one repair after another until nothing is left to repair or the cap is
reached. The order it ends with, the repairs it makes and whether it is converged depend on the cap
only through the number of repairs that it allows, so a run can be cut anywhere and taken up again,
and a higher cap changes nothing once a run has converged. Only the pass that finds nothing to
repair is counted apart, and only below the cap.
-/

namespace DeclOrder.Order.Repair

/-- The order after at most so many repairs. -/
def repaired : (count : Nat) → List Block → List Block
  | 0, blocks => blocks
  | count + 1, blocks =>
    match step? blocks with
    | none => blocks
    | some next => repaired count next

/-- The repairs made when at most so many are allowed. -/
def repairs : (count : Nat) → List Block → Nat
  | 0, _ => 0
  | count + 1, blocks =>
    match step? blocks with
    | none => 0
    | some next => repairs count next + 1

section Steps

variable {blocks next : List Block}

/-- Settled blocks stay as they are. -/
theorem repaired_of_settled (nothing : step? blocks = none) (count : Nat) :
    repaired count blocks = blocks := by
  cases count with
  | zero => rfl
  | succ count => rw [repaired, nothing]

/-- No repairs are made among settled blocks. -/
theorem repairs_of_settled (nothing : step? blocks = none) (count : Nat) :
    repairs count blocks = 0 := by
  cases count with
  | zero => rfl
  | succ count => rw [repairs, nothing]

/-- What can be repaired is repaired, and the rest of the repairs follows. -/
theorem repaired_of_step (step : step? blocks = some next) (count : Nat) :
    repaired (count + 1) blocks = repaired count next := by
  rw [repaired, step]

/-- What can be repaired counts, and the rest of the repairs follows. -/
theorem repairs_of_step (step : step? blocks = some next) (count : Nat) :
    repairs (count + 1) blocks = repairs count next + 1 := by
  rw [repairs, step]

end Steps

/-- Repairing goes on where it was cut off. -/
theorem repaired_add (first second : Nat) (blocks : List Block) :
    repaired (first + second) blocks = repaired second (repaired first blocks) := by
  induction first generalizing blocks with
  | zero => rw [Nat.zero_add, repaired]
  | succ first ih =>
    cases step : step? blocks with
    | none => rw [repaired_of_settled step, repaired_of_settled step, repaired_of_settled step]
    | some next => rw [Nat.add_right_comm, repaired_of_step step, repaired_of_step step, ih]

/-- The repairs before a cut and those after it are all repairs. -/
theorem repairs_add (first second : Nat) (blocks : List Block) :
    repairs (first + second) blocks =
      repairs first blocks + repairs second (repaired first blocks) := by
  induction first generalizing blocks with
  | zero => rw [Nat.zero_add, repairs, repaired, Nat.zero_add]
  | succ first ih =>
    cases step : step? blocks with
    | none =>
      rw [repairs_of_settled step, repairs_of_settled step, repaired_of_settled step,
        repairs_of_settled step]
    | some next =>
      rw [Nat.add_right_comm, repairs_of_step step, repairs_of_step step, repaired_of_step step, ih]
      omega

/-- No more repairs are made than are allowed. -/
theorem repairs_le (count : Nat) (blocks : List Block) : repairs count blocks ≤ count := by
  induction count generalizing blocks with
  | zero => exact Nat.le_refl 0
  | succ count ih =>
    cases step : step? blocks with
    | none => exact (repairs_of_settled step _).symm ▸ Nat.zero_le _
    | some next => exact (repairs_of_step step count).symm ▸ Nat.succ_le_succ (ih next)

/-- A run ends with the order that the repairs it allows lead to, counts these repairs, and takes
one more pass to find nothing to repair unless the cap is reached before. -/
theorem repairFrom_eq (moved cap : Nat) (blocks : List Block) :
    repairFrom moved cap blocks =
      { blocks := repaired cap blocks
        passes := moved + min cap (repairs cap blocks + 1)
        relocations := moved + repairs cap blocks
        converged := (step? (repaired cap blocks)).isNone } := by
  induction cap generalizing moved blocks with
  | zero =>
    have settled : settled blocks = (step? blocks).isNone := by
      rw [Bool.eq_iff_iff, settled_iff, Option.isNone_iff_eq_none]
    rw [repairFrom, settled]
    rfl
  | succ cap ih =>
    cases step : step? blocks with
    | none =>
      rw [repaired_of_settled step, repairs_of_settled step, step]
      simp [repairFrom, step]
    | some next =>
      rw [repaired_of_step step, repairs_of_step step]
      simp only [repairFrom, step]
      rw [ih]
      congr 1 <;> omega

/-- A run ends with the order that the repairs it allows lead to. -/
theorem blocks_reorder (cap : Nat) (blocks : List Block) :
    (reorder cap blocks).blocks = repaired cap blocks := by
  rw [reorder, repairFrom_eq]

/-- A run counts the repairs it makes. -/
theorem relocations_reorder (cap : Nat) (blocks : List Block) :
    (reorder cap blocks).relocations = repairs cap blocks := by
  rw [reorder, repairFrom_eq]
  exact Nat.zero_add _

/-- A run is converged if it leaves nothing to repair. -/
theorem converged_reorder (cap : Nat) (blocks : List Block) :
    (reorder cap blocks).converged = (step? (repaired cap blocks)).isNone := by
  rw [reorder, repairFrom_eq]

/-- A run takes a pass for each repair, and one more if the cap allows it. -/
theorem passes_reorder (cap : Nat) (blocks : List Block) :
    (reorder cap blocks).passes = min cap (repairs cap blocks + 1) := by
  rw [reorder, repairFrom_eq, Nat.zero_add]

/-- The block that a repair moves stands in the list. -/
theorem misplaced?_source_lt {blocks : List Block} {target source : Nat}
    (found : misplaced? blocks = some (target, source)) : source < blocks.length := by
  have inside := misplaced?_lt found
  obtain ⟨⟨block, place⟩, -, moved⟩ := List.exists_of_findSome?_eq_some found
  dsimp only at moved
  split at moved
  · exact absurd moved (by simp)
  · obtain ⟨-, rfl⟩ := Prod.mk.inj (Option.some.inj moved)
    rw [window]
    dsimp only
    cases dependent : firstDependent? blocks block.name with
    | none => rw [Option.getD_none]; omega
    | some first => exact (List.findIdx?_eq_some_iff_getElem.mp dependent).1

/-- A block can be taken from where a repair takes it, and put where the repair puts it. -/
theorem step?_eq_insertIdx {blocks next : List Block} (step : step? blocks = some next) :
    ∃ (target source : Nat) (inside : source < blocks.length),
      misplaced? blocks = some (target, source) ∧ target ≤ (blocks.eraseIdx source).length ∧
        next = (blocks.eraseIdx source).insertIdx target blocks[source] := by
  obtain ⟨⟨target, source⟩, found, rfl⟩ := Option.map_eq_some_iff.mp step
  have inside := misplaced?_source_lt found
  have target_inside := misplaced?_lt found
  have room : target ≤ (blocks.eraseIdx source).length := by
    rw [List.length_eraseIdx_of_lt inside]
    omega
  refine ⟨target, source, inside, found, room, ?_⟩
  dsimp only
  rw [relocate, List.getElem?_eq_getElem inside]

/-- Runs of local repair compose. A run that is cut off and taken up again ends as one run with the
sum of the caps does, and makes as many relocations. So once a run has converged, a higher cap
changes nothing. No run takes more passes than its cap or makes more relocations than it takes
passes, and every block is taken from a place of the list and put to one. -/
theorem reorder_composes (blocks : List Block) :
    (∀ first second,
      (reorder second (reorder first blocks).blocks).blocks =
          (reorder (first + second) blocks).blocks ∧
        (reorder second (reorder first blocks).blocks).converged =
          (reorder (first + second) blocks).converged ∧
        (reorder first blocks).relocations +
            (reorder second (reorder first blocks).blocks).relocations =
          (reorder (first + second) blocks).relocations) ∧
      (∀ cap, (reorder cap blocks).converged = true → ∀ higher, cap ≤ higher →
        (reorder higher blocks).blocks = (reorder cap blocks).blocks ∧
          (reorder higher blocks).relocations = (reorder cap blocks).relocations ∧
          (reorder higher blocks).converged = true) ∧
      (∀ cap, (reorder cap blocks).passes ≤ cap ∧
        (reorder cap blocks).relocations ≤ (reorder cap blocks).passes) ∧
      ∀ count next, step? (repaired count blocks) = some next →
        ∃ (target source : Nat) (inside : source < (repaired count blocks).length),
          misplaced? (repaired count blocks) = some (target, source) ∧
            target ≤ ((repaired count blocks).eraseIdx source).length ∧
            next = ((repaired count blocks).eraseIdx source).insertIdx target
              (repaired count blocks)[source] := by
  refine ⟨fun first second => ?_, fun cap converged higher le => ?_, fun cap => ?_,
    fun count next step => step?_eq_insertIdx step⟩
  · simp only [blocks_reorder, converged_reorder, relocations_reorder, repaired_add, repairs_add,
      and_self]
  · rw [converged_reorder, Option.isNone_iff_eq_none] at converged
    obtain ⟨more, rfl⟩ := Nat.exists_eq_add_of_le le
    simp only [blocks_reorder, converged_reorder, relocations_reorder, repaired_add, repairs_add,
      repaired_of_settled converged, repairs_of_settled converged, converged, Nat.add_zero,
      Option.isNone_none, and_self]
  · have few := repairs_le cap blocks
    rw [passes_reorder, relocations_reorder]
    exact ⟨Nat.min_le_left _ _, Nat.le_min.mpr ⟨few, Nat.le_succ _⟩⟩

/-- Blocks two of which have the same name, and all but the last of which refer to a later one. -/
def doubled : List Block :=
  [{ name := "Terms", lines := ["class Terms(Base):"], references := NameSet.ofList ["Offer"] },
   { name := "Offer", lines := ["class Offer(Base):"], references := NameSet.ofList ["Unit"] },
   { name := "Offer", lines := ["class Offer(Base):"] },
   { name := "Unit", lines := ["class Unit(Base):"] }]

/-- Three repairs settle the doubled blocks, the last of which takes a block to a later place, and
no more are made with a higher cap, in one run or in two. -/
theorem reorder_composes_doubled :
    misplaced? (repaired 2 doubled) = some (3, 2) ∧ (reorder 3 doubled).converged = true ∧
      (∀ higher, 3 ≤ higher → (reorder higher doubled).relocations = 3) ∧
      (reorder 1 (reorder 2 doubled).blocks).blocks.map (·.name) =
        ["Unit", "Offer", "Offer", "Terms"] := by
  obtain ⟨resumes, settles, -, -⟩ := reorder_composes doubled
  have converged : (reorder 3 doubled).converged = true := by decide +kernel
  have relocations : (reorder 3 doubled).relocations = 3 := by decide +kernel
  refine ⟨by decide +kernel, converged, fun higher le => ?_, ?_⟩
  · rw [(settles 3 converged higher le).2.1, relocations]
  · rw [(resumes 2 1).1]
    decide +kernel

end DeclOrder.Order.Repair
