import DeclOrder.Order.Repair
import DeclOrder.Proofs.Order.Windows
import Mathlib.Data.List.Perm.Basic

/-!
# Steps and runs of local repair

Local repair relocates blocks and nothing else, so whatever the cap, it returns a permutation of
the blocks. It is converged exactly when its last order has nothing left to repair, whether that
was noticed by a pass of its own or at the cap.
-/

namespace DeclOrder.Order.Repair

/-- Nothing is misplaced exactly when every block is in its window. -/
theorem misplaced?_eq_none_iff {blocks : List Block} :
    misplaced? blocks = none ↔
      ∀ (place : Nat) (block : Block), blocks[place]? = some block →
        (window blocks block).contains place = true := by
  rw [misplaced?, List.findSome?_eq_none_iff]
  simp only [Prod.forall, List.mk_mem_zipIdx_iff_getElem?, ite_eq_left_iff, reduceCtorEq,
    Bool.not_eq_true, imp_false, Bool.not_eq_false]
  exact ⟨fun within place block => within block place, fun within block place => within place block⟩

/-- The first block out of its window is the one to be repaired. -/
theorem misplaced?_of_front {before after : List Block} {block : Block}
    (within : ∀ (place : Nat) (other : Block), before[place]? = some other →
      (window (before ++ block :: after) other).contains place = true)
    (outside : (window (before ++ block :: after) block).contains before.length = false) :
    misplaced? (before ++ block :: after) =
      some (before.length, (window (before ++ block :: after) block).earliestDependent) := by
  rw [misplaced?, List.zipIdx_append, List.findSome?_append, List.zipIdx_cons, List.findSome?_cons]
  rw [List.findSome?_eq_none_iff.mpr, Option.none_or, Nat.zero_add]
  · simp only [outside, Bool.false_eq_true, ↓reduceIte]
  · rintro ⟨other, place⟩ member
    simp only [within place other (List.mk_mem_zipIdx_iff_getElem?.mp member), ↓reduceIte]

/-- An order is settled exactly when there is nothing to repair. -/
theorem settled_iff {blocks : List Block} : settled blocks = true ↔ step? blocks = none := by
  rw [step?, Option.map_eq_none_iff, misplaced?_eq_none_iff, settled, windows, List.zipIdx_map,
    List.all_map, List.all_eq_true]
  simp only [Prod.forall, List.mk_mem_zipIdx_iff_getElem?, Function.comp_apply, Prod.map_apply,
    id_eq]
  exact ⟨fun within place block => within block place, fun within block place => within place block⟩

/-- The block that a repair moves stands in the list, and it goes to a place in the list. -/
theorem misplaced?_lt {blocks : List Block} {target source : Nat}
    (found : misplaced? blocks = some (target, source)) : target < blocks.length := by
  obtain ⟨⟨block, place⟩, member, moved⟩ := List.exists_of_findSome?_eq_some found
  have stands := List.mk_mem_zipIdx_iff_getElem?.mp member
  obtain ⟨inside, _⟩ := List.getElem?_eq_some_iff.mp stands
  dsimp only at moved
  split at moved
  · exact absurd moved (by simp)
  · obtain ⟨rfl, _⟩ := Prod.mk.inj (Option.some.inj moved)
    exact inside

/-- Relocating a block to a place in the list keeps the blocks. -/
theorem relocate_perm {blocks : List Block} {source target : Nat}
    (inside : target < blocks.length) : (relocate source target blocks).Perm blocks := by
  unfold relocate
  cases found : blocks[source]? with
  | none => exact List.Perm.refl _
  | some block =>
    obtain ⟨stands, rfl⟩ := List.getElem?_eq_some_iff.mp found
    have room : target ≤ (blocks.eraseIdx source).length := by
      rw [List.length_eraseIdx_of_lt stands]
      omega
    exact (List.perm_insertIdx _ _ room).trans (List.getElem_cons_eraseIdx_perm stands)

/-- Relocating to an earlier place puts the block in front of all that stood between. -/
theorem relocate_append (before between after : List Block) (moved : Block) :
    relocate (before ++ between).length before.length (before ++ between ++ moved :: after) =
      before ++ moved :: (between ++ after) := by
  have found : (before ++ between ++ moved :: after)[(before ++ between).length]? = some moved := by
    simp
  have put (rest : List Block) : (before ++ rest).insertIdx before.length moved =
      before ++ moved :: rest := by
    induction before with
    | nil => rfl
    | cons first before ih => simpa using ih
  rw [relocate, found]
  dsimp only
  rw [List.eraseIdx_append_of_length_le (Nat.le_refl _), Nat.sub_self, List.eraseIdx_cons_zero,
    List.append_assoc, put]

/-- A repair keeps the blocks. -/
theorem step?_perm {blocks next : List Block} (step : step? blocks = some next) :
    next.Perm blocks := by
  obtain ⟨⟨target, source⟩, found, rfl⟩ := Option.map_eq_some_iff.mp step
  exact relocate_perm (misplaced?_lt found)

/-- Any number of repairs keep the blocks. -/
theorem repairFrom_perm (moved cap : Nat) (blocks : List Block) :
    (repairFrom moved cap blocks).blocks.Perm blocks := by
  induction cap generalizing moved blocks with
  | zero => exact List.Perm.refl _
  | succ cap ih =>
    cases step : step? blocks with
    | none => simp only [repairFrom, step, List.Perm.refl]
    | some next =>
      simp only [repairFrom, step]
      exact (ih (moved + 1) next).trans (step?_perm step)

/-- Local repair keeps the blocks. -/
theorem reorder_perm (cap : Nat) (blocks : List Block) :
    (reorder cap blocks).blocks.Perm blocks := repairFrom_perm 0 cap blocks

/-- Repairs are converged exactly when the last order has nothing to repair. -/
theorem repairFrom_converged_iff (moved cap : Nat) (blocks : List Block) :
    (repairFrom moved cap blocks).converged = true ↔
      step? (repairFrom moved cap blocks).blocks = none := by
  induction cap generalizing moved blocks with
  | zero => exact settled_iff
  | succ cap ih =>
    cases step : step? blocks with
    | none => simp only [repairFrom, step]
    | some next =>
      simp only [repairFrom, step]
      exact ih (moved + 1) next

/-- Settled blocks are repaired to themselves. -/
theorem reorder_of_settled {blocks : List Block} (nothing : step? blocks = none)
    (cap : Nat) : (reorder cap blocks).blocks = blocks := by
  cases cap with
  | zero => rfl
  | succ cap => simp only [reorder, repairFrom, nothing]

end DeclOrder.Order.Repair
