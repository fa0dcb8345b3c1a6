import DeclOrder.Order.Strategy
import DeclOrder.Proofs.Order.Unsettled
import Mathlib.Data.List.TakeWhile

/-!
# Local repair settles acyclic orders

A repair often makes an order look worse, since it moves a dependent or the last block forward and
not the missing dependency. What falls all the same is a score of the unsettled blocks. A block
among them waits if it refers to another of them. The blocks behind the last one that does not wait
cannot become more, and there is one fewer whenever the last block is put in front; between two
such repairs every repair puts a dependent of the first block in front of it, so the rank of the
first block rises. Once a block that does not wait is put in front, fewer blocks are unsettled.

The score starts at the cube of the number of blocks at most, so as many passes settle every
acyclic order. An order with dependencies first cannot exist for a cyclic reference graph, where
repair goes on up to the cap.
-/

namespace DeclOrder.Order.Repair

/-- The block refers to one of the blocks. -/
def waits (rest : List Block) (block : Block) : Bool :=
  block.references.names.any fun name => decide (name ∈ rest.map (·.name))

/-- The number of blocks at the end of the list that satisfy the test. -/
def trailing (test : Block → Bool) (blocks : List Block) : Nat :=
  (blocks.reverse.takeWhile test).length

/-- The score of unsettled blocks: their number, then the number of them behind the last one that
does not wait, then how far the rank of the first one is from the number of all blocks. -/
def score (size : Nat) (rank : String → Nat) : List Block → Nat
  | [] => 0
  | first :: later =>
    (later.length * size + trailing (waits (first :: later)) (first :: later)) * size +
      (size - rank first.name)

/-- A block waits if it refers to the name of one of the blocks. -/
theorem waits_eq_true_iff {rest : List Block} {block : Block} :
    waits rest block = true ↔ ∃ name ∈ block.references, name ∈ rest.map (·.name) := by
  simp only [waits, List.any_eq_true, decide_eq_true_eq]
  rfl

/-- The blocks that wait are the same in every order. -/
theorem waits_perm {rest others : List Block} (perm : others.Perm rest) :
    waits others = waits rest := by
  funext block
  rw [Bool.eq_iff_iff, waits_eq_true_iff, waits_eq_true_iff]
  simp only [(perm.map (·.name)).mem_iff]

/-- What follows an element that fails the test is never reached. -/
theorem takeWhile_append_of_exists {test : Block → Bool} {front : List Block}
    (fails : ∃ block ∈ front, test block = false) (rest : List Block) :
    (front ++ rest).takeWhile test = front.takeWhile test := by
  induction front with
  | nil => simp at fails
  | cons first front ih =>
    rw [List.cons_append, List.takeWhile_cons, List.takeWhile_cons]
    split
    · next passes =>
      obtain ⟨block, member, failing⟩ := fails
      rcases List.mem_cons.mp member with rfl | later
      · exact absurd passes (by simp [failing])
      · rw [ih ⟨block, later, failing⟩]
    · rfl

/-- Fewer than all blocks are at the end if one of them fails the test. -/
theorem trailing_lt_length {test : Block → Bool} {blocks : List Block}
    (fails : ∃ block ∈ blocks, test block = false) : trailing test blocks < blocks.length := by
  obtain ⟨block, member, failing⟩ := fails
  have part := List.takeWhile_sublist test (l := blocks.reverse)
  refine Nat.lt_of_le_of_ne (part.length_le.trans_eq List.length_reverse) fun full => ?_
  have whole : blocks.reverse.takeWhile test = blocks.reverse :=
    part.eq_of_length (full.trans List.length_reverse.symm)
  have passes := List.takeWhile_eq_self_iff.mp whole block (List.mem_reverse.mpr member)
  simp [failing] at passes

/-- Putting a block that satisfies the test in front, while some other fails it, makes the blocks at
the end fewer by one if the block was one of them. -/
theorem trailing_move {test : Block → Bool} (front after : List Block) {moved : Block}
    (passes : test moved = true) (fails : ∃ block ∈ front ++ after, test block = false) :
    trailing test (front ++ moved :: after) =
      trailing test (moved :: (front ++ after)) + if after.all test then 1 else 0 := by
  have before : (front ++ moved :: after).reverse =
      after.reverse ++ moved :: front.reverse := by simp
  have later : (moved :: (front ++ after)).reverse =
      after.reverse ++ (front.reverse ++ [moved]) := by simp
  rw [trailing, trailing, before, later]
  by_cases whole : ∀ block ∈ after, test block = true
  · have all : ∀ block ∈ after.reverse, test block = true := fun block member =>
      whole block (List.mem_reverse.mp member)
    obtain ⟨block, member, failing⟩ := fails
    have inFront : block ∈ front := by
      rcases List.mem_append.mp member with inFront | inAfter
      · exact inFront
      · exact absurd (whole block inAfter) (by simp [failing])
    rw [List.takeWhile_append_of_pos all, List.takeWhile_append_of_pos all,
      takeWhile_append_of_exists ⟨block, List.mem_reverse.mpr inFront, failing⟩,
      List.takeWhile_cons_of_pos passes, if_pos (List.all_eq_true.mpr whole)]
    simp only [List.length_append, List.length_cons, Nat.add_assoc]
  · rw [if_neg (fun all => whole (List.all_eq_true.mp all)), Nat.add_zero]
    push Not at whole
    obtain ⟨block, member, failing⟩ := whole
    have inAfter : ∃ block ∈ after.reverse, test block = false :=
      ⟨block, List.mem_reverse.mpr member, Bool.not_eq_true _ ▸ failing⟩
    rw [takeWhile_append_of_exists inAfter, takeWhile_append_of_exists inAfter]

/-- If references fall in rank, one of the blocks waits for none of them. -/
theorem exists_not_waits {rank : String → Nat} {rest : List Block}
    (falls : ∀ block ∈ rest, ∀ name ∈ block.references, rank name < rank block.name)
    (nonempty : rest ≠ []) : ∃ block ∈ rest, waits rest block = false := by
  obtain ⟨start, member⟩ := List.exists_mem_of_ne_nil rest nonempty
  -- From a block that waits we go down to one it refers to; the rank bounds the way.
  induction number : rank start.name using Nat.strongRecOn generalizing start with
  | ind number ih =>
    cases waiting : waits rest start with
    | false => exact ⟨start, member, waiting⟩
    | true =>
      obtain ⟨name, refers, declared⟩ := waits_eq_true_iff.mp waiting
      obtain ⟨other, otherMember, rfl⟩ := List.mem_map.mp declared
      exact ih _ (number ▸ falls start member _ refers) other otherMember rfl

/-- The score is within the square of the number of all blocks for each unsettled one. -/
theorem score_le {blocks rest : List Block} {rank : String → Nat} (ranking : Ranking blocks rank)
    (subset : ∀ block ∈ rest, block ∈ blocks) (shorter : rest.length ≤ blocks.length) :
    score blocks.length rank rest ≤ rest.length * blocks.length * blocks.length := by
  cases rest with
  | nil => exact Nat.zero_le _
  | cons first later =>
    have fails := exists_not_waits
      (fun block member => ranking.falls block (subset block member)) (List.cons_ne_nil first later)
    have bound := trailing_lt_length fails
    have inner : later.length * blocks.length +
        trailing (waits (first :: later)) (first :: later) + 1 ≤
          (first :: later).length * blocks.length := by
      rw [List.length_cons, Nat.succ_mul]
      omega
    calc
      score blocks.length rank (first :: later)
        ≤ (later.length * blocks.length +
            trailing (waits (first :: later)) (first :: later)) * blocks.length +
              blocks.length := Nat.add_le_add_left (Nat.sub_le _ _) _
      _ = (later.length * blocks.length +
            trailing (waits (first :: later)) (first :: later) + 1) * blocks.length :=
          (Nat.succ_mul _ _).symm
      _ ≤ (first :: later).length * blocks.length * blocks.length :=
          Nat.mul_le_mul_right _ inner

/-- The score of the unsettled blocks of an order is within the cube of the number of blocks. -/
theorem score_unsettled_le {blocks : List Block} {rank : String → Nat}
    (ranking : Ranking blocks rank) :
    score blocks.length rank (unsettled [] blocks) ≤
      (unsettled [] blocks).length * blocks.length * blocks.length := by
  obtain ⟨done, whole, _⟩ := exists_settled [] blocks
  refine score_le ranking (fun block member => ?_) (length_unsettled_le [] blocks)
  rw [whole]
  exact List.mem_append_right done member

/-- After a repair fewer blocks are unsettled, or the same ones are and a block that waits is the
first of them: one that refers to the first before, or the last. -/
theorem unsettled_step {blocks next later : List Block} {first : Block}
    (resolved : Resolved blocks) (rest : unsettled [] blocks = first :: later)
    (step : step? blocks = some next) :
    (unsettled [] next).length ≤ later.length ∨
      ∃ between moved after, later = between ++ moved :: after ∧
        unsettled [] next = moved :: first :: (between ++ after) ∧
        waits (first :: later) moved = true ∧ (first.name ∈ moved.references ∨ after = []) := by
  obtain ⟨done, between, moved, after, rfl, rfl, settled, reason, made⟩ :=
    step?_of_unsettled resolved rest
  obtain rfl := Option.some.inj (step.symm.trans made)
  rw [unsettled_append settled, unsettled]
  split
  · left
    have bound := length_unsettled_le
      (moved.name :: ((done.map (·.name)).reverse ++ [])) (first :: (between ++ after))
    simp only [List.length_cons, List.length_append] at bound ⊢
    omega
  · next outside =>
    push Not at outside
    obtain ⟨name, refers, missing⟩ := outside
    refine Or.inr ⟨between, moved, after, rfl, rfl, ?_, reason⟩
    apply waits_eq_true_iff.mpr
    refine ⟨name, refers, ?_⟩
    have declared := resolved.declared moved (by simp) name refers
    rw [List.map_append, List.mem_append] at declared
    refine declared.resolve_left fun inFront => missing ?_
    exact List.mem_append_left _ (List.mem_reverse.mpr inFront)

/-- Putting a later block in front of the first keeps the blocks. -/
theorem reinsert_perm (first moved : Block) (between after : List Block) :
    (moved :: first :: (between ++ after)).Perm (first :: (between ++ moved :: after)) :=
  (List.Perm.swap first moved _).trans (List.perm_middle.symm.cons first)

/-- Putting a block that waits in front lowers the score, if the block has a higher rank than the
first one before or was the last. -/
theorem score_move {size : Nat} {rank : String → Nat} {between after : List Block}
    {first moved : Block}
    (waiting : waits (first :: (between ++ moved :: after)) moved = true)
    (fails : ∃ block ∈ first :: (between ++ after),
      waits (first :: (between ++ moved :: after)) block = false)
    (firstRank : rank first.name < size) (reason : rank first.name < rank moved.name ∨ after = []) :
    score size rank (moved :: first :: (between ++ after)) <
      score size rank (first :: (between ++ moved :: after)) := by
  have perm : (moved :: first :: (between ++ after)).Perm (first :: (between ++ moved :: after)) :=
    reinsert_perm first moved between after
  have count := trailing_move (first :: between) after waiting fails
  have length_eq : (first :: (between ++ after)).length =
      (between ++ moved :: after).length := Nat.succ.inj perm.length_eq
  simp only [List.cons_append] at count
  simp only [score, waits_perm perm, count, length_eq]
  generalize (between ++ moved :: after).length * size = base
  generalize trailing (waits (first :: (between ++ moved :: after)))
    (moved :: first :: (between ++ after)) = fewer
  rcases reason with higher | rfl
  · refine Nat.add_lt_add_of_le_of_lt (Nat.mul_le_mul_right _ ?_) (by omega)
    exact Nat.add_le_add_left (Nat.le_add_right _ _) _
  · calc
      (base + fewer) * size + (size - rank moved.name)
        ≤ (base + fewer) * size + size := Nat.add_le_add_left (Nat.sub_le _ _) _
      _ = (base + (fewer + 1)) * size := (Nat.succ_mul _ _).symm
      _ < (base + (fewer + 1)) * size + (size - rank first.name) :=
          Nat.lt_add_of_pos_right (Nat.sub_pos_of_lt firstRank)

/-- Every repair lowers the score. -/
theorem score_step {blocks next : List Block} {rank : String → Nat} (resolved : Resolved blocks)
    (ranking : Ranking blocks rank) (step : step? blocks = some next) :
    score blocks.length rank (unsettled [] next) <
      score blocks.length rank (unsettled [] blocks) := by
  cases rest : unsettled [] blocks with
  | nil =>
    have finished := (step?_eq_none_iff resolved).mpr (dependenciesFirst_iff.mpr rest)
    exact absurd (finished.symm.trans step) (by simp)
  | cons first later =>
    have subset : ∀ block ∈ first :: later, block ∈ blocks := by
      obtain ⟨done, whole, _⟩ := exists_settled [] blocks
      intro block member
      rw [whole, rest]
      exact List.mem_append_right done member
    have firstRank := ranking.bounded first (subset first List.mem_cons_self)
    obtain shorter | ⟨between, moved, after, rfl, next_eq, waiting, reason⟩ :=
      unsettled_step resolved rest step
    · have perm := step?_perm step
      have bound := score_unsettled_le (ranking.perm perm)
      rw [perm.length_eq] at bound
      calc
        score blocks.length rank (unsettled [] next)
          ≤ later.length * blocks.length * blocks.length :=
            bound.trans (Nat.mul_le_mul_right _ (Nat.mul_le_mul_right _ shorter))
        _ ≤ (later.length * blocks.length + trailing (waits (first :: later)) (first :: later)) *
              blocks.length := Nat.mul_le_mul_right _ (Nat.le_add_right _ _)
        _ < score blocks.length rank (first :: later) :=
            Nat.lt_add_of_pos_right (Nat.sub_pos_of_lt firstRank)
    · have perm : (moved :: first :: (between ++ after)).Perm
          (first :: (between ++ moved :: after)) :=
        reinsert_perm first moved between after
      obtain ⟨block, member, failing⟩ := exists_not_waits
        (fun block member => ranking.falls block (subset block member)) (List.cons_ne_nil _ _)
      have other : block ∈ first :: (between ++ after) := by
        rcases List.mem_cons.mp (perm.mem_iff.mpr member) with rfl | other
        · exact absurd (failing.symm.trans waiting) Bool.false_ne_true
        · exact other
      rw [next_eq]
      refine score_move waiting ⟨block, other, failing⟩ firstRank (reason.imp_left fun refers => ?_)
      exact ranking.falls moved (subset moved (by simp)) _ refers

/-- With at least as many passes as the score, repair converges. -/
theorem repairFrom_converges {rank : String → Nat} (moved cap : Nat) {blocks : List Block}
    (resolved : Resolved blocks) (ranking : Ranking blocks rank)
    (enough : score blocks.length rank (unsettled [] blocks) ≤ cap) :
    (repairFrom moved cap blocks).converged = true := by
  induction cap generalizing moved blocks with
  | zero =>
    cases step : step? blocks with
    | none => exact settled_iff.mpr step
    | some next =>
      have lower := score_step resolved ranking step
      omega
  | succ cap ih =>
    cases step : step? blocks with
    | none => simp only [repairFrom, step]
    | some next =>
      have perm := step?_perm step
      have lower := score_step resolved ranking step
      simp only [repairFrom, step]
      refine ih (moved + 1) (resolved.perm perm) (ranking.perm perm) ?_
      rw [perm.length_eq]
      omega

/-- As long as no order of the blocks has dependencies first, every pass makes a repair. -/
theorem repairFrom_capped (moved cap : Nat) {blocks : List Block} (resolved : Resolved blocks)
    (never : ∀ ordered : List Block, ordered.Perm blocks → ¬ DependenciesFirst ordered) :
    (repairFrom moved cap blocks).converged = false ∧
      (repairFrom moved cap blocks).passes = moved + cap ∧
      (repairFrom moved cap blocks).relocations = moved + cap := by
  have unfinished : step? blocks ≠ none := fun finished =>
    never blocks (List.Perm.refl _) ((step?_eq_none_iff resolved).mp finished)
  induction cap generalizing moved blocks with
  | zero => exact ⟨Bool.eq_false_iff.mpr (mt settled_iff.mp unfinished), rfl, rfl⟩
  | succ cap ih =>
    obtain ⟨next, step⟩ := Option.ne_none_iff_exists'.mp unfinished
    have perm := step?_perm step
    have nextResolved := resolved.perm perm
    have nextNever (ordered : List Block) (same : ordered.Perm next) :=
      never ordered (same.trans perm)
    simp only [repairFrom, step]
    obtain ⟨capped, passes, relocations⟩ := ih (moved + 1) nextResolved nextNever fun finished =>
      nextNever next (List.Perm.refl _) ((step?_eq_none_iff nextResolved).mp finished)
    exact ⟨capped, by omega, by omega⟩

/-- Repair converges exactly when its order has dependencies first. -/
theorem reorder_converged_iff {blocks : List Block} (resolved : Resolved blocks) (cap : Nat) :
    (reorder cap blocks).converged = true ↔ DependenciesFirst (reorder cap blocks).blocks := by
  rw [reorder, repairFrom_converged_iff]
  exact step?_eq_none_iff (resolved.perm (repairFrom_perm 0 cap blocks))

/-- Repair converges on an acyclic reference graph in as many passes as the cube of the number of
blocks. -/
theorem reorder_converges {blocks : List Block} (resolved : Resolved blocks)
    (acyclic : (Digraph.ofBlocks blocks).Acyclic) {cap : Nat}
    (enough : blocks.length * blocks.length * blocks.length ≤ cap) :
    (reorder cap blocks).converged = true := by
  obtain ⟨rank, ranking⟩ := resolved.exists_ranking acyclic
  refine repairFrom_converges 0 cap resolved ranking ?_
  calc
    score blocks.length rank (unsettled [] blocks)
      ≤ (unsettled [] blocks).length * blocks.length * blocks.length := score_unsettled_le ranking
    _ ≤ blocks.length * blocks.length * blocks.length :=
        Nat.mul_le_mul_right _ (Nat.mul_le_mul_right _ (length_unsettled_le [] blocks))
    _ ≤ cap := enough

/-- Repair of resolved blocks converges exactly when it brings every dependency before its users.
On an acyclic reference graph it does so in as many passes as the cube of the number of blocks, so
the default cap is enough for ten blocks; on any other it goes on repairing up to the cap. -/
theorem reorder_settles (blocks : List Block) (resolved : Resolved blocks) :
    (∀ cap, (reorder cap blocks).converged = true ↔
      DependenciesFirst (reorder cap blocks).blocks) ∧
    ((Digraph.ofBlocks blocks).Acyclic →
      (∀ cap, blocks.length * blocks.length * blocks.length ≤ cap →
        (reorder cap blocks).converged = true) ∧
      (blocks.length ≤ 10 → (reorder Strategy.defaultPasses.toNat blocks).converged = true)) ∧
    (¬ (Digraph.ofBlocks blocks).Acyclic →
      ∀ cap, (reorder cap blocks).converged = false ∧ (reorder cap blocks).passes = cap ∧
        (reorder cap blocks).relocations = cap) := by
  refine ⟨reorder_converged_iff resolved, fun acyclic => ⟨?_, fun small => ?_⟩,
    fun cyclic cap => ?_⟩
  · intro cap enough
    exact reorder_converges resolved acyclic enough
  · refine reorder_converges resolved acyclic ?_
    calc
      blocks.length * blocks.length * blocks.length ≤ 10 * 10 * 10 :=
        Nat.mul_le_mul (Nat.mul_le_mul small small) small
      _ = Strategy.defaultPasses.toNat := by decide
  · have capped := repairFrom_capped 0 cap resolved fun ordered perm first =>
      cyclic (acyclic_of_dependenciesFirst resolved perm first)
    simpa only [reorder, Nat.zero_add] using capped

/-- Three blocks, each of which refers to the next. -/
def chained : List Block := Resolution.resolve
  [{ name := "Party", lines := ["class Party(Base):"], mentions := NameSet.ofList ["Role", "str"] },
   { name := "Role", lines := ["class Role(Base):"], mentions := NameSet.ofList ["Link"] },
   { name := "Link", lines := ["class Link(Base):"] }]

/-- Three chained blocks are resolved and acyclic, and 27 passes bring them into order. -/
theorem reorder_settles_chained :
    Resolved chained ∧ (Digraph.ofBlocks chained).Acyclic ∧
      DependenciesFirst (reorder 27 chained).blocks := by
  have resolved : Resolved chained := resolved_resolve (by decide)
  have acyclic : (Digraph.ofBlocks chained).Acyclic :=
    Digraph.acyclic_of_rank (fun node => 2 - node.val) (by decide)
  have settles := reorder_settles chained resolved
  exact ⟨resolved, acyclic, (settles.1 27).mp ((settles.2.1 acyclic).1 27 (by decide))⟩

end DeclOrder.Order.Repair
