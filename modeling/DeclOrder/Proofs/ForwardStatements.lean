import DeclOrder.ForwardReference
import DeclOrder.Proofs.Order.Reference
import DeclOrder.Proofs.Order.Windows

/-!
# What the forward statements cover

A name needs a forward statement exactly when a block of that name refers to itself or stands at a
larger place than a block that refers to it. With distinct names, every reference that does not go
back to a smaller place is then to a name with a statement, and since no cycle of references goes
back all the way, every cycle passes through such a name.
-/

namespace DeclOrder.ForwardReference

open DeclOrder.Order

/-- A block at its place needs a statement exactly when it refers to itself or some block at a
smaller place refers to it. -/
theorem needed_iff {blocks : List Block} {place : Nat} {block : Block}
    (inside : place < blocks.length) :
    needed blocks place block = true ↔
      block.refersToSelf = true ∨ ∃ (earlier : Nat) (other : Block),
        earlier < place ∧ blocks[earlier]? = some other ∧ block.name ∈ other.references := by
  rw [needed, Bool.or_eq_true, decide_eq_true_eq, earliestDependent_lt_iff inside]

/-- The names with a statement are those of the blocks that refer to themselves or stand at a
larger place than a block that refers to them. -/
theorem mem_names_iff {blocks : List Block} {name : String} :
    name ∈ names blocks ↔
      ∃ (place : Nat) (block : Block), blocks[place]? = some block ∧ block.name = name ∧
        (block.refersToSelf = true ∨ ∃ (earlier : Nat) (other : Block),
          earlier < place ∧ blocks[earlier]? = some other ∧ name ∈ other.references) := by
  rw [names, NameSet.mem_ofList]
  simp only [List.mem_map, List.mem_filter, Prod.exists, List.mk_mem_zipIdx_iff_getElem?]
  constructor
  · rintro ⟨block, place, ⟨stands, required⟩, rfl⟩
    obtain ⟨inside, _⟩ := List.getElem?_eq_some_iff.mp stands
    exact ⟨place, block, stands, rfl, (needed_iff inside).mp required⟩
  · rintro ⟨place, block, stands, rfl, reason⟩
    obtain ⟨inside, _⟩ := List.getElem?_eq_some_iff.mp stands
    exact ⟨block, place, ⟨stands, (needed_iff inside).mpr reason⟩, rfl⟩

/-- Among resolved blocks, a reference is to a block at a smaller place or to a name with a
statement. -/
theorem back_or_mem_names {blocks : List Block} (resolved : Resolved blocks) {place : Nat}
    {block : Block} (stands : blocks[place]? = some block) {name : String}
    (refers : name ∈ block.references) :
    (∃ (earlier : Nat) (other : Block),
      earlier < place ∧ blocks[earlier]? = some other ∧ other.name = name) ∨
      name ∈ names blocks := by
  have member := List.mem_of_getElem? stands
  obtain ⟨target, found⟩ := exists_place? (resolved.declared block member name refers)
  obtain ⟨other, there, rfl⟩ := exists_of_place? found
  rcases Nat.lt_trichotomy target place with before | same | after
  · exact Or.inl ⟨target, other, before, there, rfl⟩
  · subst same
    obtain rfl := Option.some.inj (stands.symm.trans there)
    exact absurd refers (resolved.irreflexive block member)
  · exact Or.inr (mem_names_iff.mpr
      ⟨target, other, there, rfl, Or.inr ⟨place, block, after, stands, refers⟩⟩)

/-- Every cycle of references among resolved blocks passes through a name with a statement. -/
theorem exists_mem_names_of_chain {blocks : List Block} (resolved : Resolved blocks)
    {cycle : Cycle (Fin blocks.length)} (nonempty : cycle ≠ Cycle.nil)
    (chain : cycle.Chain (Digraph.ofBlocks blocks).Edge) :
    ∃ node ∈ cycle, (blocks.get node).name ∈ names blocks := by
  obtain ⟨source, target, member, edge, rises⟩ := Digraph.exists_rise_of_chain nonempty chain
  refine ⟨target, member, ?_⟩
  have stands := List.getElem?_eq_getElem source.isLt
  rcases back_or_mem_names resolved stands (refers_of_edge edge) with back | covered
  · obtain ⟨earlier, other, before, there, same⟩ := back
    have place := place_unique resolved.distinct there
      (List.getElem?_eq_getElem target.isLt) same
    omega
  · exact covered

/-- The forward statements are exact under every order of any blocks: in ascending order they name
the blocks that refer to themselves or stand at a larger place than a block that refers to them.
Among resolved blocks they cover every reference that is not to a smaller place, and some name of
every cycle. -/
theorem names_exact (blocks : List Block) :
    (names blocks).names.Pairwise (· < ·) ∧
      (∀ name, name ∈ names blocks ↔
        ∃ (place : Nat) (block : Block), blocks[place]? = some block ∧ block.name = name ∧
          (block.refersToSelf = true ∨ ∃ (earlier : Nat) (other : Block),
            earlier < place ∧ blocks[earlier]? = some other ∧ name ∈ other.references)) ∧
      (Resolved blocks →
        (∀ (place : Nat) (block : Block), blocks[place]? = some block →
          ∀ name ∈ block.references,
            (∃ (earlier : Nat) (other : Block),
              earlier < place ∧ blocks[earlier]? = some other ∧ other.name = name) ∨
              name ∈ names blocks) ∧
        ∀ cycle : Cycle (Fin blocks.length), cycle ≠ Cycle.nil →
          cycle.Chain (Digraph.ofBlocks blocks).Edge →
            ∃ node ∈ cycle, (blocks.get node).name ∈ names blocks) := by
  refine ⟨(names blocks).ascending, fun _ => mem_names_iff, fun resolved => ⟨?_, ?_⟩⟩
  · intro place block stands name refers
    exact back_or_mem_names resolved stands refers
  · intro cycle nonempty chain
    exact exists_mem_names_of_chain resolved nonempty chain

/-- Two blocks that refer to each other, the second of them also to itself. -/
def entangled : List Block := Resolution.resolve
  [{ name := "Part", lines := ["class Part(Base):"], mentions := NameSet.ofList ["Prop", "str"] },
   { name := "Prop", lines := ["class Prop(Base):"], mentions := NameSet.ofList ["Part", "Prop"] }]

/-- The cycle of two entangled blocks passes through a name with a statement. -/
theorem names_exact_entangled :
    Resolved entangled ∧ ∃ node ∈ (List.finRange entangled.length : Cycle (Fin entangled.length)),
      (entangled.get node).name ∈ names entangled := by
  have resolved : Resolved entangled := resolved_resolve (by decide)
  refine ⟨resolved, ((names_exact entangled).2.2 resolved).2 _ ?_ ?_⟩
  · simp [entangled, Resolution.resolve]
  · exact (Cycle.chain_coe_cons ..).mpr (by decide)

end DeclOrder.ForwardReference
