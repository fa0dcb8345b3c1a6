import DeclOrder.Proofs.Order.Reachability
import DeclOrder.Resolution
import Mathlib.Data.List.Nodup

/-!
# References between blocks

The edges of the reference graph in terms of names, and lists of blocks as resolution leaves them:
the names are distinct, and a block refers only to other declared names. Such a list has
dependencies first when every reference is to an earlier place. Names that can be ranked so that
references fall are those of an acyclic reference graph, and since a ranking does not depend on the
order of the blocks, acyclicity carries over to every reordering.
-/

namespace DeclOrder.Order

/-- The blocks have distinct names, and each refers to other declared blocks only. -/
structure Resolved (blocks : List Block) : Prop where
  /-- No name is repeated. -/
  distinct : (blocks.map (·.name)).Nodup
  /-- Every reference is to a declared name. -/
  declared : ∀ block ∈ blocks, ∀ name ∈ block.references, name ∈ blocks.map (·.name)
  /-- No block refers to itself. -/
  irreflexive : ∀ block ∈ blocks, block.name ∉ block.references

/-- Every reference of a block is to the name of a block at a smaller place. -/
def DependenciesFirst (blocks : List Block) : Prop :=
  ∀ (place : Nat) (block : Block), blocks[place]? = some block → ∀ name ∈ block.references,
    ∃ (earlier : Nat) (other : Block),
      earlier < place ∧ blocks[earlier]? = some other ∧ other.name = name

/-- Numbers for names that are below the number of blocks and fall along every reference. -/
structure Ranking (blocks : List Block) (rank : String → Nat) : Prop where
  /-- The number of a declared name is below the number of blocks. -/
  bounded : ∀ block ∈ blocks, rank block.name < blocks.length
  /-- A name referred to has a smaller number than the block that refers to it. -/
  falls : ∀ block ∈ blocks, ∀ name ∈ block.references, rank name < rank block.name

/-- Resolution leaves distinct names resolved. -/
theorem resolved_resolve {blocks : List Block} (distinct : (blocks.map (·.name)).Nodup) :
    Resolved (Resolution.resolve blocks) := by
  have names : (Resolution.resolve blocks).map (·.name) = blocks.map (·.name) := by
    simp [Resolution.resolve, Function.comp_def]
  refine ⟨names ▸ distinct, fun block member name refers => ?_, fun block member refers => ?_⟩
  · obtain ⟨original, _, rfl⟩ := List.mem_map.mp member
    rw [names]
    simpa using And.right (Bool.and_eq_true_iff.mp (NameSet.mem_filter.mp refers).2)
  · obtain ⟨original, _, rfl⟩ := List.mem_map.mp member
    simpa using (NameSet.mem_filter.mp refers).2

/-- A list is resolved in every order of its blocks. -/
theorem Resolved.perm {blocks others : List Block} (resolved : Resolved blocks)
    (perm : others.Perm blocks) : Resolved others where
  distinct := ((perm.map (·.name)).nodup_iff).mpr resolved.distinct
  declared block member name refers :=
    ((perm.map (·.name)).mem_iff).mpr
      (resolved.declared block (perm.mem_iff.mp member) name refers)
  irreflexive block member := resolved.irreflexive block (perm.mem_iff.mp member)

/-- A ranking is one in every order of the blocks. -/
theorem Ranking.perm {blocks others : List Block} {rank : String → Nat}
    (ranking : Ranking blocks rank) (perm : others.Perm blocks) : Ranking others rank where
  bounded block member := perm.length_eq ▸ ranking.bounded block (perm.mem_iff.mp member)
  falls block member := ranking.falls block (perm.mem_iff.mp member)

/-- Blocks of one name among blocks with distinct names stand at one place. -/
theorem place_unique {blocks : List Block} (distinct : (blocks.map (·.name)).Nodup)
    {left right : Nat} {first second : Block} (atLeft : blocks[left]? = some first)
    (atRight : blocks[right]? = some second) (same : first.name = second.name) :
    left = right := by
  have leftName : (blocks.map (·.name))[left]? = some first.name := by simp [atLeft]
  have rightName : (blocks.map (·.name))[right]? = some first.name := by simp [atRight, same]
  obtain ⟨inside, _⟩ := List.getElem?_eq_some_iff.mp leftName
  exact (List.getElem?_inj inside distinct).mp (leftName.trans rightName.symm)

/-- Among distinct names, the place of a block is the place of its name. -/
theorem place?_eq_some {blocks : List Block} (distinct : (blocks.map (·.name)).Nodup)
    {place : Nat} {block : Block} (stands : blocks[place]? = some block) :
    place? blocks block.name = some place := by
  obtain ⟨inside, here⟩ := List.getElem?_eq_some_iff.mp stands
  refine List.findIdx?_eq_some_iff_getElem.mpr ⟨inside, ?_, fun earlier before same => ?_⟩
  · rw [here]
    exact beq_self_eq_true _
  · have places := place_unique distinct
      (List.getElem?_eq_getElem (Nat.lt_trans before inside)) stands (beq_iff_eq.mp same)
    omega

/-- The place of a name is that of a block of the name. -/
theorem exists_of_place? {blocks : List Block} {name : String} {place : Nat}
    (found : place? blocks name = some place) :
    ∃ block, blocks[place]? = some block ∧ block.name = name := by
  obtain ⟨inside, same, _⟩ := List.findIdx?_eq_some_iff_getElem.mp found
  exact ⟨blocks[place], List.getElem?_eq_getElem inside, beq_iff_eq.mp same⟩

/-- A declared name has a place. -/
theorem exists_place? {blocks : List Block} {name : String}
    (declared : name ∈ blocks.map (·.name)) : ∃ place, place? blocks name = some place := by
  obtain ⟨block, member, same⟩ := List.mem_map.mp declared
  refine Option.isSome_iff_exists.mp ?_
  rw [place?, List.findIdx?_isSome, List.any_eq_true]
  exact ⟨block, member, beq_iff_eq.mpr same⟩

/-- An edge of the reference graph leads to the place of a name referred to. -/
theorem edge_ofBlocks {blocks : List Block} {source target : Fin blocks.length} :
    (Digraph.ofBlocks blocks).Edge source target ↔
      ∃ name ∈ (blocks.get source).references, place? blocks name = some target.val := by
  have next : (Digraph.ofBlocks blocks).next source =
      (blocks.get source).references.names.filterMap fun name =>
        blocks.findFinIdx? (·.name == name) := Vector.getElem_ofFn source.isLt
  simp only [Digraph.Edge, next, List.mem_filterMap, place?,
    List.findIdx?_eq_map_findFinIdx?_val, Option.map_eq_some_iff, Fin.val_inj, exists_eq_right]
  rfl

/-- Where an edge leads, the source refers to the name of the block there. -/
theorem refers_of_edge {blocks : List Block} {source target : Fin blocks.length}
    (edge : (Digraph.ofBlocks blocks).Edge source target) :
    (blocks.get target).name ∈ (blocks.get source).references := by
  obtain ⟨name, refers, found⟩ := edge_ofBlocks.mp edge
  obtain ⟨block, stands, rfl⟩ := exists_of_place? found
  obtain rfl : blocks.get target = block := by
    simpa using stands
  exact refers

/-- Among distinct names, an edge leads wherever the source refers to the block there. -/
theorem edge_of_refers {blocks : List Block} (distinct : (blocks.map (·.name)).Nodup)
    {source target : Fin blocks.length}
    (refers : (blocks.get target).name ∈ (blocks.get source).references) :
    (Digraph.ofBlocks blocks).Edge source target :=
  edge_ofBlocks.mpr ⟨_, refers, place?_eq_some distinct (List.getElem?_eq_getElem target.isLt)⟩

/-- A reference graph is acyclic if its names have numbers that fall along references. -/
theorem acyclic_of_falls {blocks : List Block} (rank : String → Nat)
    (falls : ∀ block ∈ blocks, ∀ name ∈ block.references, rank name < rank block.name) :
    (Digraph.ofBlocks blocks).Acyclic :=
  Digraph.acyclic_of_rank (fun node => rank (blocks.get node).name) fun source _ edge =>
    falls (blocks.get source) (List.get_mem blocks source) _ (refers_of_edge edge)

/-- The names of resolved blocks with an acyclic reference graph have a ranking. -/
theorem Resolved.exists_ranking {blocks : List Block} (resolved : Resolved blocks)
    (acyclic : (Digraph.ofBlocks blocks).Acyclic) : ∃ rank, Ranking blocks rank := by
  obtain ⟨rank, bounded, falls⟩ := acyclic.exists_rank
  let named (name : String) : Nat :=
    ((blocks.findFinIdx? (·.name == name)).map rank).getD 0
  have named_get (node : Fin blocks.length) : named (blocks.get node).name = rank node := by
    have found := place?_eq_some resolved.distinct (List.getElem?_eq_getElem node.isLt)
    rw [place?, List.findIdx?_eq_map_findFinIdx?_val, Option.map_eq_some_iff] at found
    obtain ⟨place, found, same⟩ := found
    rw [Fin.val_inj] at same
    simp only [named, List.get_eq_getElem, found, same, Option.map_some, Option.getD_some]
  refine ⟨named, fun block member => ?_, fun block member name refers => ?_⟩
  · obtain ⟨node, rfl⟩ := List.get_of_mem member
    exact named_get node ▸ bounded node
  · obtain ⟨source, rfl⟩ := List.get_of_mem member
    obtain ⟨other, declared, rfl⟩ :=
      List.mem_map.mp (resolved.declared (blocks.get source) member name refers)
    obtain ⟨target, rfl⟩ := List.get_of_mem declared
    rw [named_get, named_get]
    exact falls source target (edge_of_refers resolved.distinct refers)

/-- Some order of the blocks with dependencies first makes the reference graph acyclic. -/
theorem acyclic_of_dependenciesFirst {blocks ordered : List Block} (resolved : Resolved blocks)
    (perm : ordered.Perm blocks) (first : DependenciesFirst ordered) :
    (Digraph.ofBlocks blocks).Acyclic := by
  have distinct := (resolved.perm perm).distinct
  refine acyclic_of_falls (fun name => (place? ordered name).getD 0) ?_
  intro block member name refers
  obtain ⟨place, stands⟩ := List.getElem?_of_mem (perm.mem_iff.mpr member)
  obtain ⟨earlier, other, before, found, rfl⟩ := first place block stands name refers
  simpa [place?_eq_some distinct found, place?_eq_some distinct stands] using before

end DeclOrder.Order
