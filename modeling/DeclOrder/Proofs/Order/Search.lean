import DeclOrder.Order.Component
import DeclOrder.Proofs.Order.Reachability

/-!
# What holds along the search for components

During the search the stack falls into one stretch for each frame of the path. A stretch holds the
node of its frame and, above it, nodes that are left already but belong to the same component. All
that its nodes lead to is discovered, and what is still open of it was not discovered before the
least number noted for the node of the frame, which in turn is the number of an open node that it
reaches. A node that leads back no further than to itself thus closes a stretch that nothing leads
out of but to closed components, and any other node joins the stretch of its parent.
-/

namespace DeclOrder.Order.Search

variable {size : Nat} {graph : Digraph size} {search : Search size}

/-- The discovery number of a node, zero as long as there is none. -/
def number (search : Search size) (node : Fin size) : Nat := (search.discovery.entry node).getD 0

/-- What is known of a target once an edge to it is followed in the stretch of a base: it is
discovered, and unless its component is closed, the base leads back as far as to it. -/
def Followed (search : Search size) (base target : Fin size) : Prop :=
  search.discovery.entry target ≠ none ∧
    (search.component.entry target = none → search.low.entry base ≤ search.number target)

/-- What holds of the discovered nodes and of the closed components. -/
structure Sound (graph : Digraph size) (search : Search size) : Prop where
  /-- Every discovery number is below the number of discovered nodes. -/
  numbered : ∀ node number, search.discovery.entry node = some number → number < search.discovered
  /-- The nodes on the stack are the discovered ones without a component. -/
  mem_stack : ∀ node, node ∈ search.stack ↔
    search.discovery.entry node ≠ none ∧ search.component.entry node = none
  /-- The stack has the nodes in the order of their discovery, the latest first. -/
  falling : search.stack.Pairwise fun later earlier => search.number earlier < search.number later
  /-- A node with a component is discovered. -/
  discovered : ∀ node id, search.component.entry node = some id →
    search.discovery.entry node ≠ none
  /-- Components are numbered from zero on. -/
  below : ∀ node id, search.component.entry node = some id → id < search.closed
  /-- Every number below that of the components is used. -/
  used : ∀ id < search.closed, ∃ node, search.component.entry node = some id
  /-- Nodes of one component reach each other. -/
  joined : ∀ left right id, search.component.entry left = some id →
    search.component.entry right = some id → graph.Mutual left right
  /-- Edges from a closed component lead to components with the same or a smaller number. -/
  descends : ∀ source target id, search.component.entry source = some id →
    graph.Edge source target → ∃ lower ≤ id, search.component.entry target = some lower

/-- The stack falls into stretches, one for each frame of the path. -/
inductive Stretches (graph : Digraph size) (search : Search size) :
    List (Frame size) → List (Fin size) → Prop
  /-- No frames are left when the stack is empty. -/
  | nil : Stretches graph search [] []
  /-- The first stretch is that of the first frame, with the nodes above its own. -/
  | cons {frame : Frame size} {path : List (Frame size)} {stack : List (Fin size)}
      (above done : List (Fin size)) (least : Fin size)
      (mutual_above : ∀ node ∈ above, graph.Mutual node frame.node)
      (followed_above : ∀ node ∈ above, ∀ target ∈ graph.next node,
        search.Followed frame.node target)
      (next_eq : graph.next frame.node = done ++ frame.pending)
      (followed : ∀ target ∈ done, search.Followed frame.node target)
      (entered : ∀ parent ∈ path.head?, graph.Edge parent.node frame.node)
      (least_mem : least ∈ frame.node :: stack)
      (low_eq : search.low.entry frame.node = search.number least)
      (reaches : graph.Reaches frame.node least)
      (rest : Stretches graph search path stack) :
      Stretches graph search (frame :: path) (above ++ frame.node :: stack)

/-- What holds of a search along a path. -/
structure Along (graph : Digraph size) (search : Search size) (path : List (Frame size)) :
    Prop where
  /-- The search is sound. -/
  sound : Sound graph search
  /-- The stack falls into the stretches of the path. -/
  stretches : Stretches graph search path search.stack

/-- Stretches stay when the search changes nothing that they speak of. -/
theorem Stretches.mono {other : Search size} {path : List (Frame size)} {stack : List (Fin size)}
    (stretches : Stretches graph search path stack)
    (low : ∀ node ∈ stack, other.low.entry node = search.low.entry node)
    (number : ∀ node ∈ stack, other.number node = search.number node)
    (followed : ∀ base ∈ stack, ∀ target, search.Followed base target →
      other.Followed base target) :
    Stretches graph other path stack := by
  induction stretches with
  | nil => exact .nil
  | @cons frame path stack above done least mutual_above followed_above next_eq followed_done
      entered least_mem low_eq reaches rest ih =>
    have own : frame.node ∈ above ++ frame.node :: stack := by simp
    have below {node : Fin size} (member : node ∈ stack) : node ∈ above ++ frame.node :: stack := by
      simp [member]
    refine .cons above done least mutual_above (fun node member target edge => ?_) next_eq
      (fun target member => ?_) entered least_mem ?_ reaches (ih ?_ ?_ ?_)
    · exact followed _ own target (followed_above node member target edge)
    · exact followed _ own target (followed_done target member)
    · rw [low _ own, number least (List.mem_append_right above least_mem), low_eq]
    · exact fun node member => low node (below member)
    · exact fun node member => number node (below member)
    · exact fun base member => followed base (below member)

/-- Every node on the stack reaches the node of the first frame. -/
theorem Stretches.reaches_first {frame : Frame size} {path : List (Frame size)}
    {stack : List (Fin size)} (stretches : Stretches graph search (frame :: path) stack)
    {node : Fin size} (member : node ∈ stack) : graph.Reaches node frame.node := by
  induction path generalizing frame stack with
  | nil =>
    cases stretches with
    | cons _ _ _ mutual_above _ _ _ _ _ _ _ rest =>
      cases rest
      rcases List.mem_append.mp member with inAbove | own
      · exact (mutual_above node inAbove).1
      · obtain rfl := List.mem_singleton.mp own
        exact Digraph.Reaches.refl _
  | cons parent path ih =>
    cases stretches with
    | cons _ _ _ mutual_above _ _ _ entered _ _ _ rest =>
      rcases List.mem_append.mp member with inAbove | inRest
      · exact (mutual_above node inAbove).1
      · rcases List.mem_cons.mp inRest with rfl | inRest
        · exact Digraph.Reaches.refl _
        · exact (ih rest inRest).trans (Digraph.Reaches.edge (entered parent rfl))

/-- Entering a node gives it the next number and leaves the others theirs. -/
theorem discovery_enter (search : Search size) (node other : Fin size) :
    (search.enter node).discovery.entry other =
      if other = node then some search.discovered else search.discovery.entry other :=
  Table.entry_put ..

/-- Entering a node notes its own number for it. -/
theorem low_enter (search : Search size) (node other : Fin size) :
    (search.enter node).low.entry other =
      if other = node then search.discovered else search.low.entry other :=
  Table.entry_put ..

/-- Lowering concerns one node. -/
theorem low_lower (search : Search size) (node other : Fin size) (bound : Nat) :
    (search.lower node bound).low.entry other =
      if other = node then min (search.low.entry node) bound else search.low.entry other :=
  Table.entry_put ..

/-- Entering a node keeps the number of every discovered one. -/
theorem number_enter {node other : Fin size} (different : other ≠ node) :
    (search.enter node).number other = search.number other := by
  rw [number, number, discovery_enter, if_neg different]

/-- The number of a discovered node. -/
theorem number_eq {node : Fin size} {number : Nat}
    (discovered : search.discovery.entry node = some number) : search.number node = number := by
  rw [Search.number, discovered, Option.getD_some]

/-- The nodes of the stack have numbers below that of discovered nodes. -/
theorem Sound.number_lt (sound : Sound graph search) {node : Fin size}
    (member : node ∈ search.stack) : search.number node < search.discovered := by
  obtain ⟨number, discovered⟩ :=
    Option.ne_none_iff_exists'.mp ((sound.mem_stack node).mp member).1
  exact number_eq discovered ▸ sound.numbered node number discovered

/-- Entering a new node keeps the search sound. -/
theorem Sound.enter (sound : Sound graph search) {target : Fin size}
    (new : search.discovery.entry target = none) : Sound graph (search.enter target) where
  numbered node number found := by
    rw [discovery_enter] at found
    split at found
    · obtain rfl := Option.some.inj found
      exact Nat.lt_succ_self _
    · exact Nat.lt_succ_of_lt (sound.numbered node number found)
  mem_stack node := by
    change node ∈ target :: search.stack ↔ _ ∧ search.component.entry node = none
    rw [List.mem_cons, sound.mem_stack, discovery_enter]
    by_cases same : node = target
    · subst same
      have isOpen : search.component.entry node = none := by
        cases closed : search.component.entry node with
        | none => rfl
        | some id => exact absurd new (sound.discovered node id closed)
      simp [isOpen]
    · simp [same]
  falling := by
    refine List.pairwise_cons.mpr ⟨fun earlier member => ?_, ?_⟩
    · have different : earlier ≠ target := by
        rintro rfl
        exact ((sound.mem_stack earlier).mp member).1 new
      have own : (search.enter target).number target = search.discovered := by
        rw [number, discovery_enter, if_pos rfl, Option.getD_some]
      rw [number_enter different, own]
      exact sound.number_lt member
    · refine sound.falling.imp_of_mem fun {later earlier} laterMember earlierMember less => ?_
      have different {node : Fin size} (member : node ∈ search.stack) : node ≠ target := by
        rintro rfl
        exact ((sound.mem_stack node).mp member).1 new
      rw [number_enter (different laterMember), number_enter (different earlierMember)]
      exact less
  discovered node id closed := by
    rw [discovery_enter]
    split
    · exact Option.some_ne_none _
    · exact sound.discovered node id closed
  below := sound.below
  used := sound.used
  joined := sound.joined
  descends := sound.descends

/-- Entering a new node puts its stretch on top. -/
theorem Along.enter {path : List (Frame size)} (along : Along graph search path)
    {target : Fin size} (new : search.discovery.entry target = none)
    (entered : ∀ parent ∈ path.head?, graph.Edge parent.node target) :
    Along graph (search.enter target) (⟨target, graph.next target⟩ :: path) := by
  have different {node : Fin size} (known : search.discovery.entry node ≠ none) :
      node ≠ target := by
    rintro rfl
    exact known new
  have onStack {node : Fin size} (member : node ∈ search.stack) : node ≠ target :=
    different ((along.sound.mem_stack node).mp member).1
  refine ⟨along.sound.enter new, ?_⟩
  refine Stretches.cons [] [] target (by simp) (by simp) rfl (by simp) entered List.mem_cons_self ?_
    (Digraph.Reaches.refl target) ?_
  · rw [low_enter, if_pos rfl, number, discovery_enter, if_pos rfl, Option.getD_some]
  · refine along.stretches.mono (fun node member => ?_) (fun node member => ?_) ?_
    · rw [low_enter, if_neg (onStack member)]
    · exact number_enter (onStack member)
    · rintro base member other ⟨known, bound⟩
      refine ⟨?_, fun isOpen => ?_⟩
      · rwa [discovery_enter, if_neg (different known)]
      · rw [low_enter, if_neg (onStack member), number_enter (different known)]
        exact bound isOpen

/-- With the first pending edge followed, the edges after it are pending. -/
theorem Stretches.advance {node target : Fin size} {pending : List (Fin size)}
    {path : List (Frame size)} {stack : List (Fin size)}
    (stretches : Stretches graph search (⟨node, target :: pending⟩ :: path) stack)
    (followed : search.Followed node target) :
    Stretches graph search (⟨node, pending⟩ :: path) stack := by
  cases stretches with
  | cons above done least mutual_above followed_above next_eq followed_done entered least_mem
      low_eq reaches rest =>
    refine .cons above (done ++ [target]) least mutual_above followed_above ?_ ?_ entered least_mem
      low_eq reaches rest
    · simpa using next_eq
    · intro other member
      rcases List.mem_append.mp member with earlier | same
      · exact followed_done other earlier
      · exact List.mem_singleton.mp same ▸ followed

/-- On the stack, the nodes above a node have greater numbers and those below it smaller ones. -/
theorem Sound.number_split (sound : Sound graph search) {above rest : List (Fin size)}
    {node : Fin size} (stack_eq : search.stack = above ++ node :: rest) :
    (∀ later ∈ above, search.number node < search.number later) ∧
      ∀ earlier ∈ rest, search.number earlier < search.number node := by
  have falling := sound.falling
  rw [stack_eq, List.pairwise_append, List.pairwise_cons] at falling
  exact ⟨fun later member => falling.2.2 later member node List.mem_cons_self, falling.2.1.1⟩

/-- A node on the stack with a smaller number than another is below it. -/
theorem Sound.mem_below (sound : Sound graph search) {above rest : List (Fin size)}
    {node other : Fin size} (stack_eq : search.stack = above ++ node :: rest)
    (member : other ∈ search.stack) (less : search.number other < search.number node) :
    other ∈ rest := by
  rw [stack_eq, List.mem_append, List.mem_cons] at member
  rcases member with inAbove | rfl | inRest
  · have greater := (sound.number_split stack_eq).1 other inAbove
    omega
  · omega
  · exact inRest

/-- Lowering a node keeps the search sound. -/
theorem Sound.lower (sound : Sound graph search) (node : Fin size) (bound : Nat) :
    Sound graph (search.lower node bound) :=
  ⟨sound.numbered, sound.mem_stack, sound.falling, sound.discovered, sound.below, sound.used,
    sound.joined, sound.descends⟩

/-- Lowering a node keeps what is known of the targets followed from any base. -/
theorem Followed.lower {base target node : Fin size} {bound : Nat}
    (followed : search.Followed base target) :
    (search.lower node bound).Followed base target := by
  refine ⟨followed.1, fun isOpen => ?_⟩
  have before := followed.2 isOpen
  rw [low_lower]
  split
  · next same => exact same ▸ (Nat.min_le_left _ _).trans before
  · exact before

/-- Lowering a node that is not on the stack keeps the stretches. -/
theorem Stretches.lower {path : List (Frame size)} {stack : List (Fin size)}
    (stretches : Stretches graph search path stack) {node : Fin size} (missing : node ∉ stack)
    (bound : Nat) : Stretches graph (search.lower node bound) path stack :=
  stretches.mono
    (fun other member => by
      rw [low_lower, if_neg (by rintro rfl; exact missing member)])
    (fun _ _ => rfl) (fun _ _ _ followed => followed.lower)

/-- Lowering a node by the number of an open node that it reaches leaves it leading back to a node
that it reaches, itself or one below it. -/
theorem Sound.exists_least (sound : Sound graph search) {above stack : List (Fin size)}
    {node least target : Fin size} {bound : Nat} (stack_eq : search.stack = above ++ node :: stack)
    (least_mem : least ∈ node :: stack) (low_eq : search.low.entry node = search.number least)
    (reaches : graph.Reaches node least) (member : target ∈ search.stack)
    (number_eq : search.number target = bound) (path : graph.Reaches node target) :
    ∃ lower ∈ node :: stack, (search.lower node bound).low.entry node = search.number lower ∧
      graph.Reaches node lower := by
  have own : search.number least ≤ search.number node := by
    rcases List.mem_cons.mp least_mem with rfl | below
    · omega
    · have smaller := (sound.number_split stack_eq).2 least below
      omega
  rw [low_lower, if_pos rfl]
  by_cases less : bound < search.low.entry node
  · refine ⟨target, List.mem_cons_of_mem _ ?_, ?_, path⟩
    · exact sound.mem_below stack_eq member (by omega)
    · omega
  · exact ⟨least, least_mem, by omega, reaches⟩

/-- Meeting a node discovered before follows the edge to it. -/
theorem Along.meet {node target : Fin size} {pending : List (Fin size)} {path : List (Frame size)}
    {number : Nat} (along : Along graph search (⟨node, target :: pending⟩ :: path))
    (seen : search.discovery.entry target = some number) :
    Along graph (search.meet node target number) (⟨node, pending⟩ :: path) := by
  obtain ⟨sound, stretches⟩ := along
  have known : search.discovery.entry target ≠ none := seen ▸ Option.some_ne_none number
  unfold Search.meet
  cases closed : search.component.entry target with
  | some id =>
    refine ⟨sound, stretches.advance ⟨known, fun isOpen => ?_⟩⟩
    exact absurd (isOpen.symm.trans closed) (Option.some_ne_none id).symm
  | none =>
    change Along graph (search.lower node number) _
    refine ⟨sound.lower node number, ?_⟩
    have reached : (search.lower node number).Followed node target := by
      refine ⟨known, fun _ => ?_⟩
      rw [low_lower, if_pos rfl]
      exact (Nat.min_le_right _ _).trans_eq (number_eq seen).symm
    refine Stretches.advance ?_ reached
    change Stretches graph (search.lower node number) _ search.stack
    generalize stack_eq : search.stack = stack at stretches
    cases stretches with
    | cons above done least mutual_above followed_above next_eq followed_done entered least_mem
        low_eq reaches rest =>
      have edge : graph.Edge node target := by
        rw [Digraph.Edge, next_eq]
        simp
      obtain ⟨lower, lower_mem, lower_eq, path⟩ := sound.exists_least stack_eq least_mem low_eq
        reaches ((sound.mem_stack target).mpr ⟨known, closed⟩) (number_eq seen)
        (Digraph.Reaches.edge edge)
      refine .cons above done lower mutual_above ?_ next_eq ?_ entered lower_mem lower_eq path ?_
      · exact fun member inAbove other edge => (followed_above member inAbove other edge).lower
      · exact fun other member => (followed_done other member).lower
      · apply rest.lower
        intro inRest
        have smaller : search.number node < search.number node :=
          (sound.number_split stack_eq).2 node inRest
        omega

/-- A node that leads back beyond itself joins the stretch of its parent. -/
theorem Along.join {node : Fin size} {parent : Frame size} {path : List (Frame size)}
    (along : Along graph search (⟨node, []⟩ :: parent :: path))
    (less : search.low.entry node ≠ search.number node) :
    Along graph (search.lower parent.node (search.low.entry node)) (parent :: path) := by
  obtain ⟨sound, stretches⟩ := along
  refine ⟨sound.lower _ _, ?_⟩
  change Stretches graph _ _ search.stack
  generalize stack_eq : search.stack = stack at stretches
  cases stretches with
  | @cons _ _ below above done least mutual_above followed_above next_eq followed entered
      least_mem low_eq reaches rest =>
    have inRest : least ∈ below := by
      rcases List.mem_cons.mp least_mem with rfl | inRest
      · exact absurd low_eq less
      · exact inRest
    have edge : graph.Edge parent.node node := entered parent rfl
    have together : graph.Mutual node parent.node :=
      ⟨reaches.trans (rest.reaches_first inRest), Digraph.Reaches.edge edge⟩
    cases rest with
    | @cons _ _ stack parentAbove parentDone parentLeast parent_mutual parent_followed_above
        parent_next parent_followed parent_entered parent_least_mem parent_low parent_reaches
        others =>
      have split : search.stack = (above ++ node :: parentAbove) ++ parent.node :: stack := by
        rw [stack_eq, List.append_assoc, List.cons_append]
      have onStack : least ∈ search.stack :=
        stack_eq ▸ List.mem_append_right _ (List.mem_cons_of_mem _ inRest)
      obtain ⟨lower, lower_mem, lower_eq, path⟩ := sound.exists_least split parent_least_mem
        parent_low parent_reaches onStack low_eq.symm ((Digraph.Reaches.edge edge).trans reaches)
      -- What was followed in the stretch of the node is bounded by its low, and so by the parent's.
      have inherit {target : Fin size} (known : search.Followed node target) :
          (search.lower parent.node (search.low.entry node)).Followed parent.node target := by
        refine ⟨known.1, fun isOpen => ?_⟩
        rw [low_lower, if_pos rfl]
        exact (Nat.min_le_right _ _).trans (known.2 isOpen)
      have whole : above ++ node :: (parentAbove ++ parent.node :: stack) =
          (above ++ node :: parentAbove) ++ parent.node :: stack := by simp
      rw [whole]
      refine .cons _ parentDone lower ?_ ?_ parent_next ?_ parent_entered lower_mem lower_eq path ?_
      · intro member inStretch
        rcases List.mem_append.mp inStretch with inAbove | inParent
        · exact (mutual_above member inAbove).trans together
        · rcases List.mem_cons.mp inParent with rfl | inParent
          · exact together
          · exact parent_mutual member inParent
      · intro member inStretch target leads
        rcases List.mem_append.mp inStretch with inAbove | inParent
        · exact inherit (followed_above member inAbove target leads)
        · rcases List.mem_cons.mp inParent with rfl | inParent
          · refine inherit (followed target ?_)
            have leads : target ∈ done ++ [] := next_eq ▸ leads
            exact List.append_nil done ▸ leads
          · exact (parent_followed_above member inParent target leads).lower
      · exact fun target member => (parent_followed target member).lower
      · apply others.lower
        intro inStack
        have smaller := (sound.number_split split).2 parent.node inStack
        omega

/-- Putting one entry for each of some nodes. -/
theorem entry_foldl_put {α : Type} (members : List (Fin size)) (table : Table α size) (value : α)
    (node : Fin size) :
    (members.foldl (fun table member => table.put member value) table).entry node =
      if node ∈ members then value else table.entry node := by
  induction members generalizing table with
  | nil => simp
  | cons first members ih =>
    rw [List.foldl_cons, ih, Table.entry_put]
    by_cases later : node ∈ members <;> by_cases same : node = first <;> simp [later, same]

/-- Closing a node takes its stretch off the stack. -/
theorem stack_close {above rest : List (Fin size)} {node : Fin size}
    (stack_eq : search.stack = above ++ node :: rest) (missing : node ∉ above) :
    (search.close node).stack = rest := by
  have others : ∀ other ∈ above, (other != node) = true := fun other member =>
    bne_iff_ne.mpr (by rintro rfl; exact missing member)
  change (search.stack.dropWhile (· != node)).drop 1 = rest
  rw [stack_eq, List.dropWhile_append_of_pos others, List.dropWhile_cons_of_neg (by simp)]
  rfl

/-- Closing a node gives its stretch the next component. -/
theorem component_close {above rest : List (Fin size)} {node : Fin size}
    (stack_eq : search.stack = above ++ node :: rest) (missing : node ∉ above) (other : Fin size) :
    (search.close node).component.entry other =
      if other ∈ above ++ [node] then some search.closed else search.component.entry other := by
  have others : ∀ other ∈ above, (other != node) = true := fun other member =>
    bne_iff_ne.mpr (by rintro rfl; exact missing member)
  have members : search.stack.takeWhile (· != node) = above := by
    rw [stack_eq, List.takeWhile_append_of_pos others, List.takeWhile_cons_of_neg (by simp),
      List.append_nil]
  change ((search.stack.takeWhile (· != node) ++ [node]).foldl _ search.component).entry other = _
  rw [entry_foldl_put, members]

/-- The nodes above a node on the stack are others. -/
theorem Sound.not_mem_above (sound : Sound graph search) {above rest : List (Fin size)}
    {node : Fin size} (stack_eq : search.stack = above ++ node :: rest) : node ∉ above := by
  intro member
  have greater := (sound.number_split stack_eq).1 node member
  omega

/-- The nodes below a node on the stack are not in its stretch. -/
theorem Sound.not_mem_stretch (sound : Sound graph search) {above rest : List (Fin size)}
    {node other : Fin size} (stack_eq : search.stack = above ++ node :: rest)
    (inRest : other ∈ rest) : other ∉ above ++ [node] := by
  have smaller := (sound.number_split stack_eq).2 other inRest
  intro member
  rcases List.mem_append.mp member with inAbove | same
  · have greater := (sound.number_split stack_eq).1 other inAbove
    omega
  · rw [List.mem_singleton.mp same] at smaller
    omega

/-- The stack has the nodes of a stretch and those below it. -/
theorem mem_stack_split {above rest : List (Fin size)} {node other : Fin size}
    (stack_eq : search.stack = above ++ node :: rest) :
    other ∈ search.stack ↔ other ∈ above ++ [node] ∨ other ∈ rest := by
  rw [stack_eq]
  simp [or_assoc]

/-- A component that is closed stays so when a node is closed. -/
theorem Sound.component_close_kept (sound : Sound graph search) {above rest : List (Fin size)}
    {node other : Fin size} {id : Nat} (stack_eq : search.stack = above ++ node :: rest)
    (closed : search.component.entry other = some id) :
    (search.close node).component.entry other = some id := by
  have outside : other ∉ above ++ [node] := by
    intro member
    have onStack := (mem_stack_split stack_eq).mpr (.inl member)
    have isOpen := ((sound.mem_stack other).mp onStack).2
    exact Option.some_ne_none id (closed.symm.trans isOpen)
  rw [component_close stack_eq (sound.not_mem_above stack_eq), if_neg outside, closed]

/-- Once a node is closed, a node with a component is in its stretch or had the component before. -/
theorem Sound.component_close_cases (sound : Sound graph search) {above rest : List (Fin size)}
    {node other : Fin size} {id : Nat} (stack_eq : search.stack = above ++ node :: rest)
    (closed : (search.close node).component.entry other = some id) :
    other ∈ above ++ [node] ∧ id = search.closed ∨
      search.component.entry other = some id ∧ id < search.closed := by
  rw [component_close stack_eq (sound.not_mem_above stack_eq)] at closed
  split at closed
  · next member => exact .inl ⟨member, (Option.some.inj closed).symm⟩
  · exact .inr ⟨closed, sound.below other id closed⟩

/-- Closing a node keeps the search sound, when the node and those above it on the stack belong
together and lead to no open node below. -/
theorem Sound.close (sound : Sound graph search) {above rest : List (Fin size)} {node : Fin size}
    (stack_eq : search.stack = above ++ node :: rest)
    (together : ∀ member ∈ above ++ [node], graph.Mutual member node)
    (leads : ∀ member ∈ above ++ [node], ∀ target, graph.Edge member target →
      search.discovery.entry target ≠ none ∧
        (search.component.entry target = none → search.number node ≤ search.number target)) :
    Sound graph (search.close node) := by
  have missing := sound.not_mem_above stack_eq
  have component := component_close stack_eq missing
  have onStack {other : Fin size} : other ∈ search.stack ↔ other ∈ above ++ [node] ∨ other ∈ rest :=
    mem_stack_split stack_eq
  constructor
  case numbered => exact sound.numbered
  case mem_stack =>
    intro other
    rw [stack_close stack_eq missing, component]
    change _ ↔ search.discovery.entry other ≠ none ∧ _
    constructor
    · intro inRest
      rw [if_neg (sound.not_mem_stretch stack_eq inRest)]
      exact (sound.mem_stack other).mp (onStack.mpr (.inr inRest))
    · rintro ⟨known, unassigned⟩
      split at unassigned
      · cases unassigned
      · next outside =>
        have member := (sound.mem_stack other).mpr ⟨known, unassigned⟩
        exact (onStack.mp member).resolve_left outside
  case falling =>
    rw [stack_close stack_eq missing]
    have falling := sound.falling
    rw [stack_eq] at falling
    exact falling.sublist ((List.sublist_cons_self node rest).trans (List.sublist_append_right ..))
  case discovered =>
    intro other id closed
    rcases sound.component_close_cases stack_eq closed with ⟨member, -⟩ | ⟨closed, -⟩
    · exact ((sound.mem_stack other).mp (onStack.mpr (.inl member))).1
    · exact sound.discovered other id closed
  case below =>
    intro other id closed
    change id < search.closed + 1
    rcases sound.component_close_cases stack_eq closed with ⟨-, same⟩ | ⟨-, less⟩
    · omega
    · omega
  case used =>
    intro id less
    change id < search.closed + 1 at less
    by_cases before : id < search.closed
    · obtain ⟨other, closed⟩ := sound.used id before
      exact ⟨other, sound.component_close_kept stack_eq closed⟩
    · have same : id = search.closed := by omega
      exact ⟨node, by rw [component, if_pos (by simp), same]⟩
  case joined =>
    intro left right id left_closed right_closed
    rcases sound.component_close_cases stack_eq left_closed with
      ⟨left_mem, same⟩ | ⟨left_before, less⟩
    · rcases sound.component_close_cases stack_eq right_closed with ⟨right_mem, -⟩ | ⟨-, less⟩
      · exact (together left left_mem).trans (together right right_mem).symm
      · omega
    · rcases sound.component_close_cases stack_eq right_closed with ⟨-, same⟩ | ⟨right_before, -⟩
      · omega
      · exact sound.joined left right id left_before right_before
  case descends =>
    intro source target id closed edge
    rcases sound.component_close_cases stack_eq closed with ⟨member, same⟩ | ⟨before, -⟩
    · obtain ⟨known, back⟩ := leads source member target edge
      cases target_closed : search.component.entry target with
      | some lower =>
        have less := sound.below target lower target_closed
        exact ⟨lower, by omega, sound.component_close_kept stack_eq target_closed⟩
      | none =>
        have notBelow : target ∉ rest := by
          intro inRest
          have smaller := (sound.number_split stack_eq).2 target inRest
          have greater := back target_closed
          omega
        have inStack := (sound.mem_stack target).mpr ⟨known, target_closed⟩
        have inStretch := (onStack.mp inStack).resolve_right notBelow
        exact ⟨id, by omega, by rw [component, if_pos inStretch, same]⟩
    · obtain ⟨lower, le, target_closed⟩ := sound.descends source target id before edge
      exact ⟨lower, le, sound.component_close_kept stack_eq target_closed⟩

/-- A node that leads back no further than to itself closes its stretch. -/
theorem Along.close {node : Fin size} {path : List (Frame size)}
    (along : Along graph search (⟨node, []⟩ :: path))
    (own : search.low.entry node = search.number node) :
    Along graph (search.close node) path := by
  obtain ⟨sound, stretches⟩ := along
  generalize stack_eq : search.stack = stack at stretches
  cases stretches with
  | @cons _ _ rest above done least mutual_above followed_above next_eq followed entered least_mem
      low_eq reaches others =>
    have missing : node ∉ above := sound.not_mem_above stack_eq
    have component := component_close stack_eq missing
    refine ⟨sound.close stack_eq ?_ ?_, ?_⟩
    · intro member inStretch
      rcases List.mem_append.mp inStretch with inAbove | same
      · exact mutual_above member inAbove
      · obtain rfl := List.mem_singleton.mp same
        exact Digraph.Mutual.refl _
    · intro member inStretch target edge
      rw [← own]
      rcases List.mem_append.mp inStretch with inAbove | same
      · exact followed_above member inAbove target edge
      · obtain rfl := List.mem_singleton.mp same
        refine followed target ?_
        have leads : target ∈ done ++ [] := next_eq ▸ edge
        exact List.append_nil done ▸ leads
    · rw [stack_close stack_eq missing]
      refine others.mono (fun _ _ => rfl) (fun _ _ => rfl) ?_
      rintro base - target ⟨known, back⟩
      refine ⟨known, fun isOpen => back ?_⟩
      rw [component] at isOpen
      split at isOpen
      · cases isOpen
      · exact isOpen

/-- The node of the first frame leads back to itself or further. -/
theorem Stretches.low_le {frame : Frame size} {path : List (Frame size)} {stack : List (Fin size)}
    (stretches : Stretches graph search (frame :: path) stack)
    (falling : stack.Pairwise fun later earlier => search.number earlier < search.number later) :
    search.low.entry frame.node ≤ search.number frame.node := by
  cases stretches with
  | cons above done least mutual_above followed_above next_eq followed entered least_mem low_eq
      reaches rest =>
    rw [low_eq]
    rcases List.mem_cons.mp least_mem with rfl | below
    · omega
    · rw [List.pairwise_append, List.pairwise_cons] at falling
      have smaller := falling.2.1.1 least below
      omega

/-- Lowering a node to a number that it leads back beyond already changes nothing. -/
theorem lower_of_le {node : Fin size} {bound : Nat} (le : search.low.entry node ≤ bound) :
    search.lower node bound = search := by
  have same : search.low.put node (search.low.entry node) = search.low :=
    Vector.set_getElem_self node.isLt
  rw [lower, Nat.min_eq_left le, same]

/-- The last node on the path leads back to itself. -/
theorem Stretches.low_last {frame : Frame size} {stack : List (Fin size)}
    (stretches : Stretches graph search [frame] stack) :
    search.low.entry frame.node = search.number frame.node := by
  cases stretches with
  | cons above done least mutual_above followed_above next_eq followed entered least_mem low_eq
      reaches rest =>
    cases rest
    rw [low_eq, List.mem_singleton.mp least_mem]

/-- The node of the first frame is on the stack, and the stretches of its parent are below it. -/
theorem Stretches.split {frame : Frame size} {path : List (Frame size)} {stack : List (Fin size)}
    (stretches : Stretches graph search (frame :: path) stack) :
    ∃ above rest, stack = above ++ frame.node :: rest ∧ Stretches graph search path rest := by
  cases stretches with
  | cons above _ _ _ _ _ _ _ _ _ _ rest => exact ⟨above, _, rfl, rest⟩

/-- Leaving a node closes its stretch or joins it to that of its parent. -/
theorem Along.leave {node : Fin size} {path : List (Frame size)}
    (along : Along graph search (⟨node, []⟩ :: path)) :
    Along graph (search.leave node path) path := by
  obtain ⟨above, rest, stack_eq, others⟩ := along.stretches.split
  have member : node ∈ search.stack := by simp [stack_eq]
  obtain ⟨number, discovered⟩ :=
    Option.ne_none_iff_exists'.mp ((along.sound.mem_stack node).mp member).1
  have own : search.number node = number := number_eq discovered
  unfold Search.leave
  cases path with
  | nil =>
    have least : search.low.entry node = search.number node := along.stretches.low_last
    dsimp only
    rw [if_pos (by rw [discovered, least, own])]
    exact along.close least
  | cons parent path =>
    obtain ⟨parentAbove, parentRest, rest_eq, -⟩ := others.split
    have smaller : ∀ earlier ∈ rest, search.number earlier < search.number node :=
      (along.sound.number_split stack_eq).2
    have parent_mem : parent.node ∈ rest := by simp [rest_eq]
    have different : node ≠ parent.node := by
      intro same
      have less := smaller parent.node parent_mem
      rw [same] at less
      omega
    dsimp only
    rw [discovery_lower, low_lower, if_neg different, discovered]
    by_cases least : search.low.entry node = search.number node
    · have falling := along.sound.falling
      rw [stack_eq, List.pairwise_append, List.pairwise_cons] at falling
      have parent_le := others.low_le falling.2.1.2
      have less := smaller parent.node parent_mem
      rw [if_pos (by rw [least, own]), lower_of_le (by omega)]
      exact along.close least
    · rw [if_neg (fun same => least ((Option.some.inj same).symm.trans own.symm))]
      exact along.join least

/-- Following an edge to a new node enters that. -/
theorem Along.descend {node target : Fin size} {pending : List (Fin size)}
    {path : List (Frame size)} (along : Along graph search (⟨node, target :: pending⟩ :: path))
    (new : search.discovery.entry target = none) :
    Along graph (search.enter target)
      (⟨target, graph.next target⟩ :: ⟨node, pending⟩ :: path) := by
  have edge : graph.Edge node target := by
    have stretches := along.stretches
    generalize search.stack = stack at stretches
    cases stretches with
    | cons _ _ _ _ _ next_eq =>
      rw [Digraph.Edge, next_eq]
      simp
  obtain ⟨sound, stretches⟩ := along.enter new (by
    rintro parent same
    obtain rfl := Option.some.inj same
    exact edge)
  refine ⟨sound, ?_⟩
  have known : (search.enter target).discovery.entry target ≠ none := by
    rw [discovery_enter, if_pos rfl]
    exact Option.some_ne_none _
  have falling := sound.falling
  generalize (search.enter target).stack = stack at stretches falling
  cases stretches with
  | cons above done least mutual_above followed_above next_eq followed entered least_mem low_eq
      reaches rest =>
    rw [List.pairwise_append, List.pairwise_cons] at falling
    obtain ⟨-, ⟨smaller, falling⟩, -⟩ := falling
    refine .cons above done least mutual_above followed_above next_eq followed ?_ least_mem low_eq
      reaches (rest.advance ⟨known, fun _ => ?_⟩)
    · rintro parent same
      obtain rfl := Option.some.inj same
      exact edge
    · obtain ⟨others, below, rfl, -⟩ := rest.split
      have low_le : (search.enter target).low.entry node ≤ (search.enter target).number node :=
        rest.low_le falling
      have less : (search.enter target).number node < (search.enter target).number target :=
        smaller node (by simp)
      omega

end DeclOrder.Order.Search
