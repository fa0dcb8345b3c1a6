import DeclOrder.Proofs.Order.Release

/-!
# Agendas and releases

An agenda never looks through the components that wait: it keeps, for each of them, the components
that it still waits for, and a queue. While components come out, these sets hold exactly the
components with an edge between them that are not out yet, so those that wait for nothing are the
ready ones and all of them are in the queue. The first of the queue is then the first of the waiting
groups that is ready, and an agenda puts out the components in the order of their release.
-/

namespace DeclOrder.Order

namespace Agenda

variable {size count : Nat} {agenda : Agenda size count}

section Queue

variable {ticket other : Ticket count} {queue : List (Ticket count)}

/-- Of two tickets one precedes the other. -/
theorem lexLt_of_not_lexLt (different : ticket ≠ other) (after : ¬ ticket.lexLt other) :
    other.lexLt ticket := by
  obtain ⟨first, id⟩ := ticket
  obtain ⟨otherFirst, otherId⟩ := other
  simp only [Prod.lexLt, ne_eq, Prod.mk.injEq, Fin.lt_def, Fin.ext_iff] at different after ⊢
  omega

/-- Precedence of tickets is transitive. -/
theorem lexLt_trans {last : Ticket count} (before : ticket.lexLt other)
    (after : other.lexLt last) : ticket.lexLt last := by
  simp only [Prod.lexLt, Fin.lt_def] at before after ⊢
  omega

/-- The tickets of the queue after one more is pushed. -/
theorem mem_push : other ∈ push ticket queue ↔ other = ticket ∨ other ∈ queue := by
  induction queue with
  | nil => simp [push]
  | cons first rest ih =>
    unfold push
    split
    · exact List.mem_cons
    · rw [List.mem_cons, ih, List.mem_cons]
      exact or_left_comm

/-- Pushing a new ticket keeps the queue in order. -/
theorem pairwise_push (ascending : queue.Pairwise Prod.lexLt) (new : ticket ∉ queue) :
    (push ticket queue).Pairwise Prod.lexLt := by
  induction queue with
  | nil => exact List.pairwise_singleton _ _
  | cons first rest ih =>
    obtain ⟨below, tail⟩ := List.pairwise_cons.mp ascending
    rw [List.mem_cons, not_or] at new
    unfold push
    split
    · next before =>
      refine List.pairwise_cons.mpr ⟨fun other listed => ?_, ascending⟩
      rcases List.mem_cons.mp listed with rfl | later
      · exact before
      · exact lexLt_trans before (below other later)
    · next behind =>
      refine List.pairwise_cons.mpr ⟨fun other listed => ?_, ih tail new.2⟩
      rcases mem_push.mp listed with rfl | later
      · exact lexLt_of_not_lexLt new.1 behind
      · exact below other later

end Queue

/-- One component waits for another. -/
def Waits (agenda : Agenda size count) (source target : Fin count) : Prop :=
  (agenda.pending.entry source).entry target = true

/-- One component is served when another one is out. -/
def Serves (agenda : Agenda size count) (target source : Fin count) : Prop :=
  (agenda.dependents.entry target).entry source = true

/-- The queue has the tickets of these components, in order. -/
structure Queued (agenda : Agenda size count) (chosen : Fin count → Prop) : Prop where
  /-- The tickets are in order. -/
  ascending : agenda.queue.Pairwise Prod.lexLt
  /-- The tickets are those of the chosen components. -/
  listed : ∀ ticket, ticket ∈ agenda.queue ↔ ∃ id, chosen id ∧ ticket = agenda.ticket id

/-- A component is free when it waits for no other. -/
theorem isFree_iff {id : Fin count} :
    agenda.isFree id = true ↔ ∀ other, ¬ agenda.Waits id other := by
  rw [isFree, List.isEmpty_iff, List.eq_nil_iff_forall_not_mem]
  simp only [Table.mem_marked, Waits]

/-- Marking a member of one set leaves the other sets and members. -/
theorem entry_put_put (sets : Table (Table Bool count) count) (row column left right : Fin count)
    (mark : Bool) :
    ((sets.put row ((sets.entry row).put column mark)).entry left).entry right =
      if left = row ∧ right = column then mark else (sets.entry left).entry right := by
  by_cases own : left = row
  · simp [Table.entry_put, own]
  · simp [Table.entry_put, own]

section Start

/-- Enrolling nodes puts each of them behind the earlier nodes of its component, and concerns the
members only. -/
theorem enrol_eq (component : Table (Fin count) size) (agenda : Agenda size count)
    (nodes : List (Fin size)) :
    nodes.foldl (enrol component) agenda = { agenda with
      members := (nodes.foldl (enrol component) agenda).members } ∧
      ∀ id, (nodes.foldl (enrol component) agenda).members.entry id =
        agenda.members.entry id ++ nodes.filter fun node => component.entry node == id := by
  induction nodes generalizing agenda with
  | nil => simp
  | cons node nodes ih =>
    rw [List.foldl_cons]
    refine ⟨(ih _).1, fun id => ?_⟩
    rw [(ih _).2, enrol, Table.entry_put, List.filter_cons]
    by_cases own : component.entry node = id
    · simp [own]
    · simp [own, Ne.symm own]

/-- The agenda knows for these pairs of components that the first waits for the second. -/
structure Connected (agenda : Agenda size count) (linked : Fin count → Fin count → Prop) :
    Prop where
  /-- The first waits for the second. -/
  waits : ∀ source target, agenda.Waits source target ↔ linked source target
  /-- The first is served by the second. -/
  serves : ∀ source target, agenda.Serves target source ↔ linked source target

/-- Linking two components adds their pair. -/
theorem Connected.link {linked : Fin count → Fin count → Prop} (connected : agenda.Connected linked)
    (source target : Fin count) :
    (agenda.link source target).Connected fun left right =>
      linked left right ∨ left ≠ right ∧ left = source ∧ right = target := by
  constructor
  · intro left right
    rw [← connected.waits]
    unfold Agenda.link Waits
    split
    · grind
    · simp only [entry_put_put]
      grind
  · intro left right
    rw [← connected.serves]
    unfold Agenda.link Serves
    split
    · grind
    · simp only [entry_put_put]
      grind

/-- Connecting the components along edges adds the pairs that the edges lead between. -/
theorem Connected.connect {linked : Fin count → Fin count → Prop}
    (connected : agenda.Connected linked) (component : Table (Fin count) size)
    (edges : List (Fin size × Fin size)) :
    (edges.foldl (connect component) agenda).Connected fun left right =>
      linked left right ∨ left ≠ right ∧
        ∃ edge ∈ edges, component.entry edge.1 = left ∧ component.entry edge.2 = right := by
  induction edges generalizing agenda linked with
  | nil => simpa using connected
  | cons edge edges ih =>
    have rest := ih (connected.link (component.entry edge.1) (component.entry edge.2))
    constructor
    · intro left right
      rw [List.foldl_cons, Agenda.connect, rest.waits]
      grind
    · intro left right
      rw [List.foldl_cons, Agenda.connect, rest.serves]
      grind

/-- Connecting the components leaves the members and the queue. -/
theorem connect_eq (component : Table (Fin count) size) (agenda : Agenda size count)
    (edges : List (Fin size × Fin size)) :
    (edges.foldl (connect component) agenda).members = agenda.members ∧
      (edges.foldl (connect component) agenda).queue = agenda.queue := by
  induction edges generalizing agenda with
  | nil => exact ⟨rfl, rfl⟩
  | cons edge edges ih =>
    rw [List.foldl_cons, (ih _).1, (ih _).2, connect, Agenda.link]
    split <;> exact ⟨rfl, rfl⟩

end Start

section Queues

variable {chosen : Fin count → Prop}

/-- Putting a component into the queue adds it to those that are chosen. -/
theorem Queued.enqueue (queued : agenda.Queued chosen) {id : Fin count} (new : ¬ chosen id) :
    (agenda.enqueue id).Queued fun other => chosen other ∨ other = id := by
  constructor
  · refine pairwise_push queued.ascending fun member => ?_
    obtain ⟨other, isChosen, same⟩ := (queued.listed _).mp member
    obtain rfl : id = other := congrArg Prod.snd same
    exact new isChosen
  · intro ticket
    change ticket ∈ push (agenda.ticket id) agenda.queue ↔ ∃ other, _ ∧ ticket = agenda.ticket other
    rw [mem_push, queued.listed]
    grind

/-- Putting some components into the queue adds them to those that are chosen. -/
theorem Queued.enqueues (queued : agenda.Queued chosen) {ids : List (Fin count)}
    (distinct : ids.Nodup) (new : ∀ id ∈ ids, ¬ chosen id) :
    (ids.foldl Agenda.enqueue agenda).Queued fun other => chosen other ∨ other ∈ ids := by
  induction ids generalizing agenda chosen with
  | nil => simpa using queued
  | cons id ids ih =>
    rw [List.nodup_cons] at distinct
    have rest := ih (queued.enqueue (new id List.mem_cons_self)) distinct.2 (by grind)
    simpa only [List.foldl_cons, List.mem_cons, or_assoc] using rest

/-- Putting components into the queue concerns the queue only. -/
theorem enqueues_eq (ids : List (Fin count)) :
    ids.foldl enqueue agenda = { agenda with queue := (ids.foldl enqueue agenda).queue } := by
  induction ids generalizing agenda with
  | nil => rfl
  | cons id ids ih =>
    rw [List.foldl_cons, ih]
    rfl

/-- The queue has the tickets of the same components by any name for them. -/
theorem Queued.congr {other : Fin count → Prop} (queued : agenda.Queued chosen)
    (same : ∀ id, chosen id ↔ other id) : agenda.Queued other :=
  ⟨queued.ascending, fun ticket => by simp only [queued.listed, same]⟩

/-- Behind the first of the queue, the other components are left. -/
theorem Queued.tail (queued : agenda.Queued chosen) {ticket : Ticket count}
    {queue : List (Ticket count)} (split : agenda.queue = ticket :: queue) :
    ({ agenda with queue := queue } : Agenda size count).Queued fun id =>
      chosen id ∧ id ≠ ticket.2 := by
  have ascending := queued.ascending
  rw [split, List.pairwise_cons] at ascending
  have missing : ticket ∉ queue := fun listed => by
    have before := ascending.1 ticket listed
    simp only [Prod.lexLt, Fin.lt_def] at before
    omega
  refine ⟨ascending.2, fun other => ?_⟩
  have listed := queued.listed other
  have own := (queued.listed ticket).mp (split ▸ List.mem_cons_self)
  rw [split, List.mem_cons] at listed
  change other ∈ queue ↔ ∃ id, (chosen id ∧ id ≠ ticket.2) ∧ other = agenda.ticket id
  constructor
  · intro member
    obtain ⟨id, isChosen, rfl⟩ := listed.mp (.inr member)
    refine ⟨id, ⟨isChosen, ?_⟩, rfl⟩
    rintro rfl
    obtain ⟨id, -, rfl⟩ := own
    exact missing member
  · rintro ⟨id, ⟨isChosen, different⟩, rfl⟩
    refine (listed.mpr ⟨id, isChosen, rfl⟩).resolve_left fun same => different ?_
    rw [← same, Agenda.ticket]

section Start

variable (graph : Digraph size) (component : Table (Fin count) size)

/-- At first every component has its nodes as members. -/
theorem members_ofGraph (id : Fin count) :
    (ofGraph graph component).members.entry id =
      (List.finRange size).filter fun node => component.entry node == id := by
  rw [ofGraph, enqueues_eq]
  change (graph.edges.foldl (connect component) _).members.entry id = _
  rw [(connect_eq ..).1, (enrol_eq ..).2, Table.entry_all, List.nil_append]

/-- At first the agenda has the pairs of components that the edges lead between. -/
theorem connected_ofGraph :
    (ofGraph graph component).Connected fun left right => left ≠ right ∧
      ∃ edge ∈ graph.edges, component.entry edge.1 = left ∧ component.entry edge.2 = right := by
  have none : ((List.finRange size).foldl (enrol component) {}).Connected fun _ _ => False := by
    rw [(enrol_eq ..).1]
    constructor <;> simp [Waits, Serves]
  have connected := none.connect component graph.edges
  simp only [false_or] at connected
  rw [ofGraph, enqueues_eq]
  exact ⟨connected.waits, connected.serves⟩

/-- At first the queue has the components that wait for nothing. -/
theorem queued_ofGraph :
    (ofGraph graph component).Queued fun id =>
      ∀ target, ¬ (ofGraph graph component).Waits id target := by
  have none : (graph.edges.foldl (connect component)
      ((List.finRange size).foldl (enrol component) {})).Queued fun _ => False := by
    have empty := (connect_eq component _ graph.edges).2.trans
      (congrArg Agenda.queue (enrol_eq component {} (List.finRange size)).1)
    exact ⟨empty ▸ List.Pairwise.nil, fun ticket => by simp [empty]⟩
  refine (none.enqueues ((List.nodup_finRange count).filter _) fun _ _ => not_false).congr ?_
  intro id
  rw [false_or, List.mem_filter, isFree_iff, ofGraph, enqueues_eq]
  exact and_iff_right (List.mem_finRange id)

end Start

variable (out : Fin count)

/-- A component waits for the same others but the one it no longer waits for. -/
theorem waits_resolve {dependent source target : Fin count} :
    (agenda.resolve dependent out).Waits source target ↔
      agenda.Waits source target ∧ ¬ (source = dependent ∧ target = out) := by
  rw [resolve, Waits, entry_put_put, Waits]
  grind

/-- Settling a component changes the queue beside what is waited for. -/
theorem settle_eq (dependent : Fin count) :
    agenda.settle out dependent = { agenda.resolve dependent out with
      queue := (agenda.settle out dependent).queue } := by
  unfold settle
  dsimp only
  split <;> rfl

/-- Once settled, a component waits for the same others but the one that is out. -/
theorem waits_settle {dependent source target : Fin count} :
    (agenda.settle out dependent).Waits source target ↔
      agenda.Waits source target ∧ ¬ (source = dependent ∧ target = out) := by
  rw [settle_eq]
  exact waits_resolve out

/-- A settled component enters the queue if it waited for nothing else. -/
theorem Queued.settle (queued : agenda.Queued chosen) {dependent : Fin count}
    (new : ¬ chosen dependent) :
    (agenda.settle out dependent).Queued fun other => chosen other ∨
      other = dependent ∧ ∀ target, target ≠ out → ¬ agenda.Waits dependent target := by
  have resolved : (agenda.resolve dependent out).Queued chosen := ⟨queued.ascending, queued.listed⟩
  have free : (agenda.resolve dependent out).isFree dependent = true ↔
      ∀ target, target ≠ out → ¬ agenda.Waits dependent target := by
    rw [isFree_iff]
    simp only [waits_resolve]
    grind
  unfold Agenda.settle
  dsimp only
  split
  · next enters =>
    have all := free.mp enters
    simpa only [and_iff_left all] using resolved.enqueue new
  · next waits =>
    have some_other := mt free.mpr waits
    simpa only [some_other, and_false, or_false] using resolved

/-- Settling some components keeps the members and what is served, and each of the components no
longer waits for the one that is out. -/
theorem settles_eq (dependents : List (Fin count)) :
    (dependents.foldl (Agenda.settle out) agenda).members = agenda.members ∧
      (dependents.foldl (Agenda.settle out) agenda).dependents = agenda.dependents ∧
      ∀ source target, (dependents.foldl (Agenda.settle out) agenda).Waits source target ↔
        agenda.Waits source target ∧ ¬ (source ∈ dependents ∧ target = out) := by
  induction dependents generalizing agenda with
  | nil => simp
  | cons dependent dependents ih =>
    obtain ⟨members, served, waits⟩ := @ih (agenda.settle out dependent)
    rw [List.foldl_cons, members, served]
    refine ⟨by rw [settle_eq]; rfl, by rw [settle_eq]; rfl, fun source target => ?_⟩
    rw [waits, waits_settle, List.mem_cons]
    grind

/-- Of some components that are settled, those that waited for nothing else enter the queue. -/
theorem Queued.settles (queued : agenda.Queued chosen) {dependents : List (Fin count)}
    (distinct : dependents.Nodup) (new : ∀ id ∈ dependents, ¬ chosen id) :
    (dependents.foldl (Agenda.settle out) agenda).Queued fun other => chosen other ∨
      other ∈ dependents ∧ ∀ target, target ≠ out → ¬ agenda.Waits other target := by
  induction dependents generalizing agenda chosen with
  | nil => simpa using queued
  | cons dependent dependents ih =>
    rw [List.nodup_cons] at distinct
    have rest := ih (queued.settle out (new dependent List.mem_cons_self)) distinct.2 (by grind)
    refine rest.congr fun other => ?_
    simp only [waits_settle]
    grind

/-- Release keeps the members and what is served. What the component that is out serves no longer
waits for it. -/
theorem release_eq (agenda : Agenda size count) :
    (agenda.release out).members = agenda.members ∧
      (agenda.release out).dependents = agenda.dependents ∧
      ∀ source target, (agenda.release out).Waits source target ↔
        agenda.Waits source target ∧ ¬ (agenda.Serves out source ∧ target = out) := by
  obtain ⟨members, dependents, waits⟩ :=
    @settles_eq size count agenda out (agenda.dependents.entry out).marked
  refine ⟨members, dependents, fun source target => (waits source target).trans ?_⟩
  rw [Table.mem_marked, Serves]

/-- Of what the component that is out serves, all that waits for nothing else enters the queue. -/
theorem Queued.release (queued : agenda.Queued chosen)
    (new : ∀ id, agenda.Serves out id → ¬ chosen id) :
    (agenda.release out).Queued fun other => chosen other ∨
      agenda.Serves out other ∧ ∀ target, target ≠ out → ¬ agenda.Waits other target := by
  have distinct := (Table.pairwise_marked (agenda.dependents.entry out)).imp Fin.ne_of_lt
  refine (queued.settles out distinct fun id listed => new id ?_).congr fun other => ?_
  · exact Table.mem_marked.mp listed
  · rw [Table.mem_marked, Serves]

end Queues

section Run

variable {graph : Digraph size} {components : Table Nat size} {placed : Table Bool size}
  {waiting : List (List (Fin size))} {agenda : Agenda size (Digraph.numberCount components)}

open DeclOrder.Order.Digraph

/-- The edges are listed by their ends. -/
theorem mem_edges {graph : Digraph size} {source target : Fin size} :
    (source, target) ∈ graph.edges ↔ graph.Edge source target := by
  simp [edges, Edge]

/-- Some edge leads from one component into another one. -/
def Linked (graph : Digraph size) (components : Table Nat size)
    (source target : Fin (numberCount components)) : Prop :=
  source ≠ target ∧ ∃ node other, graph.Edge node other ∧
    (numbered components).entry node = source ∧ (numbered components).entry other = target

/-- Nodes share the number of their component if they share the component. -/
theorem numbered_inj {left right : Fin size} :
    (numbered components).entry left = (numbered components).entry right ↔
      components.entry left = components.entry right := by
  simp [numbered, Table.entry_eq_getElem, Fin.ext_iff]

/-- What an agenda knows of the groups that wait. -/
structure Follows (graph : Digraph size) (components : Table Nat size) (placed : Table Bool size)
    (waiting : List (List (Fin size))) (agenda : Agenda size (numberCount components)) :
    Prop where
  /-- The waiting groups are components. -/
  component : ∀ group ∈ waiting, ∃ node, group = componentOf components node
  /-- The waiting groups come in the order of their first nodes. -/
  ascending : waiting.Pairwise fun left right => key left < key right
  /-- The nodes that are not placed are those of the waiting groups. -/
  unplaced : ∀ node, placed.entry node = false ↔ componentOf components node ∈ waiting
  /-- The members of a number are the nodes with that number. -/
  members : ∀ node,
    agenda.members.entry ((numbered components).entry node) = componentOf components node
  /-- A component is served by those that it has edges into. -/
  serves : ∀ source target, agenda.Serves target source ↔ Linked graph components source target
  /-- A component waits for those that it has edges into and that are still to come. -/
  waits : ∀ source target, agenda.Waits source target ↔
    Linked graph components source target ∧ agenda.members.entry target ∈ waiting
  /-- What has an edge into a component that is still to come is still to come. -/
  behind : ∀ source target, Linked graph components source target →
    agenda.members.entry target ∈ waiting → agenda.members.entry source ∈ waiting
  /-- The components in the queue are those still to come that wait for nothing. -/
  queued : agenda.Queued fun id =>
    agenda.members.entry id ∈ waiting ∧ ∀ target, ¬ agenda.Waits id target

/-- No waiting group is repeated. -/
theorem Follows.nodup (follows : Follows graph components placed waiting agenda) :
    waiting.Nodup :=
  follows.ascending.imp fun less same => absurd (same ▸ less) (Nat.lt_irrefl _)

/-- The place of a component in the queue is that of its key. -/
theorem Follows.first_eq (follows : Follows graph components placed waiting agenda)
    (node : Fin size) :
    agenda.first ((numbered components).entry node) = key (componentOf components node) := by
  obtain ⟨least, others, split⟩ := List.exists_cons_of_ne_nil
    (List.ne_nil_of_mem (self_mem_componentOf components node))
  have head : (componentOf components node).head? = some least := by rw [split, List.head?_cons]
  rw [first, follows.members, head, key_of_head? (pairwise_componentOf components node) head]
  rfl

/-- The groups that are ready are those of the components that wait for nothing. -/
theorem Follows.ready_iff (follows : Follows graph components placed waiting agenda)
    (node : Fin size) :
    graph.ready components placed (componentOf components node) = true ↔
      ∀ target, ¬ agenda.Waits ((numbered components).entry node) target := by
  rw [Digraph.ready_iff]
  constructor
  · rintro ready target waits
    obtain ⟨⟨different, member, other, edge, source_eq, rfl⟩, still⟩ :=
      (follows.waits _ _).mp waits
    have inside : member ∈ componentOf components node :=
      mem_componentOf.mpr (numbered_inj.mp source_eq)
    rw [follows.members, ← follows.unplaced] at still
    rcases ready member inside other edge with same | placed
    · exact different (source_eq.symm.trans (numbered_inj.mpr same.symm))
    · exact Bool.false_ne_true (still.symm.trans placed)
  · intro free member inside other edge
    refine or_iff_not_imp_left.mpr fun different => ?_
    by_contra missing
    have source_eq := numbered_inj.mpr (mem_componentOf.mp inside)
    have still : componentOf components other ∈ waiting :=
      (follows.unplaced other).mp (Bool.eq_false_iff.mpr missing)
    refine free ((numbered components).entry other) ((follows.waits _ _).mpr ⟨⟨?_, ?_⟩, ?_⟩)
    · exact fun same => different (numbered_inj.mp (same.symm.trans source_eq.symm))
    · exact ⟨member, other, edge, source_eq, rfl⟩
    · rwa [follows.members]

/-- A component that is still to come and waits for nothing is in the queue. -/
theorem Follows.mem_queue (follows : Follows graph components placed waiting agenda)
    {node : Fin size} (waits : componentOf components node ∈ waiting)
    (ready : graph.ready components placed (componentOf components node) = true) :
    agenda.ticket ((numbered components).entry node) ∈ agenda.queue := by
  refine (follows.queued.listed _).mpr ⟨_, ⟨?_, (follows.ready_iff node).mp ready⟩, rfl⟩
  rwa [follows.members]

/-- When the queue is empty, no waiting group is ready. -/
theorem Follows.find?_of_nil (follows : Follows graph components placed waiting agenda)
    (empty : agenda.queue = []) : waiting.find? (graph.ready components placed) = none := by
  refine List.find?_eq_none.mpr fun group waits ready => ?_
  obtain ⟨node, rfl⟩ := follows.component group waits
  have listed := follows.mem_queue waits ready
  rw [empty] at listed
  exact List.not_mem_nil listed

/-- The component of a ticket in the queue is still to come and waits for nothing. -/
theorem Follows.of_mem_queue (follows : Follows graph components placed waiting agenda)
    {ticket : Ticket (numberCount components)} (listed : ticket ∈ agenda.queue) :
    ticket = agenda.ticket ticket.2 ∧ agenda.members.entry ticket.2 ∈ waiting ∧
      ∀ target, ¬ agenda.Waits ticket.2 target := by
  obtain ⟨id, ⟨waits, free⟩, rfl⟩ := (follows.queued.listed ticket).mp listed
  exact ⟨rfl, waits, free⟩

/-- The first of the queue is the first of the waiting groups that is ready. -/
theorem Follows.find?_of_cons (follows : Follows graph components placed waiting agenda)
    {ticket : Ticket (numberCount components)} {queue : List (Ticket _)} {node : Fin size}
    (split : agenda.queue = ticket :: queue)
    (own : (numbered components).entry node = ticket.2) :
    waiting.find? (graph.ready components placed) = some (componentOf components node) := by
  have listed : ticket ∈ agenda.queue := split ▸ List.mem_cons_self
  obtain ⟨place, waits, free⟩ := follows.of_mem_queue listed
  rw [← own, follows.members] at waits
  rw [← own, ← follows.ready_iff] at free
  cases found : waiting.find? (graph.ready components placed) with
  | none => exact absurd free (List.find?_eq_none.mp found _ waits)
  | some group =>
    obtain ⟨other, rfl⟩ := follows.component group (List.mem_of_find?_eq_some found)
    by_contra different
    have differs : componentOf components node ≠ componentOf components other := fun same =>
      different (congrArg some same.symm)
    have less := key_lt_of_find? follows.ascending found waits free differs
    -- The other component is in the queue too, behind the first one.
    have behind := follows.mem_queue (List.mem_of_find?_eq_some found) (List.find?_some found)
    have ascending := follows.queued.ascending
    rw [split] at behind ascending
    rcases List.mem_cons.mp behind with same | later
    · have numbers : (numbered components).entry other = (numbered components).entry node :=
        (congrArg Prod.snd same).trans own.symm
      exact differs (componentOf_congr (numbered_inj.mp numbers)).symm
    · have before := (List.pairwise_cons.mp ascending).1 _ later
      rw [place, ← own, Prod.lexLt, Agenda.ticket, Agenda.ticket, follows.first_eq,
        follows.first_eq] at before
      omega

/-- The components that enter the queue behind one that comes out are those that waited for it
alone. -/
theorem Follows.queued_release (follows : Follows graph components placed waiting agenda)
    {out : Fin (numberCount components)} {place : Nat} {queue : List (Ticket _)}
    (split : agenda.queue = (place, out) :: queue) :
    (({ agenda with queue := queue } : Agenda size _).release out).Queued fun id =>
      (id ≠ out ∧ agenda.members.entry id ∈ waiting) ∧
        ∀ target, agenda.Waits id target → target = out := by
  obtain ⟨-, still, free⟩ := follows.of_mem_queue (split ▸ List.mem_cons_self)
  dsimp only at still free
  have waits (id : Fin (numberCount components)) (served : agenda.Serves out id) :
      agenda.Waits id out := (follows.waits id out).mpr ⟨(follows.serves id out).mp served, still⟩
  refine ((follows.queued.tail split).release out fun id served chosen => ?_).congr fun id => ?_
  · exact chosen.1.2 out (waits id served)
  · have comes (served : agenda.Serves out id) : id ≠ out ∧ agenda.members.entry id ∈ waiting :=
      have linked := (follows.serves id out).mp served
      ⟨linked.1, follows.behind id out linked still⟩
    have served (waiting : agenda.Waits id out) : agenda.Serves out id :=
      (follows.serves id out).mpr ((follows.waits id out).mp waiting).1
    change ((_ ∧ _) ∧ id ≠ out) ∨ agenda.Serves out id ∧
      (∀ target, target ≠ out → ¬ agenda.Waits id target) ↔ _
    grind

variable (inhabited : ∀ id, ∃ node, (numbered components).entry node = id)

include inhabited

/-- Numbers with the same members are the same. -/
theorem Follows.members_inj (follows : Follows graph components placed waiting agenda)
    {left right : Fin (numberCount components)}
    (same : agenda.members.entry left = agenda.members.entry right) : left = right := by
  obtain ⟨node, rfl⟩ := inhabited left
  obtain ⟨other, rfl⟩ := inhabited right
  rw [follows.members, follows.members] at same
  have inside : node ∈ componentOf components other :=
    same ▸ self_mem_componentOf components node
  exact numbered_inj.mpr (mem_componentOf.mp inside)

section Erased

variable {out : Fin (numberCount components)}

/-- The members of a number are among the groups left behind a component if it is another one and
they waited. -/
theorem Follows.mem_erase_iff (follows : Follows graph components placed waiting agenda)
    (id : Fin (numberCount components)) :
    agenda.members.entry id ∈ waiting.erase (agenda.members.entry out) ↔
      id ≠ out ∧ agenda.members.entry id ∈ waiting := by
  rw [follows.nodup.mem_erase_iff]
  refine and_congr_left fun _ => not_congr ⟨follows.members_inj inhabited, ?_⟩
  exact congrArg agenda.members.entry

/-- Once a component is placed, the nodes that are not are those of the groups left. -/
theorem Follows.unplaced_erase (follows : Follows graph components placed waiting agenda)
    (node : Fin size) :
    (place placed (agenda.members.entry out)).entry node = false ↔
      componentOf components node ∈ waiting.erase (agenda.members.entry out) := by
  obtain ⟨member, rfl⟩ := inhabited out
  rw [follows.members, entry_place, Bool.or_eq_false_iff, follows.unplaced,
    follows.nodup.mem_erase_iff, decide_eq_false_iff_not, mem_componentOf]
  refine and_congr_left fun _ => not_congr ⟨componentOf_congr, fun same => ?_⟩
  exact mem_componentOf.mp (same ▸ self_mem_componentOf components node)

/-- When the first of the queue comes out, the agenda follows the groups that are left. -/
theorem Follows.release (follows : Follows graph components placed waiting agenda)
    {place : Nat} {queue : List (Ticket _)} (split : agenda.queue = (place, out) :: queue) :
    Follows graph components (Digraph.place placed (agenda.members.entry out))
      (waiting.erase (agenda.members.entry out))
      (({ agenda with queue := queue } : Agenda size _).release out) := by
  obtain ⟨-, -, free⟩ := follows.of_mem_queue (split ▸ List.mem_cons_self)
  obtain ⟨members, dependents, resolved⟩ := release_eq out { agenda with queue := queue }
  have left := @Follows.mem_erase_iff _ _ _ _ _ _ inhabited out follows
  have waits (source target : Fin (numberCount components)) :
      (({ agenda with queue := queue } : Agenda size _).release out).Waits source target ↔
        agenda.Waits source target ∧ target ≠ out := by
    refine (resolved source target).trans (and_congr_right fun waits => not_congr ?_)
    have served := (follows.serves source target).mpr ((follows.waits _ _).mp waits).1
    exact ⟨And.right, fun same => ⟨same ▸ served, same⟩⟩
  constructor
  · exact fun group waits => follows.component group (List.mem_of_mem_erase waits)
  · exact follows.ascending.sublist List.erase_sublist
  · exact follows.unplaced_erase inhabited
  · intro node
    rw [members]
    exact follows.members node
  · intro source target
    rw [Serves, dependents]
    exact follows.serves source target
  · intro source target
    rw [waits, members, left, follows.waits, and_right_comm, and_assoc]
  · intro source target linked
    rw [members, left, left]
    rintro ⟨-, comes⟩
    refine ⟨?_, follows.behind source target linked comes⟩
    rintro rfl
    exact free target ((follows.waits _ target).mpr ⟨linked, comes⟩)
  · refine (follows.queued_release split).congr fun id => ?_
    simp only [members, left, waits, not_and, not_not]

end Erased

/-- An agenda puts out the groups that wait as they are released. -/
theorem Follows.run_eq_release (follows : Follows graph components placed waiting agenda)
    {rounds : Nat} (enough : waiting.length ≤ rounds) :
    agenda.run rounds = graph.release components placed waiting := by
  induction rounds generalizing placed waiting agenda with
  | zero =>
    obtain rfl := List.eq_nil_of_length_eq_zero (Nat.le_zero.mp enough)
    rw [run, release_of_find?_none List.find?_nil]
  | succ rounds ih =>
    rw [run]
    split
    · next empty => rw [release_of_find?_none (follows.find?_of_nil empty)]
    · next place out queue split =>
      obtain ⟨node, own⟩ := inhabited out
      have found := follows.find?_of_cons split own
      have after := follows.release inhabited split
      rw [← own, follows.members] at after ⊢
      rw [release_of_find?_some found, ih after]
      rw [List.length_erase_of_mem (List.mem_of_find?_eq_some found)]
      exact Nat.sub_le_of_le_add enough

/-- Before any component is out, an agenda follows all groups. -/
theorem follows_ofGraph (graph : Digraph size) :
    Follows graph components (.all size false) (groups components)
      (ofGraph graph (numbered components)) := by
  have members (node : Fin size) : (ofGraph graph (numbered components)).members.entry
      ((numbered components).entry node) = componentOf components node := by
    rw [members_ofGraph, componentOf]
    refine List.filter_congr fun other _ => ?_
    rw [Bool.eq_iff_iff, beq_iff_eq, beq_iff_eq, numbered_inj]
  have still (id : Fin (numberCount components)) :
      (ofGraph graph (numbered components)).members.entry id ∈ groups components := by
    obtain ⟨node, rfl⟩ := inhabited id
    exact mem_groups.mpr ⟨node, members node⟩
  have linked (source target : Fin (numberCount components)) :
      Linked graph components source target ↔ source ≠ target ∧ ∃ edge ∈ graph.edges,
        (numbered components).entry edge.1 = source ∧
          (numbered components).entry edge.2 = target := by
    simp only [Linked, Prod.exists, mem_edges]
  have connected := connected_ofGraph graph (numbered components)
  simp only [← linked] at connected
  constructor
  · exact fun group waits => mem_groups.mp waits
  · exact pairwise_key_groups components
  · intro node
    rw [Table.entry_all, mem_groups]
    exact iff_of_true rfl ⟨node, rfl⟩
  · exact members
  · exact connected.serves
  · exact fun source target =>
      (connected.waits source target).trans (and_iff_left (still target)).symm
  · exact fun source _ _ _ => still source
  · exact (queued_ofGraph graph _).congr fun id => (and_iff_right (still id)).symm

end Run

end Agenda

namespace Digraph

variable {size : Nat}

/-- Every number below the count is that of a component. -/
theorem exists_numbered_eq (graph : Digraph size) (id : Fin (numberCount graph.components)) :
    ∃ node, (numbered graph.components).entry node = id := by
  have sound := (Search.sound_run graph).1
  obtain ⟨greatest, below⟩ : ∃ node, id.val ≤ graph.components.entry node := by
    have inside := id.isLt
    unfold numberCount at inside
    cases found : graph.components.toList.max? with
    | none => simp [found] at inside
    | some greatest =>
      have listed := Vector.mem_toList_iff.mp (List.max?_mem found)
      obtain ⟨place, isPlace, rfl⟩ := Vector.getElem_of_mem listed
      simp only [found, Option.map_some, Option.getD_some] at inside
      exact ⟨⟨place, isPlace⟩, Nat.le_of_lt_succ inside⟩
  obtain ⟨node, closed⟩ := sound.used id.val
    (below.trans_lt (sound.below greatest _ (graph.component_run greatest)))
  have own := Option.some.inj ((graph.component_run node).symm.trans closed)
  exact ⟨node, Fin.ext (by simpa [numbered, Table.entry_eq_getElem] using own)⟩

/-- The schedule of a graph is the release of its components. -/
theorem schedule_eq_release (graph : Digraph size) :
    graph.schedule =
      graph.release graph.components (.all size false) (groups graph.components) := by
  have inhabited := graph.exists_numbered_eq
  exact (Agenda.follows_ofGraph inhabited graph).run_eq_release inhabited (length_groups_le _)

end Digraph

end DeclOrder.Order
