import DeclOrder.Order.Component

/-!
# Agendas of components

What is left to do when the components of a graph are put out one after another, each after every
other component it has an edge into: which components each one still waits for, which ones wait for
it, and a queue of those that wait for nothing. The queue goes by the first nodes of the components.

Components are told apart by their numbers. A set of them is a table that marks its members.
-/

namespace DeclOrder.Order

/-- The edges of a graph, by their sources. -/
def Digraph.edges {size : Nat} (graph : Digraph size) : List (Fin size × Fin size) :=
  (List.finRange size).flatMap fun source => (graph.next source).map (source, ·)

/-- A place in the queue: the first node of a component, and its number. -/
abbrev Ticket (count : Nat) := Nat × Fin count

/-- The components of a graph on the way out. -/
structure Agenda (size count : Nat) where
  /-- The nodes of each component in ascending order. -/
  members : Table (List (Fin size)) count := .all count []
  /-- The components with an edge into each one. -/
  dependents : Table (Table Bool count) count := .all count (.all count false)
  /-- The components that each one has an edge into and that are not out yet. -/
  pending : Table (Table Bool count) count := .all count (.all count false)
  /-- The components that wait for no other and are not out yet, in the order of their tickets. -/
  queue : List (Ticket count) := []

namespace Agenda

variable {size count : Nat}

/-- The queue with one more ticket, put before the first that it precedes. -/
def push (ticket : Ticket count) : List (Ticket count) → List (Ticket count)
  | [] => [ticket]
  | first :: rest =>
    if ticket.lexLt first then ticket :: first :: rest else first :: push ticket rest

/-- Add a node to its component. -/
def enrol (component : Table (Fin count) size) (agenda : Agenda size count) (node : Fin size) :
    Agenda size count :=
  let id := component.entry node
  { agenda with members := agenda.members.put id (agenda.members.entry id ++ [node]) }

/-- Let a component wait for another one that it has an edge into. -/
def link (agenda : Agenda size count) (source target : Fin count) : Agenda size count :=
  if source = target then
    agenda
  else
    { agenda with
      dependents :=
        agenda.dependents.put target ((agenda.dependents.entry target).put source true)
      pending := agenda.pending.put source ((agenda.pending.entry source).put target true) }

/-- Let the component that an edge leads from wait for the one that it leads into. -/
def connect (component : Table (Fin count) size) (agenda : Agenda size count)
    (edge : Fin size × Fin size) : Agenda size count :=
  agenda.link (component.entry edge.1) (component.entry edge.2)

/-- The first node of a component. A number that no node has stands behind all. -/
def first (agenda : Agenda size count) (id : Fin count) : Nat :=
  ((agenda.members.entry id).head?.map Fin.val).getD size

/-- The component waits for no other. -/
def isFree (agenda : Agenda size count) (id : Fin count) : Bool :=
  (agenda.pending.entry id).marked.isEmpty

/-- The place of a component in the queue. -/
def ticket (agenda : Agenda size count) (id : Fin count) : Ticket count := (agenda.first id, id)

/-- Put a component into the queue. -/
def enqueue (agenda : Agenda size count) (id : Fin count) : Agenda size count :=
  { agenda with queue := push (agenda.ticket id) agenda.queue }

/-- The components of a graph before any of them is out. -/
def ofGraph (graph : Digraph size) (component : Table (Fin count) size) : Agenda size count :=
  let enrolled := (List.finRange size).foldl (enrol component) {}
  let connected := graph.edges.foldl (connect component) enrolled
  ((List.finRange count).filter connected.isFree).foldl enqueue connected

/-- A component no longer waits for another one. -/
def resolve (agenda : Agenda size count) (source target : Fin count) : Agenda size count :=
  { agenda with
    pending := agenda.pending.put source ((agenda.pending.entry source).put target false) }

/-- A component no longer waits for the one that is out, and enters the queue if it waits for no
other. -/
def settle (out : Fin count) (agenda : Agenda size count) (dependent : Fin count) :
    Agenda size count :=
  let resolved := agenda.resolve dependent out
  if resolved.isFree dependent then resolved.enqueue dependent else resolved

/-- Settle all components that waited for one that is out, in the order of their numbers. -/
def release (agenda : Agenda size count) (out : Fin count) : Agenda size count :=
  (agenda.dependents.entry out).marked.foldl (settle out) agenda

/-- The components that come out in so many rounds, or until the queue is empty: in each round the
first of the queue. -/
def run : Nat → Agenda size count → List (List (Fin size))
  | 0, _ => []
  | rounds + 1, agenda =>
    match agenda.queue with
    | [] => []
    | (_, out) :: queue =>
      agenda.members.entry out :: run rounds ({ agenda with queue }.release out)

end Agenda

end DeclOrder.Order
