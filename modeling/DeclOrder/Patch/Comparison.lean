import DeclOrder.Patch.Edit
import DeclOrder.Text.Ends

/-!
# Comparison

`compare` finds the edits from old lines to new ones. It keeps the front and the back that they
have in common. Where lines are left on both sides, shortest paths through the grid of the two
are followed from both ends until they meet, the grid is cut in two at that place, and the parts
are compared on their own.

A place in the grid is a number of old lines and a number of new lines that lie behind it; their
difference is its diagonal. A path goes along its diagonal for free where lines are equal, and
pays for every step to the next diagonal above, which deletes a line, or below, which inserts one.
-/

namespace DeclOrder.Patch

/-- The end of a furthest path: the equal lines along one diagonal that it ends with. -/
structure Snake where
  /-- The diagonal. -/
  diagonal : Int
  /-- The number of old lines behind its start. -/
  start : Nat
  /-- The number of old lines behind its end. -/
  stop : Nat

/-- The number of new lines behind a place on a diagonal. -/
def newBehind (diagonal : Int) (oldBehind : Nat) : Nat := (oldBehind - diagonal).toNat

/-- The number of lines in a row that are equal from two places on. -/
def equalFrom (old new : Array String) (oldBehind newBehind : Nat) : Nat :=
  if within : oldBehind < old.size ∧ newBehind < new.size then
    if old[oldBehind] = new[newBehind] then
      equalFrom old new (oldBehind + 1) (newBehind + 1) + 1
    else 0
  else 0
  termination_by old.size - oldBehind

/-- Where the furthest paths with one more step start on their diagonals, from the highest
diagonal down, when `stops` says where the paths so far end on theirs and `above` where the one on
the diagonal above them does. A path comes from below unless that is behind. -/
def starts (above : Option Nat) : List Nat → List Nat
  | [] => [above.getD 0]
  | below :: stops =>
    let start := match above with
      | some above => if below < above then above else below + 1
      | none => below + 1
    start :: starts (some below) stops

/-- The ends of the furthest paths with one more step than those that end at `stops`. -/
def snakes (old new : Array String) (stops : List Nat) : List Snake :=
  let highest : Int := stops.length
  (starts none stops).zipIdx.map fun (start, place) =>
    let diagonal := highest - 2 * place
    ⟨diagonal, start, start + equalFrom old new start (newBehind diagonal start)⟩

/-- Where the furthest path on a diagonal ends, if one of them is on it. -/
def stopOn? (stops : Array Nat) (diagonal : Int) : Option Nat :=
  let below : Int := stops.size - 1 - diagonal
  if 0 ≤ below ∧ below % 2 = 0 then stops[(below / 2).toNat]? else none

/-- The first path that meets one from the other end, whose diagonals are counted from that
end. -/
def meeting? (old new : Array String) (paths : List Snake) (others : List Nat) : Option Snake :=
  let stops := others.toArray
  paths.find? fun path =>
    (stopOn? stops ((old.size : Int) - new.size - path.diagonal)).any fun stop =>
      old.size ≤ path.stop + stop

/-- Follow the furthest paths from both ends for so many more rounds, and find the numbers of old
and new lines behind a place where two of them meet. `fromEnd` has the old and the new lines from
the last to the first; `ahead` and `behind` say where the paths so far end, counted from their own
ends. -/
def meetingPlace? (old new : Array String) (fromEnd : Array String × Array String)
    (ahead behind : List Nat) : Nat → Option (Nat × Nat)
  | 0 => none
  | rounds + 1 =>
    let forward := snakes old new ahead
    match meeting? old new forward behind with
    | some path => some (path.start, newBehind path.diagonal path.start)
    | none =>
      let ahead := forward.map (·.stop)
      let backward := snakes fromEnd.1 fromEnd.2 behind
      match meeting? old new backward ahead with
      | some path =>
        some (old.size - path.stop, new.size - newBehind path.diagonal path.stop)
      | none => meetingPlace? old new fromEnd ahead (backward.map (·.stop)) rounds

/-- Where to cut the grid of two lists in two. -/
def cut? (old new : List String) : Option (Nat × Nat) :=
  meetingPlace? old.toArray new.toArray (old.reverse.toArray, new.reverse.toArray) [] []
    ((old.length + new.length + 1) / 2 + 1)

/-- The edits from old lines to new ones, with the grid cut at most `depth` times in a row. -/
def compareWithin : Nat → List String → List String → List Edit
  | 0, old, new => Edit.some? .delete old ++ Edit.some? .insert new
  | depth + 1, old, new =>
    let front := Text.commonFront old new
    let old := old.drop front.length
    let new := new.drop front.length
    let back := Text.commonBack old new
    let old := old.take (old.length - back.length)
    let new := new.take (new.length - back.length)
    let between :=
      if old.isEmpty || new.isEmpty then
        Edit.some? .delete old ++ Edit.some? .insert new
      else
        match cut? old new with
        | some (oldBehind, newBehind) =>
          compareWithin depth (old.take oldBehind) (new.take newBehind) ++
            compareWithin depth (old.drop oldBehind) (new.drop newBehind)
        | none => Edit.some? .delete old ++ Edit.some? .insert new
    Edit.some? .keep front ++ between ++ Edit.some? .keep back

/-- The edits from old lines to new ones. -/
def compare (old new : List String) : List Edit :=
  compareWithin (old.length + new.length + 1) old new

end DeclOrder.Patch
