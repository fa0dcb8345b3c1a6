import DeclOrder.FileTree
import DeclOrder.Configuration
import DeclOrder.Host.Disk

/-!
# Observations

Looking at a host does not change it. Listing modules, reading them and loading a configuration are
made of such looks, so they leave the state of the host as it is and their results depend on it
alone. A file tree is a host whose state is the tree.
-/

namespace DeclOrder

/-- The action leaves every state as it is. -/
def Observes {σ α : Type} (action : StateM σ α) : Prop := ∀ state, (action state).2 = state

/-- What follows an action goes on with its result from the state it leaves. -/
theorem bind_eq_of_eq {σ α β : Type} {action : StateM σ α} {next : α → StateM σ β}
    {state after : σ} {result : α} (runs : action state = (result, after)) :
    (action >>= next) state = next result after := by
  have whole : (action >>= next) state = next (action state).1 (action state).2 := rfl
  rw [whole, runs]

namespace Observes

variable {σ α β : Type} {action : StateM σ α} {next : α → StateM σ β} {state : σ}

/-- A result leaves the state as it is. -/
theorem pure (result : α) : Observes (σ := σ) (pure result) := fun _ => rfl

/-- What an observation does is to give its result. -/
theorem eq (observes : Observes action) : action state = ((action state).1, state) :=
  Prod.ext rfl (observes state)

/-- What follows an observation meets the same state. -/
theorem bind_eq (observes : Observes action) :
    (action >>= next) state = next (action state).1 state :=
  bind_eq_of_eq observes.eq

/-- Two observations in a row leave the state as it is. -/
theorem bind (observes : Observes action) (rest : ∀ result, Observes (next result)) :
    Observes (action >>= next) := by
  intro state
  rw [observes.bind_eq]
  exact rest _ state

variable {visit : α → StateM σ β} {test : α → StateM σ Bool}

/-- Observations of the elements of a list give their results one by one. -/
theorem mapM_eq (observes : ∀ element, Observes (visit element)) (elements : List α) :
    elements.mapM visit state = (elements.map fun element => (visit element state).1, state) := by
  induction elements with
  | nil => rfl
  | cons element elements ih =>
    rw [List.mapM_cons, (observes element).bind_eq, List.map_cons]
    have whole : (elements.mapM visit >>= fun results =>
        (Pure.pure ((visit element state).1 :: results) : StateM σ (List β))) state =
          ((visit element state).1 :: (elements.mapM visit state).1,
            (elements.mapM visit state).2) := rfl
    rw [whole, ih]

/-- Observing the elements of a list leaves the state as it is. -/
theorem mapM (observes : ∀ element, Observes (visit element)) (elements : List α) :
    Observes (elements.mapM visit) := by
  intro state
  rw [mapM_eq observes]

/-- Choosing elements of a list by observations chooses those that pass one by one. -/
theorem filterM_eq (observes : ∀ element, Observes (test element)) (elements : List α) :
    elements.filterM test state =
      (elements.filter fun element => (test element state).1, state) := by
  suffices aux : ∀ chosen, elements.filterAuxM test chosen state =
      ((elements.filter fun element => (test element state).1).reverse ++ chosen, state) by
    have whole : elements.filterM test state =
      ((elements.filterAuxM test [] state).1.reverse, (elements.filterAuxM test [] state).2) := rfl
    rw [whole, aux, List.append_nil, List.reverse_reverse]
  induction elements with
  | nil => exact fun chosen => rfl
  | cons element elements ih =>
    intro chosen
    rw [List.filterAuxM, (observes element).bind_eq, ih]
    cases passes : (test element state).1 <;> simp [passes]

/-- Choosing elements of a list by observations leaves the state as it is. -/
theorem filterM (observes : ∀ element, Observes (test element)) (elements : List α) :
    Observes (elements.filterM test) := by
  intro state
  rw [filterM_eq observes]

end Observes

namespace Host

variable {σ : Type} {host : Host (StateM σ)}

/-- Looking at the host leaves its state as it is. -/
structure Still (host : Host (StateM σ)) : Prop where
  /-- Asking what lies at a place leaves the state as it is. -/
  kind? : ∀ place, Observes (host.kind? place)
  /-- Asking for the entries of a directory leaves the state as it is. -/
  entries : ∀ place, Observes (host.entries place)
  /-- Walking through a directory leaves the state as it is. -/
  descendants : ∀ place, Observes (host.descendants place)
  /-- Reading a file leaves the state as it is. -/
  read : ∀ path, Observes (host.read path)
  /-- Asking for the time leaves the state as it is. -/
  now : Observes host.now

namespace Still

variable (still : host.Still)
include still

/-- Asking whether a path leads to something leaves the state as it is. -/
theorem pathExists (path : Path) : Observes (host.pathExists path) :=
  (still.kind? (.text path)).bind fun _ => .pure _

/-- Asking whether a path leads to a directory leaves the state as it is. -/
theorem isDirectory (path : Path) : Observes (host.isDirectory path) :=
  (still.kind? (.text path)).bind fun _ => .pure _

/-- Asking whether a path leads to a file leaves the state as it is. -/
theorem isFile (path : Path) : Observes (host.isFile path) :=
  (still.kind? (.text path)).bind fun _ => .pure _

/-- Reading the text of a file leaves the state as it is. -/
theorem readText (path : Path) : Observes (host.readText path) := by
  refine (still.read path).bind fun result => ?_
  cases result with
  | error error => exact .pure _
  | ok octets =>
    dsimp only
    split <;> exact .pure _

/-- Looking at the place that a scan stops at leaves the state as it is. -/
theorem stopAt (place : Place) : Observes (host.stopAt place) :=
  (still.kind? place).bind fun _ => .pure _

/-- Following the components of a pattern leaves the state as it is. -/
theorem reach (components : List (List Glob.Token)) (stop : Stop) :
    Observes (host.reach components stop) := by
  -- A recursive component takes more than one from the pattern, so the induction is on its length.
  induction length : components.length using Nat.strongRecOn generalizing components stop with
  | ind length ih =>
    cases components with
    | nil =>
      rw [Host.reach]
      exact .pure _
    | cons component rest =>
      have shorter (later : List (List Glob.Token)) (within : later.length ≤ rest.length)
          (stop : Stop) : Observes (host.reach later stop) :=
        ih later.length (by rw [← length, List.length_cons]; omega) later stop rfl
      rw [Host.reach]
      cases literal? component with
      | some chars =>
        have onward (found : Bool) (next : Stop) :
            Observes (if found then host.reach rest next else pure []) := by
          cases found with
          | false => exact .pure _
          | true => exact shorter rest (Nat.le_refl _) next
        exact (still.kind? _).bind fun kind => onward _ _
      | none =>
        dsimp only
        split
        · exact .pure _
        · split
          · refine (still.descendants stop.place).bind fun visits => ?_
            split
            · exact .pure _
            · next following later recursive =>
              have within : later.length ≤ rest.length := by
                have sublist := (rest.dropWhile_sublist isRecursive).length_le
                rw [recursive, List.length_cons] at sublist
                omega
              refine (Observes.mapM (fun visit => ?_) visits).bind fun _ => .pure _
              split
              · exact .pure _
              · split
                · exact shorter later within _
                · exact .pure _
          · refine (still.entries stop.place).bind fun listed => ?_
            split
            · exact .pure _
            · exact (Observes.mapM still.stopAt _).bind fun special =>
                (Observes.mapM (shorter rest (Nat.le_refl _)) _).bind fun _ => .pure _

/-- Scanning for files leaves the state as it is. -/
theorem scan (pattern : String) : Observes (host.scan pattern) := by
  unfold Host.scan
  dsimp only
  split
  · exact .pure _
  · refine (still.stopAt _).bind fun start => (still.reach _ start).bind fun found => ?_
    split
    · exact .pure _
    · split
      · exact .pure _
      · exact (Observes.filterM still.isFile _).bind fun _ => .pure _

/-- Listing modules leaves the state as it is. -/
theorem listUnder (root : Path) (selection : Selection) :
    Observes (host.listUnder root selection) := by
  refine (still.scan _).bind fun result => ?_
  cases result <;> exact .pure _

/-- A listing fails if its scan does. Otherwise it has the paths under the root of the files found,
as far as they are selected, in their order. -/
theorem listUnder_eq (root : Path) (selection : Selection) {state : σ} :
    (host.listUnder root selection state).1 =
      ((host.scan (Glob.escape root.text ++ "/" ++ selection.pattern) state).1.mapError
        (scanFailure (Glob.escape root.text ++ "/" ++ selection.pattern))).map fun files =>
          ((files.map (pathUnder root)).filter selection.takesStem).mergeSort
            fun left right => !right.precedes left := by
  rw [Host.listUnder]
  dsimp only
  rw [(still.scan _).bind_eq]
  cases (host.scan (Glob.escape root.text ++ "/" ++ selection.pattern) state).1 <;> rfl

/-- What a scan finds is listed by the paths under the root, in their order. -/
theorem listUnder_of_scan (root : Path) (selection : Selection) {state : σ} {files : List Path}
    (scanned : (host.scan (Glob.escape root.text ++ "/" ++ selection.pattern) state).1 =
      .ok files) :
    (host.listUnder root selection state).1 =
      .ok (((files.map (pathUnder root)).filter selection.takesStem).mergeSort
        fun left right => !right.precedes left) := by
  rw [still.listUnder_eq, scanned]
  rfl

/-- Reading a module leaves the state as it is. -/
theorem readUnder (root path : Path) : Observes (host.readUnder root path) :=
  (still.readText _).bind fun _ => .pure _

/-- Looking for a configuration file leaves the state as it is. -/
theorem discover (root : Path) : Observes (Configuration.discover host root) := by
  refine (still.pathExists _).bind fun found => ?_
  cases found <;> exact .pure _

/-- Loading a configuration file leaves the state as it is. -/
theorem load (path : Path) : Observes (Configuration.load host path) := by
  refine (still.readText path).bind fun result => ?_
  split <;> exact .pure _

/-- Loading the configuration of a root leaves the state as it is. -/
theorem loadOrDefault (root : Path) : Observes (Configuration.loadOrDefault host root) := by
  refine (still.discover root).bind fun found => ?_
  cases found with
  | none => exact .pure _
  | some path => exact still.load path

end Still

end Host

/-- Looking at a file tree leaves it as it is. -/
theorem FileTree.still_host : FileTree.host.Still where
  kind? _ _ := rfl
  entries _ _ := rfl
  descendants _ _ := rfl
  read _ _ := rfl
  now _ := rfl

end DeclOrder
