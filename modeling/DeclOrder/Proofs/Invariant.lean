import DeclOrder.Proofs.Check
import DeclOrder.Proofs.FileTree

/-!
# Invariants of a host

A program changes a host by writing files and making directories only. What these two operations
keep, every command keeps, whatever becomes of it on the way. In particular a sound file tree is
sound after every command.
-/

namespace DeclOrder

/-- The action takes states with the invariant to states with the invariant. -/
def Keeps {σ α : Type} (invariant : σ → Prop) (action : StateM σ α) : Prop :=
  ∀ state, invariant state → invariant (action state).2

namespace Keeps

variable {σ α β : Type} {invariant : σ → Prop} {action : StateM σ α} {next : α → StateM σ β}
  {visit : α → StateM σ β}

/-- An observation keeps every invariant. -/
theorem of_observes (observes : Observes action) : Keeps invariant action := by
  intro state holds
  rwa [observes state]

/-- A result keeps every invariant. -/
theorem pure (result : α) : Keeps invariant (Pure.pure result : StateM σ α) :=
  of_observes (.pure result)

/-- Two actions in a row keep what each of them keeps. -/
theorem bind (first : Keeps invariant action) (second : ∀ result, Keeps invariant (next result)) :
    Keeps invariant (action >>= next) := by
  intro state holds
  have whole : (action >>= next) state = next (action state).1 (action state).2 := rfl
  rw [whole]
  exact second _ _ (first state holds)

/-- Visiting the elements of a list keeps what every visit keeps. -/
theorem mapM (each : ∀ element, Keeps invariant (visit element)) (elements : List α) :
    Keeps invariant (elements.mapM visit) := by
  induction elements with
  | nil => exact .pure _
  | cons element elements ih =>
    rw [List.mapM_cons]
    exact (each element).bind fun _ => ih.bind fun _ => .pure _

end Keeps

section Host

variable {σ : Type} {host : Host (StateM σ)} {invariant : σ → Prop}

/-- The operations of a host that change something keep the invariant. -/
structure Host.Keeps (host : Host (StateM σ)) (invariant : σ → Prop) : Prop where
  /-- Writing a file keeps the invariant. -/
  write : ∀ path octets, DeclOrder.Keeps invariant (host.write path octets)
  /-- Making a directory keeps the invariant. -/
  makeDirectory : ∀ path, DeclOrder.Keeps invariant (host.makeDirectory path)

namespace Host.Keeps

variable (keeps : host.Keeps invariant) (still : host.Still)
include keeps still

/-- Making directories one in another keeps what making one of them keeps. -/
theorem makeChain (paths : List Path) : DeclOrder.Keeps invariant (host.makeChain paths) := by
  have present (path : Path) (error : SystemError) :
      DeclOrder.Keeps invariant (host.orPresent path error) := by
    refine .of_observes ((still.isDirectory path).bind fun found => ?_)
    cases found <;> exact .pure _
  induction paths with
  | nil => exact .pure _
  | cons path above ih =>
    rw [Host.makeChain]
    split
    · exact .pure _
    · refine (keeps.makeDirectory path).bind fun made => ?_
      split
      · exact .pure _
      · refine ih.bind fun before => ?_
        split
        · exact .pure _
        · refine (keeps.makeDirectory path).bind fun again => ?_
          split
          · exact .pure _
          · exact present _ _
      · exact present _ _

/-- Making a directory and those it lies in keeps what making one of them keeps. -/
theorem makeDirectories (path : Path) :
    DeclOrder.Keeps invariant (host.makeDirectories path) :=
  (keeps.makeChain still path.ancestors).bind fun _ => .pure _

/-- Writing a text keeps what writing a file and making a directory keep. -/
theorem writeText (path : Path) (text : String) :
    DeclOrder.Keeps invariant (host.writeText path text) := by
  refine (keeps.makeDirectories still _).bind fun made => ?_
  split
  · exact .pure _
  · exact (keeps.write path _).bind fun _ => .pure _

/-- Writing a module back under a root keeps what writing a text keeps. -/
theorem writeBack (root path : Path) (hash text : String) :
    DeclOrder.Keeps invariant (Run.writeBack (host.workspace root) path hash text) := by
  refine (Keeps.of_observes (still.readUnder root path)).bind fun read => ?_
  split
  · exact .pure _
  · split
    · exact (keeps.writeText still _ _).bind fun _ => .pure _
    · exact .pure _

/-- Processing a module under a root keeps what writing it back keeps. -/
theorem processModule (root : Path) (mode : Mode) (processor : Processor) (path : Path) :
    DeclOrder.Keeps invariant (Run.processModule (host.workspace root) mode processor path) := by
  have settle (hash text : String) :
      DeclOrder.Keeps invariant (Run.settle (host.workspace root) mode path hash text) := by
    rw [Run.settle]
    split
    · refine (keeps.writeBack still root path hash text).bind fun written => ?_
      split <;> exact .pure _
    · exact .pure _
  refine (Keeps.of_observes (still.readUnder root path)).bind fun read => ?_
  split
  · exact .pure _
  · dsimp only
    split
    · exact (settle _ _).bind fun _ => .pure _
    · exact .pure _

/-- A run under a root keeps what processing a module keeps. -/
theorem perform (settings : Settings) (root : Path) (tool : Tool) :
    DeclOrder.Keeps invariant (Run.perform settings (host.workspace root) tool) := by
  rw [Run.perform]
  split
  · exact .pure _
  · next processor chosen =>
    refine (Keeps.of_observes (still.listUnder root _)).bind fun listed => ?_
    split
    · exact .pure _
    · next paths =>
      refine (Keeps.of_observes still.now).bind fun started => ?_
      refine (Keeps.mapM (keeps.processModule still root _ _) paths).bind fun modules => ?_
      exact (Keeps.of_observes still.now).bind fun ended => .pure _

/-- Writing files into a directory keeps what writing a text keeps. -/
theorem writeFiles (root directory : Path) (files : List (String × String)) :
    DeclOrder.Keeps invariant (Run.writeFiles (host.workspace root) directory files) := by
  induction files with
  | nil => exact .pure _
  | cons file rest ih =>
    refine (keeps.writeText still _ _).bind fun written => ?_
    split
    · exact .pure _
    · exact ih

/-- Keeping what a run found keeps what making directories and writing files keep. -/
theorem keep (root : Path) (output : Option Path) (run : Run) :
    DeclOrder.Keeps invariant (Command.keep (host.workspace root) output run) := by
  cases output with
  | none => exact .pure _
  | some directory =>
    refine Keeps.bind ?_ fun _ => .pure _
    refine ((keeps.makeDirectories still directory).bind fun _ => .pure _).bind fun made => ?_
    split
    · exact .pure _
    · exact keeps.writeFiles still root directory run.artifacts

/-- Every command keeps what writing a file and making a directory keep. -/
theorem run (command : Command) : DeclOrder.Keeps invariant (Command.run host command) := by
  cases command with
  | process root mode overrides =>
    refine (Keeps.of_observes (Command.observes_settings still mode)).bind fun result => ?_
    split
    · exact .pure _
    · next settings =>
      refine (keeps.perform still settings settings.root _).bind fun performed => ?_
      split
      · exact .pure _
      · refine (keeps.keep still settings.root settings.output _).bind fun kept => ?_
        split <;> exact .pure _
  | strategies format => exact .pure _
  | version => exact .pure _
  | help text => exact .pure _

end Host.Keeps

end Host

namespace FileTree

/-- An operation on a tree keeps it sound on the host if it does so where it succeeds. -/
theorem keeps_update {operation : FileTree → Except SystemError FileTree}
    (sound : ∀ tree changed, tree.Sound → operation tree = .ok changed → changed.Sound) :
    Keeps Sound (update operation) := by
  intro tree before
  rw [update_eq]
  cases result : operation tree with
  | error error => exact before
  | ok changed => exact sound tree changed before result

/-- The operations on a file tree keep it sound. -/
theorem keeps_sound : FileTree.host.Keeps Sound where
  write _ _ := keeps_update fun _ _ sound written => sound.of_writeFile written
  makeDirectory _ := keeps_update fun _ _ sound made => sound.of_makeDirectory made

/-- A sound file tree is sound after every command. -/
theorem Sound.run {tree : FileTree} (sound : tree.Sound) (command : Command) :
    (Command.run FileTree.host command tree).2.Sound :=
  keeps_sound.run still_host command tree sound

end FileTree

end DeclOrder
