import DeclOrder.Proofs.Processing
import DeclOrder.Run
import Mathlib.Data.List.Forall2

/-!
# The course of a run

A workspace may answer differently each time: its operations are functions of a state that nothing
is known of. Whatever it answers, the processing of one module takes one of few courses, each with
the reads and writes that were made, the answers to them, and what the module comes to. A run is
refused before anything is read, or it takes the courses of the listed modules one after the other.
Recording reads and writes has no effect on a run.
-/

namespace DeclOrder

section Recording

variable {σ α β : Type}

/-- From one state to another the action has the result, and so it has when it is recorded, with
the history added to the record. -/
structure Takes (action : StateM σ α) (recorded : StateT (List Event) (StateM σ) α) (state : σ)
    (history : List Event) (result : α) (after : σ) : Prop where
  /-- What the action does. -/
  plain : action state = (result, after)
  /-- What the action does when it is recorded. -/
  record : ∀ events, recorded events state = ((result, events ++ history), after)

variable {state middle after : σ} {history later : List Event} {first : α} {second : β}

/-- A result takes nothing. -/
theorem Takes.pure (state : σ) (result : α) :
    Takes (pure result) (pure result) state [] result state where
  plain := rfl
  record events := by rw [List.append_nil]; rfl

/-- Two actions in a row take one history after the other. -/
theorem Takes.bind {action : StateM σ α} {recorded : StateT (List Event) (StateM σ) α}
    {next : α → StateM σ β} {recordedNext : α → StateT (List Event) (StateM σ) β}
    (taken : Takes action recorded state history first middle)
    (rest : Takes (next first) (recordedNext first) middle later second after) :
    Takes (action >>= next) (recorded >>= recordedNext) state (history ++ later) second after where
  plain := by
    have whole : (action >>= next) state = next (action state).1 (action state).2 := rfl
    rw [whole, taken.plain, rest.plain]
  record events := by
    have whole : (recorded >>= recordedNext) events state =
        recordedNext (recorded events state).1.1 (recorded events state).1.2
          (recorded events state).2 := rfl
    rw [whole, taken.record, rest.record, List.append_assoc]

/-- What comes last and takes nothing adds nothing to the history. -/
theorem Takes.finish {action : StateM σ α} {recorded : StateT (List Event) (StateM σ) α}
    {next : α → StateM σ β} {recordedNext : α → StateT (List Event) (StateM σ) β}
    (taken : Takes action recorded state history first middle)
    (rest : Takes (next first) (recordedNext first) middle [] second after) :
    Takes (action >>= next) (recorded >>= recordedNext) state history second after := by
  have whole := taken.bind rest
  rwa [List.append_nil] at whole

variable {workspace : Workspace (StateM σ)} {path : Path}

/-- A read is put on record. -/
theorem takes_read {result : Except Failure String}
    (read : workspace.read path state = (result, after)) :
    Takes (workspace.read path) (workspace.traced.read path) state [.read path result] result
      after where
  plain := read
  record events := by
    have whole : workspace.traced.read path events state =
        (((workspace.read path state).1, events ++ [.read path (workspace.read path state).1]),
          (workspace.read path state).2) := rfl
    rw [whole, read]

/-- A write is put on record. -/
theorem takes_write {text : String} {result : Except Failure Unit}
    (write : workspace.write path text state = (result, after)) :
    Takes (workspace.write path text) (workspace.traced.write path text) state
      [.write path text result] result after where
  plain := write
  record events := by
    have whole : workspace.traced.write path text events state =
        (((workspace.write path text state).1,
          events ++ [.write path text (workspace.write path text state).1]),
          (workspace.write path text state).2) := rfl
    rw [whole, write]

/-- An action that is lifted to a recorded one is not put on record. -/
theorem takes_lift {action : StateM σ α} {result : α} (taken : action state = (result, after)) :
    Takes action (liftM action) state [] result after where
  plain := taken
  record events := by
    have whole : (liftM action : StateT (List Event) (StateM σ) α) events state =
        (((action state).1, events), (action state).2) := rfl
    rw [whole, taken, List.append_nil]

end Recording

namespace Run

/-- How writing a module back goes, and its result. -/
inductive WriteCourse (root path : Path) (hash text : String) :
    List Event → Except WriteRefusal Unit → Prop where
  /-- The module cannot be read again. -/
  | unread (failure : Failure) :
    WriteCourse root path hash text [.read path (.error failure)] (.error (.failed failure))
  /-- The module has another hash when it is read again. -/
  | changed (current : String) (other : Sha256.ofText current ≠ hash) :
    WriteCourse root path hash text [.read path (.ok current)] (.error .changed)
  /-- The module still has the hash, and cannot be written. -/
  | unwritten (current : String) (same : Sha256.ofText current = hash) (failure : Failure) :
    WriteCourse root path hash text
      [.read path (.ok current), .write (root.join path) text (.error failure)]
      (.error (.failed failure))
  /-- The module still has the hash, and is written. -/
  | written (current : String) (same : Sha256.ofText current = hash) :
    WriteCourse root path hash text
      [.read path (.ok current), .write (root.join path) text (.ok ())] (.ok ())

/-- The entry of a module that was read. -/
def entryOf (processor : Processor) (path : Path) (text : String) (status : Status)
    (error : Option String) : Entry where
  path := path.text
  status
  hashBefore := some (Sha256.ofText text)
  hashAfter := some (Sha256.ofText (processor.process text).text)
  summary := some (processor.process text).summary
  error

/-- How the processing of one module goes, and what comes of it. -/
inductive Course (mode : Mode) (processor : Processor) (root path : Path) :
    List Event → Processed → Prop where
  /-- The module cannot be read. -/
  | unread (failure : Failure) :
    Course mode processor root path [.read path (.error failure)]
      { path, entry := { path := path.text, status := .failed, error := some failure.message }
        revision := none }
  /-- The module is in order. -/
  | unchanged (text : String) (same : (processor.process text).text = text) :
    Course mode processor root path [.read path (.ok text)]
      { path, entry := entryOf processor path text .unchanged none, revision := none }
  /-- The module would change, and is not to be written. -/
  | pending (text : String) (differs : (processor.process text).text ≠ text)
      (quiet : mode.writes = false) :
    Course mode processor root path [.read path (.ok text)]
      { path, entry := entryOf processor path text .pending none
        revision := some ⟨text, (processor.process text).text⟩ }
  /-- The module changes and is written back. -/
  | written (text : String) (differs : (processor.process text).text ≠ text)
      (writes : mode.writes = true) (history : List Event)
      (course : WriteCourse root path (Sha256.ofText text) (processor.process text).text history
        (.ok ())) :
    Course mode processor root path (.read path (.ok text) :: history)
      { path, entry := entryOf processor path text .written none
        revision := some ⟨text, (processor.process text).text⟩ }
  /-- The module would change, but is not written back. -/
  | refused (text : String) (differs : (processor.process text).text ≠ text)
      (writes : mode.writes = true) (history : List Event) (refusal : WriteRefusal)
      (course : WriteCourse root path (Sha256.ofText text) (processor.process text).text history
        (.error refusal)) :
    Course mode processor root path (.read path (.ok text) :: history)
      { path, entry := entryOf processor path text refusal.status (some refusal.message)
        revision := none }

variable {σ : Type}

/-- Writing a module back takes one of the courses of it. -/
theorem exists_writeCourse (workspace : Workspace (StateM σ)) (path : Path) (hash text : String)
    (state : σ) :
    ∃ history result after,
      Takes (writeBack workspace path hash text) (writeBack workspace.traced path hash text) state
        history result after ∧
      WriteCourse workspace.root path hash text history result := by
  unfold writeBack
  rcases read : workspace.read path state with ⟨failure | current, later⟩
  · exact ⟨_, _, later, (takes_read read).bind (.pure later _), .unread failure⟩
  · by_cases same : Sha256.ofText current = hash
    · rcases write : workspace.write (workspace.root.join path) text later with ⟨result, last⟩
      cases result with
      | error failure =>
        refine ⟨_, _, last, (takes_read read).bind ?_, .unwritten current same failure⟩
        simp only [if_pos same]
        exact (takes_write write).bind (.pure last _)
      | ok written =>
        refine ⟨_, _, last, (takes_read read).bind ?_, .written current same⟩
        simp only [if_pos same]
        exact (takes_write write).bind (.pure last _)
    · refine ⟨_, _, later, (takes_read read).bind ?_, .changed current same⟩
      simp only [if_neg same]
      exact .pure later _

/-- A module that is to be written has the status of writing it back. -/
theorem takes_settle {workspace : Workspace (StateM σ)} {mode : Mode} (writes : mode.writes = true)
    {path : Path} {hash text : String} {state after : σ} {history : List Event}
    {result : Except WriteRefusal Unit}
    (taken : Takes (writeBack workspace path hash text) (writeBack workspace.traced path hash text)
      state history result after) :
    Takes (settle workspace mode path hash text) (settle workspace.traced mode path hash text)
      state history
      (match result with
      | .ok () => (.written, none)
      | .error refusal => (refusal.status, some refusal.message)) after := by
  simp only [settle, writes, ↓reduceIte]
  refine taken.finish ?_
  cases result with
  | ok done => exact .pure after _
  | error refusal => exact .pure after _

/-- The processing of a module takes one of its courses. -/
theorem exists_course (workspace : Workspace (StateM σ)) (mode : Mode) (processor : Processor)
    (path : Path) (state : σ) :
    ∃ history done after,
      Takes (processModule workspace mode processor path)
        (processModule workspace.traced mode processor path) state history done after ∧
      Course mode processor workspace.root path history done := by
  unfold processModule
  rcases read : workspace.read path state with ⟨failure | text, later⟩
  · exact ⟨_, _, later, (takes_read read).bind (.pure later _), .unread failure⟩
  · by_cases same : (processor.process text).text = text
    · refine ⟨_, _, later, (takes_read read).bind ?_, .unchanged text same⟩
      simp only [Processor.changed_process, same, bne_self_eq_false, Bool.false_eq_true,
        ↓reduceIte, entryOf]
      exact .pure later _
    · have changes : (processor.process text).changed = true := by
        rw [Processor.changed_process, bne_iff_ne]
        exact same
      cases quiet : mode.writes with
      | false =>
        refine ⟨_, _, later, (takes_read read).bind ?_, .pending text same quiet⟩
        simp only [changes, settle, quiet, Bool.false_eq_true, ↓reduceIte]
        exact (Takes.pure later _).bind (.pure later _)
      | true =>
        obtain ⟨history, result, last, taken, course⟩ :=
          exists_writeCourse workspace path (Sha256.ofText text) (processor.process text).text later
        cases result with
        | ok done =>
          refine ⟨_, _, last, (takes_read read).bind ?_, .written text same quiet history course⟩
          simp only [changes, ↓reduceIte]
          exact (takes_settle quiet taken).finish (.pure last _)
        | error refusal =>
          have unshown : ¬ (refusal.status = .written ∨ refusal.status = .pending) := by
            cases refusal <;> simp [WriteRefusal.status]
          refine ⟨_, _, last, (takes_read read).bind ?_,
            .refused text same quiet history refusal course⟩
          simp only [changes, ↓reduceIte]
          refine (takes_settle quiet taken).finish ?_
          simp only [unshown, ↓reduceIte]
          exact .pure last _

/-- The listed modules take their courses one after the other. -/
theorem exists_courses (workspace : Workspace (StateM σ)) (mode : Mode) (processor : Processor)
    (paths : List Path) (state : σ) :
    ∃ (courses : List (List Event × Processed)) (after : σ),
      Takes (paths.mapM (processModule workspace mode processor))
        (paths.mapM (processModule workspace.traced mode processor)) state
        (courses.map (·.1)).flatten (courses.map (·.2)) after ∧
      List.Forall₂ (fun path course => Course mode processor workspace.root path course.1 course.2)
        paths courses := by
  induction paths generalizing state with
  | nil => exact ⟨[], state, .pure state [], .nil⟩
  | cons path paths ih =>
    obtain ⟨history, done, middle, taken, course⟩ :=
      exists_course workspace mode processor path state
    obtain ⟨courses, after, rest, follow⟩ := ih middle
    refine ⟨(history, done) :: courses, after, ?_, .cons course follow⟩
    rw [List.mapM_cons, List.mapM_cons]
    exact taken.bind (rest.finish (.pure after _))

section Performing

variable {workspace : Workspace (StateM σ)} {state : σ} (settings : Settings) (tool : Tool)

/-- A run whose choices are refused takes nothing. -/
theorem takes_unchosen (workspace : Workspace (StateM σ)) (state : σ) {error : ChoiceError}
    (refused : Processor.ofChoices settings.choices = .error error) :
    Takes (perform settings workspace tool) (perform settings workspace.traced tool) state []
      (.error (.internal ⟨["configure processor"], error.message⟩)) state := by
  simp only [perform, refused]
  exact .pure state _

variable {processor : Processor}

/-- A run whose listing fails takes nothing. -/
theorem takes_unlisted (chosen : Processor.ofChoices settings.choices = .ok processor)
    {failure : Failure} {after : σ}
    (listed : workspace.list settings.selection state = (.error failure, after)) :
    Takes (perform settings workspace tool) (perform settings workspace.traced tool) state []
      (.error (.internal (failure.within ("list sources under " ++ workspace.root.text))))
      after := by
  simp only [perform, chosen]
  exact (takes_lift listed).bind (.pure after _)

/-- What a run found in the modules that it processed. -/
def collect (settings : Settings) (processor : Processor) (tool : Tool) (times : RunTimes)
    (modules : List Processed) : Run where
  report := Report.tally {
    tool, mode := settings.mode, strategy := processor.strategy.key, run := times
    entries := modules.map (·.entry) }
  patch := Patch.text (revisions modules)

/-- A run whose choices and listing are fine takes the courses of the listed modules. -/
theorem exists_run (chosen : Processor.ofChoices settings.choices = .ok processor)
    {paths : List Path} (listed : (workspace.list settings.selection state).1 = .ok paths) :
    ∃ (courses : List (List Event × Processed)) (times : RunTimes) (after : σ),
      Takes (perform settings workspace tool) (perform settings workspace.traced tool) state
        (courses.map (·.1)).flatten
        (.ok (collect settings processor tool times (courses.map (·.2)))) after ∧
      List.Forall₂ (fun path course =>
        Course settings.mode processor workspace.root path course.1 course.2) paths courses := by
  rcases listing : workspace.list settings.selection state with ⟨result, opened⟩
  obtain rfl : result = .ok paths := by rw [← listed, listing]
  rcases start : workspace.now opened with ⟨started, begun⟩
  obtain ⟨courses, done, taken, follow⟩ :=
    exists_courses workspace settings.mode processor paths begun
  rcases finish : workspace.now done with ⟨ended, after⟩
  refine ⟨courses, ⟨some started, some ended⟩, after, ?_, follow⟩
  simp only [perform, chosen]
  refine (takes_lift listing).bind ((takes_lift start).bind (taken.finish ?_))
  exact (takes_lift finish).bind (.pure after _)

end Performing

end Run

end DeclOrder
