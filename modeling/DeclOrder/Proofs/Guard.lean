import DeclOrder.Proofs.Course

/-!
# Guarded writes

A run writes a module at most once, and only after it has read it twice with one hash. What it
writes is the processed text of the first reading, and its report tells of each module whether it
was written or was changed by others. So whatever others do between the two readings, and whatever
fails, no text is written over that was not processed.
-/

namespace DeclOrder.Run

/-- The results of reading a path, in order. -/
def readsOf (path : Path) (events : List Event) : List (Except Failure String) :=
  events.filterMap fun
    | .read other result => if other.sameAs path then some result else none
    | _ => none

/-- What was to be written, and the result. -/
structure Writing where
  /-- The whole path of the file. -/
  target : Path
  /-- The text. -/
  text : String
  /-- Whether it was written. -/
  result : Except Failure Unit

/-- The files that were to be written, in order. -/
def writesOf (events : List Event) : List Writing :=
  events.filterMap fun
    | .write target text result => some { target, text, result }
    | _ => none

/-- What holds of the history of a module and of its entry in the report. -/
structure Guarded (mode : Mode) (processor : Processor) (root path : Path) (history : List Event)
    (entry : Entry) : Prop where
  /-- The entry is that of the module. -/
  named : entry.path = path.text
  /-- Nothing is written unless modules are to be written back. -/
  quiet : mode ≠ .fix → writesOf history = []
  /-- Nothing is written twice. -/
  once : (writesOf history).length ≤ 1
  /-- What is written is the processed text of the first reading, which differs from it, in place
  of the module, after a second reading with the same hash. -/
  checked : ∀ writing ∈ writesOf history, ∃ first second,
    history = [.read path (.ok first), .read path (.ok second),
        .write writing.target writing.text writing.result] ∧
      (processor.process first).text ≠ first ∧ Sha256.ofText second = Sha256.ofText first ∧
      writing.target = root.join path ∧ writing.text = (processor.process first).text
  /-- The module counts as written exactly if writing it was tried and did not fail. -/
  written_iff : entry.status = .written ↔ ∃ writing ∈ writesOf history, writing.result = .ok ()
  /-- The module counts as changed by others exactly if its second reading has another hash. -/
  blocked_iff : entry.status = .blocked ↔ ∃ first second,
    history = [.read path (.ok first), .read path (.ok second)] ∧
      Sha256.ofText second ≠ Sha256.ofText first

section Views

variable {α : Type} {view : List Event → List α} {histories : List (List Event)}

/-- A view of records that shows nothing of each history shows nothing of all. -/
theorem view_flatten_eq_nil (nil : view [] = [])
    (append : ∀ events later, view (events ++ later) = view events ++ view later)
    (quiet : ∀ history ∈ histories, view history = []) : view histories.flatten = [] := by
  induction histories with
  | nil => exact nil
  | cons history histories ih =>
    obtain ⟨first, rest⟩ := List.forall_mem_cons.mp quiet
    rw [List.flatten_cons, append, first, ih rest, List.append_nil]

/-- A view of records that shows nothing of the other histories shows what it does of the one. -/
theorem view_flatten (nil : view [] = [])
    (append : ∀ events later, view (events ++ later) = view events ++ view later)
    {place : Nat} {history : List Event} (here : histories[place]? = some history)
    (others : ∀ other events, other ≠ place → histories[other]? = some events → view events = []) :
    view histories.flatten = view history := by
  induction histories generalizing place with
  | nil => simp at here
  | cons first rest ih =>
    rw [List.flatten_cons, append]
    cases place with
    | zero =>
      obtain rfl : first = history := by simpa using here
      rw [view_flatten_eq_nil nil append, List.append_nil]
      intro events member
      obtain ⟨other, there⟩ := List.getElem?_of_mem member
      exact others (other + 1) events (Nat.succ_ne_zero other) (by simpa using there)
    | succ place =>
      rw [others 0 first (Nat.succ_ne_zero place).symm rfl, List.nil_append]
      refine ih (by simpa using here) fun other events different there => ?_
      exact others (other + 1) events (by omega) (by simpa using there)

end Views

section Records

variable {path other root : Path} {events later : List Event}

/-- A path is the same as itself. -/
@[simp] theorem sameAs_self (path : Path) : path.sameAs path = true := beq_self_eq_true _

/-- A path is the same as another one if that is the same as it. -/
theorem sameAs_comm (left right : Path) : left.sameAs right = right.sameAs left := BEq.comm

/-- The files written in two records are those of the first and those of the second. -/
theorem writesOf_append : writesOf (events ++ later) = writesOf events ++ writesOf later :=
  List.filterMap_append

/-- The readings of a path in two records are those in the first and those in the second. -/
theorem readsOf_append :
    readsOf path (events ++ later) = readsOf path events ++ readsOf path later :=
  List.filterMap_append

/-- No files are written in histories in which none is. -/
theorem writesOf_flatten_eq_nil {histories : List (List Event)}
    (quiet : ∀ history ∈ histories, writesOf history = []) : writesOf histories.flatten = [] :=
  view_flatten_eq_nil rfl (fun _ _ => writesOf_append) quiet

end Records

variable {mode : Mode} {processor : Processor} {root path : Path} {history : List Event}
  {done : Processed}

/-- The history of a module and its entry are guarded, whichever course is taken. -/
theorem Course.guarded (course : Course mode processor root path history done) :
    Guarded mode processor root path history done.entry := by
  cases course with
  | unread failure => constructor <;> simp [writesOf]
  | unchanged text same => constructor <;> simp [writesOf, entryOf]
  | pending text differs quiet => constructor <;> simp [writesOf, entryOf]
  | written text differs writes history course =>
    have fix : mode = .fix := beq_iff_eq.mp writes
    cases course with
    | written current same =>
      constructor <;> simp [writesOf, entryOf, fix, differs, same]
  | refused text differs writes history refusal course =>
    have fix : mode = .fix := beq_iff_eq.mp writes
    cases course with
    | unread failure => constructor <;> simp [writesOf, entryOf, WriteRefusal.status]
    | changed current other =>
      constructor <;> simp [writesOf, entryOf, WriteRefusal.status, other]
    | unwritten current same failure =>
      constructor <;> simp [writesOf, entryOf, WriteRefusal.status, fix, differs, same]

/-- The history of a module does not read paths that differ from its own. -/
theorem Course.readsOf_other (course : Course mode processor root path history done) {other : Path}
    (different : path.sameAs other = false) : readsOf other history = [] := by
  cases course with
  | unread failure => simp [readsOf, different]
  | unchanged text same => simp [readsOf, different]
  | pending text differs quiet => simp [readsOf, different]
  | written text differs writes history course => cases course; simp [readsOf, different]
  | refused text differs writes history refusal course => cases course <;> simp [readsOf, different]

/-- The module at each place of a listing has taken the course at that place. -/
theorem course_of_follow {paths : List Path} {courses : List (List Event × Processed)}
    (follow : List.Forall₂ (fun path course => Course mode processor root path course.1 course.2)
      paths courses)
    {place : Nat} {path : Path} (listed : paths[place]? = some path)
    {course : List Event × Processed} (taken : courses[place]? = some course) :
    Course mode processor root path course.1 course.2 := by
  obtain ⟨inside, rfl⟩ := List.getElem?_eq_some_iff.mp listed
  obtain ⟨within, rfl⟩ := List.getElem?_eq_some_iff.mp taken
  exact follow.get inside within

/-- Paths at two places of a listing differ if all do. -/
theorem differ_of_pairwise (change : Path → Path) {paths : List Path}
    (distinct : paths.Pairwise fun one other => (change one).sameAs (change other) = false)
    {place another : Nat} (different : another ≠ place) {path other : Path}
    (listed : paths[place]? = some path) (found : paths[another]? = some other) :
    (change other).sameAs (change path) = false := by
  obtain ⟨inside, rfl⟩ := List.getElem?_eq_some_iff.mp listed
  obtain ⟨within, rfl⟩ := List.getElem?_eq_some_iff.mp found
  rcases Nat.lt_or_gt_of_ne different with before | after
  · exact List.pairwise_iff_getElem.mp distinct another place within inside before
  · rw [sameAs_comm]
    exact List.pairwise_iff_getElem.mp distinct place another inside within after

/-- If a view of records shows nothing of the courses at other places, it shows of the whole what it
does of the course at one. -/
theorem view_courses {α : Type} {view : List Event → List α} (nil : view [] = [])
    (append : ∀ events later, view (events ++ later) = view events ++ view later)
    {paths : List Path} {courses : List (List Event × Processed)}
    (follow : List.Forall₂ (fun path course => Course mode processor root path course.1 course.2)
      paths courses)
    {place : Nat} {course : List Event × Processed} (taken : courses[place]? = some course)
    (others : ∀ another other history done, another ≠ place → paths[another]? = some other →
      Course mode processor root other history done → view history = []) :
    view (courses.map (·.1)).flatten = view course.1 := by
  have here : (courses.map (·.1))[place]? = some course.1 := by simp [taken]
  refine view_flatten nil append here fun another events ne found => ?_
  rw [List.getElem?_map, Option.map_eq_some_iff] at found
  obtain ⟨other, there, rfl⟩ := found
  obtain ⟨inside, -⟩ := List.getElem?_eq_some_iff.mp there
  have listed := List.getElem?_eq_getElem (follow.length_eq.symm ▸ inside)
  exact others another _ _ _ ne listed (course_of_follow follow listed there)

/-- Among paths that differ, the readings of each are those in its own history. -/
theorem readsOf_courses {paths : List Path} {courses : List (List Event × Processed)}
    (follow : List.Forall₂ (fun path course => Course mode processor root path course.1 course.2)
      paths courses)
    (distinct : paths.Pairwise fun one other => one.sameAs other = false) {place : Nat}
    {path : Path} (listed : paths[place]? = some path) {course : List Event × Processed}
    (taken : courses[place]? = some course) :
    readsOf path (courses.map (·.1)).flatten = readsOf path course.1 :=
  view_courses rfl (fun _ _ => readsOf_append) follow taken
    fun _ _ _ _ ne found other => other.readsOf_other
      (differ_of_pairwise id distinct ne listed found)

/-- A run that is refused reads and writes nothing. A run that is not makes one history for each
listed module, in their order, and each module is guarded: what is read of it is in its own history,
and so are the two readings that precede the one write in it. -/
theorem perform_guarded {σ : Type} (settings : Settings) (workspace : Workspace (StateM σ))
    (tool : Tool) (state : σ)
    (distinct : ∀ paths, (workspace.list settings.selection state).1 = .ok paths →
      paths.Pairwise fun one other => one.sameAs other = false) :
    ∃ result events after,
      perform settings workspace tool state = (result, after) ∧
      perform settings workspace.traced tool [] state = ((result, events), after) ∧
      (∀ error, result = .error error → events = []) ∧
      (settings.mode ≠ .fix → writesOf events = []) ∧
      ∀ run, result = .ok run → ∃ (processor : Processor) (paths : List Path)
          (histories : List (List Event)),
        Processor.ofChoices settings.choices = .ok processor ∧
        (workspace.list settings.selection state).1 = .ok paths ∧
        events = histories.flatten ∧ histories.length = paths.length ∧
        run.report.entries.length = paths.length ∧
        ∀ (place : Nat) (path : Path) (history : List Event) (entry : Entry),
          paths[place]? = some path → histories[place]? = some history →
          run.report.entries[place]? = some entry →
          readsOf path events = readsOf path history ∧
            Guarded settings.mode processor workspace.root path history entry := by
  cases chosen : Processor.ofChoices settings.choices with
  | error error =>
    have taken := takes_unchosen settings tool workspace state chosen
    exact ⟨_, _, _, taken.plain, taken.record [], fun _ _ => rfl, fun _ => rfl,
      fun _ done => absurd done (by simp)⟩
  | ok processor =>
    rcases listing : workspace.list settings.selection state with ⟨failure | paths, opened⟩
    · have taken := takes_unlisted settings tool chosen listing
      exact ⟨_, _, _, taken.plain, taken.record [], fun _ _ => rfl, fun _ => rfl,
        fun _ done => absurd done (by simp)⟩
    · have listed : (workspace.list settings.selection state).1 = .ok paths := by rw [listing]
      obtain ⟨courses, times, after, taken, follow⟩ := exists_run settings tool chosen listed
      have guarded (place : Nat) (path : Path) (course : List Event × Processed)
          (here : paths[place]? = some path) (there : courses[place]? = some course) :
          Guarded settings.mode processor workspace.root path course.1 course.2.entry :=
        (course_of_follow follow here there).guarded
      refine ⟨_, _, _, taken.plain, taken.record [], fun _ done => absurd done (by simp),
        fun quiet => ?_, fun run done => ⟨processor, paths, courses.map (·.1), rfl,
          rfl, List.nil_append _, ?_, ?_, ?_⟩⟩
      · refine writesOf_flatten_eq_nil (List.forall_mem_map.mpr fun course member => ?_)
        obtain ⟨place, there⟩ := List.getElem?_of_mem member
        obtain ⟨inside, -⟩ := List.getElem?_eq_some_iff.mp there
        rw [← follow.length_eq] at inside
        exact (guarded place _ course (List.getElem?_eq_getElem inside) there).quiet quiet
      · rw [List.length_map, follow.length_eq]
      · obtain rfl := Except.ok.inj done
        simp only [collect, Report.tally, List.length_map, follow.length_eq]
      · obtain rfl := Except.ok.inj done
        intro place path history entry here history_there entry_there
        rw [List.getElem?_map, Option.map_eq_some_iff] at history_there
        obtain ⟨course, there, rfl⟩ := history_there
        have same : course.2.entry = entry := by
          simpa [collect, Report.tally, there] using entry_there
        exact ⟨readsOf_courses follow (distinct paths listed) here there,
          same ▸ guarded place path course here there⟩

/-- A workspace of two modules, each with a block before the one it refers to. Its state is the
number of readings, and the second of them meets a text that someone else has written. -/
def contended : Workspace (StateM Nat) where
  root := ⟨"models"⟩
  list _ := return .ok [⟨"deal.py"⟩, ⟨"part.py"⟩]
  read _ := do
    let readings ← getModify (· + 1)
    return .ok (if readings = 1 then "" else Text.unlines .lf
      ["class Part(B):", "    link: Link", "class Link(B):"])
  write _ _ := return .ok ()
  makeDirectory _ := return .ok ()
  now := return Timestamp.epoch

/-- The paths of the contended modules differ, the first module is blocked and the second written,
and the record begins with two readings of the first whose texts have different hashes. -/
theorem perform_guarded_contended :
    (∀ paths, (contended.list {} 0).1 = .ok paths →
      paths.Pairwise fun one other => one.sameAs other = false) ∧
    ∃ run events after,
      perform {} contended.traced ⟨"declfix", none⟩ [] 0 = ((.ok run, events), after) ∧
      run.report.entries.map (·.status) = [.blocked, .written] ∧
      ∃ first second,
        [.read ⟨"deal.py"⟩ (.ok first), .read ⟨"deal.py"⟩ (.ok second)] <+: events ∧
          Sha256.ofText second ≠ Sha256.ofText first := by
  have distinct : ∀ paths, (contended.list {} 0).1 = .ok paths →
      paths.Pairwise fun one other => one.sameAs other = false := by
    intro paths listed
    rw [← Except.ok.inj listed]
    decide
  obtain ⟨result, events, after, -, recorded, -, -, guarded⟩ :=
    perform_guarded {} contended ⟨"declfix", none⟩ 0 distinct
  have evaluated : (perform {} contended.traced ⟨"declfix", none⟩ [] 0).1.1.toOption.map
      (fun run => run.report.entries.map (·.status)) = some [.blocked, .written] := by
    decide +kernel
  rw [recorded] at evaluated
  cases result with
  | error error => simp [Except.toOption] at evaluated
  | ok run =>
    have statuses : run.report.entries.map (·.status) = [.blocked, .written] :=
      Option.some.inj evaluated
    obtain ⟨processor, paths, histories, -, listed, rfl, sizes, -, each⟩ := guarded run rfl
    obtain rfl := Except.ok.inj listed
    obtain ⟨history, histories, rfl⟩ := List.exists_cons_of_length_eq_add_one sizes
    obtain ⟨entry, entries, split, blocked, -⟩ := List.map_eq_cons_iff.mp statuses
    obtain ⟨-, guard⟩ := each 0 ⟨"deal.py"⟩ history entry rfl rfl (by rw [split]; rfl)
    obtain ⟨first, second, rfl, other⟩ := guard.blocked_iff.mp blocked
    exact ⟨distinct, run, _, after, recorded, statuses, first, second,
      List.prefix_append _ _, other⟩

end DeclOrder.Run
