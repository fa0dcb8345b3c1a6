import DeclOrder.Proofs.Guard

/-!
# Previews of a run

As long as the answers of a workspace do not change, what a run finds depends on its mode only in
this: a module that would change is written where modules are to be written back, and pending where
they are not. A run that writes nothing thus shows beforehand what a run that writes does, and a
check is refused exactly if there is something to write.
-/

namespace DeclOrder

/-- A reading has the answer given, and a write does not fail. -/
def Event.Agrees (answers : Path → Except Failure String) : Event → Prop
  | .read path result => result = answers path
  | .write _ _ result => result = .ok ()
  | .makeDirectory _ _ => True

instance (answers : Path → Except Failure String) : DecidablePred (Event.Agrees answers)
  | .read path result => inferInstanceAs (Decidable (result = answers path))
  | .write _ _ result => inferInstanceAs (Decidable (result = .ok ()))
  | .makeDirectory _ _ => inferInstanceAs (Decidable True)

section Agreement

variable {answers : Path → Except Failure String} {path : Path} {text : String}

/-- A reading agrees with answers if it has that to its path. -/
@[simp] theorem Event.agrees_read {result : Except Failure String} :
    (Event.read path result).Agrees answers ↔ result = answers path := .rfl

/-- A write agrees with any answers if it does not fail. -/
@[simp] theorem Event.agrees_write {result : Except Failure Unit} :
    (Event.write path text result).Agrees answers ↔ result = .ok () := .rfl

end Agreement

/-- The entry of a module in a run that does not write it, from that of a run that does. -/
def Entry.previewed (entry : Entry) : Entry :=
  { entry with status := if entry.status = .written then .pending else entry.status }

namespace Run

/-- A run that writes nothing shows what another one that writes finds. -/
structure Previews (preview run : Run) : Prop where
  /-- The entries are the same, but for modules that the other run wrote. -/
  entries : preview.report.entries = run.report.entries.map Entry.previewed
  /-- Nothing is left pending in the other run. -/
  settled : ∀ entry ∈ run.report.entries, entry.status ≠ .pending
  /-- The totals are the same. -/
  totals : preview.report.totals = run.report.totals
  /-- The patch is the same. -/
  patch : preview.patch = run.patch

/-- How a module fares that is read alike each time, and what comes of it, if no write fails. -/
def foreseen (mode : Mode) (processor : Processor) (root path : Path) :
    Except Failure String → List Event × Processed
  | .error failure =>
    ([.read path (.error failure)],
      { path, entry := { path := path.text, status := .failed, error := some failure.message }
        revision := none })
  | .ok text =>
    let written := (processor.process text).text
    if written = text then
      ([.read path (.ok text)],
        { path, entry := entryOf processor path text .unchanged none, revision := none })
    else if mode.writes then
      ([.read path (.ok text), .read path (.ok text), .write (root.join path) written (.ok ())],
        { path, entry := entryOf processor path text .written none
          revision := some ⟨text, written⟩ })
    else
      ([.read path (.ok text)],
        { path, entry := entryOf processor path text .pending none
          revision := some ⟨text, written⟩ })

variable {mode : Mode} {processor : Processor} {root path : Path} {history : List Event}
  {done : Processed} {answers : Path → Except Failure String}

/-- A module whose history agrees with answers fares as foreseen by them. -/
theorem Course.eq_foreseen (course : Course mode processor root path history done)
    (agrees : ∀ event ∈ history, event.Agrees answers) :
    (history, done) = foreseen mode processor root path (answers path) := by
  cases course with
  | unread failure =>
    obtain ⟨answer, -⟩ := List.forall_mem_cons.mp agrees
    rw [← Event.agrees_read.mp answer]
    rfl
  | unchanged text same =>
    obtain ⟨answer, -⟩ := List.forall_mem_cons.mp agrees
    rw [← Event.agrees_read.mp answer]
    simp only [foreseen, same, ↓reduceIte]
  | pending text differs quiet =>
    obtain ⟨answer, -⟩ := List.forall_mem_cons.mp agrees
    rw [← Event.agrees_read.mp answer]
    simp only [foreseen, differs, quiet, Bool.false_eq_true, ↓reduceIte]
  | written text differs writes history course =>
    cases course with
    | written current same =>
      simp only [List.forall_mem_cons, Event.agrees_read] at agrees
      obtain ⟨answer, again, -⟩ := agrees
      obtain rfl := Except.ok.inj (again.trans answer.symm)
      rw [← answer]
      simp only [foreseen, differs, writes, ↓reduceIte]
  | refused text differs writes history refusal course =>
    -- Only answers that change, or a write that fails, keep a module from being written back.
    cases course with
    | unread failure =>
      simp only [List.forall_mem_cons, Event.agrees_read] at agrees
      obtain ⟨answer, again, -⟩ := agrees
      exact absurd (again.trans answer.symm) nofun
    | changed current other =>
      simp only [List.forall_mem_cons, Event.agrees_read] at agrees
      obtain ⟨answer, again, -⟩ := agrees
      obtain rfl := Except.ok.inj (again.trans answer.symm)
      exact absurd rfl other
    | unwritten current same failure =>
      simp only [List.forall_mem_cons, Event.agrees_write] at agrees
      obtain ⟨-, -, done, -⟩ := agrees
      exact absurd done nofun

section Foreseen

variable {text : String}

/-- A module in order is left as it is. -/
theorem foreseen_unchanged (same : (processor.process text).text = text) :
    foreseen mode processor root path (.ok text) =
      ([.read path (.ok text)],
        { path, entry := entryOf processor path text .unchanged none, revision := none }) := by
  simp only [foreseen, same, ↓reduceIte]

/-- A module that would change is pending if it is not to be written back. -/
theorem foreseen_pending (differs : (processor.process text).text ≠ text)
    (quiet : mode.writes = false) :
    foreseen mode processor root path (.ok text) =
      ([.read path (.ok text)],
        { path, entry := entryOf processor path text .pending none
          revision := some ⟨text, (processor.process text).text⟩ }) := by
  simp only [foreseen, differs, quiet, Bool.false_eq_true, ↓reduceIte]

/-- A module that changes is written if it is to be written back. -/
theorem foreseen_written (differs : (processor.process text).text ≠ text)
    (writes : mode.writes = true) :
    foreseen mode processor root path (.ok text) =
      ([.read path (.ok text), .read path (.ok text),
          .write (root.join path) (processor.process text).text (.ok ())],
        { path, entry := entryOf processor path text .written none
          revision := some ⟨text, (processor.process text).text⟩ }) := by
  simp only [foreseen, differs, writes, ↓reduceIte]

/-- A module that is read alike each time is not blocked. -/
theorem not_blocked_foreseen (answer : Except Failure String) :
    (foreseen mode processor root path answer).2.entry.status ≠ .blocked := by
  cases answer with
  | error failure => exact nofun
  | ok text =>
    by_cases same : (processor.process text).text = text
    · rw [foreseen_unchanged same]
      exact nofun
    · cases writes : mode.writes with
      | true =>
        rw [foreseen_written same writes]
        exact nofun
      | false =>
        rw [foreseen_pending same writes]
        exact nofun

end Foreseen

/-- What was written is what an entry has pending: it is written in place of the module, and has
the hash that the entry foresees. -/
structure Fulfils (root : Path) (writing : Writing) (entry : Entry) : Prop where
  /-- It was written. -/
  done : writing.result = .ok ()
  /-- It was written in place of the module. -/
  target : writing.target = root.join ⟨entry.path⟩
  /-- It has the hash of the entry. -/
  hash : entry.hashAfter = some (Sha256.ofText writing.text)

/-- How a module fares in a run that does not write shows how it fares in one that does. -/
structure Foretells (root : Path) (quiet writing : List Event × Processed) : Prop where
  /-- The one finds of the module what the other does, previewed. -/
  previewed : quiet.2 = { writing.2 with entry := writing.2.entry.previewed }
  /-- The one writes nothing. -/
  unwritten : writesOf quiet.1 = []
  /-- The other writes what the one has pending. -/
  fulfilled : List.Forall₂ (Fulfils root) (writesOf writing.1)
    ([quiet.2.entry].filter (·.status == .pending))
  /-- The other leaves nothing pending. -/
  settled : writing.2.entry.status ≠ .pending

/-- Answered alike, a module that is not to be written back fares as one that is, but for the
write. -/
theorem foretells_foreseen (quiet : mode.writes = false) (answer : Except Failure String) :
    Foretells root (foreseen mode processor root path answer)
      (foreseen .fix processor root path answer) := by
  cases answer with
  | error failure => exact ⟨rfl, rfl, .nil, nofun⟩
  | ok text =>
    by_cases same : (processor.process text).text = text
    · rw [foreseen_unchanged same, foreseen_unchanged same]
      exact ⟨rfl, rfl, .nil, nofun⟩
    · rw [foreseen_pending same quiet, foreseen_written same rfl]
      exact ⟨rfl, rfl, .cons ⟨rfl, rfl, rfl⟩ .nil, nofun⟩

/-- Previewing keeps the totals: what is pending counts as what is written does. -/
theorem totals_previewed (entries : List Entry) :
    Totals.of (entries.map Entry.previewed) = Totals.of entries := by
  have summaries : (entries.map Entry.previewed).filterMap (·.summary) =
      entries.filterMap (·.summary) := by
    rw [List.filterMap_map]
    rfl
  have count {test : Entry → Bool} (same : ∀ entry : Entry, test entry.previewed = test entry) :
      countOf test (entries.map Entry.previewed) = countOf test entries := by
    rw [countOf, countOf, List.countP_map]
    exact congrArg Nat.toUInt64 (List.countP_congr fun entry _ => by simp [same])
  simp only [Totals.of, summed, summaries, List.length_map]
  congr 1
  all_goals
    apply count
    rintro ⟨path, status, before, after, summary, error⟩
    cases status <;> rfl

/-- A test that no element satisfies counts none. -/
theorem countOf_eq_zero {α : Type} {test : α → Bool} {elements : List α}
    (fails : ∀ element ∈ elements, test element = false) : countOf test elements = 0 := by
  have none : elements.countP test = 0 :=
    List.countP_eq_zero.mpr fun element member => by simp [fails element member]
  rw [countOf, none]
  rfl

/-- A count of elements that can be counted is exact. -/
theorem toNat_countOf {α : Type} {test : α → Bool} {elements : List α}
    (countable : elements.length < UInt64.size) :
    (countOf test elements).toNat = elements.countP test :=
  UInt64.toNat_ofNat_of_lt' (Nat.lt_of_le_of_lt List.countP_le_length countable)

/-- A test counts something exactly if an element satisfies it, as far as the elements can be
counted. -/
theorem countOf_pos {α : Type} {test : α → Bool} {elements : List α}
    (countable : elements.length < UInt64.size) :
    0 < countOf test elements ↔ ∃ element ∈ elements, test element = true := by
  rw [UInt64.lt_iff_toNat_lt, toNat_countOf countable]
  exact List.countP_pos_iff

/-- A preview counts something to write exactly if the run that it previews writes something, as
far as the modules can be counted. -/
theorem Previews.changed_pos {preview run : Run} (shown : Previews preview run)
    (tallied : run.report.totals = Totals.of run.report.entries)
    (countable : run.report.entries.length < UInt64.size) :
    0 < preview.report.totals.changed ↔ ∃ entry ∈ run.report.entries, entry.status = .written := by
  rw [shown.totals, tallied]
  refine (countOf_pos countable).trans (exists_congr fun entry => and_congr_right fun member => ?_)
  simp [shown.settled entry member]

/-- The patch depends on the paths and the texts of the modules only. -/
theorem revisions_congr {modules : List Processed} {change : Processed → Processed}
    (kept : ∀ done, (change done).path = done.path ∧ (change done).revision = done.revision) :
    revisions (modules.map change) = revisions modules := by
  rw [revisions, List.foldl_map]
  simp only [kept]
  rfl

/-- How the listed modules fare, each as foreseen by the answer to reading it. -/
def foresee (mode : Mode) (processor : Processor) (root : Path)
    (answers : Path → Except Failure String) (paths : List Path) : List (List Event × Processed) :=
  paths.map fun path => foreseen mode processor root path (answers path)

section Modules

variable {paths : List Path}

/-- Courses that agree with answers are those foreseen by them. -/
theorem courses_eq_foresee {courses : List (List Event × Processed)}
    (follow : List.Forall₂ (fun path course => Course mode processor root path course.1 course.2)
      paths courses)
    (agrees : ∀ event ∈ (courses.map (·.1)).flatten, event.Agrees answers) :
    courses = foresee mode processor root answers paths := by
  induction follow with
  | nil => rfl
  | @cons path course paths courses taken follow ih =>
    rw [List.map_cons, List.flatten_cons] at agrees
    obtain ⟨first, rest⟩ := List.forall_mem_append.mp agrees
    have head : course = foreseen mode processor root path (answers path) := taken.eq_foreseen first
    rw [ih rest, head]
    rfl

/-- Nothing is written of modules that are not to be written back. -/
theorem writesOf_foresee (quiet : mode.writes = false) :
    writesOf ((foresee mode processor root answers paths).map (·.1)).flatten = [] := by
  refine writesOf_flatten_eq_nil (List.forall_mem_map.mpr (List.forall_mem_map.mpr ?_))
  exact fun path _ => (foretells_foreseen quiet (answers path)).unwritten

/-- What is written of modules is what a preview has pending of them. -/
theorem fulfils_foresee (quiet : mode.writes = false) :
    List.Forall₂ (Fulfils root)
      (writesOf ((foresee .fix processor root answers paths).map (·.1)).flatten)
      (((foresee mode processor root answers paths).map (·.2.entry)).filter
        (·.status == .pending)) := by
  induction paths with
  | nil => exact .nil
  | cons path paths ih =>
    rw [foresee, foresee, List.map_cons, List.map_cons, List.map_cons, List.map_cons,
      List.flatten_cons, writesOf_append, ← List.singleton_append, List.filter_append]
    exact List.rel_append (foretells_foreseen quiet (answers path)).fulfilled ih

/-- What runs that do not write find of modules is what one that writes does, previewed. -/
theorem foresee_previewed (quiet : mode.writes = false) :
    (foresee mode processor root answers paths).map (·.2) =
      ((foresee .fix processor root answers paths).map (·.2)).map fun done =>
        { done with entry := done.entry.previewed } := by
  rw [foresee, foresee, List.map_map, List.map_map, List.map_map]
  exact List.map_congr_left fun path _ => (foretells_foreseen quiet (answers path)).previewed

end Modules

section Runs

variable {σ : Type} {workspace : Workspace (StateM σ)} {paths : List Path}

/-- What a run reads and writes, in order. -/
def recordOf (settings : Settings) (workspace : Workspace (StateM σ)) (tool : Tool) (state : σ) :
    List Event :=
  (perform settings workspace.traced tool [] state).1.2

/-- The record of a run is the history that it takes. -/
theorem recordOf_eq {settings : Settings} {tool : Tool} {state after : σ} {history : List Event}
    {result : Except RunError Run}
    (taken : Takes (perform settings workspace tool) (perform settings workspace.traced tool) state
      history result after) :
    recordOf settings workspace tool state = history := by
  rw [recordOf, taken.record, List.nil_append]

/-- A run whose record agrees with answers goes as foreseen by them. -/
theorem exists_foreseen_run (settings : Settings) (tool : Tool)
    (chosen : Processor.ofChoices settings.choices = .ok processor) {state : σ}
    (listed : (workspace.list settings.selection state).1 = .ok paths)
    (agrees : ∀ event ∈ recordOf settings workspace tool state, event.Agrees answers) :
    ∃ (times : RunTimes) (after : σ),
      Takes (perform settings workspace tool) (perform settings workspace.traced tool) state
        ((foresee settings.mode processor workspace.root answers paths).map (·.1)).flatten
        (.ok (collect settings processor tool times
          ((foresee settings.mode processor workspace.root answers paths).map (·.2)))) after := by
  obtain ⟨courses, times, after, taken, follow⟩ := exists_run settings tool chosen listed
  obtain rfl := courses_eq_foresee follow (recordOf_eq taken ▸ agrees)
  exact ⟨times, after, taken⟩

variable {settings : Settings} {tool : Tool} {times : RunTimes}

/-- A run that writes nothing previews the run that writes. -/
theorem previews_collect (mode : Mode) (times others : RunTimes) (quiet : mode.writes = false) :
    Previews
      (collect { settings with mode } processor tool times
        ((foresee mode processor root answers paths).map (·.2)))
      (collect { settings with mode := .fix } processor tool others
        ((foresee .fix processor root answers paths).map (·.2))) := by
  have entries : ((foresee mode processor root answers paths).map (·.2)).map (·.entry) =
      (((foresee .fix processor root answers paths).map (·.2)).map (·.entry)).map
        Entry.previewed := by
    rw [foresee_previewed quiet]
    simp only [List.map_map]
    rfl
  constructor
  · exact entries
  · exact List.forall_mem_map.mpr (List.forall_mem_map.mpr (List.forall_mem_map.mpr
      fun path _ => (foretells_foreseen quiet (answers path)).settled))
  · exact (congrArg Totals.of entries).trans (totals_previewed _)
  · simp only [collect]
    rw [foresee_previewed quiet, revisions_congr]
    exact fun done => ⟨rfl, rfl⟩

/-- A run that goes as foreseen is blocked exactly if it is a check and counts something to write. -/
theorem isBlocked_collect :
    (collect { settings with mode } processor tool times
        ((foresee mode processor root answers paths).map (·.2))).isBlocked =
      (mode == .check && 0 < (collect { settings with mode } processor tool times
        ((foresee mode processor root answers paths).map (·.2))).report.totals.changed) := by
  have blocked : (collect { settings with mode } processor tool times
      ((foresee mode processor root answers paths).map (·.2))).report.totals.blocked = 0 := by
    refine countOf_eq_zero (List.forall_mem_map.mpr (List.forall_mem_map.mpr
      (List.forall_mem_map.mpr fun path _ => ?_)))
    exact beq_eq_false_iff_ne.mpr (not_blocked_foreseen (answers path))
  rw [isBlocked, blocked]
  rfl

end Runs

/-- If runs in all three modes meet one listing and the same answers, and no write fails, then they
are refused with one error, or those that do not write preview the one that does. The files written
are those that a preview has pending. Only a check is blocked, and it is exactly if there is
something to write, as far as the totals can count the modules. -/
theorem perform_previews {σ : Type} (settings : Settings) (workspace : Workspace (StateM σ))
    (tool : Tool) (start : Mode → σ) (listing : Except Failure (List Path))
    (answers : Path → Except Failure String)
    (listed : ∀ mode, (workspace.list settings.selection (start mode)).1 = listing)
    (agrees : ∀ mode, ∀ event ∈ recordOf { settings with mode } workspace tool (start mode),
      event.Agrees answers) :
    (∃ error, ∀ mode,
      (perform { settings with mode } workspace tool (start mode)).1 = .error error ∧
      recordOf { settings with mode } workspace tool (start mode) = []) ∨
    ∃ runs : Mode → Run,
      (∀ mode, (perform { settings with mode } workspace tool (start mode)).1 = .ok (runs mode)) ∧
      Previews (runs .dryRun) (runs .fix) ∧ Previews (runs .check) (runs .fix) ∧
      (∀ mode, mode ≠ .fix →
        writesOf (recordOf { settings with mode } workspace tool (start mode)) = []) ∧
      List.Forall₂ (Fulfils workspace.root)
        (writesOf (recordOf { settings with mode := .fix } workspace tool (start .fix)))
        ((runs .dryRun).report.entries.filter (·.status == .pending)) ∧
      (runs .fix).isBlocked = false ∧ (runs .dryRun).isBlocked = false ∧
      ((runs .fix).report.entries.length < UInt64.size →
        ((runs .check).isBlocked = true ↔
          ∃ entry ∈ (runs .fix).report.entries, entry.status = .written)) := by
  cases chosen : Processor.ofChoices settings.choices with
  | error error =>
    refine .inl ⟨.internal ⟨["configure processor"], error.message⟩, fun mode => ?_⟩
    have taken := takes_unchosen { settings with mode } tool workspace (start mode) chosen
    exact ⟨congrArg Prod.fst taken.plain, recordOf_eq taken⟩
  | ok processor =>
    cases listing with
    | error failure =>
      refine .inl ⟨.internal (failure.within ("list sources under " ++ workspace.root.text)),
        fun mode => ?_⟩
      have taken := takes_unlisted { settings with mode } tool chosen (Prod.ext (listed mode) rfl)
      exact ⟨congrArg Prod.fst taken.plain, recordOf_eq taken⟩
    | ok paths =>
      have foreseen_runs (mode : Mode) :=
        exists_foreseen_run { settings with mode } tool chosen (listed mode) (agrees mode)
      choose times after taken using foreseen_runs
      refine .inr ⟨_, fun mode => congrArg Prod.fst (taken mode).plain,
        previews_collect .dryRun _ _ rfl, previews_collect .check _ _ rfl, fun mode quiet => ?_, ?_,
        isBlocked_collect, isBlocked_collect, fun countable => ?_⟩
      · rw [recordOf_eq (taken mode)]
        exact writesOf_foresee (beq_eq_false_iff_ne.mpr quiet)
      · rw [recordOf_eq (taken .fix)]
        simp only [collect, Report.tally, List.map_map]
        exact fulfils_foresee rfl
      · rw [isBlocked_collect]
        exact decide_eq_true_iff.trans ((previews_collect .check (times .check) (times .fix)
          rfl).changed_pos rfl countable)

/-- A workspace of three modules: one has a block before the one it refers to, one is in order, and
one is not there. Its state is the text of the first. -/
def mixed : Workspace (StateM String) where
  root := ⟨"models"⟩
  list _ := return .ok [⟨"deal.py"⟩, ⟨"part.py"⟩, ⟨"task.py"⟩]
  read path := do
    match path.text with
    | "deal.py" => return .ok (← get)
    | "part.py" => return .ok ""
    | _ => return .error { cause := "not found" }
  write _ text := do
    set text
    return .ok ()
  makeDirectory _ := return .ok ()
  now := return Timestamp.epoch

/-- The text of the first mixed module. -/
def mixedText : String := Text.unlines .lf ["class Part(B):", "    link: Link", "class Link(B):"]

/-- The runs on the mixed workspace meet one listing and the answers of its first state. The module
that is out of order is written and was pending in the preview, and a check is blocked on it. -/
theorem perform_previews_mixed :
    (mixed.list {} mixedText).1 = .ok [⟨"deal.py"⟩, ⟨"part.py"⟩, ⟨"task.py"⟩] ∧
    (∀ mode, ∀ event ∈ recordOf { mode } mixed ⟨"declfix", none⟩ mixedText,
      event.Agrees fun path => (mixed.read path mixedText).1) ∧
    ∃ runs : Mode → Run,
      (∀ mode, (perform { mode } mixed ⟨"declfix", none⟩ mixedText).1 = .ok (runs mode)) ∧
      (runs .fix).report.entries.map (·.status) = [.written, .unchanged, .failed] ∧
      (runs .dryRun).report.entries.map (·.status) = [.pending, .unchanged, .failed] ∧
      (runs .check).isBlocked = true := by
  have agrees : ∀ mode, ∀ event ∈ recordOf { mode } mixed ⟨"declfix", none⟩ mixedText,
      event.Agrees fun path => (mixed.read path mixedText).1 := by
    intro mode
    cases mode <;> decide +kernel
  have evaluated : (perform {} mixed ⟨"declfix", none⟩ mixedText).1.toOption.map
      (fun run => run.report.entries.map (·.status)) = some [.written, .unchanged, .failed] := by
    decide +kernel
  obtain ⟨error, refused⟩ | ⟨runs, each, dry, -, -, -, -, -, blocked⟩ :=
    perform_previews {} mixed ⟨"declfix", none⟩ (fun _ => mixedText) _ _ (fun _ => rfl) agrees
  · rw [(refused .fix).1] at evaluated
    simp [Except.toOption] at evaluated
  · rw [each .fix] at evaluated
    have statuses : (runs .fix).report.entries.map (·.status) = [.written, .unchanged, .failed] :=
      Option.some.inj evaluated
    have length : (runs .fix).report.entries.length = 3 := by
      rw [← List.length_map, statuses]
      rfl
    refine ⟨rfl, agrees, runs, each, statuses, ?_, ?_⟩
    · have shown : (runs .dryRun).report.entries.map (·.status) =
          ((runs .fix).report.entries.map (·.status)).map fun status =>
            if status = .written then .pending else status := by
        rw [dry.entries, List.map_map, List.map_map]
        rfl
      rw [shown, statuses]
      rfl
    · refine (blocked (length ▸ by decide)).mpr (List.mem_map.mp ?_)
      rw [statuses]
      exact List.mem_cons_self

end Run

end DeclOrder
