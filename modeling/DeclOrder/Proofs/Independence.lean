import DeclOrder.Proofs.Preview

/-!
# Independence of the modules of a run

What becomes of a module in a run depends on the answers that it meets itself, and on nothing else:
neither on what other modules contain, nor on which of them could not be read or written, nor on
what was done before. Two runs over one listing whose workspaces answer alike where one module is
concerned tell the same of it, and read and write it alike. The totals count every listed module
once.
-/

namespace DeclOrder

namespace Run

/-- The answers that one module meets in a run. -/
structure Answers where
  /-- The results of reading it, the first time, the second time and so on. -/
  read : Nat → Except Failure String
  /-- The result of writing a text in its place. -/
  write : String → Except Failure Unit

/-- In the record of a run, the module at a path meets the answers. -/
structure Meets (answers : Answers) (root path : Path) (events : List Event) : Prop where
  /-- Reading the module has the results given, one time after the other. -/
  reads : ∀ reading ∈ (readsOf path events).zipIdx, reading.1 = answers.read reading.2
  /-- Writing a text in place of the module has the result given. -/
  writes : ∀ writing ∈ writesOf events, writing.target.sameAs (root.join path) = true →
    writing.result = answers.write writing.text

/-- The event is a reading of the module at a path, or a file written in place of it. -/
def concerns (root path : Path) : Event → Bool
  | .read other _ => other.sameAs path
  | .write target _ _ => target.sameAs (root.join path)
  | .makeDirectory _ _ => false

/-- The events that concern one module, in order. -/
def about (root path : Path) (events : List Event) : List Event :=
  events.filter (concerns root path)

section Determined

variable {mode : Mode} {processor : Processor} {root path : Path} {history : List Event}
  {done : Processed} {answers : Answers}

/-- How writing a module back goes with the answers after its first reading, and its result. -/
def rewriting (root path : Path) (hash text : String) (answers : Answers) :
    List Event × Except WriteRefusal Unit :=
  match answers.read 1 with
  | .error failure => ([.read path (.error failure)], .error (.failed failure))
  | .ok current =>
    if Sha256.ofText current = hash then
      ([.read path (.ok current), .write (root.join path) text (answers.write text)],
        (answers.write text).mapError .failed)
    else ([.read path (.ok current)], .error .changed)

/-- How a module fares that meets the answers, and what comes of it. -/
def faring (mode : Mode) (processor : Processor) (root path : Path) (answers : Answers) :
    List Event × Processed :=
  match answers.read 0 with
  | .error failure =>
    ([.read path (.error failure)],
      { path, entry := { path := path.text, status := .failed, error := some failure.message }
        revision := none })
  | .ok text =>
    let written := (processor.process text).text
    if written = text then
      ([.read path (.ok text)],
        { path, entry := entryOf processor path text .unchanged none, revision := none })
    else if mode.writes then
      let (history, result) := rewriting root path (Sha256.ofText text) written answers
      (.read path (.ok text) :: history,
        match result with
        | .ok () =>
          { path, entry := entryOf processor path text .written none
            revision := some ⟨text, written⟩ }
        | .error refusal =>
          { path, entry := entryOf processor path text refusal.status (some refusal.message)
            revision := none })
    else
      ([.read path (.ok text)],
        { path, entry := entryOf processor path text .pending none
          revision := some ⟨text, written⟩ })

variable {events : List Event}

/-- The first reading of a module has the first result given. -/
theorem Meets.first {result : Except Failure String}
    (meets : Meets answers root path (.read path result :: events)) : result = answers.read 0 :=
  meets.reads (result, 0) (by simp [readsOf])

/-- The second reading of a module has the second result given. -/
theorem Meets.second {first result : Except Failure String}
    (meets : Meets answers root path (.read path first :: .read path result :: events)) :
    result = answers.read 1 :=
  meets.reads (result, 1) (by simp [readsOf])

/-- A write in place of a module has the result given for its text. -/
theorem Meets.written {text : String} {result : Except Failure Unit}
    (meets : Meets answers root path events)
    (member : .write (root.join path) text result ∈ events) : result = answers.write text :=
  meets.writes { target := root.join path, text, result }
    (List.mem_filterMap.mpr ⟨_, member, rfl⟩) (sameAs_self _)

/-- Writing a module back goes as the answers after its first reading determine. -/
theorem WriteCourse.eq_rewriting {hash text : String} {result : Except WriteRefusal Unit}
    {first : Except Failure String} (course : WriteCourse root path hash text history result)
    (meets : Meets answers root path (.read path first :: history)) :
    (history, result) = rewriting root path hash text answers := by
  cases course with
  | unread failure => simp only [rewriting, ← meets.second]
  | changed current other => simp only [rewriting, ← meets.second, other, ↓reduceIte]
  | unwritten current same failure =>
    have write : .error failure = answers.write text := meets.written (by simp)
    simp only [rewriting, ← meets.second, ← write, same, ↓reduceIte]
    rfl
  | written current same =>
    have write : .ok () = answers.write text := meets.written (by simp)
    simp only [rewriting, ← meets.second, ← write, same, ↓reduceIte]
    rfl

/-- A module fares as the answers that it meets determine. -/
theorem Course.eq_faring (course : Course mode processor root path history done)
    (meets : Meets answers root path history) :
    (history, done) = faring mode processor root path answers := by
  cases course with
  | unread failure => simp only [faring, ← meets.first]
  | unchanged text same => simp only [faring, ← meets.first, same, ↓reduceIte]
  | pending text differs quiet =>
    simp only [faring, ← meets.first, differs, quiet, Bool.false_eq_true, ↓reduceIte]
  | written text differs writes history course =>
    simp only [faring, ← meets.first, differs, writes, ← course.eq_rewriting meets, ↓reduceIte]
  | refused text differs writes history refusal course =>
    simp only [faring, ← meets.first, differs, writes, ← course.eq_rewriting meets, ↓reduceIte]

end Determined

section Apart

variable {mode : Mode} {processor : Processor} {root path : Path}
  {history events later : List Event} {done : Processed}

/-- The events in two records that concern a module are those in the first and in the second. -/
theorem about_append : about root path (events ++ later) =
    about root path events ++ about root path later := List.filter_append _ _

/-- All of a module's own history concerns it. -/
theorem Course.about_self (course : Course mode processor root path history done) :
    about root path history = history := by
  refine List.filter_eq_self.mpr ?_
  cases course with
  | unread failure => simp [concerns]
  | unchanged text same => simp [concerns]
  | pending text differs quiet => simp [concerns]
  | written text differs writes history course => cases course; simp [concerns]
  | refused text differs writes history refusal course => cases course <;> simp [concerns]

/-- Nothing in a module's history concerns one with another path under the root. -/
theorem Course.about_other (course : Course mode processor root path history done) {other : Path}
    (different : path.sameAs other = false)
    (apart : (root.join path).sameAs (root.join other) = false) :
    about root other history = [] := by
  refine List.filter_eq_nil_iff.mpr ?_
  cases course with
  | unread failure => simp [concerns, different]
  | unchanged text same => simp [concerns, different]
  | pending text differs quiet => simp [concerns, different]
  | written text differs writes history course => cases course; simp [concerns, different, apart]
  | refused text differs writes history refusal course =>
    cases course <;> simp [concerns, different, apart]

variable {paths : List Path} {courses : List (List Event × Processed)} {answers : Answers}
  {place : Nat}

/-- What a module meets in a run over paths that differ it meets in its own history. -/
theorem Meets.of_follow
    (follow : List.Forall₂ (fun path course => Course mode processor root path course.1 course.2)
      paths courses)
    (distinct : paths.Pairwise fun one other => one.sameAs other = false)
    (listed : paths[place]? = some path) {course : List Event × Processed}
    (taken : courses[place]? = some course)
    (meets : Meets answers root path (courses.map (·.1)).flatten) :
    Meets answers root path course.1 where
  reads := by
    rw [← readsOf_courses follow distinct listed taken]
    exact meets.reads
  writes writing member := by
    obtain ⟨event, there, same⟩ := List.mem_filterMap.mp member
    have history : course.1 ∈ courses.map (·.1) := List.mem_map_of_mem (List.mem_of_getElem? taken)
    have recorded : event ∈ (courses.map (·.1)).flatten :=
      List.mem_flatten.mpr ⟨course.1, history, there⟩
    exact meets.writes writing (List.mem_filterMap.mpr ⟨event, recorded, same⟩)

/-- In a run over paths that differ under the root, a module that meets the answers fares as they
determine, and the events that concern it are those of its own history. -/
theorem eq_faring_of_follow
    (follow : List.Forall₂ (fun path course => Course mode processor root path course.1 course.2)
      paths courses)
    (distinct : paths.Pairwise fun one other => one.sameAs other = false)
    (apart : paths.Pairwise fun one other => (root.join one).sameAs (root.join other) = false)
    (listed : paths[place]? = some path)
    (meets : Meets answers root path (courses.map (·.1)).flatten) :
    courses[place]? = some (faring mode processor root path answers) ∧
      about root path (courses.map (·.1)).flatten =
        (faring mode processor root path answers).1 := by
  obtain ⟨inside, -⟩ := List.getElem?_eq_some_iff.mp listed
  obtain ⟨course, taken⟩ : ∃ course, courses[place]? = some course :=
    ⟨_, List.getElem?_eq_getElem (follow.length_eq ▸ inside)⟩
  have own : Course mode processor root path course.1 course.2 :=
    course_of_follow follow listed taken
  have fares : course = faring mode processor root path answers :=
    own.eq_faring (meets.of_follow follow distinct listed taken)
  have concerned : about root path (courses.map (·.1)).flatten = about root path course.1 :=
    view_courses rfl (fun _ _ => about_append) follow taken fun _ _ _ _ ne found other =>
      other.about_other (differ_of_pairwise id distinct ne listed found)
        (differ_of_pairwise root.join apart ne listed found)
  exact ⟨fares ▸ taken, by rw [concerned, own.about_self, fares]⟩

end Apart

end Run

section Counting

/-- The entries of one status, counted. -/
def tallyOf (status : Status) (entries : List Entry) : Nat :=
  entries.countP (·.status == status)

/-- The sum of a measure over the entries, those without a summary adding nothing. -/
def sumOf (measure : Summary → Nat) : List Entry → Nat
  | [] => 0
  | entry :: rest => (entry.summary.map measure).getD 0 + sumOf measure rest

/-- The totals count the entries, each under its status, and sum up what the summaries list. The
sums are taken in sixty-four bits. -/
structure Totals.Counts (totals : Totals) (entries : List Entry) : Prop where
  /-- All entries are counted. -/
  files : totals.files.toNat = entries.length
  /-- The modules in order are counted. -/
  unchanged : totals.unchanged.toNat = tallyOf .unchanged entries
  /-- The modules that were written or are to be written are counted. -/
  changed : totals.changed.toNat = tallyOf .written entries + tallyOf .pending entries
  /-- The modules changed by others are counted. -/
  blocked : totals.blocked.toNat = tallyOf .blocked entries
  /-- The modules that could not be read or written are counted. -/
  failed : totals.failed.toNat = tallyOf .failed entries
  /-- The forward statements of all modules are counted. -/
  forwardReferences : totals.forwardReferences.toNat =
    sumOf (·.forwardReferences.length) entries % UInt64.size
  /-- The duplicates taken out of all modules are counted. -/
  collapsed : totals.collapsed.toNat = sumOf (·.collapsed.length) entries % UInt64.size
  /-- The modules whose order did not settle are counted. -/
  unconverged : totals.unconverged.toNat =
    sumOf (fun summary => if summary.converged then 0 else 1) entries

/-- A report has an entry for each of the paths, in their order, and counts each once. -/
structure Report.Covers (report : Report) (paths : List Path) : Prop where
  /-- The entries are those of the paths. -/
  named : report.entries.map (·.path) = paths.map (·.text)
  /-- The total is that of the paths. -/
  files : report.totals.files = paths.length.toUInt64
  /-- The total is the sum of the others. -/
  sum : report.totals.files = report.totals.unchanged + report.totals.changed +
    report.totals.blocked + report.totals.failed
  /-- The totals are exact as far as they can count the paths. -/
  exact : paths.length < UInt64.size → report.totals.Counts report.entries

variable {entries : List Entry}

/-- The modules that were written and those that are to be are counted apart. -/
theorem countP_changed : entries.countP (fun entry =>
    entry.status == .written || entry.status == .pending) =
      tallyOf .written entries + tallyOf .pending entries := by
  induction entries with
  | nil => rfl
  | cons entry entries ih =>
    simp only [tallyOf] at ih ⊢
    simp only [List.countP_cons, ih]
    cases entry.status <;> simp <;> omega

/-- Every entry is counted under one status. -/
theorem length_eq_tallies : entries.length = tallyOf .unchanged entries +
    (tallyOf .written entries + tallyOf .pending entries) + tallyOf .blocked entries +
    tallyOf .failed entries := by
  induction entries with
  | nil => rfl
  | cons entry entries ih =>
    simp only [tallyOf] at ih ⊢
    simp only [List.countP_cons, List.length_cons]
    cases entry.status <;> simp <;> omega

/-- A measure is summed over the summaries in sixty-four bits. -/
theorem toNat_summed (measure : Summary → Nat) :
    (summed measure entries).toNat = sumOf measure entries % UInt64.size := by
  have whole : (entries.filterMap (·.summary)).foldr
      (fun summary total => measure summary + total) 0 = sumOf measure entries := by
    induction entries with
    | nil => rfl
    | cons entry entries ih =>
      rw [sumOf, ← ih, List.filterMap_cons]
      cases entry.summary with
      | none => exact (Nat.zero_add _).symm
      | some summary => rfl
  rw [summed, whole]
  exact UInt64.toNat_ofNat'

/-- The modules whose order did not settle are those whose summaries say so. -/
theorem countP_unconverged : entries.countP (fun entry => entry.summary.any (!·.converged)) =
    sumOf (fun summary => if summary.converged then 0 else 1) entries := by
  induction entries with
  | nil => rfl
  | cons entry entries ih =>
    rw [sumOf, ← ih, List.countP_cons, Nat.add_comm]
    cases entry.summary with
    | none => rfl
    | some summary => cases settled : summary.converged <;> simp [settled]

/-- The totals over entries that can be counted count them. -/
theorem Totals.counts_of (countable : entries.length < UInt64.size) :
    (Totals.of entries).Counts entries where
  files := UInt64.toNat_ofNat_of_lt' countable
  unchanged := Run.toNat_countOf countable
  changed := (Run.toNat_countOf countable).trans countP_changed
  blocked := Run.toNat_countOf countable
  failed := Run.toNat_countOf countable
  forwardReferences := toNat_summed _
  collapsed := toNat_summed _
  unconverged := (Run.toNat_countOf countable).trans countP_unconverged

/-- The total over entries is the sum of the totals by status. -/
theorem Totals.files_of : (Totals.of entries).files = (Totals.of entries).unchanged +
    (Totals.of entries).changed + (Totals.of entries).blocked + (Totals.of entries).failed := by
  simp only [Totals.of, countOf, countP_changed]
  rw [length_eq_tallies]
  simp only [Nat.toUInt64, UInt64.ofNat_add, tallyOf]

end Counting

namespace Run

section Runs

variable {σ : Type} {workspace : Workspace (StateM σ)} {settings : Settings} {tool : Tool}
  {processor : Processor} {times : RunTimes} {root path : Path} {paths : List Path}
  {courses : List (List Event × Processed)}

/-- The report of a run covers the listed modules. -/
theorem covers_of_follow
    (follow : List.Forall₂ (fun path course =>
      Course settings.mode processor root path course.1 course.2) paths courses) :
    (collect settings processor tool times (courses.map (·.2))).report.Covers paths := by
  have length : ((courses.map (·.2)).map (·.entry)).length = paths.length := by
    rw [List.length_map, List.length_map, follow.length_eq]
  have names : List.Forall₂ (fun path course => course.2.entry.path = path.text) paths courses :=
    follow.imp fun _ _ course => course.guarded.named
  constructor
  · simp only [collect, Report.tally, List.map_map]
    exact List.forall₂_eq_eq_eq ▸ List.forall₂_map_left_iff.mpr
      (List.forall₂_map_right_iff.mpr names.flip)
  · exact congrArg Nat.toUInt64 length
  · exact Totals.files_of
  · exact fun countable => Totals.counts_of (length ▸ countable)

/-- In a run over paths that differ under the root, the entry of a module that meets the answers and
the events that concern it are those that the answers determine. -/
theorem exists_faring_run (settings : Settings) (tool : Tool)
    (chosen : Processor.ofChoices settings.choices = .ok processor) {state : σ}
    (listed : (workspace.list settings.selection state).1 = .ok paths)
    (distinct : paths.Pairwise fun one other => one.sameAs other = false)
    (apart : paths.Pairwise fun one other =>
      (workspace.root.join one).sameAs (workspace.root.join other) = false)
    {place : Nat} (there : paths[place]? = some path) {answers : Answers}
    (meets : Meets answers workspace.root path (recordOf settings workspace tool state)) :
    ∃ run, (perform settings workspace tool state).1 = .ok run ∧ run.report.Covers paths ∧
      run.report.entries[place]? =
        some (faring settings.mode processor workspace.root path answers).2.entry ∧
      about workspace.root path (recordOf settings workspace tool state) =
        (faring settings.mode processor workspace.root path answers).1 := by
  obtain ⟨courses, times, after, taken, follow⟩ := exists_run settings tool chosen listed
  rw [recordOf_eq taken] at meets ⊢
  obtain ⟨fares, concerned⟩ := eq_faring_of_follow follow distinct apart there meets
  refine ⟨_, congrArg Prod.fst taken.plain, covers_of_follow follow, ?_, concerned⟩
  simp [collect, Report.tally, fares]

end Runs

/-- If two runs meet one listing of paths that differ, also under the root, and the same answers at
one of them, then they are refused with one error, or both reports cover the listing, have the same
entry for that module, and the runs read and write it alike. Nothing is supposed of the answers at
other paths. -/
theorem perform_independent {σ τ : Type} (settings : Settings) (tool : Tool)
    (left : Workspace (StateM σ)) (right : Workspace (StateM τ)) (start : σ) (begin : τ)
    (paths : List Path) (place : Nat) (path : Path) (answers : Answers)
    (rooted : right.root = left.root)
    (listed : (left.list settings.selection start).1 = .ok paths)
    (listed_right : (right.list settings.selection begin).1 = .ok paths)
    (distinct : paths.Pairwise fun one other => one.sameAs other = false)
    (apart : paths.Pairwise fun one other =>
      (left.root.join one).sameAs (left.root.join other) = false)
    (there : paths[place]? = some path)
    (meets : Meets answers left.root path (recordOf settings left tool start))
    (meets_right : Meets answers right.root path (recordOf settings right tool begin)) :
    (∃ error refusal, Processor.ofChoices settings.choices = .error error ∧
      (perform settings left tool start).1 = .error refusal ∧
      (perform settings right tool begin).1 = .error refusal ∧
      recordOf settings left tool start = [] ∧ recordOf settings right tool begin = []) ∨
    ∃ run other, (perform settings left tool start).1 = .ok run ∧
      (perform settings right tool begin).1 = .ok other ∧
      run.report.Covers paths ∧ other.report.Covers paths ∧
      (∃ entry, run.report.entries[place]? = some entry ∧
        other.report.entries[place]? = some entry) ∧
      about left.root path (recordOf settings left tool start) =
        about right.root path (recordOf settings right tool begin) := by
  cases chosen : Processor.ofChoices settings.choices with
  | error error =>
    have taken := takes_unchosen settings tool left start chosen
    have taken_right := takes_unchosen settings tool right begin chosen
    exact .inl ⟨error, _, rfl, congrArg Prod.fst taken.plain, congrArg Prod.fst taken_right.plain,
      recordOf_eq taken, recordOf_eq taken_right⟩
  | ok processor =>
    obtain ⟨run, done, covers, entry, concerned⟩ :=
      exists_faring_run settings tool chosen listed distinct apart there meets
    obtain ⟨other, done_right, covers_right, entry_right, concerned_right⟩ :=
      exists_faring_run settings tool chosen listed_right distinct (rooted ▸ apart) there
        meets_right
    rw [rooted] at entry_right concerned_right
    rw [rooted]
    exact .inr ⟨run, other, done, done_right, covers, covers_right, ⟨_, entry, entry_right⟩,
      concerned.trans concerned_right.symm⟩

/-- A workspace of two modules. Reading the first has the result given, and the second has a block
before the one that it refers to. -/
def beside (first : Except Failure String) : Workspace (StateM Nat) where
  root := ⟨"models"⟩
  list _ := return .ok [⟨"deal.py"⟩, ⟨"part.py"⟩]
  read path := do
    modify (· + 1)
    return if path.text = "deal.py" then first else .ok mixedText
  write _ _ := return .ok ()
  makeDirectory _ := return .ok ()
  now := return Timestamp.epoch

/-- The second module meets the same answers whether the first cannot be read or is to be written
too, and it is written and put on record alike. -/
theorem perform_independent_beside :
    ∃ answers run other,
      Meets answers ⟨"models"⟩ ⟨"part.py"⟩
        (recordOf {} (beside (.error ⟨[], "not found"⟩)) ⟨"declfix", none⟩ 0) ∧
      Meets answers ⟨"models"⟩ ⟨"part.py"⟩
        (recordOf {} (beside (.ok mixedText)) ⟨"declfix", none⟩ 0) ∧
      (perform {} (beside (.error ⟨[], "not found"⟩)) ⟨"declfix", none⟩ 0).1 = .ok run ∧
      (perform {} (beside (.ok mixedText)) ⟨"declfix", none⟩ 0).1 = .ok other ∧
      run.report.entries.map (·.status) = [.failed, .written] ∧
      other.report.entries.map (·.status) = [.written, .written] ∧
      run.report.entries[1]? = other.report.entries[1]? ∧
      about ⟨"models"⟩ ⟨"part.py"⟩
          (recordOf {} (beside (.error ⟨[], "not found"⟩)) ⟨"declfix", none⟩ 0) =
        about ⟨"models"⟩ ⟨"part.py"⟩
          (recordOf {} (beside (.ok mixedText)) ⟨"declfix", none⟩ 0) := by
  let answers : Answers := { read := fun _ => .ok mixedText, write := fun _ => .ok () }
  have meets : Meets answers ⟨"models"⟩ ⟨"part.py"⟩
      (recordOf {} (beside (.error ⟨[], "not found"⟩)) ⟨"declfix", none⟩ 0) :=
    ⟨by decide +kernel, by decide +kernel⟩
  have meets_right : Meets answers ⟨"models"⟩ ⟨"part.py"⟩
      (recordOf {} (beside (.ok mixedText)) ⟨"declfix", none⟩ 0) :=
    ⟨by decide +kernel, by decide +kernel⟩
  have failing : (perform {} (beside (.error ⟨[], "not found"⟩)) ⟨"declfix", none⟩ 0).1.toOption.map
      (fun run => run.report.entries.map (·.status)) = some [.failed, .written] := by
    decide +kernel
  have changing : (perform {} (beside (.ok mixedText)) ⟨"declfix", none⟩ 0).1.toOption.map
      (fun run => run.report.entries.map (·.status)) = some [.written, .written] := by
    decide +kernel
  obtain ⟨error, refusal, -, refused, -⟩ | ⟨run, other, done, done_right, -, -, same, alike⟩ :=
    perform_independent {} ⟨"declfix", none⟩ (beside (.error ⟨[], "not found"⟩))
      (beside (.ok mixedText)) 0 0 [⟨"deal.py"⟩, ⟨"part.py"⟩] 1 ⟨"part.py"⟩ answers rfl rfl rfl
      (by decide) (by decide +kernel) rfl meets meets_right
  · rw [refused] at failing
    simp [Except.toOption] at failing
  · obtain ⟨entry, first, second⟩ := same
    rw [done] at failing
    rw [done_right] at changing
    exact ⟨answers, run, other, meets, meets_right, done, done_right, Option.some.inj failing,
      Option.some.inj changing, first.trans second.symm, alike⟩

end Run

end DeclOrder
