import DeclOrder.Proofs.Arguments
import DeclOrder.Proofs.Observation
import DeclOrder.Proofs.Preview

/-!
# Exit codes of checks

A check loads the configuration, lists the modules and reads each of them, and changes nothing. Its
exit code is 0 if all of this succeeds and every module is in order, 2 if all of it succeeds and a
module is not in order, and 1 if anything fails, whatever the other modules are like.
-/

namespace DeclOrder

/-- A check does not write modules back. -/
theorem writes_of_check {mode : Mode} (check : mode = .check) : mode.writes = false := by
  rw [check]
  rfl

namespace Run

section Quiet

variable {σ : Type} {workspace : Workspace (StateM σ)} {mode : Mode} {processor : Processor}
  {state : σ}

/-- A module that is not to be written is only read, and fares as what is read determines. -/
theorem processModule_eq (read : ∀ path, Observes (workspace.read path))
    (quiet : mode.writes = false) (path : Path) :
    processModule workspace mode processor path state =
      ((foreseen mode processor workspace.root path (workspace.read path state).1).2, state) := by
  unfold processModule
  rw [(read path).bind_eq]
  cases (workspace.read path state).1 with
  | error failure => rfl
  | ok text =>
    by_cases same : (processor.process text).text = text
    · rw [foreseen_unchanged same]
      simp only [Processor.changed_process, same, bne_self_eq_false, Bool.false_eq_true,
        ↓reduceIte, entryOf]
      rfl
    · rw [foreseen_pending same quiet]
      simp only [Processor.changed_process, bne_iff_ne.mpr same, settle, quiet,
        Bool.false_eq_true, ↓reduceIte]
      rfl

/-- A run that does not write leaves a workspace as it is that it only looks at, and goes as what is
read determines. -/
theorem perform_eq (settings : Settings) (tool : Tool) (quiet : settings.mode.writes = false)
    (list : Observes (workspace.list settings.selection))
    (read : ∀ path, Observes (workspace.read path)) (now : Observes workspace.now)
    (chosen : Processor.ofChoices settings.choices = .ok processor) {paths : List Path}
    (listed : (workspace.list settings.selection state).1 = .ok paths) :
    ∃ times, perform settings workspace tool state =
      (.ok (collect settings processor tool times
        ((foresee settings.mode processor workspace.root (fun path => (workspace.read path state).1)
          paths).map (·.2))), state) := by
  have visits : ∀ path, Observes (processModule workspace settings.mode processor path) := by
    intro path state
    rw [processModule_eq read quiet]
  have found : paths.mapM (processModule workspace settings.mode processor) state =
      ((foresee settings.mode processor workspace.root (fun path => (workspace.read path state).1)
        paths).map (·.2), state) := by
    rw [Observes.mapM_eq visits, foresee, List.map_map]
    exact congrArg (·, state) (List.map_congr_left fun path _ => by
      rw [processModule_eq read quiet]
      rfl)
  refine ⟨⟨some (workspace.now state).1, some (workspace.now state).1⟩, ?_⟩
  simp only [perform, chosen]
  rw [list.bind_eq, listed]
  dsimp only
  rw [now.bind_eq, (Observes.mapM visits paths).bind_eq, now.bind_eq, found]
  rfl

end Quiet

section Foreseen

variable {processor : Processor} {root path : Path} {answers : Path → Except Failure String}

/-- A module that is not to be written counts as failed exactly if it cannot be read. -/
theorem failed_foreseen_iff {mode : Mode} (quiet : mode.writes = false)
    {answer : Except Failure String} :
    (foreseen mode processor root path answer).2.entry.status = .failed ↔
      ∃ failure, answer = .error failure := by
  cases answer with
  | error failure => simp [foreseen]
  | ok text =>
    by_cases same : (processor.process text).text = text
    · simp [foreseen_unchanged same, entryOf]
    · simp [foreseen_pending same quiet, entryOf]

/-- A module that is not to be written counts as changed exactly if it can be read and is not in
order. -/
theorem pending_foreseen_iff {mode : Mode} (quiet : mode.writes = false)
    {answer : Except Failure String} :
    (foreseen mode processor root path answer).2.entry.status = .written ∨
        (foreseen mode processor root path answer).2.entry.status = .pending ↔
      ∃ text, answer = .ok text ∧ (processor.process text).text ≠ text := by
  cases answer with
  | error failure => simp [foreseen]
  | ok text =>
    by_cases same : (processor.process text).text = text
    · simp [foreseen_unchanged same, entryOf, same]
    · simp [foreseen_pending same quiet, entryOf, same]

variable {settings : Settings} {tool : Tool} {times : RunTimes} {paths : List Path}

/-- A test counts something among the entries exactly if a module's entry satisfies it, as far as
the modules can be counted. -/
theorem countOf_foresee_pos {mode : Mode} {test : Entry → Bool}
    (countable : paths.length < UInt64.size) :
    0 < countOf test (((foresee mode processor root answers paths).map (·.2)).map (·.entry)) ↔
      ∃ path ∈ paths, test (foreseen mode processor root path (answers path)).2.entry = true := by
  rw [countOf_pos (by simpa [foresee] using countable)]
  simp [foresee]

/-- A run that does not write counts a failure exactly if a module cannot be read, as far as the
modules can be counted. -/
theorem failed_collect_pos (quiet : settings.mode.writes = false)
    (countable : paths.length < UInt64.size) :
    0 < (collect settings processor tool times
        ((foresee settings.mode processor root answers paths).map (·.2))).report.totals.failed ↔
      ∃ path ∈ paths, ∃ failure, answers path = .error failure := by
  refine (countOf_foresee_pos countable).trans ?_
  refine exists_congr fun path => and_congr_right fun _ => ?_
  rw [beq_iff_eq]
  exact failed_foreseen_iff quiet

/-- A check is blocked exactly if a module can be read and is not in order, as far as the modules
can be counted. -/
theorem isBlocked_collect_iff (check : settings.mode = .check)
    (countable : paths.length < UInt64.size) :
    (collect settings processor tool times
        ((foresee settings.mode processor root answers paths).map (·.2))).isBlocked = true ↔
      ∃ path ∈ paths, ∃ text, answers path = .ok text ∧ (processor.process text).text ≠ text := by
  have quiet : settings.mode.writes = false := writes_of_check check
  have blocked : (collect settings processor tool times
        ((foresee settings.mode processor root answers paths).map (·.2))).isBlocked =
      (settings.mode == .check && 0 < (collect settings processor tool times
        ((foresee settings.mode processor root answers paths).map (·.2))).report.totals.changed) :=
    isBlocked_collect
  rw [blocked, check, beq_self_eq_true, Bool.true_and, decide_eq_true_iff, ← check]
  refine (countOf_foresee_pos countable).trans ?_
  refine exists_congr fun path => and_congr_right fun _ => ?_
  rw [Bool.or_eq_true, beq_iff_eq, beq_iff_eq]
  exact pending_foreseen_iff quiet

end Foreseen

end Run

/-- Processing the text as chosen gives it back. -/
def InOrder (choices : Choices) (text : String) : Prop :=
  ∃ outcome, process choices text = .ok outcome ∧ outcome.text = text

/-- Processing the text as chosen gives another one. -/
def OutOfOrder (choices : Choices) (text : String) : Prop :=
  ∃ outcome, process choices text = .ok outcome ∧ outcome.text ≠ text

section Order

variable {choices : Choices} {processor : Processor} {text : String}

/-- A text is in order if the processor chosen gives it back. -/
theorem inOrder_iff (chosen : Processor.ofChoices choices = .ok processor) :
    InOrder choices text ↔ (processor.process text).text = text := by
  simp [InOrder, process, chosen, Except.map]

/-- A text is out of order if the processor chosen gives another one. -/
theorem outOfOrder_iff (chosen : Processor.ofChoices choices = .ok processor) :
    OutOfOrder choices text ↔ (processor.process text).text ≠ text := by
  simp [OutOfOrder, process, chosen, Except.map]

/-- Choices can be used exactly if their strategy is known. -/
theorem exists_ofChoices_iff : (∃ processor, Processor.ofChoices choices = .ok processor) ↔
    ∃ strategy, Order.Strategy.ofKey? choices.strategy = some strategy := by
  unfold Processor.ofChoices
  cases Order.Strategy.ofKey? choices.strategy with
  | none => simp
  | some strategy => simp

end Order

namespace Command

/-- A finished run ends with 1 if a module failed, with 2 if it is blocked otherwise, and else
with 0. -/
theorem exitCode_report (run : Run) : (report run).exitCode =
    if 0 < run.report.totals.failed then 1 else if run.isBlocked then 2 else 0 := by
  unfold report verdict
  by_cases failed : 0 < run.report.totals.failed
  · simp only [failed, ↓reduceIte]
    rfl
  · cases blocked : run.isBlocked with
    | true =>
      simp only [failed, ↓reduceIte]
      rfl
    | false =>
      simp only [failed, Bool.false_eq_true, ↓reduceIte]
      rfl

section Checking

variable {σ : Type}

/-- The response to a run that is not to keep what it finds. -/
def responseTo : Except RunError Run → Response
  | .error error => Response.ended {} (.error error)
  | .ok run => report run

/-- The configuration of a root is loaded and merged with what is asked for, into the settings. -/
def Configured (host : Host (StateM σ)) (root : Path) (mode : Mode) (overrides : Overrides)
    (state : σ) (settings : Settings) : Prop :=
  ∃ configuration, (Configuration.loadOrDefault host root state).1 = .ok configuration ∧
    configuration.merge root mode overrides = .ok settings

/-- All that a check does before it reads modules succeeds, and comes to the settings and to the
paths of the modules. -/
structure Setup (host : Host (StateM σ)) (root : Path) (overrides : Overrides) (state : σ)
    (settings : Settings) (paths : List Path) : Prop where
  /-- The configuration is loaded and merged with what is asked for. -/
  configured : Configured host root .check overrides state settings
  /-- The strategy is known. -/
  known : ∃ strategy, Order.Strategy.ofKey? settings.choices.strategy = some strategy
  /-- The modules are listed. -/
  listed : (host.listUnder root settings.selection state).1 = .ok paths

/-- The setup succeeds, and every listed module can be read and is in order. -/
def Clean (host : Host (StateM σ)) (root : Path) (overrides : Overrides) (state : σ) : Prop :=
  ∃ settings paths, Setup host root overrides state settings paths ∧
    ∀ path ∈ paths, ∃ text, (host.readUnder root path state).1 = .ok text ∧
      InOrder settings.choices text

/-- The setup succeeds, every listed module can be read, and one of them is out of order. -/
def Unclean (host : Host (StateM σ)) (root : Path) (overrides : Overrides) (state : σ) : Prop :=
  ∃ settings paths, Setup host root overrides state settings paths ∧
    (∀ path ∈ paths, ∃ text, (host.readUnder root path state).1 = .ok text) ∧
    ∃ path ∈ paths, ∃ text, (host.readUnder root path state).1 = .ok text ∧
      OutOfOrder settings.choices text

/-- The exit code is 0 if the modules are clean, 2 if they are unclean, and 1 in every other
case. -/
structure Exits (host : Host (StateM σ)) (root : Path) (overrides : Overrides) (state : σ)
    (code : UInt8) : Prop where
  /-- The code is 0 exactly for clean modules. -/
  clean : code = 0 ↔ Clean host root overrides state
  /-- The code is 2 exactly for unclean modules. -/
  unclean : code = 2 ↔ Unclean host root overrides state
  /-- The code is 1 exactly in every other case. -/
  failed : code = 1 ↔ ¬ Clean host root overrides state ∧ ¬ Unclean host root overrides state

variable {host : Host (StateM σ)} {root : Path} {overrides : Overrides} {state : σ}
  {settings : Settings} {paths : List Path}

/-- The settings of a configuration are determined. -/
theorem Configured.unique {mode : Mode} {others : Settings}
    (configured : Configured host root mode overrides state settings)
    (again : Configured host root mode overrides state others) : others = settings := by
  obtain ⟨configuration, loaded, merged⟩ := configured
  obtain ⟨other, loaded_again, merged_again⟩ := again
  obtain rfl : other = configuration := Except.ok.inj (loaded_again.symm.trans loaded)
  exact Except.ok.inj (merged_again.symm.trans merged)

/-- The setup comes to one thing. -/
theorem Setup.unique (setup : Setup host root overrides state settings paths)
    {others : Settings} {further : List Path}
    (again : Setup host root overrides state others further) :
    others = settings ∧ further = paths := by
  obtain rfl : others = settings := setup.configured.unique again.configured
  exact ⟨rfl, Except.ok.inj (again.listed.symm.trans setup.listed)⟩

/-- After a setup, modules are clean if all of them are in order. -/
theorem Setup.clean_iff (setup : Setup host root overrides state settings paths) :
    Clean host root overrides state ↔
      ∀ path ∈ paths, ∃ text, (host.readUnder root path state).1 = .ok text ∧
        InOrder settings.choices text := by
  refine ⟨fun ⟨others, further, again, each⟩ => ?_, fun each => ⟨settings, paths, setup, each⟩⟩
  obtain ⟨rfl, rfl⟩ := setup.unique again
  exact each

/-- After a setup, modules are unclean if all of them can be read and one is out of order. -/
theorem Setup.unclean_iff (setup : Setup host root overrides state settings paths) :
    Unclean host root overrides state ↔
      (∀ path ∈ paths, ∃ text, (host.readUnder root path state).1 = .ok text) ∧
      ∃ path ∈ paths, ∃ text, (host.readUnder root path state).1 = .ok text ∧
        OutOfOrder settings.choices text := by
  refine ⟨fun ⟨others, further, again, each⟩ => ?_, fun each => ⟨settings, paths, setup, each⟩⟩
  obtain ⟨rfl, rfl⟩ := setup.unique again
  exact each

/-- Modules that are clean or unclean can all be read. -/
theorem Setup.readable (setup : Setup host root overrides state settings paths)
    (told : Clean host root overrides state ∨ Unclean host root overrides state) :
    ∀ path ∈ paths, ∃ text, (host.readUnder root path state).1 = .ok text := by
  rcases told with clean | unclean
  · intro path listed
    obtain ⟨text, read, -⟩ := setup.clean_iff.mp clean path listed
    exact ⟨text, read⟩
  · exact (setup.unclean_iff.mp unclean).1

/-- Modules that are clean are not unclean. -/
theorem Clean.not_unclean (clean : Clean host root overrides state) :
    ¬ Unclean host root overrides state := by
  obtain ⟨settings, paths, setup, each⟩ := clean
  intro unclean
  obtain ⟨-, path, listed, text, read, outcome, processed, other⟩ := setup.unclean_iff.mp unclean
  obtain ⟨found, again, result, repeated, same⟩ := each path listed
  obtain rfl : text = found := Except.ok.inj (read.symm.trans again)
  obtain rfl : outcome = result := Except.ok.inj (processed.symm.trans repeated)
  exact other same

/-- The exit code for clean modules is 0. -/
theorem Exits.zero (clean : Clean host root overrides state) :
    Exits host root overrides state 0 := by
  have unclean := clean.not_unclean
  constructor <;> simp [clean, unclean]

/-- The exit code for unclean modules is 2. -/
theorem Exits.two (unclean : Unclean host root overrides state) :
    Exits host root overrides state 2 := by
  have clean : ¬ Clean host root overrides state := fun clean => clean.not_unclean unclean
  constructor <;> simp [clean, unclean]

/-- The exit code is 1 for modules that are neither. -/
theorem Exits.one (untold : ¬ (Clean host root overrides state ∨
    Unclean host root overrides state)) : Exits host root overrides state 1 := by
  obtain ⟨clean, unclean⟩ := not_or.mp untold
  constructor <;> simp [clean, unclean]

/-- Without a setup the exit code is 1. -/
theorem Exits.of_no_setup (refused : ∀ settings paths,
    ¬ Setup host root overrides state settings paths) : Exits host root overrides state 1 := by
  refine .one ?_
  rintro (⟨settings, paths, setup, -⟩ | ⟨settings, paths, setup, -⟩)
  · exact refused settings paths setup
  · exact refused settings paths setup

/-- After a setup the exit code of a check is that of its run. -/
theorem Exits.of_report {processor : Processor} {times : RunTimes}
    (setup : Setup host root overrides state settings paths) (check : settings.mode = .check)
    (chosen : Processor.ofChoices settings.choices = .ok processor)
    (countable : paths.length < UInt64.size) :
    Exits host root overrides state (report (Run.collect settings processor tool times
      ((Run.foresee settings.mode processor root
        (fun path => (host.readUnder root path state).1) paths).map (·.2)))).exitCode := by
  have quiet : settings.mode.writes = false := writes_of_check check
  rw [exitCode_report]
  by_cases unread : ∃ path ∈ paths, ∃ failure, (host.readUnder root path state).1 = .error failure
  · rw [if_pos ((Run.failed_collect_pos quiet countable).mpr unread)]
    obtain ⟨path, listed, failure, read⟩ := unread
    refine .one fun told => ?_
    obtain ⟨text, same⟩ := setup.readable told path listed
    exact nomatch read.symm.trans same
  · rw [if_neg (mt (Run.failed_collect_pos quiet countable).mp unread)]
    have readable : ∀ path ∈ paths, ∃ text, (host.readUnder root path state).1 = .ok text := by
      intro path listed
      cases read : (host.readUnder root path state).1 with
      | error failure => exact absurd ⟨path, listed, failure, read⟩ unread
      | ok text => exact ⟨text, rfl⟩
    by_cases differs : ∃ path ∈ paths, ∃ text, (host.readUnder root path state).1 = .ok text ∧
        (processor.process text).text ≠ text
    · rw [if_pos ((Run.isBlocked_collect_iff check countable).mpr differs)]
      refine .two (setup.unclean_iff.mpr ⟨readable, ?_⟩)
      simp only [outOfOrder_iff chosen]
      exact differs
    · rw [if_neg (mt (Run.isBlocked_collect_iff check countable).mp differs)]
      refine .zero (setup.clean_iff.mpr fun path listed => ?_)
      obtain ⟨text, read⟩ := readable path listed
      refine ⟨text, read, (inOrder_iff chosen).mpr ?_⟩
      by_contra other
      exact differs ⟨path, listed, text, read, other⟩

/-- What is asked for in a run is kept in its settings. -/
theorem of_merge {configuration : Configuration} {mode : Mode}
    (merged : configuration.merge root mode overrides = .ok settings) :
    settings.root = root ∧ settings.mode = mode ∧ settings.output = overrides.output := by
  unfold Configuration.merge at merged
  cases version : configuration.version overrides with
  | error failure =>
    rw [version] at merged
    cases merged
  | ok constraint =>
    rw [version] at merged
    obtain rfl := Except.ok.inj merged
    exact ⟨rfl, rfl, rfl⟩

/-- A run that is not to keep what it finds leads to its report, or to its error. -/
theorem perform_of_run (undirected : settings.output = none) {result : Except RunError Run}
    {after : σ}
    (performed : Run.perform settings (host.workspace settings.root) tool state = (result, after)) :
    perform host settings state = (responseTo result, after) := by
  have continued (next : Except RunError Run → StateM σ Response) :
      (Run.perform settings (host.workspace settings.root) tool >>= next) state =
        next result after := by
    have whole : (Run.perform settings (host.workspace settings.root) tool >>= next) state =
        next (Run.perform settings (host.workspace settings.root) tool state).1
          (Run.perform settings (host.workspace settings.root) tool state).2 := rfl
    rw [whole, performed]
  unfold perform
  refine (continued _).trans ?_
  rw [undirected]
  cases result <;> rfl

variable (still : host.Still)
include still

/-- Asking for the settings of a run leaves the state as it is. -/
theorem observes_settings (mode : Mode) :
    Observes (Command.settings host root mode overrides) := by
  refine (still.loadOrDefault root).bind fun loaded => ?_
  split <;> exact .pure _

/-- The settings of a run are those that the configuration is merged into. -/
theorem settings_eq_ok_iff {mode : Mode} :
    (Command.settings host root mode overrides state).1 = .ok settings ↔
      Configured host root mode overrides state settings := by
  unfold Command.settings Configured
  rw [(still.loadOrDefault root).bind_eq]
  cases (Configuration.loadOrDefault host root state).1 with
  | error failure => exact ⟨nofun, fun ⟨_, loaded, _⟩ => nomatch loaded⟩
  | ok configuration =>
    refine ⟨fun merged => ⟨configuration, rfl, merged⟩, fun ⟨other, loaded, merged⟩ => ?_⟩
    obtain rfl := Except.ok.inj loaded
    exact merged

/-- A check with settings that do not ask to keep what it finds leaves its host as it is, and its
exit code is exact. -/
theorem exits_perform (configured : Configured host root .check overrides state settings)
    (undirected : settings.output = none)
    (countable : ∀ paths, Setup host root overrides state settings paths →
      paths.length < UInt64.size) :
    (perform host settings state).2 = state ∧
      Exits host root overrides state (perform host settings state).1.exitCode := by
  obtain ⟨rfl, check, -⟩ : settings.root = root ∧ settings.mode = .check ∧
      settings.output = overrides.output := by
    obtain ⟨configuration, -, merged⟩ := configured
    exact of_merge merged
  cases chosen : Processor.ofChoices settings.choices with
  | error error =>
    have performed := (Run.takes_unchosen settings tool (host.workspace settings.root) state
      chosen).plain
    rw [perform_of_run undirected performed]
    refine ⟨rfl, .of_no_setup fun others paths setup => ?_⟩
    obtain rfl := configured.unique setup.configured
    obtain ⟨processor, again⟩ := exists_ofChoices_iff.mpr setup.known
    exact nomatch chosen.symm.trans again
  | ok processor =>
    have list : Observes ((host.workspace settings.root).list settings.selection) :=
      still.listUnder settings.root settings.selection
    cases listed : (host.listUnder settings.root settings.selection state).1 with
    | error failure =>
      have listing : (host.workspace settings.root).list settings.selection state =
          (.error failure, state) := list.eq.trans (congrArg (·, state) listed)
      have performed := (Run.takes_unlisted settings tool chosen listing).plain
      rw [perform_of_run undirected performed]
      refine ⟨rfl, .of_no_setup fun others paths setup => ?_⟩
      obtain rfl := configured.unique setup.configured
      exact nomatch listed.symm.trans setup.listed
    | ok paths =>
      have setup : Setup host settings.root overrides state settings paths :=
        ⟨configured, exists_ofChoices_iff.mp ⟨processor, chosen⟩, listed⟩
      obtain ⟨times, performed⟩ := Run.perform_eq settings tool (writes_of_check check) list
        (still.readUnder settings.root) still.now chosen listed
      rw [perform_of_run undirected performed]
      exact ⟨rfl, .of_report setup check chosen (countable paths setup)⟩

/-- A check that is not to keep what it finds leaves its host as it is, and its exit code is exact,
as far as the modules can be counted. -/
theorem exits_run (undirected : overrides.output = none)
    (countable : ∀ settings paths, Setup host root overrides state settings paths →
      paths.length < UInt64.size) :
    (run host (.process root .check overrides) state).2 = state ∧
      Exits host root overrides state
        (run host (.process root .check overrides) state).1.exitCode := by
  have started : run host (.process root .check overrides) state = _ :=
    (observes_settings still .check).bind_eq
  rw [started]
  cases settled : (Command.settings host root .check overrides state).1 with
  | error failure =>
    refine ⟨rfl, .of_no_setup fun settings paths setup => ?_⟩
    exact nomatch ((settings_eq_ok_iff still).mpr setup.configured).symm.trans settled
  | ok settings =>
    have configured : Configured host root .check overrides state settings :=
      (settings_eq_ok_iff still).mp settled
    have output : settings.output = none := by
      obtain ⟨configuration, -, merged⟩ := configured
      exact (of_merge merged).2.2.trans undirected
    exact exits_perform still configured output (countable settings)

end Checking

/-- On a host that looks leave as it is, a check whose arguments give no output directory changes
nothing, and its exit code is 0 exactly if all succeeds and every module is in order, 2 exactly if
all succeeds and a module is out of order, and 1 exactly in every other case, as far as the modules
can be counted. -/
theorem check_exits {σ : Type} {host : Host (StateM σ)} (still : host.Still) (state : σ)
    (arguments : List String) (root : Path) (overrides : Overrides)
    (accepted : ofArguments? arguments = some (.process root .check overrides))
    (undirected : ∀ argument ∈ arguments, Arguments.optionName? argument ≠ some "out-dir")
    (countable : ∀ settings paths, Setup host root overrides state settings paths →
      paths.length < UInt64.size) :
    (run host (.process root .check overrides) state).2 = state ∧
      Exits host root overrides state
        (run host (.process root .check overrides) state).1.exitCode :=
  exits_run still (output_eq_none accepted undirected) countable

/-- A tree with a directory of two modules, the first of which has a block before the one that it
refers to. -/
def shelved : FileTree where
  nodes := [(["models"], .directory),
    (["models", "deal.py"], .file Run.mixedText.toUTF8),
    (["models", "part.py"], .file "".toUTF8)]

/-- The setup of a check of the shelved modules. -/
theorem setup_shelved : Setup FileTree.host ⟨"models"⟩ {} shelved
    { root := ⟨"models"⟩, mode := .check } [⟨"deal.py"⟩, ⟨"part.py"⟩] where
  configured := ⟨{}, by decide +kernel, rfl⟩
  known := ⟨_, rfl⟩
  listed := by
    have scanned : (FileTree.host.scan (Glob.escape "models" ++ "/" ++ "*.py") shelved).1 =
        .ok [⟨"models/deal.py"⟩, ⟨"models/part.py"⟩] := by
      decide +kernel
    have selected : ([⟨"models/deal.py"⟩, ⟨"models/part.py"⟩].map
        (Host.pathUnder ⟨"models"⟩)).filter (Selection.takesStem {}) =
          [⟨"deal.py"⟩, ⟨"part.py"⟩] := by
      decide +kernel
    rw [FileTree.still_host.listUnder_of_scan ⟨"models"⟩ {} scanned, selected,
      List.mergeSort_of_pairwise (by decide +kernel)]

/-- A check of the shelved modules ends with 2, since one of them is out of order, and changes
nothing. -/
theorem check_exits_shelved :
    ofArguments? ["check", "--root", "models"] = some (.process ⟨"models"⟩ .check {}) ∧
    Unclean FileTree.host ⟨"models"⟩ {} shelved ∧
    (run FileTree.host (.process ⟨"models"⟩ .check {}) shelved).1.exitCode = 2 ∧
    (run FileTree.host (.process ⟨"models"⟩ .check {}) shelved).2 = shelved := by
  have accepted : ofArguments? ["check", "--root", "models"] =
      some (.process ⟨"models"⟩ .check {}) := by
    decide +kernel
  obtain ⟨kept, exits⟩ := check_exits FileTree.still_host shelved ["check", "--root", "models"]
    ⟨"models"⟩ {} accepted (by decide +kernel) fun settings paths setup => by
      rw [(setup_shelved.unique setup).2]
      decide
  have unclean : Unclean FileTree.host ⟨"models"⟩ {} shelved := by
    have deal : (FileTree.host.readUnder ⟨"models"⟩ ⟨"deal.py"⟩ shelved).1 = .ok Run.mixedText := by
      decide +kernel
    have part : (FileTree.host.readUnder ⟨"models"⟩ ⟨"part.py"⟩ shelved).1 = .ok "" := by
      decide +kernel
    have unordered : OutOfOrder {} Run.mixedText :=
      (outOfOrder_iff rfl).mpr (by decide +kernel)
    refine setup_shelved.unclean_iff.mpr
      ⟨?_, ⟨"deal.py"⟩, List.mem_cons_self, Run.mixedText, deal, unordered⟩
    simp only [List.forall_mem_cons]
    exact ⟨⟨_, deal⟩, ⟨_, part⟩, nofun⟩
  exact ⟨accepted, unclean, exits.unclean.mpr unclean, kept⟩

/-- If the directory of the modules cannot be read, the check ends with 1. -/
example : (run FileTree.host (.process ⟨"models"⟩ .check {})
    { shelved with unreadable := [([.text "models"], .permissionDenied)] }).1.exitCode = 1 := by
  decide +kernel

end Command

end DeclOrder
