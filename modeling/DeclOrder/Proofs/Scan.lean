import DeclOrder.Proofs.FileTree
import DeclOrder.Proofs.Glob

/-!
# What a scan can find

A component of a pattern leads from a place to entries of the directory there, or below it, and to
`.` and `..`. A component that is an escaped name leads to the entry of the name alone, so a scan
under an escaped root goes on from where the root leads. A scan succeeds exactly if every directory
on the way can be read and paths lead to all matches.
-/

namespace DeclOrder.Host

open Place (entryPath)

section Places

variable {place : Place} {path next : Path} {names : List EntryName} {texts : List String}

/-- From a path, names that are texts lead to a path. -/
theorem enter_texts (filled : texts ≠ []) : (Place.text path).enter (texts.map .text) =
    .text (entryPath path (Path.joinSegments texts)) := by
  rw [Place.enter, if_neg (by simpa using filled)]
  split
  · next found decoded =>
    rw [EntryName.texts?_map_text] at decoded
    rw [Option.some.inj decoded]
  · next undecodable => exact absurd undecodable (by simp)

/-- From a path, a name that is a text leads to a path. -/
theorem enter_text {name : String} :
    (Place.text path).enter [.text name] = .text (entryPath path name) := by
  have single : Path.joinSegments [name] = name := String.intercalate_singleton
  have entered : (Place.text path).enter [.text name] =
      .text (entryPath path (Path.joinSegments [name])) := enter_texts (List.cons_ne_nil name [])
  rwa [single] at entered

/-- Names that lead to a path are texts and lead there from a path. -/
theorem of_enter_eq_text (filled : names ≠ []) (same : place.enter names = .text next) :
    ∃ path texts, place = .text path ∧ names = texts.map .text ∧
      next = entryPath path (Path.joinSegments texts) := by
  cases place with
  | foreign base before =>
    rw [Place.enter, if_neg (by simpa using filled)] at same
    exact nomatch same
  | text path =>
    rw [Place.enter, if_neg (by simpa using filled)] at same
    split at same
    · next texts decoded =>
      exact ⟨path, texts, rfl, EntryName.texts?_eq_some_iff.mp decoded, (Place.text.inj same).symm⟩
    · exact nomatch same

/-- A text that leads to a path leads there from a path. -/
theorem of_enter_text {name : String} (same : place.enter [.text name] = .text next) :
    ∃ path, place = .text path ∧ next = entryPath path name := by
  obtain ⟨path, -, rfl, -, -⟩ := of_enter_eq_text (List.cons_ne_nil _ _) same
  rw [enter_text] at same
  exact ⟨path, rfl, (Place.text.inj same).symm⟩

end Places

section Each

variable {ε α β : Type} {visit : α → Except ε β} {element : α} {elements : List α}
  {results : List β}

/-- Results come of the elements of a list that can fail if one comes of the first and the others
come of the rest. -/
theorem mapM_cons_eq_ok_iff : (element :: elements).mapM visit = .ok results ↔
    ∃ first later, visit element = .ok first ∧ elements.mapM visit = .ok later ∧
      results = first :: later := by
  rw [List.mapM_cons]
  cases visit element with
  | error error => simp [bind, Except.bind]
  | ok first =>
    cases elements.mapM visit <;>
      simp [bind, Except.bind, pure, Except.pure, eq_comm]

/-- Results come of the elements of a list one by one. -/
theorem of_mapM_eq_ok (mapped : elements.mapM visit = .ok results) :
    results.length = elements.length ∧
      ∀ result ∈ results, ∃ element ∈ elements, visit element = .ok result := by
  induction elements generalizing results with
  | nil =>
    obtain rfl := Except.ok.inj mapped
    simp
  | cons element elements ih =>
    obtain ⟨first, later, visited, others, rfl⟩ := mapM_cons_eq_ok_iff.mp mapped
    obtain ⟨length, each⟩ := ih others
    refine ⟨by rw [List.length_cons, List.length_cons, length], fun result member => ?_⟩
    rcases List.mem_cons.mp member with rfl | member
    · exact ⟨element, List.mem_cons_self, visited⟩
    · obtain ⟨other, among, same⟩ := each result member
      exact ⟨other, List.mem_cons_of_mem _ among, same⟩

/-- Results come of a list exactly if one comes of every element. -/
theorem exists_mapM_iff : (∃ results, elements.mapM visit = .ok results) ↔
    ∀ element ∈ elements, ∃ result, visit element = .ok result := by
  induction elements with
  | nil => exact iff_of_true ⟨[], rfl⟩ (by simp)
  | cons element elements ih =>
    rw [List.forall_mem_cons, ← ih]
    simp only [mapM_cons_eq_ok_iff]
    constructor
    · rintro ⟨_, first, later, visited, others, -⟩
      exact ⟨⟨first, visited⟩, later, others⟩
    · rintro ⟨⟨first, visited⟩, later, others⟩
      exact ⟨_, first, later, visited, others, rfl⟩

end Each

section Reach

variable {σ : Type} {host : Host (StateM σ)} {state : σ} {component : List Glob.Token}
  {components rest : List (List Glob.Token)} {place : Place} {stop found : Stop}

/-- The places that one component of a pattern can lead to from a place. -/
inductive Leads (host : Host (StateM σ)) (state : σ) (component : List Glob.Token) (place : Place) :
    Place → Prop
  /-- The name that the component spells. -/
  | literal {chars : List Char} (plain : literal? component = some chars) :
      Leads host state component place (place.enter [.text (String.ofList chars)])
  /-- What lies below the directory. -/
  | below {names : List EntryName} {kind : EntryKind} (recursive : isRecursive component = true)
      (met : .entry names kind ∈ (host.descendants place state).1) :
      Leads host state component place (place.enter names)
  /-- The directory itself and its parent. -/
  | special {name : String} (wild : literal? component = none)
      (matching : name ∈ specialEntries component) :
      Leads host state component place (place.special name)
  /-- An entry of the directory. -/
  | entry {listed : List (EntryName × EntryKind)} {name : String} {kind : EntryKind}
      (readable : (host.entries place state).1 = .ok listed) (lies : (.text name, kind) ∈ listed)
      (matching : Glob.isMatch component name.toList = true) :
      Leads host state component place (place.enter [.text name])

/-- What components reach, they reach by way of a place that the first of them leads to. Only after
a recursive component some others are passed over. -/
theorem reach_cons (still : host.Still)
    (reached : .ok found ∈ (host.reach (component :: rest) stop state).1) :
    ∃ next later, Leads host state component stop.place next.place ∧ later <:+ rest ∧
      (isRecursive component = false → later = rest) ∧
      .ok found ∈ (host.reach later next state).1 := by
  rw [Host.reach] at reached
  cases plain : literal? component with
  | some chars =>
    rw [plain] at reached
    dsimp only at reached
    rw [(still.kind? _).bind_eq] at reached
    have onward (seen : Bool) (next : Stop)
        (member : .ok found ∈ ((if seen then host.reach rest next else pure [] :
          StateM σ (List Finding)) state).1) : .ok found ∈ (host.reach rest next state).1 := by
      cases seen with
      | false => exact absurd member List.not_mem_nil
      | true => exact member
    exact ⟨⟨_, _⟩, rest, .literal plain, List.suffix_rfl, fun _ => rfl, onward _ _ reached⟩
  | none =>
    rw [plain] at reached
    dsimp only at reached
    split at reached
    · exact absurd reached List.not_mem_nil
    · split at reached
      · next recursive =>
        rw [(still.descendants stop.place).bind_eq] at reached
        generalize others : rest.dropWhile isRecursive = remaining at reached
        cases remaining with
        | nil =>
          obtain ⟨visit, met, visits⟩ := List.mem_map.mp (List.mem_of_mem_filter reached)
          cases visit with
          | unreadable names error => exact absurd visits (by simp [Visit.finding])
          | entry names kind =>
            obtain rfl := Except.ok.inj visits
            refine ⟨⟨stop.place.enter names, kind == .directory⟩, [], .below recursive met,
              List.nil_suffix,
              fun single => absurd recursive (by simp [single]), ?_⟩
            rw [Host.reach]
            exact List.mem_singleton_self _
        | cons following later =>
          dsimp only at reached
          rw [bind_eq_of_eq (Observes.mapM_eq (fun visit => ?observes) _)] at reached
          case observes =>
            split
            · exact .pure _
            · split
              · exact still.reach _ _
              · exact .pure _
          obtain ⟨_, visited, member⟩ := List.mem_flatten.mp reached
          obtain ⟨visit, met, rfl⟩ := List.mem_map.mp visited
          have suffix : later <:+ rest :=
            (List.suffix_cons following later).trans (others ▸ List.dropWhile_suffix isRecursive)
          cases visit with
          | unreadable names error => exact absurd (List.mem_singleton.mp member) (by simp)
          | entry names kind =>
            refine ⟨⟨stop.place.enter names, kind == .directory⟩, later, .below recursive met,
              suffix, fun single => absurd recursive (by simp [single]), ?_⟩
            dsimp only [Visit.finding] at member
            split at member
            · exact member
            · exact absurd member List.not_mem_nil
      · next single =>
        rw [(still.entries stop.place).bind_eq] at reached
        cases readable : (host.entries stop.place state).1 with
        | error error =>
          rw [readable] at reached
          exact absurd (List.mem_singleton.mp reached) (by simp)
        | ok listed =>
          rw [readable] at reached
          dsimp only at reached
          rw [bind_eq_of_eq (Observes.mapM_eq still.stopAt _),
            bind_eq_of_eq (Observes.mapM_eq (fun _ => still.reach _ _) _)] at reached
          obtain ⟨_, visited, member⟩ := List.mem_flatten.mp reached
          obtain ⟨next, among, rfl⟩ := List.mem_map.mp visited
          refine ⟨next, rest, ?_, List.suffix_rfl, fun _ => rfl, member⟩
          rcases List.mem_append.mp among with special | entered
          · obtain ⟨_, some_name, rfl⟩ := List.mem_map.mp special
            obtain ⟨name, matching, rfl⟩ := List.mem_map.mp some_name
            exact .special plain matching
          · obtain ⟨⟨name, kind⟩, passes, rfl⟩ := List.mem_map.mp entered
            obtain ⟨lies, matching⟩ := List.mem_filter.mp passes
            cases name with
            | text name => exact .entry readable lies matching
            | foreign octets undecodable => exact absurd matching (by simp [EntryName.text?])

/-- The component of an escaped name has no wildcards exactly if the name has no characters with a
meaning of their own. -/
theorem literal?_standing (chars : List Char) :
    literal? (chars.map Glob.standing) = if chars.any Glob.isWild then none else some chars := by
  induction chars with
  | nil => rfl
  | cons char rest ih =>
    rw [literal?] at ih ⊢
    rw [List.map_cons, List.mapM_cons, ih]
    cases wild : Glob.isWild char with
    | true => simp [Glob.standing, wild]
    | false =>
      cases others : rest.any Glob.isWild <;> simp [Glob.standing, wild, others]

/-- The component of an escaped name is not recursive. -/
theorem isRecursive_standing (chars : List Char) :
    isRecursive (chars.map Glob.standing) = false := by
  rw [isRecursive, beq_eq_false_iff_ne]
  intro same
  have member : Glob.Token.directories ∈ chars.map Glob.standing := by simp [same]
  obtain ⟨char, -, stands⟩ := List.mem_map.mp member
  exact (Glob.standing_single char).2 stands

/-- The component of an escaped name leads to the entry of the name alone. -/
theorem leads_standing {name : String} {next : Place}
    (leads : Leads host state (name.toList.map Glob.standing) place next) :
    next = place.enter [.text name] := by
  cases leads with
  | literal plain =>
    rw [literal?_standing] at plain
    split at plain
    · exact absurd plain (by simp)
    · obtain rfl := Option.some.inj plain
      rw [String.ofList_toList]
  | below recursive => exact absurd recursive (by simp [isRecursive_standing])
  | @special other wild matching =>
    -- Only a name with a wildcard could be matched, and neither `.` nor `..` has one.
    rw [specialEntries] at matching
    split at matching
    · obtain ⟨listed, matching⟩ := List.mem_filter.mp matching
      have same := (Glob.isMatch_standing _ _).mp matching
      rw [literal?_standing, ← same] at wild
      simp only [List.mem_cons, List.not_mem_nil, or_false] at listed
      rcases listed with rfl | rfl <;> exact absurd wild (by decide)
    · exact absurd matching (by simp)
  | entry readable lies matching =>
    rw [String.toList_inj.mp ((Glob.isMatch_standing _ _).mp matching)]

/-- What the components of escaped names reach from a path, and others after them, the others reach
from the path that the names lead to. -/
theorem reach_standing (still : host.Still) {names : List String} {path : Path}
    (starts : stop.place = .text path)
    (reached : .ok found ∈ (host.reach
      (names.map (·.toList.map Glob.standing) ++ components) stop state).1) :
    ∃ next : Stop, next.place = .text (names.foldl entryPath path) ∧
      .ok found ∈ (host.reach components next state).1 := by
  induction names generalizing stop path with
  | nil => exact ⟨stop, starts, reached⟩
  | cons name names ih =>
    obtain ⟨next, later, leads, -, same, member⟩ := reach_cons still reached
    rw [same (isRecursive_standing _)] at member
    refine ih ?_ member
    rw [leads_standing leads, starts, enter_text]

/-- A component without wildcards is made of literal tokens. -/
theorem eq_map_of_literal? {chars : List Char} (plain : literal? component = some chars) :
    component = chars.map .literal := by
  induction component generalizing chars with
  | nil =>
    obtain rfl : [] = chars := by simpa [literal?] using plain
    rfl
  | cons token tokens ih =>
    rw [literal?, List.mapM_cons] at plain
    cases token <;> simp only [Option.bind_eq_bind, Option.bind_some, Option.bind_none,
      Option.bind_eq_some_iff, reduceCtorEq] at plain
    obtain ⟨later, read, same⟩ := plain
    obtain rfl := Option.some.inj same
    rw [List.map_cons, ih read]

end Reach

section Scan

variable {σ : Type} {host : Host (StateM σ)} {state : σ} {pattern : String}
  {component : List Glob.Token} {components rest : List (List Glob.Token)}

/-- The path of a finding is that of a match that a path leads to. -/
theorem path?_eq_ok_iff {finding : Finding} {path : Path} :
    finding.path? = .ok path ↔ ∃ isDirectory, finding = .ok ⟨.text path, isDirectory⟩ := by
  obtain error | ⟨place, isDirectory⟩ := finding
  · exact ⟨nofun, fun ⟨_, same⟩ => nomatch same⟩
  · cases place with
    | text found => simp [Finding.path?, bind, Except.bind, pure, Except.pure]
    | foreign base names => exact ⟨nofun, fun ⟨_, same⟩ => nomatch same⟩

/-- What the components of a pattern reach from where a scan for it starts. -/
def reached (host : Host (StateM σ)) (pattern : String) (components : List (List Glob.Token))
    (state : σ) : List Finding :=
  (host.reach components (host.stopAt (.text (patternParts pattern).1) state).1 state).1

/-- What a scan finds is what the components of the pattern reach, if they are components. Without
a slash at the end of the pattern all files are found that they reach. -/
theorem scan_eq (still : host.Still)
    (compiled : Glob.compile pattern *> (patternParts pattern).2.mapM Glob.compile =
      .ok components) :
    (host.scan pattern state).1 =
      (((reached host pattern components state).filter fun finding =>
        !pattern.endsWith "/" || finding.isDirectory).mapM Finding.path?).map fun paths =>
          if pattern.endsWith "/" then []
          else paths.filter fun path => (host.isFile path state).1 := by
  rw [Host.scan]
  dsimp only
  rw [compiled]
  dsimp only
  rw [(still.stopAt _).bind_eq, (still.reach _ _).bind_eq, reached]
  generalize List.mapM Finding.path? _ = paths
  cases paths with
  | error error => rfl
  | ok paths =>
    dsimp only
    split
    · rfl
    · rw [bind_eq_of_eq (Observes.filterM_eq still.isFile _)]
      rfl

/-- A scan succeeds exactly if every directory on the way can be read and paths lead to all
matches. -/
theorem scan_succeeds_iff (still : host.Still)
    (compiled : Glob.compile pattern *> (patternParts pattern).2.mapM Glob.compile =
      .ok components) :
    (∃ files, (host.scan pattern state).1 = .ok files) ↔
      ∀ finding ∈ reached host pattern components state,
        (pattern.endsWith "/" = true → finding.isDirectory = true) →
          ∃ path isDirectory, finding = .ok ⟨.text path, isDirectory⟩ := by
  have found : (∃ files, (host.scan pattern state).1 = .ok files) ↔
      ∃ paths, ((reached host pattern components state).filter fun finding =>
        !pattern.endsWith "/" || finding.isDirectory).mapM Finding.path? = .ok paths := by
    rw [scan_eq still compiled]
    cases List.mapM Finding.path? _ <;> simp [Except.map]
  rw [found, exists_mapM_iff]
  refine forall_congr' fun finding => ?_
  simp only [List.mem_filter, path?_eq_ok_iff, and_imp]
  cases pattern.endsWith "/" <;> simp

/-- A scan fails at a directory whose name is no text, if the pattern matches it. -/
example : (FileTree.host.scan "**" { foreign := [(⟨[.foreign [0xFF] (by decide +kernel)],
    by decide +kernel⟩, .directory)] }).1.isOk = false := by
  decide +kernel

/-- From a directory that cannot be read, a component that is to be matched by its entries leads to
the refusal alone. -/
theorem reach_unreadable {stop : Stop} {error : SystemError} (still : host.Still)
    (wild : literal? component = none) (single : isRecursive component = false)
    (isDirectory : stop.isDirectory = true)
    (unreadable : (host.entries stop.place state).1 = .error error) :
    (host.reach (component :: rest) stop state).1 = [.error (.unreadable stop.place error)] := by
  rw [Host.reach, wild]
  dsimp only
  rw [isDirectory, single]
  simp only [Bool.not_true, Bool.false_eq_true, if_false]
  rw [(still.entries _).bind_eq, unreadable]
  rfl

/-- What a scan finds, the components of a pattern without a slash at its end reach, and it is a
file. -/
theorem of_mem_scan {files : List Path} {found : Path} (still : host.Still)
    (scanned : (host.scan pattern state).1 = .ok files) (member : found ∈ files) :
    ∃ components, (Glob.compile pattern *> (patternParts pattern).2.mapM Glob.compile =
        .ok components) ∧ pattern.endsWith "/" = false ∧ (host.isFile found state).1 = true ∧
      ∃ stop : Stop, stop.place = .text found ∧
        .ok stop ∈ reached host pattern components state := by
  cases compiled : Glob.compile pattern *> (patternParts pattern).2.mapM Glob.compile with
  | error error =>
    rw [Host.scan] at scanned
    dsimp only at scanned
    rw [compiled] at scanned
    have fails : Except.error _ = Except.ok files := scanned
    exact absurd fails (by simp)
  | ok components =>
    rw [scan_eq still compiled] at scanned
    cases paths_eq : ((reached host pattern components state).filter fun finding =>
        !pattern.endsWith "/" || finding.isDirectory).mapM Finding.path? with
    | error error =>
      rw [paths_eq] at scanned
      exact nomatch scanned
    | ok paths =>
      rw [paths_eq] at scanned
      obtain rfl := Except.ok.inj scanned
      split at member
      · exact absurd member List.not_mem_nil
      · next opens =>
        obtain ⟨among, isFile⟩ := List.mem_filter.mp member
        obtain ⟨finding, passes, taken⟩ := (of_mapM_eq_ok paths_eq).2 found among
        obtain ⟨isDirectory, rfl⟩ := path?_eq_ok_iff.mp taken
        exact ⟨components, rfl, by simpa using opens, isFile, _, rfl, List.mem_of_mem_filter passes⟩

end Scan

section Beyond

variable {path next found : Path} {name : String}

/-- A path goes on beyond another by steps of its own, as one that ends in a step has to. -/
structure Beyond (path found : Path) : Prop where
  /-- Both are absolute, or neither is. -/
  isAbsolute : found.isAbsolute = path.isAbsolute
  /-- It goes on after the steps of the other. -/
  steps : path.steps <+: found.steps
  /-- It has steps of its own, if it ends in one. -/
  longer : found.EndsInStep → path.steps.length < found.steps.length
  /-- It has the lead of the other, if that goes anywhere. -/
  lead : path.steps ≠ [] → found.lead? = path.lead?

/-- Going on twice is going on. -/
theorem Beyond.trans (first : Beyond path next) (second : Beyond next found) :
    Beyond path found where
  isAbsolute := second.isAbsolute.trans first.isAbsolute
  steps := first.steps.trans second.steps
  longer ends := Nat.lt_of_le_of_lt first.steps.length_le (second.longer ends)
  lead moves := by
    have moves_next : next.steps ≠ [] := by
      intro none
      have short := first.steps
      rw [none, List.prefix_nil] at short
      exact moves short
    exact (second.lead moves_next).trans (first.lead moves)

/-- A path that ends in a step has a step. -/
theorem steps_pos_of_endsInStep (ends : path.EndsInStep) : 0 < path.steps.length := by
  obtain ⟨last, isLast, moves⟩ := ends
  apply List.length_pos_of_mem (a := last)
  exact List.mem_filter.mpr ⟨List.mem_of_getLast? isLast, by simp [moves]⟩

/-- A relative path goes on beyond the directory that it is seen from. -/
theorem beyond_join (relative : Path.isAbsolute ⟨name⟩ = false) :
    Beyond path (path.join ⟨name⟩) where
  isAbsolute := Path.isAbsolute_join relative
  steps := by
    rw [Path.steps_join relative]
    exact List.prefix_append ..
  longer ends := by
    have ends_name : Path.EndsInStep ⟨name⟩ := by
      by_cases empty : path.text = ""
      · have bare : path = ⟨""⟩ := congrArg Path.mk empty
        rwa [bare, Path.join_empty] at ends
      · rwa [Path.EndsInStep, Path.getLast?_join empty relative] at ends
    have some_step := steps_pos_of_endsInStep ends_name
    rw [Path.steps_join relative, List.length_append]
    omega
  lead moves := by
    refine Path.lead?_join ?_ relative
    intro empty
    have bare : path = ⟨""⟩ := congrArg Path.mk empty
    exact moves (by rw [bare]; decide)

/-- An entry goes on beyond its directory. -/
theorem beyond_entryPath (relative : Path.isAbsolute ⟨name⟩ = false) :
    Beyond path (entryPath path name) := by
  rw [entryPath]
  split
  · next here =>
    obtain ⟨lead, none⟩ := Path.of_parts_here here
    refine ⟨?_, ?_, ?_, ?_⟩
    · rw [relative, Path.isAbsolute_eq_false (by simp [lead])]
    · rw [none]
      exact List.nil_prefix
    · rw [none]
      exact steps_pos_of_endsInStep
    · exact fun moves => absurd none moves
  · exact beyond_join relative

/-- The steps of an entry are those of its directory and those of its name. -/
theorem steps_entryPath (relative : Path.isAbsolute ⟨name⟩ = false) :
    (entryPath path name).steps = path.steps ++ Path.steps ⟨name⟩ := by
  rw [entryPath]
  split
  · next here => rw [(Path.of_parts_here here).2, List.nil_append]
  · exact Path.steps_join relative

/-- The steps of an entry without slashes are those of its directory and its name, if that means
something. -/
theorem steps_entryPath_plain (plain : '/' ∉ name.toList) :
    (entryPath path name).steps = path.steps ++ Path.meaningful [name] := by
  rw [steps_entryPath (Path.isAbsolute_of_not_mem plain)]
  exact congrArg (path.steps ++ Path.meaningful ·) (Path.segments_of_not_mem plain)

/-- The entry of a relative path without steps goes by its name alone. -/
theorem entryPath_of_steps (still : path.steps = []) (relative : path.isAbsolute = false) :
    entryPath path name = ⟨name⟩ := by
  have parts : path.parts = path.lead?.toList := by rw [Path.parts_eq, still]; simp
  rw [entryPath]
  rcases path.lead?_cases with lead | lead | lead
  · have none : path.parts = [] := by rw [parts, lead]; rfl
    rw [if_neg (by simp [none]), Path.eq_empty_of_parts none, Path.join_empty]
  · exact absurd (Path.isAbsolute_iff.mpr lead) (by simp [relative])
  · rw [if_pos (by rw [parts, lead]; rfl)]

/-- If a relative path has no lead as soon as it has steps, then its entries have none either. -/
theorem lead?_entryPath (plain : '/' ∉ name.toList) (relative : path.isAbsolute = false)
    (free : path.steps ≠ [] → path.lead? = none) :
    (entryPath path name).steps ≠ [] → (entryPath path name).lead? = none := by
  intro moves
  have relative_name : Path.isAbsolute ⟨name⟩ = false := Path.isAbsolute_of_not_mem plain
  by_cases still : path.steps = []
  · rw [entryPath_of_steps still relative] at moves ⊢
    have segments := Path.segments_of_not_mem plain
    have step : Path.isIdle name = false := by
      by_contra idle
      rw [Path.steps, segments, Path.meaningful_cons_idle (by simpa using idle)] at moves
      exact moves rfl
    exact Path.lead?_eq_none (by rw [segments, List.head?_cons]) step
  · rw [(beyond_entryPath relative_name).lead still]
    exact free still

end Beyond

section Tree

variable {tree : FileTree} {component : List Glob.Token} {components : List (List Glob.Token)}
  {place : Place} {next : Path} {stop found : Stop}

/-- In a sound tree a component of a pattern that leads to a path leads on from a path. -/
theorem beyond_of_leads (sound : tree.Sound) (plain : .literal '/' ∉ component)
    (leads : Leads FileTree.host tree component place (.text next)) :
    ∃ path, place = .text path ∧ Beyond path next := by
  generalize whole : Place.text next = reached at leads
  cases leads with
  | @literal chars spelled =>
    obtain ⟨path, rfl, rfl⟩ := of_enter_text whole.symm
    refine ⟨path, rfl, beyond_entryPath (Path.isAbsolute_of_not_mem fun slash => ?_)⟩
    rw [String.toList_ofList] at slash
    rw [eq_map_of_literal? spelled] at plain
    exact plain (List.mem_map_of_mem slash)
  | @below names kind recursive met =>
    obtain ⟨directory, node, -, inside, -⟩ := FileTree.of_entry_mem_descendants met
    obtain ⟨path, texts, rfl, rfl, rfl⟩ :=
      of_enter_eq_text (FileTree.mem_inside.mp inside).1 whole.symm
    have areNames := (sound.isName_of_descendants met).2
    exact ⟨path, rfl, beyond_entryPath (FileTree.isAbsolute_joinSegments areNames)⟩
  | @special name wild matching =>
    cases place with
    | foreign base names => exact nomatch whole
    | text path =>
      obtain rfl := Place.text.inj whole
      refine ⟨path, rfl, beyond_join ?_⟩
      have listed : name = ".." ∨ name = "." := by
        rw [specialEntries] at matching
        split at matching
        · simpa using List.mem_of_mem_filter matching
        · exact absurd matching (by simp)
      rcases listed with rfl | rfl <;> exact Path.isAbsolute_of_not_mem (by decide)
  | @entry listed name kind readable lies matching =>
    obtain ⟨path, rfl, rfl⟩ := of_enter_text whole.symm
    have isName := sound.isName_of_entries readable lies
    exact ⟨path, rfl, beyond_entryPath (Path.isAbsolute_of_not_mem isName.slash)⟩

/-- In a sound tree components of a pattern that reach a path lead on from a path. -/
theorem beyond_of_reach (sound : tree.Sound)
    (plain : ∀ component ∈ components, .literal '/' ∉ component) (some_component : components ≠ [])
    (ends : found.place = .text next)
    (reached : .ok found ∈ (FileTree.host.reach components stop tree).1) :
    ∃ path, stop.place = .text path ∧ Beyond path next := by
  -- A recursive component passes over others, so the induction is on the number of components.
  induction length : components.length using Nat.strongRecOn generalizing components stop with
  | ind length ih =>
    obtain ⟨component, rest, rfl⟩ := List.exists_cons_of_ne_nil some_component
    obtain ⟨middle, later, leads, suffix, -, member⟩ := reach_cons FileTree.still_host reached
    have plain_first : .literal '/' ∉ component := plain component (by simp)
    by_cases last : later = []
    · rw [last, Host.reach] at member
      obtain rfl : found = middle := Except.ok.inj (List.mem_singleton.mp member)
      rw [ends] at leads
      exact beyond_of_leads sound plain_first leads
    · have shorter := suffix.length_le
      rw [List.length_cons] at length
      obtain ⟨path, at_path, onward⟩ := ih later.length (by omega)
        (fun component among => plain component (List.mem_cons_of_mem _ (suffix.subset among)))
        last member rfl
      rw [at_path] at leads
      obtain ⟨start, starts, first⟩ := beyond_of_leads sound plain_first leads
      exact ⟨start, starts, first.trans onward⟩

end Tree

section Root

variable {root : Path} {pattern : String} {components : List (List Glob.Token)}

/-- A scan under the root starts from the top. -/
def startsAtTop (root : Path) : Bool := root.isAbsolute || root.text.isEmpty

/-- Where a scan under a root starts. -/
def scanStart (root : Path) : Path := if startsAtTop root then ⟨"/"⟩ else ⟨"."⟩

/-- The names that lead a scan from its start to the root. -/
def rootNames (root : Path) : List String :=
  if startsAtTop root then root.segments.tail else root.segments

/-- Where a scan under a root goes on with the pattern. -/
def scanBase (root : Path) : Path := (rootNames root).foldl entryPath (scanStart root)

/-- The segments of an escaped text are its escaped segments. -/
theorem segments_escape (chars : List Char) :
    Path.segments ⟨String.ofList (chars.flatMap Glob.escapedChar)⟩ =
      (Path.segments ⟨String.ofList chars⟩).map Glob.escape := by
  rw [Path.segments, Path.segments, String.toList_ofList, String.toList_ofList,
    Glob.splitOn_escaped, List.map_map, List.map_map]
  apply List.map_congr_left
  intro piece _
  apply String.toList_inj.mp
  simp [Glob.toList_escape]

/-- The last segment of a text that does not end in a slash is not empty. -/
theorem getLast?_segments_ne {text : String} (filled : text ≠ "")
    (opens : text.endsWith "/" = false) : (Path.segments ⟨text⟩).getLast? ≠ some "" := by
  intro closes
  have whole := List.dropLast_append_getLast? _ closes
  have spelled := Path.joinSegments_segments ⟨text⟩
  dsimp only at spelled
  rw [← whole] at spelled
  by_cases alone : (Path.segments ⟨text⟩).dropLast = []
  · rw [alone] at spelled
    exact filled spelled.symm
  · rw [Path.joinSegments, String.intercalate_append_of_ne_nil alone (List.cons_ne_nil _ _)]
      at spelled
    have ends : text.endsWith "/" = true := by
      rw [Path.endsWith_slash_iff, ← spelled]
      simp
    exact absurd ends (by simp [opens])

/-- The characters of a pattern under an escaped root. -/
theorem toList_escape_append (root : Path) (pattern : String) :
    (Glob.escape root.text ++ "/" ++ pattern).toList =
      root.text.toList.flatMap Glob.escapedChar ++ '/' :: pattern.toList := by
  simp [Glob.toList_escape]

/-- A pattern under an escaped root is absolute exactly if a scan under the root starts from the
top. -/
theorem startsWith_escape (root : Path) (pattern : String) :
    (Glob.escape root.text ++ "/" ++ pattern).startsWith "/" = startsAtTop root := by
  rw [Bool.eq_iff_iff, Path.startsWith_slash_iff, toList_escape_append, startsAtTop,
    Bool.or_eq_true, Path.isAbsolute, Path.startsWith_slash_iff, String.isEmpty_iff,
    ← String.toList_eq_nil_iff]
  cases root.text.toList with
  | nil => simp
  | cons first rest =>
    cases wild : Glob.isWild first with
    | false => simp [Glob.escapedChar, wild]
    | true => simp [Glob.escapedChar, wild, Ne.symm (Glob.ne_slash_of_isWild wild)]

/-- The components of a pattern under an escaped root, after the slash that makes it absolute if it
is, are the escaped names of the root and then the segments of the pattern. -/
theorem segments_drop_escape (root : Path) (pattern : String) :
    Path.segments ⟨String.ofList ((Glob.escape root.text ++ "/" ++ pattern).toList.drop
        (if startsAtTop root then 1 else 0))⟩ =
      (rootNames root).map Glob.escape ++ Path.segments ⟨pattern⟩ := by
  rw [toList_escape_append]
  by_cases top : startsAtTop root = true
  · rw [if_pos top, rootNames, if_pos top]
    cases spelled : root.text.toList with
    | nil =>
      have segments : root.segments = [""] := by
        rw [Path.segments, spelled]
        rfl
      simp [segments]
    | cons first rest =>
      obtain rfl : '/' = first := by
        rw [startsAtTop, Bool.or_eq_true, Path.isAbsolute, Path.startsWith_slash_iff,
          String.isEmpty_iff, ← String.toList_eq_nil_iff, spelled] at top
        simpa using top
      have segments : root.segments = "" :: Path.segments ⟨String.ofList rest⟩ := by
        have whole : root = ⟨String.ofList ([] ++ '/' :: rest)⟩ := by
          rw [List.nil_append, ← spelled, String.ofList_toList]
        rw [whole, Path.segments_append, String.ofList_nil, Path.segments_empty]
        rfl
      have escaped : Glob.escapedChar '/' = ['/'] := by decide
      rw [List.flatMap_cons, escaped, segments, List.tail_cons, ← segments_escape,
        ← String.ofList_toList (s := pattern), ← Path.segments_append, String.ofList_toList]
      rfl
  · rw [if_neg top, rootNames, if_neg top, List.drop_zero, Path.segments_append, segments_escape,
      String.ofList_toList, String.ofList_toList]

/-- A scan under an escaped root starts where the root does, and its components are the escaped
names of the root and then those of the pattern. -/
theorem patternParts_escape
    (opens : (Glob.escape root.text ++ "/" ++ pattern).endsWith "/" = false) :
    patternParts (Glob.escape root.text ++ "/" ++ pattern) =
      (scanStart root, (rootNames root).map Glob.escape ++ Path.segments ⟨pattern⟩) := by
  have components := segments_drop_escape root pattern
  have last : ((rootNames root).map Glob.escape ++ Path.segments ⟨pattern⟩).getLast? ≠
      some "" := by
    rw [List.getLast?_append_of_ne_nil _ (Path.segments_ne_nil _)]
    rw [Bool.eq_false_iff, Ne, Path.endsWith_slash_iff, toList_escape_append] at opens
    apply getLast?_segments_ne
    · rintro rfl
      exact opens (by simp)
    · rw [Bool.eq_false_iff, Ne, Path.endsWith_slash_iff]
      intro closes
      exact opens ((closes.trans (List.suffix_cons _ _)).trans (List.suffix_append _ _))
  rw [Path.segments, String.toList_ofList] at components
  have filled : ((Glob.escape root.text ++ "/" ++ pattern).toList.drop
      (if startsAtTop root then 1 else 0)).isEmpty = false := by
    rw [Bool.eq_false_iff, Ne, List.isEmpty_iff]
    intro empty
    rw [empty] at components
    rw [← components] at last
    exact last rfl
  simp only [patternParts, startsWith_escape, components, last, filled, Bool.false_eq_true,
    if_false]
  rw [scanStart]
  split <;> rfl

/-- A name of a root has no slash. -/
theorem slash_not_mem_rootNames {name : String} (member : name ∈ rootNames root) :
    '/' ∉ name.toList := by
  rw [rootNames] at member
  split at member
  · exact Path.slash_not_mem_segment (List.mem_of_mem_tail member)
  · exact Path.slash_not_mem_segment member

/-- The entries of entries start where the first directory does and add the steps of their names. -/
theorem foldl_entryPath {path : Path} {names : List String}
    (plain : ∀ name ∈ names, '/' ∉ name.toList) :
    (names.foldl entryPath path).isAbsolute = path.isAbsolute ∧
      (names.foldl entryPath path).steps = path.steps ++ Path.meaningful names ∧
      (path.isAbsolute = false → (path.steps ≠ [] → path.lead? = none) →
        (names.foldl entryPath path).steps ≠ [] → (names.foldl entryPath path).lead? = none) := by
  induction names generalizing path with
  | nil => simp
  | cons name names ih =>
    have plain_name : '/' ∉ name.toList := plain name (by simp)
    have relative : Path.isAbsolute ⟨name⟩ = false := Path.isAbsolute_of_not_mem plain_name
    have first : (entryPath path name).isAbsolute = path.isAbsolute :=
      (beyond_entryPath relative).isAbsolute
    obtain ⟨absolute, steps, lead⟩ := @ih (entryPath path name)
      fun other member => plain other (List.mem_cons_of_mem _ member)
    refine ⟨absolute.trans first, ?_, ?_⟩
    · rw [List.foldl_cons, steps, steps_entryPath_plain plain_name, List.append_assoc,
        ← Path.meaningful_append, List.singleton_append]
    · intro relative_path free
      exact lead (first.trans relative_path) (lead?_entryPath plain_name relative_path free)

/-- The names of a root mean its steps. -/
theorem meaningful_rootNames (root : Path) :
    Path.meaningful (rootNames root) = root.steps := by
  rw [rootNames]
  split
  · next top =>
    -- What is left out is the empty segment before the slash.
    obtain ⟨first, rest, shape⟩ := List.exists_cons_of_ne_nil root.segments_ne_nil
    have idle : first = "" := by
      rw [startsAtTop, Bool.or_eq_true, Path.isAbsolute_iff, String.isEmpty_iff] at top
      rcases top with lead | empty
      · have starts := Path.segments_eq root
        rw [lead, shape] at starts
        exact (List.cons.inj starts).1
      · have bare : root = ⟨""⟩ := congrArg Path.mk empty
        rw [bare, Path.segments_empty] at shape
        exact (List.cons.inj shape).1.symm
    rw [Path.steps, shape, idle, Path.meaningful_cons_idle Path.isIdle_empty, List.tail_cons]
  · rfl

/-- A root leads a scan from the top exactly if the scan starts there. -/
theorem isAbsolute_scanBase (root : Path) : (scanBase root).isAbsolute = startsAtTop root := by
  rw [scanBase, (foldl_entryPath fun _ member => slash_not_mem_rootNames member).1, scanStart]
  cases startsAtTop root with
  | true => exact Path.startsWith_slash_iff.mpr (by decide)
  | false => exact Path.isAbsolute_of_not_mem (by decide)

/-- A root leads a scan by its steps. -/
theorem steps_scanBase (root : Path) : (scanBase root).steps = root.steps := by
  have still : (scanStart root).steps = [] := by
    rw [scanStart]
    split <;> decide
  rw [scanBase, (foldl_entryPath fun _ member => slash_not_mem_rootNames member).2.1, still,
    meaningful_rootNames, List.nil_append]

/-- A relative root with steps leads a scan to a path without a lead, also if the root starts with a
dot. -/
theorem lead?_scanBase (relative : startsAtTop root = false) (moves : root.steps ≠ []) :
    (scanBase root).lead? = none := by
  have start : scanStart root = ⟨"."⟩ := by rw [scanStart, relative]; rfl
  have still : Path.steps ⟨"."⟩ = [] := by decide
  rw [← steps_scanBase] at moves
  rw [scanBase, start] at moves ⊢
  exact (foldl_entryPath fun _ member => slash_not_mem_rootNames member).2.2
    (Path.isAbsolute_of_not_mem (by decide)) (fun moved => absurd still moved) moves

/-- The components of escaped names are compiled to those that stand for the names. -/
theorem mapM_compile_escape (names : List String) :
    (names.map Glob.escape).mapM Glob.compile =
      .ok (names.map (·.toList.map Glob.standing)) := by
  induction names with
  | nil => rfl
  | cons name names ih =>
    rw [List.map_cons, List.mapM_cons, Glob.compile_escape, ih]
    rfl

/-- The components of a pattern under a root are compiled to those that stand for the names of the
root and others, at least one, that have no literal token for a slash. -/
theorem exists_of_compile
    (compiled : Glob.compile (Glob.escape root.text ++ "/" ++ pattern) *>
      ((rootNames root).map Glob.escape ++ Path.segments ⟨pattern⟩).mapM Glob.compile =
        .ok components) :
    ∃ selected, components = (rootNames root).map (·.toList.map Glob.standing) ++ selected ∧
      selected ≠ [] ∧ ∀ component ∈ selected, .literal '/' ∉ component := by
  cases whole : Glob.compile (Glob.escape root.text ++ "/" ++ pattern) with
  | error error =>
    rw [whole] at compiled
    exact absurd compiled (by simp [SeqRight.seqRight, Except.bind])
  | ok tokens =>
    rw [whole, List.mapM_append, mapM_compile_escape] at compiled
    cases others : (Path.segments ⟨pattern⟩).mapM Glob.compile with
    | error error =>
      rw [others] at compiled
      exact absurd compiled (by simp [SeqRight.seqRight, bind, Except.bind])
    | ok selected =>
      rw [others] at compiled
      obtain rfl := Except.ok.inj compiled
      obtain ⟨length, each⟩ := of_mapM_eq_ok others
      refine ⟨selected, rfl, ?_, ?_⟩
      · rintro rfl
        exact Path.segments_ne_nil _ (List.eq_nil_of_length_eq_zero length.symm)
      · intro component member
        obtain ⟨text, among, compiles⟩ := each component member
        exact Glob.slash_of_compile (Path.slash_not_mem_segment among) compiles

/-- In a sound tree a scan under an escaped root finds files beyond the path that the root leads a
scan to. -/
theorem found_of_scan {tree : FileTree} {files : List Path} {found : Path} (sound : tree.Sound)
    (scanned : (FileTree.host.scan (Glob.escape root.text ++ "/" ++ pattern) tree).1 = .ok files)
    (member : found ∈ files) :
    Beyond (scanBase root) found ∧
      ∃ location octets, tree.resolve found = .ok (location, .file octets) := by
  obtain ⟨components, compiled, opens, isFile, stop, ends, reached⟩ :=
    of_mem_scan FileTree.still_host scanned member
  rw [Host.reached, patternParts_escape opens] at reached
  rw [patternParts_escape opens] at compiled
  obtain ⟨selected, rfl, some_selected, plain⟩ := exists_of_compile compiled
  obtain ⟨next, base, onward⟩ := reach_standing FileTree.still_host rfl reached
  obtain ⟨path, starts, beyond⟩ := beyond_of_reach sound plain some_selected ends onward
  obtain rfl : scanBase root = path := Place.text.inj (base.symm.trans starts)
  exact ⟨beyond, FileTree.exists_of_isFile isFile⟩

end Root

end DeclOrder.Host
