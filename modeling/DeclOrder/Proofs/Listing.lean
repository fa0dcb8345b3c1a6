import DeclOrder.Host.Disk
import DeclOrder.Proofs.Scan
import DeclOrder.Run

/-!
# Listed modules are found again

A listing names the files of a scan by their paths under the root, and modules are read and written
by these paths from the root. A path under the root goes the same way from there as the path that
the scan found, unless the root is spelled with a dot before its steps: scans do not keep the dot,
so the root is not seen in what they find, and the steps of the root are taken twice.
-/

namespace DeclOrder

/-- The path is spelled with a dot before its steps. -/
def Path.IsDotted (path : Path) : Prop := path.lead? = some .here ∧ path.steps ≠ []

namespace Host

variable {root found path : Path}

/-- A scan under a relative root with steps finds paths without a lead. -/
theorem lead?_found (relative : startsAtTop root = false) (moves : root.steps ≠ [])
    (beyond : Beyond (scanBase root) found) : found.lead? = none := by
  have base := lead?_scanBase relative moves
  rw [← base]
  exact beyond.lead (by rwa [steps_scanBase])

/-- A scan under a dotted root does not start from the top. -/
theorem startsAtTop_dotted (dotted : root.IsDotted) : startsAtTop root = false := by
  rw [startsAtTop, Bool.or_eq_false_iff]
  refine ⟨Path.isAbsolute_eq_false (by simp [dotted.1]), ?_⟩
  rw [Bool.eq_false_iff, Ne, String.isEmpty_iff]
  apply Path.spelled_of_parts
  rw [Path.parts_eq, dotted.1]
  simp

/-- A scan under a dotted root finds paths that go on from the steps of the root but do not start
with its dot, so their whole paths are kept. -/
theorem pathUnder_dotted (dotted : root.IsDotted) (beyond : Beyond (scanBase root) found) :
    pathUnder root found = found := by
  have relative := startsAtTop_dotted dotted
  obtain ⟨lead, moves⟩ := dotted
  have spelled : root.parts ≠ [] := by rw [Path.parts_eq, lead]; simp
  have outside : ¬root.parts <+: found.parts := by
    intro within
    have same := (Path.front_steps within spelled).1
    rw [lead, lead?_found relative moves beyond] at same
    exact absurd same (by simp)
  rw [pathUnder, Path.after?_outside outside, Option.getD_none]

/-- A scan under a relative root with steps and no dot before them finds paths that start with the
root. -/
theorem front_parts (undotted : ¬root.IsDotted) (relative : startsAtTop root = false)
    (moves : root.steps ≠ []) (beyond : Beyond (scanBase root) found) :
    root.parts ≠ [] ∧ root.parts <+: found.parts := by
  have noLead : root.lead? = none := by
    rcases root.lead?_cases with lead | lead | lead
    · exact lead
    · have absolute := Path.isAbsolute_iff.mpr lead
      exact absurd absolute (by simp [(Bool.or_eq_false_iff.mp relative).1])
    · exact absurd ⟨lead, moves⟩ undotted
  have steps : root.steps <+: found.steps := steps_scanBase root ▸ beyond.steps
  rw [Path.parts_eq, Path.parts_eq, noLead, lead?_found relative moves beyond]
  exact ⟨by simpa using moves, steps.map Path.stepPart⟩

/-- What a scan under any other root finds, its path under the root goes the same way to, and it
ends in a step if what is found does. -/
theorem sameWay_pathUnder (undotted : ¬root.IsDotted) (beyond : Beyond (scanBase root) found)
    (ends : found.EndsInStep) :
    Path.SameWay (root.join (pathUnder root found)) found ∧
      (root.join (pathUnder root found)).EndsInStep := by
  have longer : root.steps.length < found.steps.length := by
    rw [← steps_scanBase]
    exact beyond.longer ends
  cases taken : root.after? found with
  | some path =>
    rw [pathUnder, taken, Option.getD_some]
    have same := Path.sameWay_join_after? taken
    refine ⟨same, Path.endsInStep_join_after? taken ?_⟩
    -- Without steps of its own the path could only lead to where the root does.
    intro none
    have steps := same.steps
    by_cases absolute : path.isAbsolute = true
    · rw [Path.join_absolute absolute, none] at steps
      simp [← steps] at longer
    · rw [Path.steps_join (by simpa using absolute), none, List.append_nil] at steps
      simp [steps] at longer
  | none =>
    rw [pathUnder, taken, Option.getD_none]
    by_cases absolute : found.isAbsolute = true
    · rw [Path.join_absolute absolute]
      exact ⟨⟨rfl, rfl⟩, ends⟩
    · have relative_found : found.isAbsolute = false := by simpa using absolute
      have relative : startsAtTop root = false := by
        rw [← isAbsolute_scanBase, ← beyond.isAbsolute, relative_found]
      obtain ⟨relative_root, filled⟩ := Bool.or_eq_false_iff.mp relative
      have still : root.steps = [] := by
        by_contra moves
        obtain ⟨spelled, within⟩ := front_parts undotted relative moves beyond
        rw [Path.after?_spelled within spelled] at taken
        exact absurd taken (by simp)
      refine ⟨⟨?_, ?_⟩, ?_⟩
      · rw [Path.isAbsolute_join relative_found, relative_root, relative_found]
      · rw [Path.steps_join relative_found, still, List.nil_append]
      · rw [Path.EndsInStep, Path.getLast?_join (by simpa using filled) relative_found]
        exact ends

/-- The listed paths are those under the root of files that the scan found. -/
theorem exists_of_listUnder {σ : Type} {host : Host (StateM σ)} (still : host.Still) {state : σ}
    {selection : Selection} {paths : List Path}
    (listed : (host.listUnder root selection state).1 = .ok paths) (member : path ∈ paths) :
    ∃ files found,
      (host.scan (Glob.escape root.text ++ "/" ++ selection.pattern) state).1 = .ok files ∧
        found ∈ files ∧ path = pathUnder root found := by
  cases scanned : (host.scan (Glob.escape root.text ++ "/" ++ selection.pattern) state).1 with
  | error error =>
    rw [still.listUnder_eq, scanned] at listed
    exact nomatch listed
  | ok files =>
    rw [still.listUnder_of_scan root selection scanned] at listed
    obtain rfl := Except.ok.inj listed
    have selected := List.mem_of_mem_filter (List.mem_mergeSort.mp member)
    obtain ⟨found, among, rfl⟩ := List.mem_map.mp selected
    exact ⟨files, found, rfl, among, rfl⟩

end Host

/-- What comes of reading the octets of a file as a text. -/
def Host.decoded (path : Path) (octets : ByteArray) : Except Failure String :=
  match String.fromUTF8? octets with
  | some text => .ok text
  | none => .error (failure "read from file" path "stream did not contain valid UTF-8")

/-- A module is found again by its path under a root: from the root the path leads to the file at
the location, the module is read from its octets, and it is written back to the location. -/
structure FoundAgain (tree : FileTree) (root path : Path) (location : Location)
    (octets : ByteArray) : Prop where
  /-- The path leads to the file from the root. -/
  resolve : tree.resolve (root.join path) = .ok (location, .file octets)
  /-- The text of the module is that of the file. -/
  read : FileTree.host.readUnder root path tree =
    (attempting ("read " ++ (root.join path).text) (Host.decoded (root.join path) octets), tree)
  /-- As long as the module is what it was when it was read, it is written back to the location, and
  nothing else changes. -/
  written : ∀ text revised, String.fromUTF8? octets = some text →
    Run.writeBack (FileTree.host.workspace root) path (Sha256.ofText text) revised tree =
      (.ok (), tree.put location (.file revised.toUTF8))

/-- A module whose path leads to a file from the root is read from the file. -/
theorem readUnder_eq {tree : FileTree} {root path : Path} {location : Location}
    {octets : ByteArray} (leads : tree.resolve (root.join path) = .ok (location, .file octets)) :
    FileTree.host.readUnder root path tree =
      (attempting ("read " ++ (root.join path).text) (Host.decoded (root.join path) octets),
        tree) := by
  have opened : FileTree.host.read (root.join path) tree = (.ok octets, tree) := by
    have whole : FileTree.host.read (root.join path) tree =
        (tree.readFile (root.join path), tree) := rfl
    rw [whole, FileTree.readFile, leads]
    rfl
  have text : FileTree.host.readText (root.join path) tree =
      (Host.decoded (root.join path) octets, tree) := by
    rw [Host.readText, bind_eq_of_eq opened, Host.decoded]
    dsimp only
    cases String.fromUTF8? octets <;> rfl
  rw [Host.readUnder, bind_eq_of_eq text]
  rfl

/-- In a sound tree a module whose path leads to a file from the root is found again by the path. -/
theorem foundAgain_of_resolve {tree : FileTree} {root path : Path} {location : Location}
    {octets : ByteArray} (sound : tree.Sound)
    (leads : tree.resolve (root.join path) = .ok (location, .file octets)) :
    FoundAgain tree root path location octets where
  resolve := leads
  read := readUnder_eq leads
  written text revised decoded := by
    have read : (FileTree.host.workspace root).read path tree = (.ok text, tree) := by
      have whole := readUnder_eq leads
      rw [Host.decoded, decoded] at whole
      exact whole
    have written : (FileTree.host.workspace root).write (root.join path) revised tree =
        (.ok (), tree.put location (.file revised.toUTF8)) := sound.writeText_eq leads revised
    rw [Run.writeBack, bind_eq_of_eq read]
    dsimp only
    rw [if_pos rfl]
    exact bind_eq_of_eq written

/-- Every listed module is found again by its path, unless the root is spelled with a dot before its
steps: the path of a module is that under the root of a file that the scan found, and from the root
it leads to the file again, or its spelling is longer than the system takes. Under a root with a dot
before its steps the path is the whole path of the file, so from the root it takes the steps of the
root twice. -/
theorem listUnder_foundAgain {tree : FileTree} {root : Path} {selection : Selection}
    {paths : List Path} (sound : tree.Sound)
    (listed : (FileTree.host.listUnder root selection tree).1 = .ok paths) :
    ∀ path ∈ paths, ∃ files found location octets,
      (FileTree.host.scan (Glob.escape root.text ++ "/" ++ selection.pattern) tree).1 = .ok files ∧
      found ∈ files ∧ path = Host.pathUnder root found ∧
      tree.resolve found = .ok (location, .file octets) ∧
      (¬root.IsDotted → FoundAgain tree root path location octets ∨
        FileTree.pathLimit ≤ (root.join path).text.utf8ByteSize ∧
          tree.resolve (root.join path) = .error .nameTooLong) ∧
      (root.IsDotted → path = found ∧ root.steps <+: path.steps ∧
        (root.join path).steps = root.steps ++ path.steps) := by
  intro path member
  obtain ⟨files, found, scanned, among, rfl⟩ :=
    Host.exists_of_listUnder FileTree.still_host listed member
  obtain ⟨beyond, location, octets, leads⟩ := Host.found_of_scan sound scanned among
  refine ⟨files, found, location, octets, scanned, among, rfl, leads, ?_, ?_⟩
  · intro undotted
    obtain ⟨same, ends⟩ :=
      Host.sameWay_pathUnder undotted beyond (FileTree.endsInStep_of_resolve leads)
    exact (FileTree.resolve_of_sameWay same leads ends).imp_left (foundAgain_of_resolve sound)
  · intro dotted
    have whole := Host.pathUnder_dotted dotted beyond
    have steps := beyond.steps
    rw [Host.steps_scanBase] at steps
    have lead := Host.lead?_found (Host.startsAtTop_dotted dotted) dotted.2 beyond
    have relative : found.isAbsolute = false := Path.isAbsolute_eq_false (by simp [lead])
    rw [whole]
    exact ⟨rfl, steps, Path.steps_join relative⟩

/-- A tree with one module in a directory. -/
def shelf : FileTree :=
  (({} : FileTree).put ["m"] .directory).put ["m", "x.py"] (.file "x = 1\n".toUTF8)

/-- The tree is sound. -/
theorem sound_shelf : shelf.Sound := by
  have directory : (({} : FileTree).put ([] ++ ["m"]) .directory).Sound :=
    FileTree.sound_empty.put rfl ⟨by decide, by decide, by decide⟩ (.inl rfl)
  have file : ((({} : FileTree).put ([] ++ ["m"]) .directory).put (["m"] ++ ["x.py"])
      (.file "x = 1\n".toUTF8)).Sound :=
    directory.put rfl ⟨by decide, by decide, by decide⟩
      (.inr (by simp [FileTree.node?, FileTree.put, List.lookup_cons]))
  exact file

/-- Under a root that goes up and down again and ends in a slash, the module is listed by its name
and found again. -/
theorem listUnder_foundAgain_shelf :
    shelf.Sound ∧
    (FileTree.host.listUnder ⟨"m/../m/"⟩ {} shelf).1 = .ok [⟨"x.py"⟩] ∧
    ∃ location octets, FoundAgain shelf ⟨"m/../m/"⟩ ⟨"x.py"⟩ location octets := by
  have listed : (FileTree.host.listUnder ⟨"m/../m/"⟩ {} shelf).1 = .ok [⟨"x.py"⟩] := by
    have scanned : (FileTree.host.scan (Glob.escape "m/../m/" ++ "/" ++ "*.py") shelf).1 =
        .ok [⟨"m/../m/x.py"⟩] := by
      decide +kernel
    have selected : ([⟨"m/../m/x.py"⟩].map (Host.pathUnder ⟨"m/../m/"⟩)).filter
        (Selection.takesStem {}) = [⟨"x.py"⟩] := by
      decide +kernel
    rw [FileTree.still_host.listUnder_of_scan ⟨"m/../m/"⟩ {} scanned, selected,
      List.mergeSort_singleton]
  obtain ⟨files, found, location, octets, -, -, -, -, again, -⟩ :=
    listUnder_foundAgain sound_shelf listed ⟨"x.py"⟩ (by simp)
  have undotted : ¬Path.IsDotted ⟨"m/../m/"⟩ := by
    rw [Path.IsDotted]
    decide
  have short : ¬FileTree.pathLimit ≤ ((⟨"m/../m/"⟩ : Path).join ⟨"x.py"⟩).text.utf8ByteSize := by
    decide +kernel
  exact ⟨sound_shelf, listed, location, octets,
    (again undotted).resolve_right fun long => short long.1⟩

/-- Under a root with a dot before its step, the module is listed by its whole path, which leads
nowhere from the root: reading the module fails because nothing is there. -/
theorem not_listUnder_foundAgain_dotted :
    (FileTree.host.listUnder ⟨"./m"⟩ {} shelf).1 = .ok [⟨"m/x.py"⟩] ∧
    (FileTree.host.isFile ⟨"m/x.py"⟩ shelf).1 = true ∧
    (FileTree.host.readUnder ⟨"./m"⟩ ⟨"m/x.py"⟩ shelf).1 =
      .error ⟨["read ./m/m/x.py", "failed to open file `./m/m/x.py`"],
        "No such file or directory (os error 2)"⟩ := by
  have scanned : (FileTree.host.scan (Glob.escape "./m" ++ "/" ++ "*.py") shelf).1 =
      .ok [⟨"m/x.py"⟩] := by
    decide +kernel
  have selected : ([⟨"m/x.py"⟩].map (Host.pathUnder ⟨"./m"⟩)).filter (Selection.takesStem {}) =
      [⟨"m/x.py"⟩] := by
    decide +kernel
  refine ⟨?_, by decide +kernel, by decide +kernel⟩
  rw [FileTree.still_host.listUnder_of_scan ⟨"./m"⟩ {} scanned, selected,
    List.mergeSort_singleton]

end DeclOrder
