import DeclOrder.Proofs.Observation
import DeclOrder.Proofs.Path.Relative

/-!
# Ways through a file tree

Idle segments lead nowhere, so where a path leads is told by its start and its steps. A path to a
file ends in a step. In a tree where everything lies in a directory, what is written through such a
path is put where the path leads, and nothing else changes.
-/

namespace DeclOrder.FileTree

variable {tree : FileTree} {location destination : Location} {path : Path}

/-- Where a directory lies, one can go on from. -/
theorem expectDirectory_eq_ok_iff :
    tree.expectDirectory location = .ok destination ↔
      tree.node? location = some .directory ∧ destination = location := by
  rw [expectDirectory]
  cases tree.node? location with
  | none => simp
  | some node => cases node <;> simp [eq_comm]

/-- A step from a location is taken only from a directory. -/
theorem walk_cons_eq_ok_iff {segment : String} {rest : List String} :
    tree.walk location (segment :: rest) = .ok destination ↔
      tree.node? location = some .directory ∧
        ∃ next, step location segment = .ok next ∧ tree.walk next rest = .ok destination := by
  rw [walk]
  cases expected : tree.expectDirectory location with
  | error error =>
    have missing : tree.node? location ≠ some .directory := by
      intro lies
      simp [expectDirectory, lies] at expected
    simp [missing, bind, Except.bind]
  | ok directory =>
    obtain ⟨lies, rfl⟩ := expectDirectory_eq_ok_iff.mp expected
    cases taken : step directory segment <;> simp [lies, bind, Except.bind, taken]

/-- An idle segment leads nowhere. -/
theorem step_idle {segment : String} (idle : Path.isIdle segment = true) :
    step location segment = .ok location := by
  rw [step, if_pos idle]

/-- Segments are followed one row after another. -/
theorem walk_append_eq_ok_iff {front back : List String} :
    tree.walk location (front ++ back) = .ok destination ↔
      ∃ middle, tree.walk location front = .ok middle ∧
        tree.walk middle back = .ok destination := by
  induction front generalizing location with
  | nil => simp [walk]
  | cons segment front ih =>
    simp only [List.cons_append, walk_cons_eq_ok_iff, ih]
    constructor
    · rintro ⟨lies, next, taken, middle, first, second⟩
      exact ⟨middle, ⟨lies, next, taken, first⟩, second⟩
    · rintro ⟨middle, ⟨lies, next, taken, first⟩, second⟩
      exact ⟨lies, next, taken, middle, first, second⟩

/-- Where segments lead, the meaningful ones lead by themselves. -/
theorem walk_meaningful {segments : List String}
    (leads : tree.walk location segments = .ok destination) :
    tree.walk location (Path.meaningful segments) = .ok destination := by
  induction segments generalizing location with
  | nil => exact leads
  | cons segment rest ih =>
    obtain ⟨lies, next, taken, onward⟩ := walk_cons_eq_ok_iff.mp leads
    by_cases idle : Path.isIdle segment = true
    · rw [step_idle idle] at taken
      obtain rfl := Except.ok.inj taken
      rw [Path.meaningful_cons_idle idle]
      exact ih onward
    · rw [Path.meaningful_cons_step (by simpa using idle)]
      exact walk_cons_eq_ok_iff.mpr ⟨lies, next, taken, ih onward⟩

/-- Where the meaningful segments lead, all of them lead, if a directory lies there or the last of
them means something. -/
theorem walk_of_meaningful {segments : List String}
    (leads : tree.walk location (Path.meaningful segments) = .ok destination)
    (ends : tree.node? destination = some .directory ∨
      ∀ last, segments.getLast? = some last → Path.isIdle last = false) :
    tree.walk location segments = .ok destination := by
  induction segments generalizing location with
  | nil => exact leads
  | cons segment rest ih =>
    have ends_rest : tree.node? destination = some .directory ∨
        ∀ last, rest.getLast? = some last → Path.isIdle last = false := by
      cases rest with
      | nil => simp
      | cons second later => simpa using ends
    by_cases idle : Path.isIdle segment = true
    · rw [Path.meaningful_cons_idle idle] at leads
      have lies : tree.node? location = some .directory := by
        cases steps : Path.meaningful rest with
        | nil =>
          rw [steps] at leads
          obtain rfl := Except.ok.inj leads
          refine ends.resolve_right fun ends => ?_
          have nonempty : segment :: rest ≠ [] := List.cons_ne_nil segment rest
          have idleAll : ∀ other ∈ segment :: rest, Path.isIdle other = true := by
            rw [← Path.meaningful_eq_nil_iff, Path.meaningful_cons_idle idle, steps]
          have moves := ends _ (List.getLast?_eq_some_getLast nonempty)
          exact absurd (idleAll _ (List.getLast_mem nonempty)) (by simp [moves])
        | cons first later =>
          rw [steps] at leads
          exact (walk_cons_eq_ok_iff.mp leads).1
      exact walk_cons_eq_ok_iff.mpr ⟨lies, location, step_idle idle, ih leads ends_rest⟩
    · rw [Path.meaningful_cons_step (by simpa using idle)] at leads
      obtain ⟨lies, next, taken, onward⟩ := walk_cons_eq_ok_iff.mp leads
      exact walk_cons_eq_ok_iff.mpr ⟨lies, next, taken, ih onward ends_rest⟩

/-- A path leads somewhere exactly if the system takes it, its segments lead there and something
lies there. -/
theorem resolve_eq_ok_iff {node : Node} :
    tree.resolve path = .ok (location, node) ↔ expectPath path = .ok () ∧
      tree.walk (tree.start path) path.segments = .ok location ∧
      tree.node? location = some node := by
  rw [resolve]
  cases expectPath path with
  | error error => simp [bind, Except.bind]
  | ok taken =>
    cases tree.walk (tree.start path) path.segments with
    | error error => simp [bind, Except.bind]
    | ok found =>
      cases lies : tree.node? found with
      | none =>
        have missing : found = location → tree.node? location ≠ some node := by
          rintro rfl
          simp [lies]
        simpa [bind, Except.bind, lies, throw, throwThe, MonadExceptOf.throw] using missing
      | some other =>
        simp only [bind, Except.bind, lies, pure, Except.pure, Except.ok.injEq, Prod.mk.injEq,
          true_and]
        constructor
        · rintro ⟨rfl, rfl⟩
          exact ⟨rfl, lies⟩
        · rintro ⟨rfl, same⟩
          exact ⟨rfl, Option.some.inj (lies.symm.trans same)⟩

/-- The system takes a path exactly if it is spelled out, without the character that ends texts, and
within the limit. -/
theorem expectPath_eq_ok_iff :
    expectPath path = .ok () ↔
      '\x00' ∉ path.text.toList ∧ path.text ≠ "" ∧ path.text.utf8ByteSize < pathLimit := by
  rw [expectPath]
  by_cases ended : path.text.toList.contains '\x00' = true
  · simp [List.contains_iff_mem.mp ended]
  · have plain : '\x00' ∉ path.text.toList := fun member =>
      ended (List.contains_iff_mem.mpr member)
    by_cases empty : path.text.isEmpty = true
    · simp [String.isEmpty_iff.mp empty]
    · have filled : path.text ≠ "" := fun none => empty (String.isEmpty_iff.mpr none)
      by_cases long : pathLimit ≤ path.text.utf8ByteSize
      · simp [plain, filled, long]
      · simp [plain, filled, long, Nat.lt_of_not_le long]

/-- What lies at the end of a path is what it leads to. -/
theorem locate_text : tree.locate (.text path) =
    (tree.resolve path).map fun (location, node) => (location.map .text, node) := by
  rw [locate]
  cases tree.resolve path <;> rfl

/-- Asking what a path leads to tells what it leads to. -/
theorem kind?_text : FileTree.host.kind? (.text path) tree =
    ((tree.resolve path).toOption.map (·.2.kind), tree) := by
  have whole : FileTree.host.kind? (.text path) tree =
      ((tree.locate (.text path)).toOption.map (·.2.kind), tree) := rfl
  rw [whole, locate_text]
  cases tree.resolve path <;> rfl

/-- A path that is one to a file leads to a location with its octets. -/
theorem exists_of_isFile (isFile : (FileTree.host.isFile path tree).1 = true) :
    ∃ location octets, tree.resolve path = .ok (location, .file octets) := by
  rw [Host.isFile, bind_eq_of_eq kind?_text] at isFile
  have asked : ((tree.resolve path).toOption.map (·.2.kind) == some .file) = true := isFile
  rw [beq_iff_eq] at asked
  cases resolved : tree.resolve path with
  | error error => simp [resolved, Except.toOption] at asked
  | ok entry =>
    obtain ⟨location, node⟩ := entry
    cases node with
    | directory => simp [resolved, Except.toOption, Node.kind] at asked
    | file octets => exact ⟨location, octets, rfl⟩

section SameWay

variable {other : Path}

/-- A path to a file ends in a step. -/
theorem endsInStep_of_resolve {octets : ByteArray}
    (leads : tree.resolve path = .ok (location, .file octets)) : path.EndsInStep := by
  obtain ⟨-, way, lies⟩ := resolve_eq_ok_iff.mp leads
  have whole := List.dropLast_append_getLast path.segments_ne_nil
  refine ⟨path.segments.getLast path.segments_ne_nil,
    List.getLast?_eq_some_getLast path.segments_ne_nil, ?_⟩
  by_contra idle
  rw [← whole] at way
  obtain ⟨middle, -, last⟩ := walk_append_eq_ok_iff.mp way
  obtain ⟨directory, next, taken, rest⟩ := walk_cons_eq_ok_iff.mp last
  rw [step_idle (by simpa using idle)] at taken
  obtain rfl := Except.ok.inj taken
  obtain rfl := Except.ok.inj rest
  simp [lies] at directory

/-- A path that ends in a step and goes the same way as another to a file leads there too, unless
its spelling is too long. -/
theorem resolve_of_sameWay {octets : ByteArray} (same : Path.SameWay other path)
    (leads : tree.resolve path = .ok (location, .file octets)) (ends : other.EndsInStep) :
    tree.resolve other = .ok (location, .file octets) ∨
      pathLimit ≤ other.text.utf8ByteSize ∧ tree.resolve other = .error .nameTooLong := by
  obtain ⟨taken, way, lies⟩ := resolve_eq_ok_iff.mp leads
  obtain ⟨last, isLast, moves⟩ := ends
  have plain : '\x00' ∉ other.text.toList := by
    have plain_path := (expectPath_eq_ok_iff.mp taken).1
    rwa [Path.mem_text_iff (by decide) (by decide), ← same.steps,
      ← Path.mem_text_iff (by decide) (by decide)] at plain_path
  have filled : other.text ≠ "" := by
    intro empty
    have bare : other = ⟨""⟩ := congrArg Path.mk empty
    rw [bare, Path.segments_empty] at isLast
    obtain rfl : "" = last := Option.some.inj isLast
    simp at moves
  by_cases long : pathLimit ≤ other.text.utf8ByteSize
  · refine .inr ⟨long, ?_⟩
    simp [resolve, expectPath, plain, filled, long, bind, Except.bind]
  · have start : tree.start other = tree.start path := by rw [start, start, same.isAbsolute]
    have short : other.text.utf8ByteSize < pathLimit := Nat.lt_of_not_le long
    refine .inl (resolve_eq_ok_iff.mpr ⟨expectPath_eq_ok_iff.mpr ⟨plain, filled, short⟩, ?_, lies⟩)
    rw [start]
    apply walk_of_meaningful
    · rw [← Path.steps, same.steps]
      exact walk_meaningful way
    · exact .inr fun last' isLast' => by simp_all

end SameWay

/-- The text can be the name of an entry. -/
structure IsName (name : String) : Prop where
  /-- It means something. -/
  moves : Path.isIdle name = false
  /-- It does not mean the parent directory. -/
  ne_parent : name ≠ ".."
  /-- It has no slash. -/
  slash : '/' ∉ name.toList

/-- The tree could be that of a system: names are names, and everything lies in a directory. -/
structure Sound (tree : FileTree) : Prop where
  /-- Locations are made of names. -/
  names : ∀ entry ∈ tree.nodes, ∀ name ∈ entry.1, IsName name
  /-- Everything lies in a directory. -/
  parents : ∀ location, (tree.node? location).isSome →
    tree.node? location.dropLast = some .directory

section Contents

variable {names directory : List EntryName} {node : Node} {texts : List String}

/-- What a list has below a location is what it has where names go on from there. -/
theorem mem_listedBelow {α : Type} [DecidableEq α] {location names : List α}
    {nodes : List (List α × Node)} :
    (names, node) ∈ listedBelow location nodes ↔
      names ≠ [] ∧ (location ++ names, node) ∈ nodes := by
  rw [listedBelow, List.mem_filterMap]
  constructor
  · rintro ⟨⟨whole, found⟩, member, cut⟩
    dsimp only at cut
    split at cut
    · next name rest after =>
      obtain ⟨rfl, rfl⟩ := Prod.mk.inj (Option.some.inj cut)
      rw [Text.after?_eq_some_iff] at after
      exact ⟨List.cons_ne_nil _ _, after ▸ member⟩
    · exact absurd cut (by simp)
  · rintro ⟨filled, member⟩
    obtain ⟨name, rest, rfl⟩ := List.exists_cons_of_ne_nil filled
    exact ⟨_, member, by simp [Text.after?_eq_some_iff.mpr rfl]⟩

/-- Putting something into a list by its names adds it alone. -/
theorem mem_insertByNames {item other : List EntryName × Node}
    {items : List (List EntryName × Node)} :
    other ∈ insertByNames item items ↔ other = item ∨ other ∈ items := by
  induction items with
  | nil => simp [insertByNames]
  | cons first rest ih =>
    rw [insertByNames]
    split
    · exact List.mem_cons
    · rw [List.mem_cons, ih, List.mem_cons]
      exact or_left_comm

/-- What lies below the end of names is what lies where names go on from there. -/
theorem mem_inside :
    (names, node) ∈ tree.inside directory ↔
      names ≠ [] ∧ (directory ++ names, node) ∈ tree.contents := by
  rw [inside, ← mem_listedBelow]
  induction listedBelow directory tree.contents with
  | nil => rfl
  | cons first rest ih => rw [List.foldr_cons, mem_insertByNames, ih, List.mem_cons]

/-- A way of texts leads to what lies at a location. -/
theorem mem_contents_text :
    (texts.map .text, node) ∈ tree.contents ↔ (texts, node) ∈ tree.nodes := by
  rw [contents, List.mem_append, List.mem_map, List.mem_map]
  constructor
  · rintro (⟨⟨location, found⟩, member, same⟩ | ⟨⟨⟨foreign, undecodable⟩, found⟩, -, same⟩)
    · obtain ⟨texts_eq, rfl⟩ := Prod.mk.inj same
      obtain rfl : location = texts :=
        List.map_injective_iff.mpr (fun _ _ => EntryName.text.inj) texts_eq
      exact member
    · obtain ⟨rfl, rfl⟩ := Prod.mk.inj same
      exact absurd undecodable (by simp)
  · exact fun member => .inl ⟨_, member, rfl⟩

/-- The directory at a place is what lies there. -/
theorem directoryAt_eq_ok_iff {place : Place} :
    tree.directoryAt place = .ok names ↔ tree.locate place = .ok (names, .directory) := by
  rw [directoryAt]
  cases tree.locate place with
  | error error => simp [bind, Except.bind]
  | ok found =>
    obtain ⟨location, node⟩ := found
    cases node <;>
      simp [bind, Except.bind, pure, Except.pure, throw, throwThe, MonadExceptOf.throw]

/-- The directory that a path leads to lies at a location. -/
theorem exists_of_directoryAt (lies : tree.directoryAt (.text path) = .ok names) :
    ∃ location : Location, names = location.map .text := by
  rw [directoryAt_eq_ok_iff, locate_text] at lies
  cases resolved : tree.resolve path with
  | error error =>
    rw [resolved] at lies
    exact nomatch lies
  | ok found =>
    rw [resolved] at lies
    exact ⟨found.1, (Prod.mk.inj (Except.ok.inj lies)).1.symm⟩

/-- In a sound tree what lies below a location is found by a way of names. -/
theorem Sound.isName_of_inside (sound : tree.Sound) {location : Location}
    (lies : (texts.map .text, node) ∈ tree.inside (location.map .text)) :
    texts ≠ [] ∧ ∀ name ∈ texts, IsName name := by
  obtain ⟨filled, member⟩ := mem_inside.mp lies
  rw [← List.map_append, mem_contents_text] at member
  exact ⟨by simpa using filled, fun name among =>
    sound.names _ member name (List.mem_append_right _ among)⟩

/-- The entries of a directory that can be read are those that lie below it by one name. -/
theorem of_entries {place : Place} {found : List (EntryName × EntryKind)}
    (listed : tree.entries place = .ok found) :
    ∃ directory, tree.directoryAt place = .ok directory ∧
      tree.obstacle? place directory = none ∧ ∀ name kind, (name, kind) ∈ found ↔
        ∃ node, ([name], node) ∈ tree.inside directory ∧ node.kind = kind := by
  rw [entries] at listed
  cases lies : tree.directoryAt place with
  | error error =>
    rw [lies] at listed
    exact absurd listed (by simp [bind, Except.bind])
  | ok directory =>
    rw [lies] at listed
    simp only [bind, Except.bind] at listed
    cases refused : tree.obstacle? place directory with
    | some error =>
      rw [refused] at listed
      exact absurd listed (by simp [throw, throwThe, MonadExceptOf.throw])
    | none =>
      rw [refused] at listed
      obtain rfl := Except.ok.inj listed
      refine ⟨directory, rfl, refused, fun name kind => ?_⟩
      rw [List.mem_filterMap]
      constructor
      · rintro ⟨⟨names, node⟩, member, single⟩
        rcases names with - | ⟨first, - | ⟨second, rest⟩⟩
        · exact absurd single (by simp)
        · obtain ⟨rfl, rfl⟩ := Prod.mk.inj (Option.some.inj single)
          exact ⟨node, member, rfl⟩
        · exact absurd single (by simp)
      · rintro ⟨node, member, rfl⟩
        exact ⟨_, member, rfl⟩

/-- In a sound tree the entries of a directory that a path leads to have names. -/
theorem Sound.isName_of_entries (sound : tree.Sound) {found : List (EntryName × EntryKind)}
    {name : String} {kind : EntryKind} (listed : tree.entries (.text path) = .ok found)
    (member : (.text name, kind) ∈ found) : IsName name := by
  obtain ⟨directory, lies, -, each⟩ := of_entries listed
  obtain ⟨location, rfl⟩ := exists_of_directoryAt lies
  obtain ⟨node, inside, -⟩ := (each _ _).mp member
  have areNames : ∀ other ∈ [name], IsName other := (sound.isName_of_inside inside).2
  exact areNames name List.mem_cons_self

/-- A walk through a directory meets what lies below it. -/
theorem of_entry_mem_descendants {place : Place} {kind : EntryKind}
    (met : .entry names kind ∈ tree.descendants place) :
    ∃ directory node, tree.directoryAt place = .ok directory ∧
      (names, node) ∈ tree.inside directory ∧ node.kind = kind := by
  rw [descendants] at met
  cases lies : tree.directoryAt place with
  | error error =>
    rw [lies] at met
    simp at met
  | ok directory =>
    rw [lies] at met
    dsimp only at met
    rcases List.mem_append.mp met with refused | visited
    · simp at refused
    · obtain ⟨⟨found, node⟩, member, visit⟩ := List.mem_flatMap.mp visited
      dsimp only at visit
      split at visit
      · rcases List.mem_cons.mp visit with same | refused
        · obtain ⟨rfl, rfl⟩ := Visit.entry.inj same
          exact ⟨directory, node, rfl, member, rfl⟩
        · split at refused <;> simp at refused
      · exact absurd visit (by simp)

/-- In a sound tree a walk through a directory that a path leads to goes by names. -/
theorem Sound.isName_of_descendants (sound : tree.Sound) {kind : EntryKind}
    (met : .entry (texts.map .text) kind ∈ tree.descendants (.text path)) :
    texts ≠ [] ∧ ∀ name ∈ texts, IsName name := by
  obtain ⟨directory, node, lies, inside, -⟩ := of_entry_mem_descendants met
  obtain ⟨location, rfl⟩ := exists_of_directoryAt lies
  exact sound.isName_of_inside inside

end Contents

/-- A way of names is relative. -/
theorem isAbsolute_joinSegments {names : List String} (areNames : ∀ name ∈ names, IsName name) :
    Path.isAbsolute ⟨Path.joinSegments names⟩ = false := by
  cases names with
  | nil => decide
  | cons first rest =>
    have segments : Path.segments ⟨Path.joinSegments (first :: rest)⟩ = first :: rest :=
      Path.segments_joinSegments (List.cons_ne_nil _ _) fun name member =>
        (areNames name member).slash
    have lead : Path.lead? ⟨Path.joinSegments (first :: rest)⟩ = none :=
      Path.lead?_eq_none (by rw [segments, List.head?_cons]) (areNames first (by simp)).moves
    exact Path.isAbsolute_eq_false (by simp [lead])

section Put

variable {directory : Location} {name : String} {node : Node}

/-- What lies in a tree after something was put there. -/
theorem node?_put {other : Location} (below : location ≠ []) :
    (tree.put location node).node? other =
      if other = location then some node else tree.node? other := by
  have rest (nodes : List (Location × Node)) (different : other ≠ location) :
      (nodes.filter (·.1 != location)).lookup other = nodes.lookup other := by
    induction nodes with
    | nil => rfl
    | cons entry nodes ih =>
      by_cases replaced : entry.1 = location
      · rw [List.filter_cons_of_neg (by simpa using replaced), ih, List.lookup_cons,
          beq_eq_false_iff_ne.mpr (by rwa [replaced])]
      · rw [List.filter_cons_of_pos (by simpa using replaced), List.lookup_cons, List.lookup_cons,
          ih]
  by_cases top : other = []
  · rw [if_neg (by rw [top]; exact Ne.symm below), top]
    rfl
  · have filled : other.isEmpty = false := by simpa using top
    rw [FileTree.node?, FileTree.node?, filled, put, List.lookup_cons]
    by_cases same : other = location
    · simp [same]
    · rw [beq_eq_false_iff_ne.mpr same, if_neg same]
      exact rest tree.nodes same

/-- In a sound tree the location of what lies there is made of names. -/
theorem Sound.isName_of_node? (sound : tree.Sound) (lies : tree.node? location = some node) :
    ∀ name ∈ location, IsName name := by
  by_cases top : location = []
  · simp [top]
  · rw [FileTree.node?, if_neg (by simpa using top)] at lies
    obtain ⟨before, after, whole, -⟩ := List.lookup_eq_some_iff.mp lies
    exact sound.names (location, node) (by simp [whole])

/-- The tree with nothing in it is sound. -/
theorem sound_empty : Sound {} where
  names entry member := absurd member (by simp)
  parents location lies := by
    cases location with
    | nil => rfl
    | cons first rest => simp [FileTree.node?] at lies

/-- A tree stays sound if something is put into a directory of it under a name, unless a file takes
the place of a directory. -/
theorem Sound.put (sound : tree.Sound) (isDirectory : tree.node? directory = some .directory)
    (isName : IsName name)
    (kept : node = .directory ∨ tree.node? (directory ++ [name]) ≠ some .directory) :
    (tree.put (directory ++ [name]) node).Sound where
  names entry member := by
    rcases List.mem_cons.mp member with rfl | member
    · intro other among
      rcases List.mem_append.mp among with among | among
      · exact sound.isName_of_node? isDirectory other among
      · rwa [List.mem_singleton.mp among]
    · exact sound.names entry (List.mem_of_mem_filter member)
  parents location lies := by
    have below : directory ++ [name] ≠ [] := by simp
    rw [node?_put below] at lies ⊢
    by_cases new : location = directory ++ [name]
    · have other : directory ≠ directory ++ [name] := by simp
      rw [new, List.dropLast_concat, if_neg other]
      exact isDirectory
    · rw [if_neg new] at lies
      have parent := sound.parents location lies
      by_cases inside : location.dropLast = directory ++ [name]
      · rw [if_pos inside]
        rw [inside] at parent
        exact congrArg some (kept.resolve_right fun file => file parent)
      · rw [if_neg inside]
        exact parent

/-- The entry that a path names is a name in a directory. -/
theorem isName_of_entryOf {closed : Bool}
    (named : tree.entryOf path = .ok (directory, some name, closed)) :
    tree.node? directory = some .directory ∧ IsName name := by
  rw [entryOf] at named
  cases taken : expectPath path with
  | error error => simp [taken, bind, Except.bind] at named
  | ok _ =>
    cases way : tree.walk (tree.start path)
        (Text.dropTailWhile (·.isEmpty) path.segments).dropLast with
    | error error => simp [taken, way, bind, Except.bind] at named
    | ok found =>
      cases expected : tree.expectDirectory found with
      | error error => simp [taken, way, expected, bind, Except.bind] at named
      | ok found' =>
        obtain ⟨isDirectory, rfl⟩ := expectDirectory_eq_ok_iff.mp expected
        cases last : (Text.dropTailWhile (·.isEmpty) path.segments).getLast? with
        | none =>
          simp [taken, way, expected, last, bind, Except.bind, pure, Except.pure] at named
        | some segment =>
          simp only [taken, way, expected, last, bind, Except.bind, pure, Except.pure,
            Except.ok.injEq, Prod.mk.injEq] at named
          obtain ⟨rfl, isName, -⟩ := named
          split at isName
          · exact absurd isName (by simp)
          · next plain =>
            obtain rfl := Option.some.inj isName
            rw [Bool.or_eq_true, not_or, Bool.not_eq_true, beq_iff_eq] at plain
            exact ⟨isDirectory, plain.1, plain.2, Path.slash_not_mem_segment
              (Text.mem_of_mem_dropTailWhile (List.mem_of_getLast? last))⟩

/-- The location of an entry is its name in its directory. -/
theorem entryAt_eq_ok (entry : entryAt directory name = .ok location) :
    location = directory ++ [name] := by
  rw [entryAt] at entry
  split at entry
  · exact absurd entry (by simp)
  · exact (Except.ok.inj entry).symm

/-- Writing a file puts it into a directory under a name, where no directory lies. -/
theorem writeFile_cases {octets : ByteArray} {changed : FileTree}
    (written : tree.writeFile path octets = .ok changed) :
    ∃ directory name, tree.node? directory = some .directory ∧ IsName name ∧
      tree.node? (directory ++ [name]) ≠ some .directory ∧
      changed = tree.put (directory ++ [name]) (.file octets) := by
  rw [writeFile] at written
  cases named : tree.entryOf path with
  | error error => simp [named, bind, Except.bind] at written
  | ok entry =>
    obtain ⟨directory, name?, closed⟩ := entry
    rcases name? with - | name <;> cases closed <;>
      simp only [named, bind, Except.bind, throw, throwThe, MonadExceptOf.throw, reduceCtorEq]
        at written
    cases entry : entryAt directory name with
    | error error => simp [entry] at written
    | ok location =>
      obtain rfl := entryAt_eq_ok entry
      rw [entry] at written
      dsimp only at written
      split at written
      · exact absurd written (by simp)
      · next free =>
        obtain ⟨isDirectory, isName⟩ := isName_of_entryOf named
        exact ⟨directory, name, isDirectory, isName, free, (Except.ok.inj written).symm⟩

/-- Making a directory puts it into a directory under a name, where nothing lies. -/
theorem makeDirectory_cases {changed : FileTree}
    (made : tree.makeDirectory path = .ok changed) :
    ∃ directory name, tree.node? directory = some .directory ∧ IsName name ∧
      tree.node? (directory ++ [name]) = none ∧
      changed = tree.put (directory ++ [name]) .directory := by
  rw [makeDirectory] at made
  cases named : tree.entryOf path with
  | error error => simp [named, bind, Except.bind] at made
  | ok entry =>
    obtain ⟨directory, name?, closed⟩ := entry
    rcases name? with - | name <;>
      simp only [named, bind, Except.bind, throw, throwThe, MonadExceptOf.throw, reduceCtorEq]
        at made
    cases entry : entryAt directory name with
    | error error => simp [entry] at made
    | ok location =>
      obtain rfl := entryAt_eq_ok entry
      rw [entry] at made
      dsimp only at made
      split at made
      · exact absurd made (by simp)
      · next free =>
        obtain ⟨isDirectory, isName⟩ := isName_of_entryOf named
        exact ⟨directory, name, isDirectory, isName, free, (Except.ok.inj made).symm⟩

/-- Writing a file leaves a sound tree sound. -/
theorem Sound.of_writeFile (sound : tree.Sound) {octets : ByteArray} {changed : FileTree}
    (written : tree.writeFile path octets = .ok changed) : changed.Sound := by
  obtain ⟨directory, name, isDirectory, isName, free, rfl⟩ := writeFile_cases written
  exact sound.put isDirectory isName (.inr free)

/-- Making a directory leaves a sound tree sound. -/
theorem Sound.of_makeDirectory (sound : tree.Sound) {changed : FileTree}
    (made : tree.makeDirectory path = .ok changed) : changed.Sound := by
  obtain ⟨directory, name, isDirectory, isName, -, rfl⟩ := makeDirectory_cases made
  exact sound.put isDirectory isName (.inl rfl)

end Put

section Write

variable {octets : ByteArray}

/-- In a sound tree a path to a file ends in the name of an entry of a directory, and the segments
before it lead to the directory. -/
theorem Sound.entry_of_file (sound : tree.Sound)
    (leads : tree.resolve path = .ok (location, .file octets)) :
    ∃ front name directory, path.segments = front ++ [name] ∧ Path.isIdle name = false ∧
      name ≠ ".." ∧ tree.walk (tree.start path) front = .ok directory ∧
      tree.node? directory = some .directory ∧ entryAt directory name = .ok location := by
  obtain ⟨-, way, lies⟩ := resolve_eq_ok_iff.mp leads
  obtain ⟨name, isLast, moves⟩ := endsInStep_of_resolve leads
  have whole : path.segments.dropLast ++ [name] = path.segments :=
    List.dropLast_append_getLast? name isLast
  rw [← whole] at way
  obtain ⟨directory, before, last⟩ := walk_append_eq_ok_iff.mp way
  obtain ⟨isDirectory, next, taken, rest⟩ := walk_cons_eq_ok_iff.mp last
  obtain rfl := Except.ok.inj rest
  rw [step, if_neg (by simp [moves])] at taken
  have down : name ≠ ".." := by
    intro up
    rw [if_pos up] at taken
    obtain rfl := Except.ok.inj taken
    have parent := sound.parents directory (by simp [isDirectory])
    simp [lies] at parent
  rw [if_neg down] at taken
  exact ⟨_, name, directory, whole.symm, moves, down, before, isDirectory, taken⟩

/-- The entry that a path names, where the segments before its last lead to a directory. -/
theorem entryOf_eq {front : List String} {name : String} {directory : Location}
    (taken : expectPath path = .ok ())
    (ends : Text.dropTailWhile (·.isEmpty) path.segments = front ++ [name])
    (before : tree.walk (tree.start path) front = .ok directory)
    (isDirectory : tree.node? directory = some .directory) :
    tree.entryOf path = .ok (directory,
      if Path.isIdle name || name == ".." then none else some name,
      decide (front.length + 1 < path.segments.length)) := by
  have expected := expectDirectory_eq_ok_iff.mpr ⟨isDirectory, rfl⟩
  simp [entryOf, taken, ends, before, expected, bind, Except.bind, pure, Except.pure]

/-- What is written through a path to a file is put where the path leads. -/
theorem Sound.writeFile_eq (sound : tree.Sound)
    (leads : tree.resolve path = .ok (location, .file octets)) (revised : ByteArray) :
    tree.writeFile path revised = .ok (tree.put location (.file revised)) := by
  obtain ⟨taken, -, lies⟩ := resolve_eq_ok_iff.mp leads
  obtain ⟨front, name, directory, whole, moves, down, before, isDirectory, entry⟩ :=
    sound.entry_of_file leads
  have filled : name.isEmpty = false := (Bool.or_eq_false_iff.mp moves).1
  have kept : Text.dropTailWhile (·.isEmpty) path.segments = front ++ [name] := by
    rw [whole]
    apply Text.dropTailWhile_eq_self
    intro last isLast
    obtain rfl : name = last := by simpa using isLast
    exact filled
  have found := entryOf_eq taken kept before isDirectory
  simp only [moves, beq_eq_false_iff_ne.mpr down, whole, List.length_append, List.length_singleton,
    Bool.or_self, Bool.false_eq_true, ↓reduceIte, Nat.lt_irrefl, decide_false] at found
  simp [writeFile, found, entry, lies, bind, Except.bind, pure, Except.pure]

/-- A directory that is there is not made again. -/
theorem makeDirectory_eq (leads : tree.resolve path = .ok (location, .directory)) :
    tree.makeDirectory path = .error .alreadyExists := by
  obtain ⟨taken, way, lies⟩ := resolve_eq_ok_iff.mp leads
  obtain ⟨tail, empty, whole⟩ := Text.exists_dropTailWhile_append (·.isEmpty) path.segments
  have idle : Path.meaningful tail = [] :=
    Path.meaningful_eq_nil_iff.mpr fun segment member => by simp [Path.isIdle, empty segment member]
  rw [← whole] at way
  obtain ⟨middle, before, after⟩ := walk_append_eq_ok_iff.mp way
  have still := walk_meaningful after
  rw [idle] at still
  obtain rfl := Except.ok.inj still
  rcases List.eq_nil_or_concat (Text.dropTailWhile (·.isEmpty) path.segments) with
    none | ⟨front, name, ends⟩
  · -- Slashes alone lead to where the path starts.
    rw [none] at before
    obtain rfl := Except.ok.inj before
    have expected := expectDirectory_eq_ok_iff.mpr ⟨lies, rfl⟩
    simp [makeDirectory, entryOf, taken, none, walk, expected, bind, Except.bind, pure,
      Except.pure, throw, throwThe, MonadExceptOf.throw]
  · rw [List.concat_eq_append] at ends
    rw [ends] at before
    obtain ⟨directory, first, last⟩ := walk_append_eq_ok_iff.mp before
    obtain ⟨isDirectory, next, step_eq, rest⟩ := walk_cons_eq_ok_iff.mp last
    obtain rfl := Except.ok.inj rest
    have found := entryOf_eq taken ends first isDirectory
    by_cases special : (Path.isIdle name || name == "..") = true
    · simp [makeDirectory, found, special, bind, Except.bind, throw, throwThe,
        MonadExceptOf.throw]
    · have entry : entryAt directory name = .ok next := by
        rw [Bool.or_eq_true, not_or, beq_iff_eq] at special
        rwa [step, if_neg special.1, if_neg special.2] at step_eq
      simp [makeDirectory, found, special, entry, lies, bind, Except.bind, throw, throwThe,
        MonadExceptOf.throw]

/-- In a sound tree the directory that a path to a file names an entry of is there, unless the path
has nothing but the name. -/
theorem Sound.directory?_of_file (sound : tree.Sound)
    (leads : tree.resolve path = .ok (location, .file octets)) :
    ∃ directory, path.directory? = some directory ∧
      (directory.text ≠ "" → ∃ above, tree.resolve directory = .ok (above, .directory)) := by
  obtain ⟨taken, -, -⟩ := resolve_eq_ok_iff.mp leads
  obtain ⟨plain, -, short⟩ := expectPath_eq_ok_iff.mp taken
  obtain ⟨front, name, above, whole, moves, down, before, isDirectory, -⟩ :=
    sound.entry_of_file leads
  obtain ⟨directory, name', found, isLast, moves', ⟨back, spelled⟩, absolute, steps⟩ :=
    (endsInStep_of_resolve leads).directory?
  refine ⟨directory, found, fun filled => ⟨above, resolve_eq_ok_iff.mpr ⟨?_, ?_, isDirectory⟩⟩⟩
  · have size : directory.text.utf8ByteSize ≤ path.text.utf8ByteSize := by
      have text : path.text = directory.text ++ String.ofList back := by
        apply String.toList_inj.mp
        simp [← spelled]
      rw [text, String.utf8ByteSize_append]
      exact Nat.le_add_right _ _
    refine expectPath_eq_ok_iff.mpr ⟨?_, filled, Nat.lt_of_le_of_lt size short⟩
    intro ended
    exact plain (by rw [← spelled]; exact List.mem_append_left _ ended)
  · have same : directory.steps = Path.meaningful front := by
      rw [Path.steps, whole, Path.meaningful_append, Path.meaningful_cons_step moves] at steps
      exact ((List.append_inj_left' steps rfl)).symm
    have start : tree.start directory = tree.start path := by
      rw [FileTree.start, FileTree.start, absolute]
    rw [start]
    refine walk_of_meaningful ?_ (.inl isDirectory)
    rw [← Path.steps, same]
    exact walk_meaningful before

/-- What an operation makes of a tree, on the host. -/
theorem update_eq (operation : FileTree → Except SystemError FileTree) :
    update operation tree = match operation tree with
      | .ok changed => (.ok (), changed)
      | .error error => (.error error, tree) := by
  have whole : update operation tree = (match operation tree with
      | .ok changed => (do set changed; return .ok ())
      | .error error => return .error error : StateM FileTree (Except SystemError Unit)) tree := rfl
  rw [whole]
  cases operation tree <;> rfl

/-- Making the directories of a path that are there leaves the tree as it is. -/
theorem makeDirectories_eq
    (lies : path.text ≠ "" → ∃ location, tree.resolve path = .ok (location, .directory)) :
    FileTree.host.makeDirectories path tree = (.ok (), tree) := by
  have chain (above : List Path) :
      FileTree.host.makeChain (path :: above) tree = (.ok (), tree) := by
    rw [Host.makeChain]
    by_cases empty : path.text = ""
    · rw [if_pos (String.isEmpty_iff.mpr empty)]
      rfl
    · obtain ⟨location, leads⟩ := lies empty
      have made : FileTree.host.makeDirectory path tree = (.error .alreadyExists, tree) := by
        have whole : FileTree.host.makeDirectory path tree =
            update (·.makeDirectory path) tree := rfl
        rw [whole, update_eq, makeDirectory_eq leads]
      have present : FileTree.host.isDirectory path tree = (true, tree) := by
        rw [Host.isDirectory, bind_eq_of_eq kind?_text, leads]
        rfl
      rw [if_neg (by simpa using empty), bind_eq_of_eq made]
      simp only [Host.orPresent]
      rw [bind_eq_of_eq present]
      rfl
  obtain ⟨above, ancestors⟩ : ∃ above, path.ancestors = path :: above := by
    rw [Path.ancestors]
    cases path.segments.length with
    | zero => exact ⟨[], rfl⟩
    | succ count =>
      rw [Path.ancestorsWithin]
      cases path.directory? with
      | none => exact ⟨_, rfl⟩
      | some directory => exact ⟨_, rfl⟩
  rw [Host.makeDirectories, ancestors, bind_eq_of_eq (chain above)]
  rfl

/-- In a sound tree a text that is written through a path to a file is put where the path leads, and
this succeeds. -/
theorem Sound.writeText_eq (sound : tree.Sound)
    (leads : tree.resolve path = .ok (location, .file octets)) (text : String) :
    FileTree.host.writeText path text tree =
      (.ok (), tree.put location (.file text.toUTF8)) := by
  obtain ⟨directory, found, lies⟩ := sound.directory?_of_file leads
  have written : FileTree.host.write path text.toUTF8 tree =
      (.ok (), tree.put location (.file text.toUTF8)) := by
    have whole : FileTree.host.write path text.toUTF8 tree =
      update (·.writeFile path text.toUTF8) tree := rfl
    rw [whole, update_eq, sound.writeFile_eq leads]
  rw [Host.writeText, found, Option.getD_some, bind_eq_of_eq (makeDirectories_eq lies)]
  simp only [attempting, Except.mapError]
  rw [bind_eq_of_eq written]
  rfl

end Write

end DeclOrder.FileTree
