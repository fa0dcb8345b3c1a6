import DeclOrder.Proofs.Renaming

/-!
# Whole words after collapsing

A word stands in a text by itself where no word character goes before it or follows it. Renaming
the words of a text moves none of them, so the words that stand in the renamed text are those that
stood in the text, renamed. Collapsing therefore rewrites the lines of the blocks that stay all at
once: no replacement feeds another or reaches into a longer word, and since every base stays itself,
no name that was taken out is left anywhere.
-/

namespace DeclOrder

namespace Text

/-- The word stands in the text by itself: no word character goes before it or follows it. -/
def StandsIn (word text : List Char) : Prop :=
  ∃ front back, text = front ++ (word ++ back) ∧ front.getLast?.any isWordChar = false ∧
    Run word back

/-- What a text ends in is not a word character if what the whole ends in is not. -/
theorem any_getLast?_of_append (front : List Char) {back : List Char}
    (apart : (front ++ back).getLast?.any isWordChar = false) :
    back.getLast?.any isWordChar = false := by
  cases last : back.getLast? with
  | none => rfl
  | some final =>
    rw [List.getLast?_append, last] at apart
    exact apart

/-- The whole does not end in a word character if neither text does. -/
theorem any_getLast?_append (front : List Char) {back : List Char}
    (apart_front : back = [] → front.getLast?.any isWordChar = false)
    (apart_back : back.getLast?.any isWordChar = false) :
    (front ++ back).getLast?.any isWordChar = false := by
  cases last : back.getLast? with
  | none =>
    have empty := List.getLast?_eq_none_iff.mp last
    rw [empty, List.append_nil]
    exact apart_front empty
  | some final =>
    rw [last] at apart_back
    rw [List.getLast?_append, last]
    exact apart_back

/-- No word stands in an empty text. -/
theorem not_standsIn_nil (word : List Char) : ¬ StandsIn word [] := by
  rintro ⟨front, back, empty, -, run⟩
  have no_word := (List.append_eq_nil_iff.mp (List.append_eq_nil_iff.mp empty.symm).2).1
  exact run.nonempty no_word

/-- Behind a character that does not belong to words stand the words that stand in the text with
it. -/
theorem standsIn_other {char : Char} (other : isWordChar char = false) {word rest : List Char} :
    StandsIn word (char :: rest) ↔ StandsIn word rest := by
  constructor
  · rintro ⟨front, back, whole, apart, run⟩
    cases front with
    | nil =>
      have starts := run.toWord.letter_head? back
      rw [← List.nil_append (word ++ back), ← whole, List.head?_cons, Option.any_some,
        other] at starts
      exact absurd starts Bool.false_ne_true
    | cons first others =>
      have rest_eq := (List.cons.inj whole).2
      have apart_others := any_getLast?_of_append [first] apart
      exact ⟨others, back, rest_eq, apart_others, run⟩
  · rintro ⟨front, back, rfl, apart, run⟩
    have apart_front := any_getLast?_append [char] (fun _ => other) apart
    exact ⟨char :: front, back, rfl, apart_front, run⟩

/-- In a text that starts with a run stand this run and the words that stand in the rest. -/
theorem standsIn_run {first rest : List Char} (starts : Run first rest) {word : List Char} :
    StandsIn word (first ++ rest) ↔ word = first ∨ StandsIn word rest := by
  constructor
  · rintro ⟨front, back, whole, apart, run⟩
    rcases List.append_eq_append_iff.mp whole with
      ⟨middle, rfl, rest_eq⟩ | ⟨middle, first_eq, -⟩
    · -- The word comes after the run.
      exact .inr ⟨middle, back, rest_eq, any_getLast?_of_append first apart, run⟩
    · -- The word begins in the run, so it begins where the run does.
      have no_front : front = [] := by
        by_contra nonempty
        have last_letter := starts.letters (front.getLast nonempty)
          (first_eq ▸ List.mem_append_left middle (List.getLast_mem nonempty))
        rw [List.getLast?_eq_some_getLast nonempty, Option.any_some, last_letter] at apart
        exact Bool.false_ne_true apart.symm
      rw [no_front, List.nil_append] at whole
      exact .inl (run.unique starts whole.symm).1
  · rintro (rfl | ⟨front, back, rfl, apart, run⟩)
    · exact ⟨[], rest, rfl, rfl, starts⟩
    · -- The word does not go on from the run, since the run has ended.
      have apart_first : front = [] → first.getLast?.any isWordChar = false := by
        rintro rfl
        have goes_on := run.toWord.letter_head? back
        have ended := starts.letter_head?
        exact absurd (ended.symm.trans goes_on) Bool.false_ne_true
      exact ⟨first ++ front, back, (List.append_assoc ..).symm,
        any_getLast?_append first apart_first apart, run⟩

/-- The words that stand in a renamed text are those that stood in it, renamed. -/
theorem standsIn_mapWords {rename : List Char → List Char} (keeps : KeepsWords rename)
    {word text : List Char} :
    StandsIn word (mapWords rename text) ↔
      ∃ original, StandsIn original text ∧ rename original = word := by
  induction text using run_induction with
  | nil =>
    rw [mapWords_nil]
    exact iff_of_false (not_standsIn_nil word) fun ⟨original, stands, _⟩ =>
      not_standsIn_nil original stands
  | other char rest notLetter ih =>
    rw [mapWords_other notLetter, standsIn_other notLetter, ih]
    simp only [standsIn_other notLetter]
  | run first rest run ih =>
    rw [mapWords_run run, standsIn_run (run.mapWords keeps), ih]
    simp only [standsIn_run run, or_and_right, exists_or, exists_eq_left]
    exact or_congr_left eq_comm

end Text

namespace Duplicate

/-- What collapsing makes of names and lines. -/
structure Substituted (blocks : List Block) (builtin : Option String) (left : Collapse) : Prop where
  /-- The names taken out are those that a duplicate has. -/
  taken : ∀ name, name ∈ left.collapsed.map (·.name) ↔
    ∃ block ∈ withoutBuiltin blocks builtin,
      isDuplicate (withoutBuiltin blocks builtin) block = true ∧ block.name = name
  /-- What stands for a name taken out is the base recorded for it. -/
  renamed : ∀ entry ∈ left.collapsed,
    renameWord left.collapsed entry.name.toList = entry.base.toList
  /-- Every other word stands for itself. -/
  fixed : ∀ word, String.ofList word ∉ left.collapsed.map (·.name) →
    renameWord left.collapsed word = word
  /-- The blocks that are neither built-in nor of a name taken out stay in their order, with every
  word of every line renamed and every other character kept. -/
  stays : left.blocks =
    (blocks.filter fun block =>
      decide (builtin ≠ some block.name ∧ block.name ∉ left.collapsed.map (·.name))).map
        fun block => { block with
          lines := block.lines.map (Text.mapLine (renameWord left.collapsed)) }
  /-- A recorded base is the name of a block that stays, and it is not taken out itself. -/
  bases : ∀ entry ∈ left.collapsed,
    entry.base ∈ left.blocks.map (·.name) ∧ entry.base ∉ left.collapsed.map (·.name)
  /-- No name taken out stands by itself in a line that is left. -/
  gone : ∀ block ∈ left.blocks, ∀ line ∈ block.lines, ∀ entry ∈ left.collapsed,
    ¬ Text.StandsIn entry.name.toList line.toList

section Collapse

variable {blocks : List Block} {builtin : Option String}

/-- One base is recorded for a name, and it stands for the name. -/
theorem representative_of_mem {entry : Duplicate}
    (listed : entry ∈ (collapse blocks builtin).collapsed) :
    representative (collapse blocks builtin).collapsed entry.name = entry.base := by
  rcases representative_cases (collapse blocks builtin).collapsed entry.name with
    ⟨missing, -⟩ | ⟨other, other_listed, same_name, same_base⟩
  · exact absurd (List.mem_map_of_mem listed) missing
  · rw [same_base, (mem_collapsed_iff.mp other_listed).2, same_name,
      (mem_collapsed_iff.mp listed).2]

/-- A recorded base is the name of a block that stays. -/
theorem base_mem_collapse {entry : Duplicate}
    (listed : entry ∈ (collapse blocks builtin).collapsed) :
    entry.base ∈ (collapse blocks builtin).blocks.map (·.name) := by
  obtain ⟨duplicate, base_eq⟩ := mem_collapsed_iff.mp listed
  obtain ⟨block, known, -, named⟩ := mem_duplicates_iff.mp duplicate
  have declared : entry.name ∈ (withoutBuiltin blocks builtin).map (·.name) :=
    List.mem_map.mpr ⟨block, known, named⟩
  rw [map_name_collapse, List.mem_filter, decide_eq_true_eq, map_name_collapsed, base_eq]
  exact survivor_duplicates declared

/-- The blocks that stay are those that are neither built-in nor of a name taken out. -/
theorem surviving_eq_filter (blocks : List Block) (builtin : Option String) :
    surviving blocks builtin = blocks.filter fun block =>
      decide (builtin ≠ some block.name ∧
        block.name ∉ (collapse blocks builtin).collapsed.map (·.name)) := by
  rw [surviving, withoutBuiltin, List.filter_filter, ← withoutBuiltin, map_name_collapsed]
  refine List.filter_congr fun block _ => ?_
  rw [Bool.eq_iff_iff]
  simp [NameSet.mem_iff, and_comm]

/-- Once the duplicates are renamed in a block, none of their names stands in its lines. -/
theorem not_standsIn_renamed (consistent : Consistent (collapse blocks builtin).collapsed)
    {entry : Duplicate} (listed : entry ∈ (collapse blocks builtin).collapsed) (line : String) :
    ¬ Text.StandsIn entry.name.toList
      (Text.mapLine (renameWord (collapse blocks builtin).collapsed) line).toList := by
  rw [Text.toList_mapLine, Text.standsIn_mapWords consistent.keepsWords]
  rintro ⟨original, -, same⟩
  rw [renameWord, String.toList_inj] at same
  rcases representative_cases (collapse blocks builtin).collapsed (String.ofList original) with
    ⟨kept, itself⟩ | ⟨other, other_listed, -, base⟩
  · rw [← itself, same] at kept
    exact kept (List.mem_map_of_mem listed)
  · have taken := List.mem_map_of_mem listed (f := fun entry => entry.name)
    rw [← same, base] at taken
    exact consistent.settled other other_listed taken

end Collapse

/-- Where the blocks are named by words, collapsing replaces names at once and as whole words: in
the blocks that stay, each run of word characters that is a name taken out becomes the base recorded
for it, every other run and every other character is kept, the bases are names of blocks that stay,
and no name taken out is left in any line. -/
theorem substituted_collapse {blocks : List Block}
    (words : ∀ block ∈ blocks, Text.isWord block.name = true) (builtin : Option String) :
    Substituted blocks builtin (collapse blocks builtin) := by
  have consistent : Consistent (collapse blocks builtin).collapsed := consistent_collapse words
  have stays : (collapse blocks builtin).blocks =
      (surviving blocks builtin).map fun block =>
        { block with
          lines := block.lines.map
            (Text.mapLine (renameWord (collapse blocks builtin).collapsed)) } := by
    rw [blocks_collapse_eq, ← funext consistent.renameLine]
    rfl
  constructor
  case taken =>
    intro name
    rw [map_name_collapsed]
    exact mem_duplicates_iff
  case renamed =>
    intro entry listed
    rw [renameWord, String.ofList_toList, representative_of_mem listed]
  case fixed =>
    intro word kept
    rw [renameWord, representative_of_not_mem kept, String.toList_ofList]
  case stays =>
    rw [← surviving_eq_filter]
    exact stays
  case bases =>
    intro entry listed
    exact ⟨base_mem_collapse listed, consistent.settled entry listed⟩
  case gone =>
    intro block left line member entry listed
    rw [stays] at left
    obtain ⟨original, -, rfl⟩ := List.mem_map.mp left
    obtain ⟨before, -, rfl⟩ := List.mem_map.mp member
    exact not_standsIn_renamed consistent listed before

/-- A chain of duplicates that other declarations mention in signature and body, next to longer
names that begin with theirs. -/
def mentioned : List Block :=
  [{ name := "Role12", lines := ["class Role12(Base):", "    id: str"] },
   { name := "Base64", lines := ["class Base64(Base):", "    __root__: str"] },
   { name := "Role1", lines := ["class Role1(Base):", "    id: str"] },
   { name := "Party", lines :=
      ["class Party(Role1):", "    roles: List[Role12]", "    other: Dict[Role123, 'Role1']"] },
   { name := "Role", lines := ["class Role(Base):", "    id: str"] }]

/-- Both duplicates are replaced by the end of their chain, and no longer name is cut. -/
theorem substituted_collapse_mentioned :
    (∀ block ∈ mentioned, Text.isWord block.name = true) ∧
      (collapse mentioned (some "Base64")).collapsed = [⟨"Role1", "Role"⟩, ⟨"Role12", "Role"⟩] ∧
      (collapse mentioned (some "Base64")).blocks.map (·.lines) =
        [["class Party(Role):", "    roles: List[Role]", "    other: Dict[Role123, 'Role']"],
          ["class Role(Base):", "    id: str"]] ∧
      Substituted mentioned (some "Base64") (collapse mentioned (some "Base64")) := by
  have words : ∀ block ∈ mentioned, Text.isWord block.name = true := by decide
  exact ⟨words, by decide +kernel, by decide +kernel, substituted_collapse words (some "Base64")⟩

end Duplicate

end DeclOrder
