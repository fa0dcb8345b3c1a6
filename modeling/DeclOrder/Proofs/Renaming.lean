import DeclOrder.Proofs.Duplicate
import DeclOrder.Proofs.Text.Substitution

/-!
# Renamed duplicates

The names taken out are replaced one after the other, but since no name that takes a place is taken
out itself, this is one renaming of all words at once: a line keeps its characters, except that each
run that is the name of a duplicate becomes the name of the declaration that stands for it.
-/

namespace DeclOrder.Duplicate

/-- The name of the declaration that stands for a name: its base if it was taken out. -/
def representative (collapsed : List Duplicate) (name : String) : String :=
  ((collapsed.find? (·.name == name)).map (·.base)).getD name

/-- The word that stands for a word. -/
def renameWord (collapsed : List Duplicate) (word : List Char) : List Char :=
  (representative collapsed (String.ofList word)).toList

section Entries

variable {collapsed : List Duplicate}

/-- A name that was not taken out stands for itself. -/
theorem representative_of_not_mem {name : String} (kept : name ∉ collapsed.map (·.name)) :
    representative collapsed name = name := by
  have missing : collapsed.find? (·.name == name) = none := by
    rw [List.find?_eq_none]
    intro entry listed same
    exact kept (List.mem_map.mpr ⟨entry, listed, beq_iff_eq.mp same⟩)
  rw [representative, missing]
  rfl

/-- A name stands for itself, or an entry names it and the declaration that stands for it. -/
theorem representative_cases (collapsed : List Duplicate) (name : String) :
    (name ∉ collapsed.map (·.name) ∧ representative collapsed name = name) ∨
      ∃ entry ∈ collapsed, entry.name = name ∧ representative collapsed name = entry.base := by
  cases found : collapsed.find? (·.name == name) with
  | none =>
    have kept : name ∉ collapsed.map (·.name) := by
      intro listed
      obtain ⟨entry, member, same⟩ := List.mem_map.mp listed
      exact List.find?_eq_none.mp found entry member (beq_iff_eq.mpr same)
    exact .inl ⟨kept, representative_of_not_mem kept⟩
  | some entry =>
    have same : entry.name = name := by simpa using List.find?_some found
    refine .inr ⟨entry, List.mem_of_find?_eq_some found, same, ?_⟩
    rw [representative, found]
    rfl

/-- The entries name words, and no base is taken out itself. -/
structure Consistent (collapsed : List Duplicate) : Prop where
  /-- The names taken out are words. -/
  names : ∀ entry ∈ collapsed, Text.isWord entry.name = true
  /-- The names that take their places are words. -/
  bases : ∀ entry ∈ collapsed, Text.isWord entry.base = true
  /-- What takes the place of a name stays. -/
  settled : ∀ entry ∈ collapsed, entry.base ∉ collapsed.map (·.name)

/-- Fewer entries are consistent too. -/
theorem Consistent.tail {entry : Duplicate} (consistent : Consistent (entry :: collapsed)) :
    Consistent collapsed where
  names other member := consistent.names other (List.mem_cons_of_mem entry member)
  bases other member := consistent.bases other (List.mem_cons_of_mem entry member)
  settled other member listed :=
    consistent.settled other (List.mem_cons_of_mem entry member) (List.mem_cons_of_mem _ listed)

/-- Words stand for words. -/
theorem Consistent.keepsWords (consistent : Consistent collapsed) :
    Text.KeepsWords (renameWord collapsed) := by
  intro word isWord
  rw [renameWord]
  rcases representative_cases collapsed (String.ofList word) with ⟨-, same⟩ | ⟨entry, member, -, same⟩
  · rwa [same, String.toList_ofList]
  · rw [same]
    exact Text.isWord_iff_word.mp (consistent.bases entry member)

/-- Replacing the names taken out one after the other renames every word at once. -/
theorem Consistent.renameLine (consistent : Consistent collapsed) (line : String) :
    renameLine collapsed line = Text.mapLine (renameWord collapsed) line := by
  induction collapsed generalizing line with
  | nil =>
    have same : ∀ word, Text.Word word → renameWord [] word = word := fun word _ =>
      String.toList_ofList
    rw [Text.mapLine, Text.mapWords_eq_self same, String.ofList_toList]
    rfl
  | cons entry rest ih =>
    have name_word := Text.isWord_iff_word.mp (consistent.names entry List.mem_cons_self)
    have base_word := Text.isWord_iff_word.mp (consistent.bases entry List.mem_cons_self)
    have base_kept : entry.base ∉ rest.map (·.name) := fun listed =>
      consistent.settled entry List.mem_cons_self (List.mem_cons_of_mem _ listed)
    have keeps : Text.KeepsWords
        (fun word => if word = entry.name.toList then entry.base.toList else word) := by
      intro word isWord
      dsimp only
      split
      · exact base_word
      · exact isWord
    have first : Duplicate.renameLine (entry :: rest) line =
        Duplicate.renameLine rest (Text.substitute entry.name entry.base line) := rfl
    rw [first, ih consistent.tail, Text.substitute_eq_mapLine name_word base_word, Text.mapLine,
      Text.toList_mapLine, Text.mapWords_mapWords keeps]
    refine congrArg String.ofList (Text.mapWords_congr (fun word _ => ?_) _)
    by_cases same : word = entry.name.toList
    · -- The base is not taken out, so no later entry changes it again.
      subst same
      rw [if_pos rfl, renameWord, String.ofList_toList, representative_of_not_mem base_kept]
      simp [renameWord, representative]
    · have different : (entry.name == String.ofList word) = false := by
        rw [beq_eq_false_iff_ne]
        rintro equal
        exact same (by rw [equal, String.toList_ofList])
      rw [if_neg same, renameWord, renameWord, representative, representative, List.find?_cons,
        different]

/-- A word that names no entry and no base stands for itself and for nothing else. -/
theorem renameWord_eq_iff {fixed : String}
    (spared : ∀ entry ∈ collapsed, entry.name ≠ fixed ∧ entry.base ≠ fixed) {word : List Char} :
    renameWord collapsed word = fixed.toList ↔ word = fixed.toList := by
  have back : word = fixed.toList ↔ String.ofList word = fixed := by
    constructor
    · rintro rfl
      exact String.ofList_toList
    · rintro rfl
      exact String.toList_ofList.symm
  rw [renameWord, String.toList_inj, back]
  rcases representative_cases collapsed (String.ofList word) with
    ⟨-, same⟩ | ⟨entry, member, named, same⟩
  · rw [same]
  · rw [same]
    exact iff_of_false (spared entry member).2 fun equal =>
      (spared entry member).1 (named.trans equal)

end Entries

section Collapse

variable {blocks : List Block} {builtin : Option String}

/-- The base of a duplicate is declared. -/
theorem exists_base_of_mem_duplicates {name : String} (listed : name ∈ duplicates blocks) :
    ∃ base, base? name = some base ∧ base ∈ blocks.map (·.name) := by
  obtain ⟨block, -, duplicate, rfl⟩ := mem_duplicates_iff.mp listed
  obtain ⟨base, original, stripped, last, -⟩ := isDuplicate_iff.mp duplicate
  obtain ⟨member, named⟩ := of_lastNamed? last
  exact ⟨base, stripped, List.mem_map.mpr ⟨original, member, named⟩⟩

/-- The name that a duplicate leads to is declared and no duplicate. -/
theorem survivor_duplicates {name : String} (declared : name ∈ blocks.map (·.name)) :
    survivor (duplicates blocks) name ∈ blocks.map (·.name) ∧
      survivor (duplicates blocks) name ∉ duplicates blocks := by
  fun_induction survivor (duplicates blocks) name with
  | case1 name listed base found ih =>
    obtain ⟨other, stripped, base_declared⟩ := exists_base_of_mem_duplicates listed
    obtain rfl := Option.some.inj (found.symm.trans stripped)
    exact ih base_declared
  | case2 name listed missing =>
    obtain ⟨base, stripped, -⟩ := exists_base_of_mem_duplicates listed
    exact absurd (missing.symm.trans stripped) (by simp)
  | case3 name kept => exact ⟨declared, kept⟩

/-- The entries are the duplicates with the names that they lead to. -/
theorem mem_collapsed_iff {entry : Duplicate} :
    entry ∈ (collapse blocks builtin).collapsed ↔
      entry.name ∈ duplicates (withoutBuiltin blocks builtin) ∧
        entry.base = survivor (duplicates (withoutBuiltin blocks builtin)) entry.name := by
  have listed : entry ∈ (collapse blocks builtin).collapsed ↔
      ∃ name ∈ (duplicates (withoutBuiltin blocks builtin)).names,
        (⟨name, survivor (duplicates (withoutBuiltin blocks builtin)) name⟩ : Duplicate) = entry :=
    List.mem_map
  rw [listed]
  constructor
  · rintro ⟨name, member, rfl⟩
    exact ⟨member, rfl⟩
  · rintro ⟨member, same⟩
    exact ⟨entry.name, member, by rw [← same]⟩

/-- Names taken out and the names that take their places are declared. -/
theorem declared_of_mem_collapsed {entry : Duplicate}
    (listed : entry ∈ (collapse blocks builtin).collapsed) :
    entry.name ∈ blocks.map (·.name) ∧ entry.base ∈ blocks.map (·.name) := by
  obtain ⟨duplicate, same⟩ := mem_collapsed_iff.mp listed
  have within {name : String} (member : name ∈ (withoutBuiltin blocks builtin).map (·.name)) :
      name ∈ blocks.map (·.name) := (List.filter_sublist.map Block.name).subset member
  obtain ⟨block, member, -, named⟩ := mem_duplicates_iff.mp duplicate
  have declared := List.mem_map.mpr ⟨block, member, named⟩
  exact ⟨within declared, same ▸ within (survivor_duplicates declared).1⟩

/-- Collapsing blocks that are named by words takes names out consistently. -/
theorem consistent_collapse (words : ∀ block ∈ blocks, Text.isWord block.name = true) :
    Consistent (collapse blocks builtin).collapsed := by
  have declared_word : ∀ name ∈ blocks.map (·.name), Text.isWord name = true :=
    List.forall_mem_map.mpr words
  refine ⟨fun entry listed => ?_, fun entry listed => ?_, fun entry listed taken => ?_⟩
  · exact declared_word _ (declared_of_mem_collapsed listed).1
  · exact declared_word _ (declared_of_mem_collapsed listed).2
  · obtain ⟨duplicate, same⟩ := mem_collapsed_iff.mp listed
    obtain ⟨block, member, -, named⟩ := mem_duplicates_iff.mp duplicate
    have declared := List.mem_map.mpr ⟨block, member, named⟩
    rw [map_name_collapsed, same] at taken
    exact (survivor_duplicates declared).2 taken

/-- A name that no block has is neither taken out nor put in the place of another. -/
theorem spared_of_undeclared {fixed : String} (undeclared : ∀ block ∈ blocks, block.name ≠ fixed) :
    ∀ entry ∈ (collapse blocks builtin).collapsed, entry.name ≠ fixed ∧ entry.base ≠ fixed := by
  intro entry listed
  obtain ⟨name_declared, base_declared⟩ := declared_of_mem_collapsed listed
  have different : ∀ name ∈ blocks.map (·.name), name ≠ fixed := List.forall_mem_map.mpr undeclared
  exact ⟨different _ name_declared, different _ base_declared⟩

end Collapse

end DeclOrder.Duplicate
