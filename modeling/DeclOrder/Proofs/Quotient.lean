import DeclOrder.Proofs.Mention
import DeclOrder.Proofs.Renaming
import DeclOrder.Proofs.Resolution

/-!
# References after collapsing

Collapsing rewrites texts, and the references are read off the rewritten texts again. What is read
then is the quotient of what was read before: each reference to a duplicate has become one to the
declaration that stands for it, and no other reference has come up or been lost.
-/

namespace DeclOrder

open Duplicate

namespace Duplicate

section Entries

variable {collapsed : List Duplicate}

/-- A word is renamed to the name of the declaration that stands for it. -/
theorem mapLine_renameWord {name : String} (isWord : Text.isWord name = true) :
    Text.mapLine (renameWord collapsed) name = representative collapsed name := by
  rw [Text.mapLine, Text.mapWords_word (Text.isWord_iff_word.mp isWord), renameWord,
    String.ofList_toList, String.ofList_toList]

/-- A text is renamed to a word exactly if it is a word that the new word stands for. -/
theorem mapLine_renameWord_eq_iff (consistent : Consistent collapsed) {text name : String}
    (isWord : Text.isWord name = true) :
    Text.mapLine (renameWord collapsed) text = name ↔
      Text.isWord text = true ∧ representative collapsed text = name := by
  constructor
  · intro same
    have renamed : Text.Word (Text.mapWords (renameWord collapsed) text.toList) := by
      rw [← Text.toList_mapLine, same]
      exact Text.isWord_iff_word.mp isWord
    have text_word := Text.isWord_iff_word.mpr (Text.word_of_mapWords consistent.keepsWords renamed)
    exact ⟨text_word, (mapLine_renameWord text_word).symm.trans same⟩
  · rintro ⟨text_word, same⟩
    exact (mapLine_renameWord text_word).trans same

end Entries

section Collapse

variable {blocks : List Block} {builtin : Option String}

/-- The scan for unions keeps in step if no block has a name that opens one. -/
theorem keepsUnions_collapse (union : ∀ block ∈ blocks, block.name ≠ "Union")
    (optional : ∀ block ∈ blocks, ¬ "Optional".toList <:+ block.name.toList) :
    Mention.KeepsUnions (renameWord (collapse blocks builtin).collapsed) where
  union _ := renameWord_eq_iff (spared_of_undeclared union)
  optional word _ := by
    rw [renameWord]
    rcases representative_cases (collapse blocks builtin).collapsed (String.ofList word) with
      ⟨-, same⟩ | ⟨entry, listed, named, same⟩
    · rw [same, (String.toList_ofList : (String.ofList word).toList = word)]
    · have undeclared : ∀ name ∈ blocks.map (·.name), ¬ "Optional".toList <:+ name.toList :=
        List.forall_mem_map.mpr optional
      obtain ⟨name_declared, base_declared⟩ := declared_of_mem_collapsed listed
      have word_eq : word = entry.name.toList := by rw [named, String.toList_ofList]
      rw [same, word_eq]
      exact iff_of_false (undeclared _ base_declared) (undeclared _ name_declared)

/-- What stands for a declared name is the name of a block that stays. -/
theorem representative_mem_collapse {name : String}
    (declared : name ∈ (withoutBuiltin blocks builtin).map (·.name)) :
    representative (collapse blocks builtin).collapsed name ∈
      (collapse blocks builtin).blocks.map (·.name) := by
  rw [map_name_collapse, List.mem_filter, decide_eq_true_eq]
  rcases representative_cases (collapse blocks builtin).collapsed name with
    ⟨kept, same⟩ | ⟨entry, listed, rfl, same⟩
  · rw [same]
    exact ⟨declared, kept⟩
  · obtain ⟨-, base_eq⟩ := mem_collapsed_iff.mp listed
    rw [same, base_eq, map_name_collapsed]
    exact survivor_duplicates declared

/-- Only declared names are represented by declared names. -/
theorem declared_of_representative {name : String}
    (declared : representative (collapse blocks builtin).collapsed name ∈ blocks.map (·.name)) :
    name ∈ blocks.map (·.name) := by
  rcases representative_cases (collapse blocks builtin).collapsed name with
    ⟨-, same⟩ | ⟨entry, listed, rfl, -⟩
  · exact same ▸ declared
  · exact (declared_of_mem_collapsed listed).1

end Collapse

end Duplicate

namespace Resolution

section Renamed

variable {blocks : List Block} (words : ∀ block ∈ blocks, Text.isWord block.name = true)
  (union : ∀ block ∈ blocks, block.name ≠ "Union")
  (optional : ∀ block ∈ blocks, ¬ "Optional".toList <:+ block.name.toList)

include words union optional

/-- A block that stays mentions the words that stand for the words it mentioned. -/
theorem mem_mentions_renamed {block : Block} {name : String} (isWord : Text.isWord name = true) :
    name ∈ Mention.ofLines (renamed (collapse blocks none).collapsed block).body ↔
      ∃ original ∈ Mention.ofLines block.body, Text.isWord original = true ∧
        representative (collapse blocks none).collapsed original = name := by
  have consistent : Consistent (collapse blocks none).collapsed := consistent_collapse words
  have body_eq : (renamed (collapse blocks none).collapsed block).body =
      block.body.map (Text.mapLine (renameWord (collapse blocks none).collapsed)) := by
    rw [body_renamed, funext consistent.renameLine]
  rw [body_eq, Mention.mem_ofLines_map consistent.keepsWords (keepsUnions_collapse union optional)]
  refine exists_congr fun original => and_congr_right fun _ => ?_
  exact mapLine_renameWord_eq_iff consistent isWord

/-- The references of a block that stays are those it had, each to the declaration that stands for
it, without the block itself. -/
theorem references_renamed {block : Block}
    (kept : block.name ∉ (collapse blocks none).collapsed.map (·.name)) :
    (annotated (NameSet.ofList ((collapse blocks none).blocks.map (·.name)))
        (renamed (collapse blocks none).collapsed block)).references =
      (NameSet.ofList ((annotated (NameSet.ofList (blocks.map (·.name))) block).references.names.map
        (representative (collapse blocks none).collapsed))).filter
          (decide <| · ≠ block.name) := by
  refine NameSet.ext_mem fun name => ?_
  rw [mem_references_annotated, NameSet.mem_filter, NameSet.mem_ofList, NameSet.mem_ofList,
    decide_eq_true_eq]
  have declared_word : ∀ name ∈ blocks.map (·.name), Text.isWord name = true :=
    List.forall_mem_map.mpr words
  have within {name : String} (stays : name ∈ (collapse blocks none).blocks.map (·.name)) :
      name ∈ blocks.map (·.name) := by
    rw [map_name_collapse, withoutBuiltin_none] at stays
    exact List.mem_of_mem_filter stays
  constructor
  · rintro ⟨mentioned, different, stays⟩
    have isWord := declared_word name (within stays)
    obtain ⟨original, original_mentioned, -, same⟩ :=
      (mem_mentions_renamed words union optional isWord).mp mentioned
    have original_different : original ≠ block.name := by
      rintro rfl
      exact different (same.symm.trans (representative_of_not_mem kept))
    have original_declared := declared_of_representative (same ▸ within stays)
    have reference := mem_references_annotated.mpr
      ⟨original_mentioned, original_different, NameSet.mem_ofList.mpr original_declared⟩
    exact ⟨List.mem_map.mpr ⟨original, reference, same⟩, different⟩
  · rintro ⟨listed, different⟩
    obtain ⟨original, reference, rfl⟩ := List.mem_map.mp listed
    obtain ⟨mentioned, -, known⟩ := mem_references_annotated.mp reference
    have declared := NameSet.mem_ofList.mp known
    have stays := representative_mem_collapse ((withoutBuiltin_none blocks).symm ▸ declared)
    refine ⟨?_, different, stays⟩
    exact (mem_mentions_renamed words union optional (declared_word _ (within stays))).mpr
      ⟨original, mentioned, declared_word original declared, rfl⟩

/-- A block that stays refers to itself if it did, or if it stands for one of its references. -/
theorem refersToSelf_renamed {block : Block} (member : block ∈ blocks)
    (kept : block.name ∉ (collapse blocks none).collapsed.map (·.name)) :
    (annotated (NameSet.ofList ((collapse blocks none).blocks.map (·.name)))
        (renamed (collapse blocks none).collapsed block)).refersToSelf = true ↔
      (annotated (NameSet.ofList (blocks.map (·.name))) block).refersToSelf = true ∨
        ∃ name ∈ (annotated (NameSet.ofList (blocks.map (·.name))) block).references,
          representative (collapse blocks none).collapsed name = block.name := by
  have declared : block.name ∈ blocks.map (·.name) := List.mem_map_of_mem member
  rw [refersToSelf_annotated, refersToSelf_annotated]
  refine (mem_mentions_renamed words union optional (words block member)).trans ?_
  constructor
  · rintro ⟨original, mentioned, -, same⟩
    by_cases own : original = block.name
    · exact .inl (own ▸ mentioned)
    · have original_declared := declared_of_representative (same.symm ▸ declared)
      exact .inr ⟨original, mem_references_annotated.mpr
        ⟨mentioned, own, NameSet.mem_ofList.mpr original_declared⟩, same⟩
  · rintro (mentioned | ⟨original, reference, same⟩)
    · exact ⟨block.name, mentioned, words block member, representative_of_not_mem kept⟩
    · obtain ⟨mentioned, -, known⟩ := mem_references_annotated.mp reference
      have declared_word : ∀ name ∈ blocks.map (·.name), Text.isWord name = true :=
        List.forall_mem_map.mpr words
      have isWord := declared_word original (NameSet.mem_ofList.mp known)
      exact ⟨original, mentioned, isWord, same⟩

end Renamed

/-- Collapsing is a quotient of the graph of references: the blocks that stay are those that are
not taken out, and each of them has the references it had, with the declaration that stands for it
in the place of each, but never itself. It refers to itself if it did before, or if it stands for
one of the references it had. -/
theorem annotate_collapse {blocks : List Block} (distinct : (blocks.map (·.name)).Nodup)
    (words : ∀ block ∈ blocks, Text.isWord block.name = true)
    (union : ∀ block ∈ blocks, block.name ≠ "Union")
    (optional : ∀ block ∈ blocks, ¬ "Optional".toList <:+ block.name.toList) :
    (annotate (collapse blocks none).blocks).map (·.name) =
        (blocks.map (·.name)).filter (decide <| · ∉ (collapse blocks none).collapsed.map (·.name)) ∧
      ∀ before ∈ annotate blocks, ∀ after ∈ annotate (collapse blocks none).blocks,
        after.name = before.name →
        after.references =
            (NameSet.ofList (before.references.names.map
              (representative (collapse blocks none).collapsed))).filter
                (decide <| · ≠ before.name) ∧
          (after.refersToSelf = true ↔ before.refersToSelf = true ∨
            ∃ name ∈ before.references,
              representative (collapse blocks none).collapsed name = before.name) := by
  constructor
  · rw [map_name_annotate, map_name_collapse, withoutBuiltin_none]
  · intro before before_listed after after_listed same_name
    rw [annotate_eq] at before_listed after_listed
    obtain ⟨block, member, rfl⟩ := List.mem_map.mp before_listed
    obtain ⟨left, left_member, rfl⟩ := List.mem_map.mp after_listed
    rw [blocks_collapse_eq] at left_member
    obtain ⟨original, stays, rfl⟩ := List.mem_map.mp left_member
    obtain ⟨known, kept⟩ := List.mem_filter.mp stays
    rw [withoutBuiltin_none] at known
    obtain rfl : original = block := List.inj_on_of_nodup_map distinct known member same_name
    have not_taken : original.name ∉ (collapse blocks none).collapsed.map (·.name) := by
      rw [map_name_collapsed]
      exact of_decide_eq_true kept
    exact ⟨references_renamed words union optional not_taken,
      refersToSelf_renamed words union optional member not_taken⟩

/-- Two declarations that both refer to the second, their bodies being the same, and one that
refers to the second in all three ways. -/
def linked : List Block :=
  [{ name := "Link", lines := ["class Link(Base):", "    up: Link1"] },
   { name := "Link1", lines := ["class Link1(Base):", "    up: Link1"] },
   { name := "Page", lines :=
      ["class Page(Base):", "    links: List[Link1]", "    home: Optional[Union[Link1, Page]]"] }]

/-- Once the second declaration is taken out, the first refers to itself and the third to the
first. -/
theorem annotate_collapse_linked :
    (collapse linked none).collapsed = [⟨"Link1", "Link"⟩] ∧
      ∀ after ∈ annotate (collapse linked none).blocks,
        (after.name = "Link" → after.references = ∅ ∧ after.refersToSelf = true) ∧
        (after.name = "Page" →
          after.references = NameSet.ofList ["Link"] ∧ after.refersToSelf = true) := by
  obtain ⟨-, quotient⟩ :=
    annotate_collapse (by decide : (linked.map (·.name)).Nodup) (by decide) (by decide) (by decide)
  have collapsed_eq : (collapse linked none).collapsed = [⟨"Link1", "Link"⟩] := by decide +kernel
  have link : ∃ before ∈ annotate linked, before.name = "Link" ∧
      before.references = NameSet.ofList ["Link1"] := by decide +kernel
  have page : ∃ before ∈ annotate linked, before.name = "Page" ∧
      before.references = NameSet.ofList ["Link1"] ∧ before.refersToSelf = true := by
    decide +kernel
  rw [collapsed_eq] at quotient
  refine ⟨collapsed_eq, fun after listed => ⟨fun named => ?_, fun named => ?_⟩⟩
  · obtain ⟨before, member, before_named, references⟩ := link
    obtain ⟨after_references, after_self⟩ :=
      quotient before member after listed (named.trans before_named.symm)
    rw [before_named, references] at after_references after_self
    exact ⟨after_references.trans (by decide), after_self.mpr (.inr (by decide))⟩
  · obtain ⟨before, member, before_named, references, refers⟩ := page
    obtain ⟨after_references, after_self⟩ :=
      quotient before member after listed (named.trans before_named.symm)
    rw [before_named, references] at after_references
    exact ⟨after_references.trans (by decide), after_self.mpr (.inl refers)⟩

end Resolution

end DeclOrder
