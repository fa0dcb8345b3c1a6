import DeclOrder.Proofs.Renaming
import DeclOrder.Proofs.Source
import DeclOrder.Proofs.Text.Cutting

/-!
# Kinds of renamed lines

What makes a line open a declaration is the word `class` in front of a blank, and what makes it a
forward statement is the word of the call among characters that do not belong to words. So renaming
makes no line one of another kind unless it makes one of these words of another. The declared name
is cut out at characters that do not belong to words, so it is renamed as a word of its own, and a
block that stays keeps it.
-/

namespace DeclOrder

section Kinds

variable {rename : List Char → List Char} (keeps : Text.KeepsWords rename)

include keeps

/-- A renamed line opens a declaration only if it did before, unless another word becomes the
marker. -/
theorem opensDeclaration_of_mapLine
    (marker : ∀ word, rename word = "class".toList → word = "class".toList) {line : String}
    (opens : opensDeclaration (Text.mapLine rename line) = true) : opensDeclaration line = true := by
  rw [opensDeclaration_iff, Text.toList_mapLine] at opens
  obtain ⟨rest, whole⟩ := opens
  have isWord : Text.Word "class".toList := Text.isWord_iff_word.mp (by decide)
  obtain ⟨word, tail, line_eq, -, named, tails⟩ := Text.exists_of_mapWords_eq_run keeps
    (isWord.run_cons (by decide : Text.isWordChar ' ' = false) rest) whole.symm
  obtain ⟨original, rfl, -⟩ := Text.exists_of_mapWords_eq_cons keeps (by decide) tails
  rw [opensDeclaration_iff, line_eq, marker word named]
  exact ⟨original, rfl⟩

/-- A renamed line is a forward statement only if it was one before, unless another word becomes
that of the call. -/
theorem isForwardStatement_of_mapLine
    (call : ∀ word, rename word = "update_forward_refs".toList →
      word = "update_forward_refs".toList) {line : String}
    (recognised : isForwardStatement (Text.mapLine rename line) = true) :
    isForwardStatement line = true := by
  obtain ⟨name, blanks, whole, name_word, blank⟩ := isForwardStatement_iff.mp recognised
  have call_word : Text.Word "update_forward_refs".toList := Text.isWord_iff_word.mp (by decide)
  have called : Text.mapWords rename line.toList =
      name ++ '.' :: ("update_forward_refs".toList ++ '(' :: ')' :: blanks) := by
    rw [← Text.toList_mapLine, whole]
    rfl
  obtain ⟨word, tail, line_eq, run, -, tail_eq⟩ := Text.exists_of_mapWords_eq_run keeps
    (name_word.run_cons (by decide : Text.isWordChar '.' = false) _) called
  obtain ⟨dotted, rfl, dotted_eq⟩ := Text.exists_of_mapWords_eq_cons keeps (by decide) tail_eq
  obtain ⟨callee, brackets, rfl, -, callee_eq, brackets_eq⟩ := Text.exists_of_mapWords_eq_run keeps
    (call_word.run_cons (by decide : Text.isWordChar '(' = false) _) dotted_eq
  obtain ⟨opened, rfl, opened_eq⟩ := Text.exists_of_mapWords_eq_cons keeps (by decide) brackets_eq
  obtain ⟨closed, rfl, closed_eq⟩ := Text.exists_of_mapWords_eq_cons keeps (by decide) opened_eq
  have blank_closed : ∀ char ∈ closed, Text.isBlank char = true :=
    Text.all_of_all_mapWords keeps Text.answers_isBlank (closed_eq ▸ blank)
  refine isForwardStatement_iff.mpr ⟨word, closed, ?_, run.toWord, blank_closed⟩
  rw [line_eq, call callee callee_eq]
  rfl

/-- Renaming makes no line one of another kind, unless it makes one of the two words that tell. -/
theorem keepsKinds_mapLine
    (marker : ∀ word, rename word = "class".toList → word = "class".toList)
    (call : ∀ word, rename word = "update_forward_refs".toList →
      word = "update_forward_refs".toList) : Block.KeepsKinds (Text.mapLine rename) where
  opens _ := opensDeclaration_of_mapLine keeps marker
  statement _ := isForwardStatement_of_mapLine keeps call
  blank line blank := by
    rw [Text.isBlankLine, Text.toList_mapLine] at blank
    exact List.all_eq_true.mpr
      (Text.all_of_all_mapWords keeps Text.answers_isBlank (List.all_eq_true.mp blank))

/-- A renamed line can be read back if it could before. -/
theorem plain_mapLine {line : String} (plain : Text.Plain line) :
    Text.Plain (Text.mapLine rename line) := by
  constructor
  · rw [Text.toList_mapLine, Text.mem_mapWords keeps (by decide)]
    exact plain.unbroken
  · rw [Text.toList_mapLine]
    exact fun ends => plain.unreturned (Text.getLast?_of_mapWords keeps (by decide) ends)

/-- A renamed signature opens a declaration of the same name, if the marker and this name are
kept. -/
theorem declaredName_mapLine (marker : rename "class".toList = "class".toList) {signature : String}
    (opens : opensDeclaration signature = true)
    (isWord : Text.Word (declaredName signature).toList)
    (named : rename (declaredName signature).toList = (declaredName signature).toList) :
    opensDeclaration (Text.mapLine rename signature) = true ∧
      declaredName (Text.mapLine rename signature) = declaredName signature := by
  obtain ⟨rest, whole⟩ := opensDeclaration_iff.mp opens
  have marker_word : Text.Word "class".toList := Text.isWord_iff_word.mp (by decide)
  have renamed : (Text.mapLine rename signature).toList =
      classMarker.toList ++ Text.mapWords rename rest := by
    have run := marker_word.run_cons (by decide : Text.isWordChar ' ' = false) rest
    have shape : classMarker.toList ++ rest = "class".toList ++ ' ' :: rest := rfl
    rw [Text.toList_mapLine, ← whole, shape, Text.mapWords_run run, marker,
      Text.mapWords_other (by decide)]
    rfl
  have parenthesis : (Text.mapWords rename rest).contains '(' = rest.contains '(' := by
    rw [Bool.eq_iff_iff, List.contains_iff_mem, List.contains_iff_mem,
      Text.mem_mapWords keeps (by decide)]
  have name_eq (line : String) {rest : List Char} (whole : classMarker.toList ++ rest = line.toList) :
      (declaredName line).toList =
        Text.trim (rest.takeWhile (· != if rest.contains '(' then '(' else ':')) := by
    rw [declaredName, ← whole, Text.after?_eq_some_iff.mpr rfl, String.toList_ofList]
    rfl
  have stop_other (stop : Char) (other : Text.isWordChar stop = false) :
      Text.Answers (· != stop) true := (Text.answers_beq other).not
  refine ⟨opensDeclaration_iff.mpr ⟨_, renamed.symm⟩, ?_⟩
  have stop_eq : Text.isWordChar (if rest.contains '(' then '(' else ':') = false := by
    split <;> decide
  rw [← String.toList_inj, name_eq _ renamed.symm, parenthesis,
    Text.takeWhile_mapWords keeps (stop_other _ stop_eq), Text.trim,
    Text.strip_mapWords keeps Text.answers_isBlank, ← Text.trim, ← name_eq _ whole,
    Text.mapWords_word isWord, named]

end Kinds

namespace Duplicate

variable {collapsed : List Duplicate}

/-- A block that stays can still be written and read back when the duplicates are renamed in it,
unless the words that tell the kind of a line are among the names. -/
theorem writable_renamed (consistent : Consistent collapsed)
    (marker : ∀ entry ∈ collapsed, entry.name ≠ "class" ∧ entry.base ≠ "class")
    (call : ∀ entry ∈ collapsed,
      entry.name ≠ "update_forward_refs" ∧ entry.base ≠ "update_forward_refs")
    {block : Block} (writable : block.Writable) (isWord : Text.isWord block.name = true)
    (stays : block.name ∉ collapsed.map (·.name)) : (renamed collapsed block).Writable := by
  obtain ⟨signature, whole, opens, named⟩ := writable.declares
  have keeps := consistent.keepsWords
  have line_eq : renameLine collapsed = Text.mapLine (renameWord collapsed) :=
    funext consistent.renameLine
  have kinds : Block.KeepsKinds (renameLine collapsed) := line_eq ▸ keepsKinds_mapLine keeps
    (fun _ => (renameWord_eq_iff marker).mp) (fun _ => (renameWord_eq_iff call).mp)
  have name_kept : renameWord collapsed block.name.toList = block.name.toList := by
    rw [renameWord, String.ofList_toList, representative_of_not_mem stays]
  obtain ⟨still_opens, still_named⟩ := declaredName_mapLine keeps
    ((renameWord_eq_iff marker).mpr rfl) opens
    (named ▸ Text.isWord_iff_word.mp isWord) (named ▸ name_kept)
  have lines_eq : (renamed collapsed block).lines =
      renameLine collapsed signature :: block.body.map (renameLine collapsed) := by
    rw [renamed, whole]
    rfl
  refine ⟨writable.toReadable.rewritten kinds lines_eq (line_eq ▸ still_opens) ?_,
    fun line member => ?_⟩
  · rw [line_eq, still_named, named]
    rfl
  · obtain ⟨original, known, rfl⟩ := List.mem_map.mp member
    exact line_eq ▸ plain_mapLine keeps (writable.plain original known)

end Duplicate

end DeclOrder
