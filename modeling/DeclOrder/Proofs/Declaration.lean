import DeclOrder.Declaration
import DeclOrder.Proofs.Text.Words

/-!
# Kinds of lines

A forward statement has neither a colon nor, before its call, a blank, so it opens no declaration.
The statement written for a word is recognised as one.
-/

namespace DeclOrder

/-- A line opens a declaration when it starts with the marker. -/
theorem opensDeclaration_iff {line : String} :
    opensDeclaration line = true ↔ classMarker.toList <+: line.toList :=
  List.isPrefixOf_iff_prefix

/-- A forward statement is a word, the call and blanks. -/
theorem isForwardStatement_iff {line : String} :
    isForwardStatement line = true ↔ ∃ name tail : List Char,
      line.toList = name ++ (forwardCall.toList ++ tail) ∧ Text.Word name ∧
        ∀ char ∈ tail, Text.isBlank char = true := by
  unfold isForwardStatement
  dsimp only
  constructor
  · intro recognised
    split at recognised
    · next tail found =>
      rw [Bool.and_eq_true, Bool.not_eq_true', List.isEmpty_eq_false_iff,
        List.all_eq_true] at recognised
      refine ⟨line.toList.takeWhile Text.isWordChar, tail, ?_,
        ⟨recognised.1, List.all_eq_true.mp List.all_takeWhile⟩, recognised.2⟩
      rw [← Text.after?_eq_some_iff.mp found, List.takeWhile_append_dropWhile]
    · exact absurd recognised Bool.false_ne_true
  · rintro ⟨name, tail, whole, word, blank⟩
    have run : Text.Run name (forwardCall.toList ++ tail) := word.run_cons (by decide) _
    rw [whole, run.takeWhile_append, run.dropWhile_append, Text.after?_eq_some_iff.mpr rfl]
    dsimp only
    rw [Bool.and_eq_true, Bool.not_eq_true', List.isEmpty_eq_false_iff, List.all_eq_true]
    exact ⟨word.nonempty, blank⟩

/-- A forward statement has no colon. -/
theorem colon_not_mem_of_isForwardStatement {line : String}
    (recognised : isForwardStatement line = true) : ':' ∉ line.toList := by
  obtain ⟨name, tail, whole, word, blank⟩ := isForwardStatement_iff.mp recognised
  rw [whole, List.mem_append, List.mem_append]
  rintro (inName | inCall | inTail)
  · exact word.not_mem (by decide) inName
  · exact absurd inCall (by decide)
  · exact absurd (blank ':' inTail) (by decide)

/-- The statement for a word is recognised. -/
theorem isForwardStatement_forwardStatement {name : String} (word : Text.isWord name = true) :
    isForwardStatement (forwardStatement name) = true := by
  refine isForwardStatement_iff.mpr ⟨name.toList, [], ?_, Text.isWord_iff_word.mp word, by simp⟩
  rw [forwardStatement, String.toList_append, List.append_nil]

/-- The statement for a word has no character that is neither of a word nor of the call. -/
theorem not_mem_forwardStatement {name : String} (word : Text.isWord name = true) {char : Char}
    (other : Text.isWordChar char = false) (outside : char ∉ forwardCall.toList) :
    char ∉ (forwardStatement name).toList := by
  rw [forwardStatement, String.toList_append, List.mem_append]
  rintro (inName | inCall)
  · exact (Text.isWord_iff_word.mp word).not_mem other inName
  · exact outside inCall

/-- The statement for a word opens no declaration. -/
theorem opensDeclaration_forwardStatement {name : String} (word : Text.isWord name = true) :
    opensDeclaration (forwardStatement name) = false := by
  apply Bool.eq_false_iff.mpr
  intro opens
  have blank : ' ' ∈ (forwardStatement name).toList :=
    (opensDeclaration_iff.mp opens).subset (by decide)
  exact not_mem_forwardStatement word (by decide) (by decide) blank

end DeclOrder
