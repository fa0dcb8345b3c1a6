import DeclOrder.Proofs.Source
import Mathlib.Data.List.Forall2

/-!
# Sources line by line

The lines of a text are those in front of the first declaration and then one segment for each line
that opens a declaration. Reading goes over the lines once and keeps a block open while it does, but
what it finds are these segments: each becomes a block when the forward statements and then the
blank lines at its end are taken off. So every line is in the preamble, in one block or among the
stale statements, or it is blank and separates a block from the next.
-/

namespace DeclOrder

/-- A line that opens a declaration is no forward statement: the marker has a blank where the
statement has its call. -/
theorem isForwardStatement_of_opensDeclaration {line : String}
    (opens : opensDeclaration line = true) : isForwardStatement line = false := by
  apply Bool.eq_false_iff.mpr
  intro recognised
  obtain ⟨name, tail, whole, word, -⟩ := isForwardStatement_iff.mp recognised
  obtain ⟨rest, marked⟩ := opensDeclaration_iff.mp opens
  have marker_word : Text.Word "class".toList := Text.isWord_iff_word.mp (by decide)
  have marker : Text.Run "class".toList (' ' :: rest) := marker_word.run_cons (by decide) rest
  have called : Text.Run name (forwardCall.toList ++ tail) := word.run_cons (by decide) _
  have split : "class".toList ++ ' ' :: rest = name ++ (forwardCall.toList ++ tail) :=
    marked.trans whole
  have same := (marker.unique called split).2
  exact absurd (List.cons.inj same).1 (by decide)

/-- A line that opens a declaration is not blank. -/
theorem isBlankLine_of_opensDeclaration {line : String} (opens : opensDeclaration line = true) :
    Text.isBlankLine line = false := by
  obtain ⟨rest, marked⟩ := opensDeclaration_iff.mp opens
  rw [Text.isBlankLine, ← marked, List.all_append]
  exact Bool.and_eq_false_imp.mpr fun blank => absurd blank (by decide)

/-- The lines are a front that opens no declaration and segments in a row. A segment is a line that
opens a declaration with the lines up to the next one. -/
structure Segmented (lines front : List String) (segments : List (List String)) : Prop where
  /-- Every line is in the front or in a segment, in its place. -/
  whole : lines = front ++ segments.flatten
  /-- No line of the front opens a declaration. -/
  unopened : ∀ line ∈ front, opensDeclaration line = false
  /-- Of the lines of a segment the first opens a declaration, and no other does. -/
  opened : ∀ segment ∈ segments, ∃ signature rest, segment = signature :: rest ∧
    opensDeclaration signature = true ∧ ∀ line ∈ rest, opensDeclaration line = false

/-- All lines have segments. -/
theorem exists_segmented (lines : List String) :
    ∃ front segments, Segmented lines front segments := by
  induction lines with
  | nil => exact ⟨[], [], rfl, by simp, by simp⟩
  | cons line lines ih =>
    obtain ⟨front, segments, whole, unopened, opened⟩ := ih
    cases opens : opensDeclaration line with
    | true =>
      refine ⟨[], (line :: front) :: segments, by simp [whole], by simp, ?_⟩
      exact List.forall_mem_cons.mpr ⟨⟨line, front, rfl, opens, unopened⟩, opened⟩
    | false =>
      refine ⟨line :: front, segments, by simp [whole], ?_, opened⟩
      exact List.forall_mem_cons.mpr ⟨opens, unopened⟩

namespace Segmented

variable {lines front : List String} {segments : List (List String)}

/-- The front is what precedes the first line that opens a declaration. -/
theorem takeWhile_eq (segmented : Segmented lines front segments) :
    lines.takeWhile (!opensDeclaration ·) = front := by
  have unopened : ∀ line ∈ front, (!opensDeclaration line) = true := fun line member => by
    rw [segmented.unopened line member, Bool.not_false]
  rw [segmented.whole, List.takeWhile_append_of_pos unopened]
  cases segments with
  | nil => simp
  | cons segment segments =>
    obtain ⟨signature, rest, rfl, opens, -⟩ := segmented.opened segment List.mem_cons_self
    simp [opens]

/-- The segments are what follows from the first line on that opens a declaration. -/
theorem dropWhile_eq (segmented : Segmented lines front segments) :
    lines.dropWhile (!opensDeclaration ·) = segments.flatten := by
  have split := (List.takeWhile_append_dropWhile (p := (!opensDeclaration ·)) (l := lines))
  rw [segmented.takeWhile_eq, segmented.whole] at split
  rw [segmented.whole]
  exact List.append_cancel_left split

/-- The lines that open declarations are the first ones of the segments. -/
theorem filter_eq (segmented : Segmented lines front segments) :
    (lines.filter opensDeclaration).map some = segments.map (·.head?) := by
  obtain ⟨rfl, unopened, opened⟩ := segmented
  have none_of_front : front.filter opensDeclaration = [] :=
    List.filter_eq_nil_iff.mpr fun line member => by simp [unopened line member]
  rw [List.filter_append, none_of_front, List.nil_append]
  induction segments with
  | nil => rfl
  | cons segment segments ih =>
    obtain ⟨signature, rest, rfl, opens, within⟩ := opened segment List.mem_cons_self
    have none_of_rest : rest.filter opensDeclaration = [] :=
      List.filter_eq_nil_iff.mpr fun line member => by simp [within line member]
    rw [List.flatten_cons, List.filter_append, List.filter_cons_of_pos opens, none_of_rest,
      List.map_append, ih fun other member => opened other (List.mem_cons_of_mem _ member)]
    rfl

end Segmented

namespace Block

/-- The block of a segment: its lines without the forward statements and without the blank lines
that are then at its end, under the name that the first line declares. -/
def ofSegment (segment : List String) : Block where
  name := declaredName (segment.headD "")
  lines := Text.dropBlankTail (segment.filter (!isForwardStatement ·))

/-- The first line of a segment stays in front of the lines of its block. -/
theorem lines_ofSegment {signature : String} (opens : opensDeclaration signature = true)
    (rest : List String) :
    (ofSegment (signature :: rest)).lines =
      signature :: Text.dropBlankTail (rest.filter (!isForwardStatement ·)) := by
  have kept : (signature :: rest).filter (!isForwardStatement ·) =
      signature :: rest.filter (!isForwardStatement ·) :=
    List.filter_cons_of_pos (by simp [isForwardStatement_of_opensDeclaration opens])
  have lines_eq : (ofSegment (signature :: rest)).lines =
      Text.dropBlankTail ((signature :: rest).filter (!isForwardStatement ·)) := rfl
  rw [lines_eq, kept]
  exact Text.dropTailWhile_cons (isBlankLine_of_opensDeclaration opens) _

/-- The blank line in front of a statement is at the end once the statement is taken out. -/
example : (ofSegment ["class Part:", "", "    link: Link", "", "Part.update_forward_refs()"]).lines =
    ["class Part:", "", "    link: Link"] := by decide

/-- The lines of a segment without its statements, closed, are the block of the segment. -/
theorem trimmed_segment {signature : String} (opens : opensDeclaration signature = true)
    (rest : List String) :
    Block.trimmed { name := declaredName signature
                    lines := signature :: rest.filter (!isForwardStatement ·) } =
      ofSegment (signature :: rest) :=
  congrArg (fun lines => ({ name := declaredName signature, lines } : Block))
    (lines_ofSegment opens rest).symm

/-- The block is what a segment holds besides forward statements and blank lines at its end. -/
structure Covers (block : Block) (segment : List String) : Prop where
  /-- The first line of the segment is that of the block; it opens the declaration and gives its
  name. -/
  signature : ∃ line, segment.head? = some line ∧ opensDeclaration line = true ∧
    block.lines.head? = some line ∧ block.name = declaredName line
  /-- The lines are those of the segment without the statements and then without the blank lines at
  the end. -/
  lines : block.lines = Text.dropBlankTail (segment.filter (!isForwardStatement ·))

/-- A segment is covered by its block. -/
theorem covers_ofSegment {signature : String} (opens : opensDeclaration signature = true)
    (rest : List String) : (ofSegment (signature :: rest)).Covers (signature :: rest) := by
  refine ⟨⟨signature, rfl, opens, ?_, rfl⟩, rfl⟩
  rw [lines_ofSegment opens, List.head?_cons]

/-- What is left of segments without their statements is the lines of their blocks, each followed by
blank lines. -/
theorem exists_separators (segments : List (List String)) :
    ∃ separators : List (List String), separators.length = segments.length ∧
      (∀ blanks ∈ separators, ∀ line ∈ blanks, Text.isBlankLine line = true) ∧
      segments.flatten.filter (!isForwardStatement ·) =
        (List.zipWith (·.lines ++ ·) (segments.map ofSegment) separators).flatten := by
  induction segments with
  | nil => exact ⟨[], rfl, List.forall_mem_nil _, rfl⟩
  | cons segment segments ih =>
    obtain ⟨separators, length_eq, blank, whole⟩ := ih
    obtain ⟨blanks, all_blank, cut⟩ := Text.exists_dropTailWhile_append Text.isBlankLine
      (segment.filter (!isForwardStatement ·))
    refine ⟨blanks :: separators, by simp [length_eq], ?_, ?_⟩
    · exact List.forall_mem_cons.mpr ⟨all_blank, blank⟩
    · rw [List.flatten_cons, List.filter_append, whole, ← cut]
      rfl

end Block

namespace Source

namespace Reader

/-- Reading a segment opens its block and sets its forward statements aside. -/
theorem foldl_segment (reader : Reader) {signature : String} {rest : List String}
    (opens : opensDeclaration signature = true)
    (within : ∀ line ∈ rest, opensDeclaration line = false) :
    (signature :: rest).foldl Reader.next reader =
      { done := { reader.close with
          staleStatements :=
            reader.close.staleStatements ++ (signature :: rest).filter isForwardStatement }
        current := some { name := declaredName signature
                          lines := signature :: rest.filter (!isForwardStatement ·) } } := by
  have dropped : (signature :: rest).filter isForwardStatement = rest.filter isForwardStatement :=
    List.filter_cons_of_neg (by simp [isForwardStatement_of_opensDeclaration opens])
  rw [List.foldl_cons, next_opening reader opens, foldl_rest _ _ within, dropped]
  rfl

/-- Closing the block of a segment takes off the blank lines at its end. -/
theorem close_segment (done : Source) {signature : String}
    (opens : opensDeclaration signature = true) (rest : List String) :
    Reader.close
        { done
          current := some { name := declaredName signature
                            lines := signature :: rest.filter (!isForwardStatement ·) } } =
      { done with blocks := done.blocks ++ [Block.ofSegment (signature :: rest)] } := by
  rw [close]
  dsimp only
  rw [Block.trimmed_segment opens]

/-- Reading segments one after the other adds their blocks and their forward statements. -/
theorem close_segments (reader : Reader) {segments : List (List String)}
    (opened : ∀ segment ∈ segments, ∃ signature rest, segment = signature :: rest ∧
      opensDeclaration signature = true ∧ ∀ line ∈ rest, opensDeclaration line = false) :
    (segments.flatten.foldl Reader.next reader).close =
      { reader.close with
        blocks := reader.close.blocks ++ segments.map Block.ofSegment
        staleStatements :=
          reader.close.staleStatements ++ segments.flatten.filter isForwardStatement } := by
  induction segments generalizing reader with
  | nil => simp
  | cons segment segments ih =>
    obtain ⟨signature, rest, rfl, opens, within⟩ := opened segment List.mem_cons_self
    have later := fun other member => opened other (List.mem_cons_of_mem _ member)
    rw [List.flatten_cons, List.foldl_append, foldl_segment reader opens within, ih _ later,
      close_segment _ opens]
    simp only [List.filter_append, List.append_assoc, List.map_cons, List.singleton_append]

end Reader

variable {front : List String} {segments : List (List String)}

/-- Reading finds the front and the blocks and forward statements of the segments. -/
theorem ofText_eq {text : String} (segmented : Segmented (Text.lines text) front segments) :
    ofText text =
      { preamble := front
        blocks := segments.map Block.ofSegment
        staleStatements := segments.flatten.filter isForwardStatement
        ending := Text.LineEnding.detect text } := by
  rw [ofText, segmented.whole, List.foldl_append, Reader.foldl_preamble _ segmented.unopened,
    Reader.close_segments _ segmented.opened]
  rfl

/-- The source accounts for every line. -/
structure Accounts (source : Source) (lines : List String) : Prop where
  /-- The preamble is what precedes the first line that opens a declaration. -/
  preamble : source.preamble = lines.takeWhile (!opensDeclaration ·)
  /-- The stale statements are the forward statements from that line on. -/
  stale : source.staleStatements =
    (lines.dropWhile (!opensDeclaration ·)).filter isForwardStatement
  /-- There are as many blocks as lines that open a declaration. -/
  count : source.blocks.length = lines.countP opensDeclaration
  /-- The blocks start with these lines, in their order. -/
  signatures : source.blocks.map (·.lines.head?) = (lines.filter opensDeclaration).map some
  /-- The lines behind the preamble fall into segments, and these are covered by the blocks. -/
  covered : ∃ segments, Segmented lines source.preamble segments ∧
    List.Forall₂ Block.Covers source.blocks segments
  /-- The lines behind the preamble that are no statements are those of the blocks, one block after
  the other, with blank lines behind each. -/
  kept : ∃ separators : List (List String), separators.length = source.blocks.length ∧
    (∀ blanks ∈ separators, ∀ line ∈ blanks, Text.isBlankLine line = true) ∧
    (lines.dropWhile (!opensDeclaration ·)).filter (!isForwardStatement ·) =
      (List.zipWith (·.lines ++ ·) source.blocks separators).flatten

/-- Every text is read line by line: the lines are those of the preamble and then, segment by
segment, those of a block, the stale statements among them, and the blank lines that separate the
block from the next. -/
theorem ofText_accounts (text : String) : (ofText text).Accounts (Text.lines text) := by
  obtain ⟨front, segments, segmented⟩ := exists_segmented (Text.lines text)
  have signatures : (segments.map Block.ofSegment).map (·.lines.head?) =
      ((Text.lines text).filter opensDeclaration).map some := by
    rw [segmented.filter_eq, List.map_map]
    refine List.map_congr_left fun segment member => ?_
    obtain ⟨signature, rest, rfl, opens, -⟩ := segmented.opened segment member
    rw [Function.comp_apply, Block.lines_ofSegment opens, List.head?_cons, List.head?_cons]
  have covers : List.Forall₂ Block.Covers (segments.map Block.ofSegment) segments := by
    refine List.forall₂_map_left_iff.mpr (List.forall₂_same.mpr fun segment member => ?_)
    obtain ⟨signature, rest, rfl, opens, -⟩ := segmented.opened segment member
    exact Block.covers_ofSegment opens rest
  obtain ⟨separators, length_eq, blank, kept⟩ := Block.exists_separators segments
  rw [ofText_eq segmented]
  constructor
  · exact segmented.takeWhile_eq.symm
  · rw [segmented.dropWhile_eq]
  · simpa [List.countP_eq_length_filter] using congrArg List.length signatures
  · exact signatures
  · exact ⟨segments, segmented, covers⟩
  · rw [segmented.dropWhile_eq]
    exact ⟨separators, by rw [length_eq, List.length_map], blank, kept⟩

end Source

end DeclOrder
