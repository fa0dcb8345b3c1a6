import DeclOrder.Proofs.Source

/-!
# Sources in another order read back

A text with a declaration may be written with its blocks in any order. Reading what was written
gives the blocks in that order, with the terminator of the text, its preamble up to blank lines at
the end, and the statements written as the stale ones. So writing what was read once more with the
same statements gives the same text.
-/

namespace DeclOrder.Source

namespace Reader

/-- Once a block is open, one stays open. -/
theorem isSome_next {reader : Reader} (opened : reader.current.isSome = true) (line : String) :
    (reader.next line).current.isSome = true := by
  obtain ⟨done, current⟩ := reader
  obtain ⟨block, rfl⟩ := Option.isSome_iff_exists.mp opened
  cases opens : opensDeclaration line with
  | true => rw [next_opening _ opens, Option.isSome_some]
  | false =>
    cases statement : isForwardStatement line with
    | true => rw [next_statement done block opens statement, Option.isSome_some]
    | false => rw [next_body done block opens statement, Option.isSome_some]

/-- Reading lines of which one opens a declaration leaves a block open. -/
theorem isSome_foldl {reader : Reader} {rows : List String}
    (declares : reader.current.isSome = true ∨ ∃ line ∈ rows, opensDeclaration line = true) :
    (rows.foldl Reader.next reader).current.isSome = true := by
  induction rows generalizing reader with
  | nil => simpa using declares
  | cons line rows ih =>
    refine ih ?_
    rcases declares with opened | ⟨other, member, opens⟩
    · exact .inl (isSome_next opened line)
    · rcases List.mem_cons.mp member with rfl | later
      · exact .inl (by rw [next_opening _ opens, Option.isSome_some])
      · exact .inr ⟨other, later, opens⟩

end Reader

/-- A text with a line that opens a declaration has a block. -/
theorem blocks_ofText_ne_nil {text : String}
    (declares : ∃ line ∈ Text.lines text, opensDeclaration line = true) :
    (ofText text).blocks ≠ [] := by
  let start : Reader := { done := { ending := Text.LineEnding.detect text }, current := none }
  have opened : ((Text.lines text).foldl Reader.next start).current.isSome = true :=
    Reader.isSome_foldl (.inr declares)
  obtain ⟨block, current_eq⟩ := Option.isSome_iff_exists.mp opened
  have read : ofText text = ((Text.lines text).foldl Reader.next start).close := rfl
  rw [read, Reader.close, current_eq]
  simp

/-- The source read back from a source has the same blocks and the same terminator, the same
preamble up to blank lines at the end, and the statements written as stale ones; it is written with
the same statements as the same text. -/
structure ReadBack (source reread : Source) (forward : List String) : Prop where
  /-- The blocks are the same, in the same order. -/
  blocks : reread.blocks = source.blocks
  /-- The lines end in the same way. -/
  ending : reread.ending = source.ending
  /-- The preamble is the same up to blank lines at the end. -/
  preamble : Text.dropBlankTail reread.preamble = Text.dropBlankTail source.preamble
  /-- The stale statements are those written. -/
  stale : reread.staleStatements = forward.map forwardStatement
  /-- Writing once more gives the same text. -/
  text : reread.toText forward = source.toText forward

/-- A source with blocks of whose references nothing is known is read back. -/
theorem Readable.readBack {source : Source} (readable : source.Readable)
    (nonempty : source.blocks ≠ []) (bare : ∀ block ∈ source.blocks, block.bare = block)
    {forward : List String} (words : ∀ name ∈ forward, Text.isWord name = true) :
    ReadBack source (ofText (source.toText forward)) forward := by
  have read := ofText_toText readable nonempty words
  have written : ((ofText (source.toText forward)).withBlocks source.blocks).toText forward =
      source.toText forward := (readable.reread words).2
  have blocks_eq : (ofText (source.toText forward)).blocks = source.blocks := by
    rw [read]
    exact (List.map_congr_left bare).trans (List.map_id _)
  rw [← blocks_eq, withBlocks_self] at written
  refine ⟨blocks_eq, by rw [read], ?_, by rw [read], written⟩
  rw [read]
  exact dropBlankTail_lead source.preamble

/-- A text with a declaration is read back from what is written of it with its blocks in any order
and with statements for words behind them. -/
theorem readBack_withBlocks {text : String}
    (unreturned : ∀ line ∈ Text.lines text, line.toList.getLast? ≠ some '\r')
    (declares : ∃ line ∈ Text.lines text, opensDeclaration line = true)
    {ordered : List Block} (perm : ordered.Perm (ofText text).blocks)
    {forward : List String} (words : ∀ name ∈ forward, Text.isWord name = true) :
    ReadBack ((ofText text).withBlocks ordered)
      (ofText (((ofText text).withBlocks ordered).toText forward)) forward := by
  have original := readable_ofText unreturned
  have readable := original.withBlocks fun block member =>
    original.writable (perm.mem_iff.mp member)
  have nonempty : ordered ≠ [] := by
    rintro rfl
    exact blocks_ofText_ne_nil declares (List.nil_perm.mp perm)
  exact readable.readBack nonempty
    (fun block member => bare_of_mem_ofText (perm.mem_iff.mp member)) words

/-- The lines of a module whose first declaration has an empty line within it. -/
def spaced : List String :=
  ["import pydantic", "", "class Part(Base):", "    link: Link", "", "    class Config:",
   "        extra = 0", "", "", "class Link(Base):", "    href: str"]

/-- With its two declarations exchanged and with a statement behind them, the module is read back,
and these are the declarations and the terminator that it has. -/
theorem readBack_withBlocks_spaced :
    ReadBack
        ((ofText (Text.unlines .crlf spaced)).withBlocks
          (ofText (Text.unlines .crlf spaced)).blocks.reverse)
        (ofText (((ofText (Text.unlines .crlf spaced)).withBlocks
          (ofText (Text.unlines .crlf spaced)).blocks.reverse).toText ["Part"])) ["Part"] ∧
      (ofText (Text.unlines .crlf spaced)).blockNames = ["Part", "Link"] ∧
      (ofText (Text.unlines .crlf spaced)).ending = .crlf := by
  have plain : ∀ line ∈ spaced, Text.Plain line := fun line member =>
    have both : ∀ line ∈ spaced, '\n' ∉ line.toList ∧ line.toList.getLast? ≠ some '\r' := by decide
    ⟨(both line member).1, (both line member).2⟩
  have lines_eq : Text.lines (Text.unlines .crlf spaced) = spaced := Text.lines_unlines .crlf plain
  refine ⟨readBack_withBlocks ?_ ?_ (List.reverse_perm _) (by decide), ?_, ?_⟩
  · rw [lines_eq]
    exact fun line member => (plain line member).unreturned
  · rw [lines_eq]
    decide
  · rw [ofText, lines_eq]
    decide
  · rw [ofText, lines_eq, Text.detect_unlines .crlf plain (by decide)]
    decide

end DeclOrder.Source
