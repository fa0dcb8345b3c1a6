import DeclOrder.Proofs.Declaration
import DeclOrder.Proofs.Text.Ends
import DeclOrder.Proofs.Text.Lines
import DeclOrder.Source

/-!
# Sources read and written

A block that was read starts with the line that declares its name, no later line of it opens a
declaration or is a forward statement, and its last line is not blank. Blocks of this kind come
back, in any order, when they are written and read again: the separator in front of the next block
is taken off with the blank lines at the end, and the statements written at the end are set aside.
-/

namespace DeclOrder

namespace Block

/-- The block without what was found out about its references. -/
def bare (block : Block) : Block := { name := block.name, lines := block.lines }

/-- The block as it stands while its lines are being read. -/
structure Opened (block : Block) : Prop where
  /-- The first line declares the name. -/
  declares : ∃ signature, block.lines = signature :: block.body ∧
    opensDeclaration signature = true ∧ declaredName signature = block.name
  /-- No later line opens a declaration or is a forward statement. -/
  within : ∀ line ∈ block.body, opensDeclaration line = false ∧ isForwardStatement line = false

/-- The block as it stands once it was read. -/
structure Readable (block : Block) : Prop extends Opened block where
  /-- The last line of the body is not blank. -/
  closed : Text.dropBlankTail block.body = block.body

/-- The block as it was read from lines that can be read back. -/
structure Writable (block : Block) : Prop extends Readable block where
  /-- Every line can be read back. -/
  plain : ∀ line ∈ block.lines, Text.Plain line

/-- Whether a block is as it was read depends on its name and its lines only. -/
theorem Readable.of_bare {left right : Block} (readable : left.Readable)
    (same : left.bare = right.bare) : right.Readable := by
  obtain ⟨name, lines, _, _, _⟩ := left
  obtain ⟨_, _, _, _, _⟩ := right
  injection same with name_eq lines_eq
  subst name_eq lines_eq
  exact ⟨⟨readable.declares, readable.within⟩, readable.closed⟩

/-- Whether a block can be written and read back depends on its name and its lines only. -/
theorem Writable.of_bare {left right : Block} (writable : left.Writable)
    (same : left.bare = right.bare) : right.Writable := by
  have lines_eq : left.bare.lines = right.bare.lines := congrArg Block.lines same
  exact ⟨writable.toReadable.of_bare same, fun line member => writable.plain line
    (lines_eq.symm ▸ member)⟩

/-- A block is opened by a line that declares its name. -/
theorem opened_opening {signature : String} (opens : opensDeclaration signature = true) :
    (Block.opening (declaredName signature) signature).Opened :=
  ⟨⟨signature, rfl, opens, rfl⟩, List.forall_mem_nil _⟩

/-- A block stays open with a line that neither opens a declaration nor is a statement. -/
theorem Opened.push {block : Block} (opened : block.Opened) {line : String}
    (opens : opensDeclaration line = false) (statement : isForwardStatement line = false) :
    (block.push line).Opened := by
  obtain ⟨signature, whole, declares, named⟩ := opened.declares
  have body_eq : (block.push line).body = block.body ++ [line] := by
    rw [Block.body, Block.push, whole]
    rfl
  have lines_eq : (block.push line).lines = signature :: (block.push line).body := by
    rw [body_eq, Block.push, whole]
    rfl
  refine ⟨⟨signature, lines_eq, declares, named⟩, ?_⟩
  intro other member
  rw [body_eq] at member
  rcases List.mem_append.mp member with before | same
  · exact opened.within other before
  · exact List.mem_singleton.mp same ▸ ⟨opens, statement⟩

/-- Taking the blank lines off the end completes a block. -/
theorem Opened.trimmed {block : Block} (opened : block.Opened) : block.trimmed.Readable := by
  obtain ⟨signature, whole, opens, named⟩ := opened.declares
  have lines_eq : block.trimmed.lines = signature :: Text.dropBlankTail block.body := by
    rw [Block.trimmed, whole]
    rfl
  have body_eq : block.trimmed.body = Text.dropBlankTail block.body := by
    rw [Block.body, lines_eq]
    rfl
  refine ⟨⟨⟨signature, body_eq ▸ lines_eq, opens, named⟩, fun line member => ?_⟩, ?_⟩
  · rw [body_eq] at member
    exact opened.within line (Text.mem_of_mem_dropTailWhile member)
  · rw [body_eq]
    exact Text.dropTailWhile_idem block.body

/-- The rewriting of lines makes none of them a line of another kind. -/
structure KeepsKinds (rewrite : String → String) : Prop where
  /-- A line opens a declaration only if it did before. -/
  opens : ∀ line, opensDeclaration (rewrite line) = true → opensDeclaration line = true
  /-- A line is a forward statement only if it was one before. -/
  statement : ∀ line, isForwardStatement (rewrite line) = true → isForwardStatement line = true
  /-- A line is blank only if it was before. -/
  blank : ∀ line, Text.isBlankLine (rewrite line) = true → Text.isBlankLine line = true

/-- A block stays as it was read if its signature still declares its name and the lines of its body
are rewritten to lines of the same kind. -/
theorem Readable.rewritten {block : Block} (readable : block.Readable) {rewrite : String → String}
    (keeps : KeepsKinds rewrite) {result : Block} {signature : String}
    (whole : result.lines = signature :: block.body.map rewrite)
    (opens : opensDeclaration signature = true) (named : declaredName signature = result.name) :
    result.Readable := by
  have body_eq : result.body = block.body.map rewrite := by
    rw [Block.body, whole]
    rfl
  have still_not {test : String → Bool} (reflects : ∀ line, test (rewrite line) = true →
      test line = true) {line : String} (fails : test line = false) :
      test (rewrite line) = false :=
    Bool.eq_false_iff.mpr fun passes => Bool.false_ne_true (fails.symm.trans (reflects _ passes))
  refine ⟨⟨⟨signature, body_eq ▸ whole, opens, named⟩, fun line member => ?_⟩, ?_⟩
  · rw [body_eq] at member
    obtain ⟨original, known, rfl⟩ := List.mem_map.mp member
    obtain ⟨not_opens, not_statement⟩ := readable.within original known
    exact ⟨still_not keeps.opens not_opens, still_not keeps.statement not_statement⟩
  · rw [body_eq]
    refine Text.dropTailWhile_eq_self fun last ends => ?_
    rw [List.getLast?_map, Option.map_eq_some_iff] at ends
    obtain ⟨original, ends, rfl⟩ := ends
    rw [← readable.closed] at ends
    exact still_not keeps.blank (Text.getLast_dropTailWhile ends)

/-- Blank lines at the end of a block that was read are taken off again. -/
theorem Readable.trimmed_append {block : Block} (readable : block.Readable) {blanks : List String}
    (blank : ∀ line ∈ blanks, Text.isBlankLine line = true) :
    ({ block.bare with lines := block.lines ++ blanks } : Block).trimmed = block.bare := by
  obtain ⟨signature, whole, -, -⟩ := readable.declares
  have dropped : Text.dropBlankTail (block.body ++ blanks) = block.body :=
    (Text.dropTailWhile_append blank).trans readable.closed
  have lines_eq : (block.lines ++ blanks).take 1 ++
      Text.dropBlankTail ((block.lines ++ blanks).drop 1) = block.lines := by
    rw [whole, List.cons_append, List.take_succ_cons, List.take_zero, List.drop_succ_cons,
      List.drop_zero, dropped]
    rfl
  exact congrArg (fun lines => ({ block.bare with lines } : Block)) lines_eq

end Block

namespace Source

namespace Reader

/-- A line that opens a declaration closes the block before it. -/
theorem next_opening (reader : Reader) {line : String} (opens : opensDeclaration line = true) :
    reader.next line =
      { done := reader.close, current := some (Block.opening (declaredName line) line) } := by
  rw [next, if_pos opens]

/-- Before the first declaration, the other lines belong to the preamble. -/
theorem next_preamble (done : Source) {line : String} (opens : opensDeclaration line = false) :
    Reader.next { done, current := none } line =
      { done := { done with preamble := done.preamble ++ [line] }, current := none } := by
  rw [next, if_neg (by simp [opens])]

/-- A line of an open block is added to it. -/
theorem next_body (done : Source) (block : Block) {line : String}
    (opens : opensDeclaration line = false) (statement : isForwardStatement line = false) :
    Reader.next { done, current := some block } line =
      { done, current := some (block.push line) } := by
  rw [next, if_neg (by simp [opens])]
  simp [statement]

/-- A forward statement after a declaration is set aside. -/
theorem next_statement (done : Source) (block : Block) {line : String}
    (opens : opensDeclaration line = false) (statement : isForwardStatement line = true) :
    Reader.next { done, current := some block } line =
      { done := { done with staleStatements := done.staleStatements ++ [line] },
        current := some block } := by
  rw [next, if_neg (by simp [opens])]
  simp [statement]

/-- Lines before the first declaration make up the preamble. -/
theorem foldl_preamble (done : Source) {rows : List String}
    (within : ∀ line ∈ rows, opensDeclaration line = false) :
    rows.foldl Reader.next { done, current := none } =
      { done := { done with preamble := done.preamble ++ rows }, current := none } := by
  induction rows generalizing done with
  | nil => simp
  | cons line rows ih =>
    rw [List.foldl_cons, next_preamble done (within line List.mem_cons_self),
      ih _ fun other member => within other (List.mem_cons_of_mem line member)]
    simp

/-- Of the lines after a declaration, the statements are set aside and the others are added to the
open block. -/
theorem foldl_rest (done : Source) (block : Block) {rows : List String}
    (within : ∀ line ∈ rows, opensDeclaration line = false) :
    rows.foldl Reader.next { done, current := some block } =
      { done := { done with
          staleStatements := done.staleStatements ++ rows.filter isForwardStatement }
        current := some { block with
          lines := block.lines ++ rows.filter (!isForwardStatement ·) } } := by
  induction rows generalizing done block with
  | nil => simp
  | cons line rows ih =>
    have opens := within line List.mem_cons_self
    have later : ∀ other ∈ rows, opensDeclaration other = false := fun other member =>
      within other (List.mem_cons_of_mem line member)
    cases statement : isForwardStatement line with
    | true =>
      rw [List.foldl_cons, next_statement done block opens statement, ih _ _ later]
      simp [statement]
    | false =>
      rw [List.foldl_cons, next_body done block opens statement, ih _ _ later]
      simp [statement, Block.push]

/-- Lines of an open block are added to it. -/
theorem foldl_body (done : Source) (block : Block) {rows : List String}
    (within : ∀ line ∈ rows, opensDeclaration line = false ∧ isForwardStatement line = false) :
    rows.foldl Reader.next { done, current := some block } =
      { done, current := some { block with lines := block.lines ++ rows } } := by
  have none : rows.filter isForwardStatement = [] :=
    List.filter_eq_nil_iff.mpr fun line member => by simp [(within line member).2]
  have all : rows.filter (!isForwardStatement ·) = rows :=
    List.filter_eq_self.mpr fun line member => by simp [(within line member).2]
  rw [foldl_rest done block fun line member => (within line member).1, none, all, List.append_nil]

/-- Statements after a declaration are set aside. -/
theorem foldl_statements (done : Source) (block : Block) {rows : List String}
    (within : ∀ line ∈ rows, opensDeclaration line = false ∧ isForwardStatement line = true) :
    rows.foldl Reader.next { done, current := some block } =
      { done := { done with staleStatements := done.staleStatements ++ rows },
        current := some block } := by
  have all : rows.filter isForwardStatement = rows :=
    List.filter_eq_self.mpr fun line member => (within line member).2
  have none : rows.filter (!isForwardStatement ·) = [] :=
    List.filter_eq_nil_iff.mpr fun line member => by simp [(within line member).2]
  rw [foldl_rest done block fun line member => (within line member).1, none, all, List.append_nil]

/-- The lines of a block that was read open it again. -/
theorem foldl_lines (reader : Reader) {block : Block} (readable : block.Readable) :
    block.lines.foldl Reader.next reader =
      { done := reader.close, current := some block.bare } := by
  obtain ⟨signature, whole, opens, named⟩ := readable.declares
  rw [whole, List.foldl_cons, next_opening reader opens, foldl_body _ _ readable.within, named]
  simp [Block.opening, Block.bare, whole]

/-- The separator is read into the open block. -/
theorem foldl_separator (done : Source) (block : Block) :
    separator.foldl Reader.next { done, current := some block } =
      { done, current := some { block with lines := block.lines ++ separator } } :=
  foldl_body done block (by decide)

/-- An open block with blank lines at its end is closed without them. -/
theorem close_blanks (done : Source) {block : Block} (readable : block.Readable)
    {blanks : List String} (blank : ∀ line ∈ blanks, Text.isBlankLine line = true) :
    Reader.close { done, current := some { block.bare with lines := block.lines ++ blanks } } =
      { done with blocks := done.blocks ++ [block.bare] } := by
  rw [close]
  dsimp only
  rw [readable.trimmed_append blank]

/-- Blocks that were read, with separators between them, leave the last of them open and those
before it complete. -/
theorem foldl_blocks (reader : Reader) {first : Block} {rest : List Block}
    (readable : ∀ block ∈ first :: rest, block.Readable) :
    ∃ (done : Source) (last : Block), last.Readable ∧
      (first.lines ++ rest.flatMap fun block => separator ++ block.lines).foldl Reader.next reader =
        { done, current := some last.bare } ∧
      { done with blocks := done.blocks ++ [last.bare] } =
        { reader.close with
          blocks := reader.close.blocks ++ (first :: rest).map Block.bare } := by
  have first_readable := readable first List.mem_cons_self
  induction rest generalizing reader first with
  | nil =>
    refine ⟨reader.close, first, first_readable, ?_, rfl⟩
    rw [List.flatMap_nil, List.append_nil, foldl_lines reader first_readable]
  | cons second rest ih =>
    have rest_readable : ∀ block ∈ second :: rest, block.Readable := fun block member =>
      readable block (List.mem_cons_of_mem first member)
    obtain ⟨done, last, last_readable, read, complete⟩ :=
      ih ⟨reader.close, some { first.bare with lines := first.lines ++ separator }⟩ rest_readable
        (rest_readable second List.mem_cons_self)
    refine ⟨done, last, last_readable, ?_, ?_⟩
    · rw [List.flatMap_cons, List.foldl_append, foldl_lines reader first_readable,
        List.append_assoc, List.foldl_append, foldl_separator]
      exact read
    · rw [complete, close_blanks reader.close first_readable (by decide)]
      simp

/-- Statements for words after the last block are set aside, and the block is complete. -/
theorem close_statements (done : Source) {last : Block} (readable : last.Readable)
    {forward : List String} (words : ∀ name ∈ forward, Text.isWord name = true) :
    ((if forward.isEmpty then [] else separator ++ forward.map forwardStatement).foldl Reader.next
      { done, current := some last.bare }).close =
      { done with
        blocks := done.blocks ++ [last.bare]
        staleStatements := done.staleStatements ++ forward.map forwardStatement } := by
  cases forward with
  | nil =>
    have closed := close_blanks done readable (List.forall_mem_nil _)
    rw [List.append_nil] at closed
    rw [if_pos List.isEmpty_nil, List.foldl_nil, List.map_nil, List.append_nil]
    exact closed
  | cons name forward =>
    have statements : ∀ line ∈ (name :: forward).map forwardStatement,
        opensDeclaration line = false ∧ isForwardStatement line = true := by
      intro line member
      obtain ⟨name, inForward, rfl⟩ := List.mem_map.mp member
      have word := words name inForward
      exact ⟨opensDeclaration_forwardStatement word, isForwardStatement_forwardStatement word⟩
    have blank : ∀ line ∈ separator, Text.isBlankLine line = true := by decide
    rw [if_neg (by simp), List.foldl_append, foldl_separator, foldl_statements _ _ statements]
    exact close_blanks _ readable blank

end Reader

/-- The lines in front of the first block. -/
def lead (front : List String) : List String := if front.isEmpty then [] else front ++ separator

/-- Once there are lines, each of the lists that follow is separated from those before it. -/
theorem foldl_separate {front : List String} (nonempty : front ≠ []) (parts : List (List String)) :
    parts.foldl separate front = front ++ parts.flatMap (separator ++ ·) := by
  induction parts generalizing front with
  | nil => simp
  | cons part parts ih =>
    have more : separate front part = front ++ separator ++ part := by
      rw [separate, if_neg (by simp [nonempty])]
    have still : front ++ separator ++ part ≠ [] := by simp [nonempty]
    rw [List.foldl_cons, more, ih still]
    simp

/-- The lines of a source with blocks. -/
theorem toLines_eq {source : Source} {first : Block} {rest : List Block}
    (blocks_eq : source.blocks = first :: rest) (nonempty : first.lines ≠ [])
    (forward : List String) :
    source.toLines forward = lead (Text.dropBlankTail source.preamble) ++
      (first.lines ++ rest.flatMap fun block => separator ++ block.lines) ++
      if forward.isEmpty then [] else separator ++ forward.map forwardStatement := by
  have begun : separate (Text.dropBlankTail source.preamble) first.lines =
      lead (Text.dropBlankTail source.preamble) ++ first.lines := by
    rw [separate, lead]
    split
    · rfl
    · rfl
  have begun_ne : lead (Text.dropBlankTail source.preamble) ++ first.lines ≠ [] := by
    simp [nonempty]
  rw [toLines, if_neg (by simp [blocks_eq]), blocks_eq, List.map_cons, List.foldl_cons, begun,
    foldl_separate begun_ne, List.flatMap_map]
  dsimp only
  split <;> simp

/-- The source can be written and read back. -/
structure Readable (source : Source) : Prop where
  /-- No line of the preamble opens a declaration. -/
  preamble : ∀ line ∈ source.preamble, opensDeclaration line = false
  /-- The blocks are as they were read. -/
  blocks : ∀ block ∈ source.blocks, block.Readable
  /-- Every line can be read back. -/
  plain : ∀ line ∈ source.preamble ++ source.blocks.flatMap (·.lines), Text.Plain line

/-- The blocks of a source that can be written and read back can be so one by one. -/
theorem Readable.writable {source : Source} (readable : source.Readable) {block : Block}
    (member : block ∈ source.blocks) : block.Writable :=
  ⟨readable.blocks block member, fun line within =>
    readable.plain line (List.mem_append_right _ (List.mem_flatMap.mpr ⟨block, member, within⟩))⟩

/-- The source with other blocks in the place of its own. -/
def withBlocks (source : Source) (blocks : List Block) : Source := { source with blocks }

/-- The blocks are those put in their place. -/
@[simp] theorem blocks_withBlocks (source : Source) (blocks : List Block) :
    (source.withBlocks blocks).blocks = blocks := rfl

/-- The preamble stays when blocks are put in the place of others. -/
@[simp] theorem preamble_withBlocks (source : Source) (blocks : List Block) :
    (source.withBlocks blocks).preamble = source.preamble := rfl

/-- Putting the blocks of a source in their own place changes nothing. -/
theorem withBlocks_self (source : Source) : source.withBlocks source.blocks = source := rfl

/-- A source can be written and read back with any blocks that can. -/
theorem Readable.withBlocks {source : Source} (readable : source.Readable) {blocks : List Block}
    (writable : ∀ block ∈ blocks, block.Writable) : (source.withBlocks blocks).Readable := by
  refine ⟨readable.preamble, fun block member => (writable block member).toReadable,
    fun line member => ?_⟩
  rcases List.mem_append.mp member with inPreamble | inBlocks
  · exact readable.plain line (List.mem_append_left _ inPreamble)
  · obtain ⟨block, known, within⟩ := List.mem_flatMap.mp inBlocks
    exact (writable block known).plain line within

/-- The statement for a word can be read back. -/
theorem plain_forwardStatement {name : String} (word : Text.isWord name = true) :
    Text.Plain (forwardStatement name) := by
  refine ⟨not_mem_forwardStatement word (by decide) (by decide), fun ends => ?_⟩
  exact not_mem_forwardStatement word (by decide) (by decide) (List.mem_of_getLast? ends)

/-- Separating adds empty lines only. -/
theorem mem_foldl_separate {front : List String} {parts : List (List String)} {line : String}
    (member : line ∈ parts.foldl separate front) :
    line ∈ front ∨ (∃ part ∈ parts, line ∈ part) ∨ line = "" := by
  induction parts generalizing front with
  | nil => exact .inl member
  | cons part parts ih =>
    have within : line ∈ separate front part → line ∈ front ∨ line ∈ part ∨ line = "" := by
      unfold separate
      split
      · exact fun inPart => .inr (.inl inPart)
      · intro inBoth
        have shape : line ∈ front ∨ line = "" ∨ line ∈ part := by
          simpa [separator, or_assoc] using inBoth
        exact shape.imp_right Or.symm
    rcases ih member with inFirst | ⟨other, later, inOther⟩ | empty
    · rcases within inFirst with inFront | inPart | empty
      · exact .inl inFront
      · exact .inr (.inl ⟨part, List.mem_cons_self, inPart⟩)
      · exact .inr (.inr empty)
    · exact .inr (.inl ⟨other, List.mem_cons_of_mem part later, inOther⟩)
    · exact .inr (.inr empty)

/-- A line written is one of the preamble or of a block, a statement, or empty. -/
theorem mem_toLines {source : Source} {forward : List String} {line : String}
    (member : line ∈ source.toLines forward) :
    line ∈ source.preamble ++ source.blocks.flatMap (·.lines) ∨ line = "" ∨
      ∃ name ∈ forward, forwardStatement name = line := by
  have inDeclared (declared : line ∈ (source.blocks.map (·.lines)).foldl separate
      (Text.dropBlankTail source.preamble)) :
      line ∈ source.preamble ++ source.blocks.flatMap (·.lines) ∨ line = "" := by
    rcases mem_foldl_separate declared with inFront | ⟨lines, inLines, inBlock⟩ | empty
    · exact .inl (List.mem_append_left _ (Text.mem_of_mem_dropTailWhile inFront))
    · obtain ⟨block, known, rfl⟩ := List.mem_map.mp inLines
      exact .inl (List.mem_append_right _ (List.mem_flatMap.mpr ⟨block, known, inBlock⟩))
    · exact .inr empty
  unfold toLines at member
  dsimp only at member
  split at member
  · exact .inl (List.mem_append_left _ member)
  · split at member
    · exact (inDeclared member).imp_right .inl
    · rcases List.mem_append.mp member with before | inStatements
      · rcases List.mem_append.mp before with declared | inSeparator
        · exact (inDeclared declared).imp_right .inl
        · have empty : line = "" := by simpa [separator] using inSeparator
          exact .inr (.inl empty)
      · exact .inr (.inr (List.mem_map.mp inStatements))

/-- What a source is written as can be read back. -/
theorem Readable.plain_toLines {source : Source} (readable : source.Readable)
    {forward : List String} (words : ∀ name ∈ forward, Text.isWord name = true) :
    ∀ line ∈ source.toLines forward, Text.Plain line := by
  intro line member
  rcases mem_toLines member with known | empty | ⟨name, inForward, rfl⟩
  · exact readable.plain line known
  · rw [empty]
    exact ⟨by decide, by decide⟩
  · exact plain_forwardStatement (words name inForward)

/-- A source with blocks comes back when it is written with statements for words and read again:
its preamble with the separator in place of the blank lines at the end, its blocks, and as stale
statements those written. -/
theorem ofText_toText {source : Source} (readable : source.Readable) (nonempty : source.blocks ≠ [])
    {forward : List String} (words : ∀ name ∈ forward, Text.isWord name = true) :
    ofText (source.toText forward) =
      { preamble := lead (Text.dropBlankTail source.preamble)
        blocks := source.blocks.map Block.bare
        staleStatements := forward.map forwardStatement
        ending := source.ending } := by
  obtain ⟨first, rest, blocks_eq⟩ := List.exists_cons_of_ne_nil nonempty
  have blocks_readable : ∀ block ∈ first :: rest, block.Readable := blocks_eq ▸ readable.blocks
  have first_nonempty : first.lines ≠ [] := by
    obtain ⟨signature, whole, -, -⟩ := (blocks_readable first List.mem_cons_self).declares
    simp [whole]
  have plain := readable.plain_toLines words
  have written := toLines_eq blocks_eq first_nonempty forward
  have some_line : source.toLines forward ≠ [] := by simp [written, first_nonempty]
  have lead_preamble : ∀ line ∈ lead (Text.dropBlankTail source.preamble),
      opensDeclaration line = false := by
    intro line member
    unfold lead at member
    split at member
    · exact absurd member List.not_mem_nil
    · rcases List.mem_append.mp member with inFront | inSeparator
      · exact readable.preamble line (Text.mem_of_mem_dropTailWhile inFront)
      · have blank : ∀ line ∈ separator, opensDeclaration line = false := by decide
        exact blank line inSeparator
  rw [ofText, toText, Text.lines_unlines source.ending plain,
    Text.detect_unlines source.ending plain some_line, written, List.foldl_append,
    List.foldl_append, Reader.foldl_preamble _ lead_preamble]
  obtain ⟨done, last, last_readable, read, complete⟩ := Reader.foldl_blocks
    ⟨{ preamble := [] ++ lead (Text.dropBlankTail source.preamble), ending := source.ending }, none⟩
    blocks_readable
  rw [read, Reader.close_statements done last_readable words]
  have closed := congrArg (fun source : Source =>
    { source with staleStatements := source.staleStatements ++ forward.map forwardStatement })
    complete
  dsimp only at closed
  rw [closed, blocks_eq]
  rfl

/-- A source without blocks comes back as its preamble when it is written and read again. -/
theorem ofText_toText_preamble {source : Source} (readable : source.Readable)
    (empty : source.blocks = []) (forward : List String) :
    ofText (source.toText forward) =
      { preamble := source.preamble
        ending := Text.LineEnding.detect (source.toText forward) } := by
  have written : source.toLines forward = source.preamble := by
    rw [toLines, if_pos (by simp [empty])]
  have plain : ∀ line ∈ source.preamble, Text.Plain line := fun line member =>
    readable.plain line (List.mem_append_left _ member)
  rw [ofText, toText, written, Text.lines_unlines source.ending plain,
    Reader.foldl_preamble _ readable.preamble]
  rfl

/-- The lines in front of the first block have the separator for blank lines at their end. -/
theorem dropBlankTail_lead (preamble : List String) :
    Text.dropBlankTail (lead (Text.dropBlankTail preamble)) = Text.dropBlankTail preamble := by
  have blank : ∀ line ∈ separator, Text.isBlankLine line = true := by decide
  have idem : Text.dropBlankTail (Text.dropBlankTail preamble) = Text.dropBlankTail preamble :=
    Text.dropTailWhile_idem preamble
  unfold lead
  split
  · next empty =>
    rw [List.isEmpty_iff.mp empty]
    rfl
  · exact (Text.dropTailWhile_append blank).trans idem

/-- What was written and read back has the same blocks, and is written in the same way again. -/
theorem Readable.reread {source : Source} (readable : source.Readable) {forward : List String}
    (words : ∀ name ∈ forward, Text.isWord name = true) :
    (ofText (source.toText forward)).blocks = source.blocks.map Block.bare ∧
      ({ ofText (source.toText forward) with blocks := source.blocks } : Source).toText forward =
        source.toText forward := by
  by_cases empty : source.blocks = []
  · rw [ofText_toText_preamble readable empty]
    have whole : source.toText forward = Text.unlines source.ending source.preamble := by
      rw [toText, toLines, if_pos (by simp [empty])]
    have kept : Text.unlines (Text.LineEnding.detect (source.toText forward)) source.preamble =
        source.toText forward := by
      by_cases none : source.preamble = []
      · rw [whole, none]
        rfl
      · have plain : ∀ line ∈ source.preamble, Text.Plain line := fun line member =>
          readable.plain line (List.mem_append_left _ member)
        rw [whole, Text.detect_unlines source.ending plain none]
    constructor
    · rw [empty]
      rfl
    · rw [toText, toLines, if_pos (by simp [empty])]
      exact kept
  · rw [ofText_toText readable empty words]
    have written : ¬ source.blocks.isEmpty = true := by simpa using empty
    refine ⟨rfl, ?_⟩
    rw [toText, toText, toLines, if_neg written, toLines, if_neg written, dropBlankTail_lead]

/-- What holds of the lines read so far, which are known to be good. -/
structure Reader.Sound (good : String → Prop) (reader : Reader) : Prop where
  /-- No line of the preamble opens a declaration. -/
  preamble : ∀ line ∈ reader.done.preamble, opensDeclaration line = false ∧ good line
  /-- The blocks are complete, and nothing is known of their references. -/
  blocks : ∀ block ∈ reader.done.blocks,
    block.Readable ∧ block.bare = block ∧ ∀ line ∈ block.lines, good line
  /-- The open block has no further declaration or statement. -/
  current : ∀ block ∈ reader.current,
    block.Opened ∧ block.bare = block ∧ ∀ line ∈ block.lines, good line

namespace Reader

variable {good : String → Prop}

/-- Closing the open block leaves the reading sound. -/
theorem Sound.close {reader : Reader} (sound : Sound good reader) :
    Sound good { done := reader.close, current := none } := by
  obtain ⟨done, current⟩ := reader
  cases current with
  | none => exact sound
  | some block =>
    obtain ⟨opened, bare, known⟩ := sound.current block rfl
    refine ⟨sound.preamble, fun other member => ?_, fun _ absent => absurd absent (by simp)⟩
    rcases List.mem_append.mp member with earlier | same
    · exact sound.blocks other earlier
    · obtain rfl := List.mem_singleton.mp same
      refine ⟨opened.trimmed, ?_, fun line within => ?_⟩
      · rw [← bare]
        rfl
      · rcases List.mem_append.mp within with signature | inBody
        · exact known line (List.mem_of_mem_take signature)
        · exact known line (List.mem_of_mem_drop (Text.mem_of_mem_dropTailWhile inBody))

/-- Reading one more line leaves the reading sound. -/
theorem Sound.next {reader : Reader} (sound : Sound good reader) {line : String}
    (known : good line) : Sound good (reader.next line) := by
  obtain ⟨done, current⟩ := reader
  cases opens : opensDeclaration line with
  | true =>
    rw [next_opening _ opens]
    refine ⟨sound.close.preamble, sound.close.blocks, fun block same => ?_⟩
    obtain rfl := Option.some.inj same
    have only : ∀ other ∈ [line], good other := fun other member =>
      List.mem_singleton.mp member ▸ known
    exact ⟨Block.opened_opening opens, rfl, only⟩
  | false =>
    cases current with
    | none =>
      rw [next_preamble done opens]
      refine ⟨fun other member => ?_, sound.blocks, sound.current⟩
      rcases List.mem_append.mp member with earlier | same
      · exact sound.preamble other earlier
      · exact List.mem_singleton.mp same ▸ ⟨opens, known⟩
    | some block =>
      cases statement : isForwardStatement line with
      | true =>
        rw [next_statement done block opens statement]
        exact ⟨sound.preamble, sound.blocks, sound.current⟩
      | false =>
        rw [next_body done block opens statement]
        refine ⟨sound.preamble, sound.blocks, fun longer same => ?_⟩
        obtain rfl := Option.some.inj same
        obtain ⟨opened, bare, earlier⟩ := sound.current block rfl
        have still_bare : (block.push line).bare = block.push line := by
          rw [← bare]
          rfl
        refine ⟨opened.push opens statement, still_bare, fun other member => ?_⟩
        rcases List.mem_append.mp member with before | same
        · exact earlier other before
        · exact List.mem_singleton.mp same ▸ known

/-- Reading good lines leaves the reading sound. -/
theorem Sound.foldl {reader : Reader} (sound : Sound good reader) {rows : List String}
    (known : ∀ line ∈ rows, good line) : Sound good (rows.foldl Reader.next reader) := by
  induction rows generalizing reader with
  | nil => exact sound
  | cons line rows ih =>
    exact ih (sound.next (known line List.mem_cons_self))
      fun other member => known other (List.mem_cons_of_mem line member)

end Reader

/-- A source that was read is sound as to any property that all its lines have. -/
theorem sound_ofText {good : String → Prop} {text : String}
    (known : ∀ line ∈ Text.lines text, good line) :
    Reader.Sound good { done := ofText text, current := none } := by
  have start : Reader.Sound good
      { done := { ending := Text.LineEnding.detect text }, current := none } := by
    constructor <;> simp
  exact (start.foldl known).close

/-- A text without carriage returns at the ends of its lines is read as a source that can be written
and read back. -/
theorem readable_ofText {text : String}
    (unreturned : ∀ line ∈ Text.lines text, line.toList.getLast? ≠ some '\r') :
    (ofText text).Readable := by
  have sound := sound_ofText fun line member =>
    Text.plain_of_mem_lines member (unreturned line member)
  refine ⟨fun line member => (sound.preamble line member).1,
    fun block member => (sound.blocks block member).1, fun line member => ?_⟩
  rcases List.mem_append.mp member with inPreamble | inBlocks
  · exact (sound.preamble line inPreamble).2
  · obtain ⟨block, known, within⟩ := List.mem_flatMap.mp inBlocks
    exact (sound.blocks block known).2.2 line within

/-- Nothing is known of the references of a block that was read. -/
theorem bare_of_mem_ofText {text : String} {block : Block} (member : block ∈ (ofText text).blocks) :
    block.bare = block :=
  ((sound_ofText fun _ _ => trivial).blocks block member).2.1

end Source

end DeclOrder
