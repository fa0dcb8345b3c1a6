import DeclOrder.Text.Lines

/-!
# Lines written and read back

A line can be read back when it has no line feed and no carriage return at its end. Lines of this
kind come back as they were written, and so does their terminator as soon as there is a line. The
lines of a text never have a line feed, so those that do not end in a carriage return can all be
read back.
-/

namespace DeclOrder.Text

/-- The line can be read back from a text. -/
structure Plain (line : String) : Prop where
  /-- It has no line feed. -/
  unbroken : '\n' ∉ line.toList
  /-- It does not end in a carriage return. -/
  unreturned : line.toList.getLast? ≠ some '\r'

/-- Whether a line is plain can be computed. -/
instance (line : String) : Decidable (Plain line) :=
  decidable_of_iff ('\n' ∉ line.toList ∧ line.toList.getLast? ≠ some '\r')
    ⟨fun both => ⟨both.1, both.2⟩, fun plain => ⟨plain.unbroken, plain.unreturned⟩⟩

/-- The characters of a terminator before its line feed. -/
def LineEnding.front : LineEnding → List Char
  | .lf => []
  | .crlf => ['\r']

/-- A terminator ends in a line feed. -/
theorem LineEnding.toList_text (ending : LineEnding) :
    ending.text.toList = ending.front ++ ['\n'] := by
  cases ending <;> rfl

/-- The part of a terminator before its line feed has none. -/
theorem LineEnding.not_mem_front (ending : LineEnding) : '\n' ∉ ending.front := by
  cases ending <;> decide

/-- Written lines fall apart at the line feeds into the lines, with the front of the terminator,
and an empty rest. -/
theorem splitOn_unlines (ending : LineEnding) {rows : List String}
    (unbroken : ∀ line ∈ rows, '\n' ∉ line.toList) :
    (unlines ending rows).toList.splitOn '\n' =
      rows.map (fun line => line.toList ++ ending.front) ++ [[]] := by
  induction rows with
  | nil => rfl
  | cons line rows ih =>
    have shape : (unlines ending (line :: rows)).toList =
        (line.toList ++ ending.front) ++ '\n' :: (unlines ending rows).toList := by
      simp [unlines, LineEnding.toList_text]
    have missing : '\n' ∉ line.toList ++ ending.front := by
      rw [List.mem_append, not_or]
      exact ⟨unbroken line List.mem_cons_self, ending.not_mem_front⟩
    rw [shape, List.splitOn_append_cons_self_of_not_mem missing,
      ih fun other member => unbroken other (List.mem_cons_of_mem line member)]
    rfl

/-- The front of a terminator is dropped from a line that does not end in a carriage return
itself. -/
theorem dropReturn_front (ending : LineEnding) {line : List Char}
    (unreturned : line.getLast? ≠ some '\r') : dropReturn (line ++ ending.front) = line := by
  cases ending with
  | lf =>
    have whole : line ++ LineEnding.lf.front = line := List.append_nil line
    rw [whole, dropReturn, if_neg unreturned]
  | crlf =>
    have ends : (line ++ LineEnding.crlf.front).getLast? = some '\r' := List.getLast?_concat
    rw [dropReturn, if_pos ends]
    exact List.dropLast_concat

/-- Plain lines are read back as they were written. -/
theorem lines_unlines (ending : LineEnding) {rows : List String}
    (plain : ∀ line ∈ rows, Plain line) : lines (unlines ending rows) = rows := by
  have split := splitOn_unlines ending fun line member => (plain line member).unbroken
  have ended : rows.map (fun line => String.ofList (dropReturn (line.toList ++ ending.front))) =
      rows.map id := by
    refine List.map_congr_left fun line member => ?_
    rw [dropReturn_front ending (plain line member).unreturned, String.ofList_toList]
    rfl
  simp only [lines, split, List.dropLast_concat, List.getLast?_concat, List.map_map,
    List.map_append, Function.comp_def, ended, List.map_id]
  simp

/-- The terminator of plain lines is read back, if there is a line. -/
theorem detect_unlines (ending : LineEnding) {rows : List String}
    (plain : ∀ line ∈ rows, Plain line) (nonempty : rows ≠ []) :
    LineEnding.detect (unlines ending rows) = ending := by
  obtain ⟨first, rest, rfl⟩ := List.exists_cons_of_ne_nil nonempty
  have split := splitOn_unlines ending fun line member => (plain line member).unbroken
  have rest_ne : rest.map (fun line => line.toList ++ ending.front) ++ [[]] ≠ [] := by simp
  obtain ⟨second, others, rest_eq⟩ := List.exists_cons_of_ne_nil rest_ne
  rw [List.map_cons, List.cons_append, rest_eq] at split
  rw [LineEnding.detect, split]
  dsimp only
  cases ending with
  | lf =>
    have whole : first.toList ++ LineEnding.lf.front = first.toList := List.append_nil _
    rw [whole, if_neg (plain first List.mem_cons_self).unreturned]
  | crlf =>
    have ends : (first.toList ++ LineEnding.crlf.front).getLast? = some '\r' := List.getLast?_concat
    rw [if_pos ends]

/-- The pieces of a list between separators have no separator. -/
theorem not_mem_of_mem_splitOn {separator : Char} {chars piece : List Char}
    (member : piece ∈ chars.splitOn separator) : separator ∉ piece := by
  induction chars generalizing piece with
  | nil =>
    rw [List.splitOn_nil, List.mem_singleton] at member
    exact member ▸ List.not_mem_nil
  | cons char chars ih =>
    rw [List.splitOn_cons_eq_if_modifyHead] at member
    split at member
    · rcases List.mem_cons.mp member with rfl | later
      · exact List.not_mem_nil
      · exact ih later
    · next different =>
      have nonempty := List.splitOn_ne_nil separator chars
      obtain ⟨first, rest, split⟩ := List.exists_cons_of_ne_nil nonempty
      rw [split] at ih member
      rcases List.mem_cons.mp member with rfl | later
      · rw [List.mem_cons, not_or]
        exact ⟨fun same => different (by simp [same]), ih List.mem_cons_self⟩
      · exact ih (List.mem_cons_of_mem first later)

/-- The lines of a text have no line feed. -/
theorem unbroken_of_mem_lines {text line : String} (member : line ∈ lines text) :
    '\n' ∉ line.toList := by
  obtain ⟨chars, inside, rfl⟩ := List.mem_map.mp member
  rw [String.toList_ofList]
  rcases List.mem_append.mp inside with ended | last
  · obtain ⟨piece, inPieces, rfl⟩ := List.mem_map.mp ended
    have missing := not_mem_of_mem_splitOn ((List.dropLast_sublist _).subset inPieces)
    unfold dropReturn
    split
    · exact fun inside => missing ((List.dropLast_sublist _).subset inside)
    · exact missing
  · have ends := Option.mem_toList.mp (List.mem_filter.mp last).1
    exact not_mem_of_mem_splitOn (List.mem_of_getLast? ends)

/-- The lines of a text are plain unless one ends in a carriage return. -/
theorem plain_of_mem_lines {text line : String} (member : line ∈ lines text)
    (unreturned : line.toList.getLast? ≠ some '\r') : Plain line :=
  ⟨unbroken_of_mem_lines member, unreturned⟩

end DeclOrder.Text
