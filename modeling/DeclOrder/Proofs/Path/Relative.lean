import DeclOrder.Proofs.Path.Steps

/-!
# Paths from a directory

The steps of a path seen from a directory are those of the directory and then its own. What follows
a root in a path has the steps that the root does not have, so seen from the root it goes the same
way as the path. A path that ends in a step names an entry of the directory that the steps before it
lead to.
-/

namespace DeclOrder.Path

section Join

variable {directory path : Path}

/-- A relative path seen from a directory that is spelled out has its segments after some that
start as those of the directory do and mean the same. -/
theorem segments_join (spelled : directory.text ≠ "") (relative : path.isAbsolute = false) :
    ∃ front : Path, front.segments.head? = directory.segments.head? ∧
      front.steps = directory.steps ∧
      (directory.join path).segments = front.segments ++ path.segments := by
  have filled : directory.text.isEmpty = false := by simpa using spelled
  rw [join, if_neg (by simp [relative]), filled, Bool.false_or]
  by_cases closed : directory.text.endsWith "/" = true
  · obtain ⟨front, whole⟩ := endsWith_slash_iff.mp closed
    have segments_directory :
        directory.segments = segments ⟨String.ofList front⟩ ++ [""] := by
      rw [← segments_empty, ← String.ofList_nil, ← segments_append, whole, String.ofList_toList]
    refine ⟨⟨String.ofList front⟩, ?_, ?_, ?_⟩
    · rw [segments_directory, List.head?_append_of_ne_nil _ (segments_ne_nil _)]
    · rw [steps, steps, segments_directory, meaningful_append, meaningful_cons_idle isIdle_empty,
        meaningful_nil, List.append_nil]
    · have text : directory.text ++ path.text =
          String.ofList (front ++ '/' :: path.text.toList) := by
        apply String.toList_inj.mp
        simp [← whole]
      rw [if_pos closed, text, segments_append, String.ofList_toList]
  · refine ⟨directory, rfl, rfl, ?_⟩
    have text : directory.text ++ "/" ++ path.text =
        String.ofList (directory.text.toList ++ '/' :: path.text.toList) := by
      apply String.toList_inj.mp
      simp
    rw [if_neg closed, text, segments_append, String.ofList_toList, String.ofList_toList]

/-- A relative path seen from the directory of the empty spelling stays as it is. -/
theorem join_empty (path : Path) : join ⟨""⟩ path = path := by
  by_cases absolute : path.isAbsolute = true <;> simp [join, absolute]

/-- An absolute path stays as it is from everywhere. -/
theorem join_absolute (absolute : path.isAbsolute = true) : directory.join path = path := by
  rw [join, if_pos absolute]

/-- The steps of a relative path seen from a directory are those of the directory and its own. -/
theorem steps_join (relative : path.isAbsolute = false) :
    (directory.join path).steps = directory.steps ++ path.steps := by
  by_cases empty : directory.text = ""
  · have bare : directory = ⟨""⟩ := by cases directory; simp_all
    have idle : steps ⟨""⟩ = [] := by
      rw [steps, segments_empty, meaningful_cons_idle isIdle_empty, meaningful_nil]
    rw [bare, join_empty, idle, List.nil_append]
  · obtain ⟨front, -, means, whole⟩ := segments_join empty relative
    rw [steps, whole, meaningful_append, ← steps, ← steps, means]

/-- A relative path seen from a directory that is spelled out has the lead of the directory. -/
theorem lead?_join (spelled : directory.text ≠ "") (relative : path.isAbsolute = false) :
    (directory.join path).lead? = directory.lead? := by
  obtain ⟨front, starts, -, whole⟩ := segments_join spelled relative
  have filled : (directory.join path).text ≠ "" := by
    intro empty
    have alone : (directory.join path).segments = [""] := by rw [segments, empty]; rfl
    have long := congrArg List.length (whole.symm.trans alone)
    have some_front := List.length_pos_iff.mpr front.segments_ne_nil
    have some_path := List.length_pos_iff.mpr path.segments_ne_nil
    simp only [List.length_append, List.length_singleton] at long
    omega
  rw [lead?_eq filled, lead?_eq spelled, whole,
    List.head?_append_of_ne_nil _ front.segments_ne_nil, starts]

/-- A relative path is absolute from a directory exactly if the directory is. -/
theorem isAbsolute_join (relative : path.isAbsolute = false) :
    (directory.join path).isAbsolute = directory.isAbsolute := by
  by_cases empty : directory.text = ""
  · have bare : directory = ⟨""⟩ := by cases directory; simp_all
    rw [bare, join_empty, relative]
    decide
  · rw [Bool.eq_iff_iff, isAbsolute_iff, isAbsolute_iff, lead?_join empty relative]

/-- The last segment of a relative path is the last from every directory. -/
theorem getLast?_join (spelled : directory.text ≠ "") (relative : path.isAbsolute = false) :
    (directory.join path).segments.getLast? = path.segments.getLast? := by
  obtain ⟨front, -, -, whole⟩ := segments_join spelled relative
  rw [whole, List.getLast?_append_of_ne_nil _ path.segments_ne_nil]

end Join

section After

variable {root path found : Path}

/-- The two paths start at the same place and take the same steps. -/
structure SameWay (left right : Path) : Prop where
  /-- Both are absolute, or neither is. -/
  isAbsolute : left.isAbsolute = right.isAbsolute
  /-- They have the same steps. -/
  steps : left.steps = right.steps

/-- The last segment of the path means something. -/
def EndsInStep (path : Path) : Prop :=
  ∃ last, path.segments.getLast? = some last ∧ isIdle last = false

/-- Only the empty spelling has no parts. -/
theorem eq_empty_of_parts (bare : path.parts = []) : path = ⟨""⟩ := by
  suffices text : path.text = "" from congrArg Path.mk text
  by_contra spelled
  rw [parts_eq, List.append_eq_nil_iff, List.map_eq_nil_iff] at bare
  obtain ⟨noLead, noSteps⟩ := bare
  obtain ⟨first, rest, shape⟩ := List.exists_cons_of_ne_nil path.segments_ne_nil
  have lead := lead?_eq spelled
  rw [shape, List.head?_cons, Option.toList_eq_nil_iff.mp noLead] at lead
  have moves : isIdle first = false := by
    by_contra idle
    have words : first = "" ∨ first = "." := by
      rw [isIdle, Bool.not_eq_false, Bool.or_eq_true, String.isEmpty_iff, beq_iff_eq] at idle
      exact idle
    rcases words with rfl | rfl <;> simp at lead
  rw [steps, shape, meaningful_cons_step moves] at noSteps
  exact absurd noSteps (by simp)

/-- A path with parts is spelled out. -/
theorem spelled_of_parts (parts : path.parts ≠ []) : path.text ≠ "" := by
  intro none
  have bare : path = ⟨""⟩ := congrArg Path.mk none
  exact parts (by rw [bare]; decide)

/-- The lead of a path is its first part, if that stands only at the start. -/
theorem lead?_eq_filter (path : Path) : path.lead? = path.parts.head?.filter Part.isLead := by
  rw [parts_eq]
  rcases path.lead?_cases with lead | lead | lead
  · cases steps : path.steps <;> simp [lead, Option.filter]
  · simp [lead, Option.filter, Part.isLead]
  · simp [lead, Option.filter, Part.isLead]

/-- A path that means the directory itself has that lead and no steps. -/
theorem of_parts_here (here : path.parts = [.here]) :
    path.lead? = some .here ∧ path.steps = [] := by
  have lead : path.lead? = some .here := by
    rw [lead?_eq_filter, here]
    rfl
  rw [parts_eq, lead] at here
  exact ⟨lead, by simpa using here⟩

/-- If the parts of a path start with those of a root, it has the lead of the root and its steps
start with those of the root. -/
theorem front_steps (within : root.parts <+: found.parts) (spelled : root.parts ≠ []) :
    root.lead? = found.lead? ∧ root.steps <+: found.steps := by
  have same : root.lead? = found.lead? := by
    obtain ⟨first, rest, shape⟩ := List.exists_cons_of_ne_nil spelled
    obtain ⟨back, whole⟩ := within
    rw [lead?_eq_filter, lead?_eq_filter, ← whole, shape]
    rfl
  rw [parts_eq, parts_eq, same] at within
  have isFront := (List.prefix_append_right_inj _).mp within
  rw [List.prefix_iff_eq_take, List.length_map, ← List.map_take] at isFront
  rw [List.prefix_iff_eq_take]
  exact ⟨same, List.map_injective_iff.mpr stepPart_injective isFront⟩

/-- The segments that follow the parts of a root in a path. -/
def rest (root found : Path) : List String :=
  Text.strip isIdle (skipSegments root.steps.length found.opening.2)

/-- What follows a root that is not spelled out is the path without idle segments at its end. -/
theorem after?_bare (bare : root.parts = []) :
    root.after? found =
      some (assemble found.lead? (Text.dropTailWhile isIdle found.opening.2)) := by
  simp [after?, bare, lead?]

/-- What follows a root that is spelled out, in a path that starts with its parts. -/
theorem after?_spelled (within : root.parts <+: found.parts) (spelled : root.parts ≠ []) :
    root.after? found = some ⟨joinSegments (rest root found)⟩ := by
  have same := (front_steps within spelled).1
  have count : root.parts.length - found.lead?.toList.length = root.steps.length := by
    rw [parts_eq, same, List.length_append, List.length_map]
    omega
  rw [rest, ← count]
  simp [after?, List.isPrefixOf_iff_prefix.mpr within, spelled, lead?]

/-- Nothing follows a root in a path that does not start with its parts. -/
theorem after?_outside (outside : ¬root.parts <+: found.parts) : root.after? found = none := by
  have no : root.parts.isPrefixOf found.parts = false := by
    rwa [Bool.eq_false_iff, Ne, List.isPrefixOf_iff_prefix]
  simp [after?, no]

/-- What is left after skipping segments comes from them. -/
theorem mem_of_mem_skipSegments {count : Nat} {segments : List String} {segment : String}
    (member : segment ∈ skipSegments count segments) : segment ∈ segments := by
  fun_induction skipSegments count segments with
  | case1 => exact member
  | case2 => exact member
  | case3 count first rest idle ih => exact List.mem_cons_of_mem _ (ih member)
  | case4 count first rest moves ih => exact List.mem_cons_of_mem _ (ih member)

/-- The segments that follow a root have no slash. -/
theorem slash_not_mem_rest {segment : String} (member : segment ∈ rest root found) :
    '/' ∉ segment.toList := by
  have after : segment ∈ found.opening.2 := mem_of_mem_skipSegments (Text.mem_of_mem_strip member)
  have inPath : segment ∈ found.segments := by
    rw [segments_eq]
    exact List.mem_append_right _ after
  exact slash_not_mem_segment inPath

/-- The segments that follow a root mean the steps that the root does not have. -/
theorem meaningful_rest (root found : Path) :
    meaningful (rest root found) = found.steps.drop root.steps.length := by
  rw [rest, meaningful_strip, meaningful_skipSegments, meaningful_opening]

/-- What follows a root has the steps that the root does not have. -/
theorem steps_rest (root found : Path) :
    steps ⟨joinSegments (rest root found)⟩ = found.steps.drop root.steps.length := by
  by_cases empty : rest root found = []
  · rw [← meaningful_rest, empty]
    decide
  · rw [steps, segments_joinSegments empty fun _ member => slash_not_mem_rest member,
      meaningful_rest]

/-- What follows a root is relative. -/
theorem isAbsolute_rest (root found : Path) :
    isAbsolute ⟨joinSegments (rest root found)⟩ = false := by
  by_cases empty : rest root found = []
  · rw [empty]
    decide
  · obtain ⟨first, later, shape⟩ := List.exists_cons_of_ne_nil empty
    have moves : isIdle first = false := by
      have kept := Text.dropWhile_strip isIdle (skipSegments root.steps.length found.opening.2)
      have fails := List.head?_dropWhile_not isIdle (rest root found)
      rw [show (rest root found).dropWhile isIdle = rest root found from kept, shape] at fails
      simpa using fails
    have segments := segments_joinSegments empty fun _ member => slash_not_mem_rest member
    have lead : lead? ⟨joinSegments (rest root found)⟩ = none :=
      lead?_eq_none (by rw [segments, shape, List.head?_cons]) moves
    exact isAbsolute_eq_false (by simp [lead])

/-- What follows a root goes the same way from it as the path. -/
theorem sameWay_join_after? (taken : root.after? found = some path) :
    SameWay (root.join path) found := by
  by_cases bare : root.parts = []
  · have none := eq_empty_of_parts bare
    have isFront := Text.front_dropTailWhile isIdle found.opening.2
    rw [after?_bare bare] at taken
    obtain rfl := Option.some.inj taken
    rw [none, join_empty]
    exact ⟨isAbsolute_assemble isFront, by
      rw [steps_assemble isFront, meaningful_dropTailWhile, meaningful_opening]⟩
  · by_cases within : root.parts <+: found.parts
    · obtain ⟨lead, isFront⟩ := front_steps within bare
      rw [after?_spelled within bare] at taken
      obtain rfl := Option.some.inj taken
      refine ⟨?_, ?_⟩
      · rw [isAbsolute_join (isAbsolute_rest root found), Bool.eq_iff_iff, isAbsolute_iff,
          isAbsolute_iff, lead]
      · rw [steps_join (isAbsolute_rest root found), steps_rest]
        exact List.prefix_iff_eq_append.mp isFront
    · rw [after?_outside within] at taken
      exact absurd taken (by simp)

/-- What follows a root ends in a step, also as seen from it, if it has a step at all. -/
theorem endsInStep_join_after? (taken : root.after? found = some path) (moves : path.steps ≠ []) :
    (root.join path).EndsInStep := by
  by_cases bare : root.parts = []
  · have none := eq_empty_of_parts bare
    have isFront := Text.front_dropTailWhile isIdle found.opening.2
    rw [after?_bare bare] at taken
    obtain rfl := Option.some.inj taken
    have nonempty : Text.dropTailWhile isIdle found.opening.2 ≠ [] := by
      intro empty
      rw [steps_assemble isFront, empty] at moves
      exact moves rfl
    obtain ⟨last, ends⟩ := Option.isSome_iff_exists.mp (List.getLast?_isSome.mpr nonempty)
    refine ⟨last, ?_, Text.getLast_dropTailWhile ends⟩
    rw [none, join_empty, segments_assemble nonempty isFront,
      List.getLast?_append_of_ne_nil _ nonempty, ends]
  · by_cases within : root.parts <+: found.parts
    · rw [after?_spelled within bare] at taken
      obtain rfl := Option.some.inj taken
      have nonempty : rest root found ≠ [] := by
        intro empty
        rw [steps_rest, ← meaningful_rest, empty] at moves
        exact moves rfl
      obtain ⟨last, ends⟩ := Option.isSome_iff_exists.mp (List.getLast?_isSome.mpr nonempty)
      refine ⟨last, ?_, Text.getLast_dropTailWhile ends⟩
      rw [getLast?_join (spelled_of_parts bare) (isAbsolute_rest root found),
        segments_joinSegments nonempty fun _ member => slash_not_mem_rest member, ends]
    · rw [after?_outside within] at taken
      exact absurd taken (by simp)

end After

section Directory

variable {path : Path}

/-- The last segment of a path that ends in a step is the last of those after the lead. -/
theorem EndsInStep.getLast?_opening {last : String} (ends : path.segments.getLast? = some last)
    (moves : isIdle last = false) : path.opening.2.getLast? = some last := by
  have nonempty : path.opening.2 ≠ [] := by
    intro empty
    rw [segments_eq, empty, List.append_nil] at ends
    rcases path.lead?_cases with lead | lead | lead
    · simp [lead, leadSegments] at ends
    · obtain rfl : "" = last := by simpa [lead, leadSegments] using ends
      simp at moves
    · obtain rfl : "." = last := by simpa [lead, leadSegments] using ends
      simp at moves
  rw [segments_eq, List.getLast?_append_of_ne_nil _ nonempty] at ends
  exact ends

/-- A path that ends in a step names an entry of a directory: the spelling of the directory is a
front of its spelling, and what the path does beyond it is the step. -/
theorem EndsInStep.directory? (ends : path.EndsInStep) :
    ∃ directory name, path.directory? = some directory ∧
      path.segments.getLast? = some name ∧ isIdle name = false ∧
      directory.text.toList <+: path.text.toList ∧ directory.isAbsolute = path.isAbsolute ∧
      path.steps = directory.steps ++ [name] := by
  obtain ⟨name, isLast, moves⟩ := ends
  have isLast_opening := EndsInStep.getLast?_opening isLast moves
  have front := (Text.front_dropTailWhile isIdle path.opening.2.dropLast).trans
    (List.dropLast_prefix path.opening.2)
  have whole : path.opening.2.dropLast ++ [name] = path.opening.2 :=
    List.dropLast_append_getLast? name isLast_opening
  have kept : Text.dropTailWhile isIdle path.opening.2 = path.opening.2 :=
    Text.dropTailWhile_eq_self fun last isLast' => by simp_all
  refine ⟨assemble path.lead? (Text.dropTailWhile isIdle path.opening.2.dropLast), name, ?_,
    isLast, moves, front_text_assemble front, isAbsolute_assemble front, ?_⟩
  · simp only [Path.directory?, kept]
    have nonempty : path.opening.2 ≠ [] := by
      intro empty
      simp [empty] at isLast_opening
    obtain ⟨first, rest, shape⟩ := List.exists_cons_of_ne_nil nonempty
    rw [shape]
    rfl
  · rw [steps_assemble front, meaningful_dropTailWhile, ← meaningful_opening, ← whole,
      meaningful_append, meaningful_cons_step moves]
    simp

end Directory

end DeclOrder.Path
