import DeclOrder.Path
import DeclOrder.Proofs.Text.Ends
import DeclOrder.Proofs.Text.Lines

/-!
# The steps of a path

What a path means is its lead, which is the root, the directory itself or nothing, and its steps:
the segments that mean something. A lead and a front of the segments after it spell a front of the
path, which has the same lead and takes the steps of the front.
-/

namespace DeclOrder.Path

/-- The start that a path spells out. -/
def lead? (path : Path) : Option Part := path.opening.1

/-- The segments that mean something. -/
def meaningful (segments : List String) : List String := segments.filter (!isIdle ·)

/-- The segments of a path that mean something. -/
def steps (path : Path) : List String := meaningful path.segments

/-- The part that a meaningful segment means. -/
def stepPart (segment : String) : Part := if segment = ".." then .parent else .named segment

/-- Different segments mean different parts. -/
theorem stepPart_injective : Function.Injective stepPart := by
  intro left right same
  by_cases leftUp : left = ".." <;> by_cases rightUp : right = ".." <;>
    simp_all [stepPart]

/-- The empty segment means nothing. -/
@[simp] theorem isIdle_empty : isIdle "" = true := by decide

/-- The segment of a dot means nothing. -/
@[simp] theorem isIdle_dot : isIdle "." = true := by decide

/-- A part that stands only at the start of a path. -/
def Part.isLead : Part → Bool
  | .root | .here => true
  | _ => false

/-- A meaningful segment does not mean a part that stands only at the start. -/
@[simp] theorem isLead_stepPart (segment : String) : (stepPart segment).isLead = false := by
  by_cases up : segment = ".." <;> simp [stepPart, up, Part.isLead]

section Meaningful

variable {first : String} {rest front back segments : List String}

/-- Without segments none is meaningful. -/
@[simp] theorem meaningful_nil : meaningful [] = [] := rfl

/-- An idle segment means nothing. -/
theorem meaningful_cons_idle (idle : isIdle first = true) :
    meaningful (first :: rest) = meaningful rest := by
  simp [meaningful, idle]

/-- A segment that is not idle means something. -/
theorem meaningful_cons_step (moves : isIdle first = false) :
    meaningful (first :: rest) = first :: meaningful rest := by
  simp [meaningful, moves]

/-- The meaningful segments of two rows are those of the first and then those of the second. -/
@[simp] theorem meaningful_append :
    meaningful (front ++ back) = meaningful front ++ meaningful back :=
  List.filter_append ..

/-- Nothing is meant exactly by idle segments alone. -/
theorem meaningful_eq_nil_iff :
    meaningful segments = [] ↔ ∀ segment ∈ segments, isIdle segment = true := by
  simp [meaningful, List.filter_eq_nil_iff]

/-- The parts of segments are those that the meaningful ones mean. -/
theorem filterMap_part? (segments : List String) :
    segments.filterMap part? = (meaningful segments).map stepPart := by
  induction segments with
  | nil => rfl
  | cons first rest ih =>
    by_cases idle : isIdle first = true
    · rw [meaningful_cons_idle idle, List.filterMap_cons_none (by simp [part?, idle]), ih]
    · have moves : isIdle first = false := by simpa using idle
      have means : part? first = some (stepPart first) := by
        by_cases up : first = ".." <;> simp_all [part?, stepPart]
      rw [meaningful_cons_step moves, List.filterMap_cons_some means, ih, List.map_cons]

/-- Taking idle segments off the end leaves what the segments mean. -/
theorem meaningful_dropTailWhile (segments : List String) :
    meaningful (Text.dropTailWhile isIdle segments) = meaningful segments := by
  induction segments using List.reverseRecOn with
  | nil => rfl
  | append_singleton front last ih =>
    by_cases idle : isIdle last = true
    · rw [Text.dropTailWhile_append (by simpa using idle), ih, meaningful_append,
        meaningful_cons_idle idle, meaningful_nil, List.append_nil]
    · rw [Text.dropTailWhile_eq_self fun segment ends => by simp_all]

/-- Stripping idle segments leaves what the segments mean. -/
theorem meaningful_strip (segments : List String) :
    meaningful (Text.strip isIdle segments) = meaningful segments := by
  rw [Text.strip, meaningful_dropTailWhile]
  induction segments with
  | nil => rfl
  | cons first rest ih =>
    by_cases idle : isIdle first = true
    · rw [List.dropWhile_cons_of_pos idle, ih, meaningful_cons_idle idle]
    · rw [List.dropWhile_cons_of_neg idle]

/-- Skipping segments leaves the meaningful ones after so many. -/
theorem meaningful_skipSegments (count : Nat) (segments : List String) :
    meaningful (skipSegments count segments) = (meaningful segments).drop count := by
  fun_induction skipSegments count segments with
  | case1 => rfl
  | case2 => rfl
  | case3 count first rest idle ih => rw [ih, meaningful_cons_idle idle]
  | case4 count first rest moves ih =>
    rw [ih, meaningful_cons_step (by simpa using moves), List.drop_succ_cons]

end Meaningful

section Segments

variable {path directory : Path}

/-- A path has a segment, if only the empty one. -/
theorem segments_ne_nil (path : Path) : path.segments ≠ [] := by
  rw [segments, Ne, List.map_eq_nil_iff]
  exact List.splitOn_ne_nil '/' _

/-- A segment has no slash. -/
theorem slash_not_mem_segment {segment : String} (member : segment ∈ path.segments) :
    '/' ∉ segment.toList := by
  obtain ⟨piece, inPieces, rfl⟩ := List.mem_map.mp member
  rw [String.toList_ofList]
  exact Text.not_mem_of_mem_splitOn inPieces

/-- The segments of two spellings with a slash between them. -/
theorem segments_append (front back : List Char) :
    segments ⟨String.ofList (front ++ '/' :: back)⟩ =
      segments ⟨String.ofList front⟩ ++ segments ⟨String.ofList back⟩ := by
  simp only [segments, String.toList_ofList, List.splitOn_append_cons_self, List.map_append]

/-- Segments with slashes between them are the segments of what they spell. -/
theorem segments_joinSegments {segments : List String} (nonempty : segments ≠ [])
    (plain : ∀ segment ∈ segments, '/' ∉ segment.toList) :
    Path.segments ⟨joinSegments segments⟩ = segments := by
  have spelled : (joinSegments segments).toList =
      List.intercalate ['/'] (segments.map String.toList) :=
    String.toList_intercalate
  have read : List.splitOn '/' (List.intercalate ['/'] (segments.map String.toList)) =
      segments.map String.toList := by
    refine List.splitOn_intercalate '/' ?_ (by simpa using nonempty)
    intro piece member
    obtain ⟨segment, among, rfl⟩ := List.mem_map.mp member
    exact plain segment among
  rw [Path.segments, spelled, read, List.map_map]
  exact (List.map_congr_left fun segment _ => String.ofList_toList).trans (List.map_id _)

/-- The segments of a path with slashes between them spell it. -/
theorem joinSegments_segments (path : Path) : joinSegments path.segments = path.text := by
  apply String.toList_inj.mp
  rw [joinSegments, String.toList_intercalate, segments, List.map_map]
  have same : (path.text.toList.splitOn '/').map (String.toList ∘ String.ofList) =
      path.text.toList.splitOn '/' :=
    (List.map_congr_left fun piece _ => String.toList_ofList).trans (List.map_id _)
  rw [same]
  exact List.intercalate_splitOn '/'

/-- A character that is neither a slash nor a dot is in a path exactly if it is in a step. -/
theorem mem_text_iff {char : Char} (noSlash : char ≠ '/') (noDot : char ≠ '.') :
    char ∈ path.text.toList ↔ ∃ step ∈ path.steps, char ∈ step.toList := by
  have inSegments (segments : List String) : char ∈ (joinSegments segments).toList ↔
      ∃ segment ∈ segments, char ∈ segment.toList := by
    rw [joinSegments, String.toList_intercalate]
    induction segments with
    | nil => simp
    | cons first rest ih =>
      cases rest with
      | nil => simp
      | cons second rest =>
        rw [List.map_cons, List.map_cons, List.intercalate_cons_cons]
        simp_all
  rw [← joinSegments_segments, inSegments]
  constructor
  · rintro ⟨segment, member, inside⟩
    have moves : isIdle segment = false := by
      by_contra idle
      rw [isIdle, Bool.not_eq_false, Bool.or_eq_true, String.isEmpty_iff, beq_iff_eq] at idle
      rcases idle with rfl | rfl <;> simp_all
    exact ⟨segment, List.mem_filter.mpr ⟨member, by simp [moves]⟩, inside⟩
  · rintro ⟨step, member, inside⟩
    exact ⟨step, List.mem_of_mem_filter member, inside⟩

/-- A text starts with a slash exactly if its first character is one. -/
theorem startsWith_slash_iff {text : String} :
    text.startsWith "/" = true ↔ ['/'] <+: text.toList := by
  rw [String.startsWith_string_iff]
  rfl

/-- A text ends with a slash exactly if its last character is one. -/
theorem endsWith_slash_iff {text : String} :
    text.endsWith "/" = true ↔ ['/'] <:+ text.toList := by
  rw [String.endsWith_eq_endsWith_toSlice, String.Slice.endsWith_string_iff, String.copy_toSlice]
  rfl

/-- A spelling without a slash is its only segment. -/
theorem segments_of_not_mem {text : String} (plain : '/' ∉ text.toList) :
    segments ⟨text⟩ = [text] := by
  rw [segments, List.splitOn_eq_singleton plain, List.map_singleton, String.ofList_toList]

/-- The empty spelling has the empty segment. -/
theorem segments_empty : segments ⟨""⟩ = [""] := by
  rw [segments, String.toList_empty, List.splitOn_nil]
  rfl

/-- Only the empty spelling has the empty segment alone. -/
theorem text_eq_of_segments (alone : path.segments = [""]) : path.text = "" := by
  rw [← joinSegments_segments, alone]
  rfl

/-- The segments after the opening mean what all of them mean. -/
theorem meaningful_opening (path : Path) : meaningful path.opening.2 = path.steps := by
  rw [steps, opening]
  split
  · next first rest shape => rw [shape, meaningful_cons_idle isIdle_empty]
  · next rest shape => rw [shape, meaningful_cons_idle isIdle_dot]
  · rfl

/-- The parts of a path are its lead and what its steps mean. -/
theorem parts_eq (path : Path) : path.parts = path.lead?.toList ++ path.steps.map stepPart := by
  rw [parts, filterMap_part?, meaningful_opening, lead?]

/-- The first segment is what stands before the first slash. -/
theorem head?_segments (path : Path) :
    path.segments.head? = some (String.ofList (path.text.toList.takeWhile (· != '/'))) := by
  rw [segments, List.head?_map]
  suffices first : ∀ chars : List Char,
      (chars.splitOn '/').head? = some (chars.takeWhile (· != '/')) by
    rw [first, Option.map_some]
  intro chars
  induction chars with
  | nil => rfl
  | cons first rest ih =>
    rw [List.splitOn_cons_eq_if_modifyHead]
    by_cases slash : first = '/'
    · simp [slash]
    · rw [if_neg (by simpa using slash), List.takeWhile_cons_of_pos (by simpa using slash),
        List.head?_modifyHead, ih, Option.map_some]

/-- The empty spelling has no lead. -/
theorem lead?_empty : lead? ⟨""⟩ = none := by
  simp [lead?, opening, segments_empty]

/-- The lead of a path that is not empty is told by its first segment. -/
theorem lead?_eq (nonempty : path.text ≠ "") :
    path.lead? =
      if path.segments.head? = some "" then some .root
      else if path.segments.head? = some "." then some .here
      else none := by
  obtain ⟨first, rest, shape⟩ := List.exists_cons_of_ne_nil path.segments_ne_nil
  have more : first = "" → rest ≠ [] := by
    rintro rfl rfl
    exact nonempty (text_eq_of_segments shape)
  rw [lead?, opening, shape, List.head?_cons]
  by_cases slash : first = ""
  · obtain ⟨second, later, rfl⟩ := List.exists_cons_of_ne_nil (more slash)
    simp [slash]
  · by_cases dot : first = "."
    · simp [dot]
    · simp only [Option.some.injEq, slash, dot, ↓reduceIte]
      split <;> simp_all

/-- A path is absolute exactly if its lead is the root. -/
theorem isAbsolute_iff : path.isAbsolute = true ↔ path.lead? = some .root := by
  rw [isAbsolute, String.startsWith_string_iff]
  by_cases empty : path.text = ""
  · have bare : path = ⟨""⟩ := by cases path; simp_all
    rw [bare, lead?_empty]
    simp
  · rw [lead?_eq empty, head?_segments]
    obtain ⟨first, rest, shape⟩ := List.exists_cons_of_ne_nil fun nothing =>
      empty (String.toList_eq_nil_iff.mp nothing)
    rw [shape]
    by_cases slash : first = '/'
    · simp [slash]
    · have kept : String.ofList ((first :: rest).takeWhile (· != '/')) ≠ "" := by
        rw [List.takeWhile_cons_of_pos (by simpa using slash)]
        intro none
        simpa using congrArg String.toList none
      simp only [Option.some.injEq, kept, ↓reduceIte]
      constructor
      · intro front
        have starts : '/' = first := by simpa using front
        exact absurd starts.symm slash
      · intro lead
        split at lead <;> simp at lead

end Segments

section Assemble

variable {path : Path} {segments front : List String}

/-- A path has the root, the directory itself or nothing as its lead. -/
theorem lead?_cases (path : Path) :
    path.lead? = none ∨ path.lead? = some .root ∨ path.lead? = some .here := by
  rw [lead?, opening]
  split <;> simp

/-- The segment that spells a lead. -/
def leadSegments : Option Part → List String
  | some .root => [""]
  | some .here => ["."]
  | _ => []

/-- The segments of a path are that of its lead and those after it. -/
theorem segments_eq (path : Path) :
    path.segments = leadSegments path.lead? ++ path.opening.2 := by
  rw [lead?, opening]
  split <;> simp_all [leadSegments]

/-- A path whose first segment means something has no lead. -/
theorem lead?_eq_none {first : String} (starts : path.segments.head? = some first)
    (moves : isIdle first = false) : path.lead? = none := by
  rw [segments_eq] at starts
  rcases path.lead?_cases with lead | lead | lead
  · exact lead
  · rw [lead] at starts
    obtain rfl : "" = first := by simpa [leadSegments] using starts
    exact absurd isIdle_empty (by simp [moves])
  · rw [lead] at starts
    obtain rfl : "." = first := by simpa [leadSegments] using starts
    exact absurd isIdle_dot (by simp [moves])

/-- A path without a slash is relative. -/
theorem isAbsolute_of_not_mem (plain : '/' ∉ path.text.toList) : path.isAbsolute = false := by
  rw [Bool.eq_false_iff, isAbsolute, Ne, String.startsWith_string_iff]
  intro starts
  exact plain (starts.subset (by simp))

/-- A path whose lead is not the root is relative. -/
theorem isAbsolute_eq_false (lead : path.lead? ≠ some .root) : path.isAbsolute = false :=
  Bool.eq_false_iff.mpr fun absolute => lead (isAbsolute_iff.mp absolute)

/-- A lead and the segments after it spell the path again. -/
theorem text_assemble (nonempty : segments ≠ []) (start : Option Part) :
    (assemble start segments).text = joinSegments (leadSegments start ++ segments) := by
  obtain ⟨first, rest, rfl⟩ := List.exists_cons_of_ne_nil nonempty
  cases start with
  | none => rfl
  | some part =>
    cases part <;>
      simp [assemble, leadSegments, joinSegments, String.intercalate_cons_of_ne_nil]

/-- A front of some segments spells a front of what they spell. -/
theorem front_joinSegments (isFront : front <+: segments) :
    (joinSegments front).toList <+: (joinSegments segments).toList := by
  obtain ⟨back, rfl⟩ := isFront
  by_cases emptyFront : front = []
  · rw [emptyFront]
    exact List.nil_prefix
  · by_cases emptyBack : back = []
    · simp [emptyBack]
    · rw [joinSegments, joinSegments, String.intercalate_append_of_ne_nil emptyFront emptyBack,
        String.append_assoc, String.toList_append]
      exact List.prefix_append ..

/-- A front of the segments after the lead spells a front of the path. -/
theorem front_text_assemble (isFront : front <+: path.opening.2) :
    (assemble path.lead? front).text.toList <+: path.text.toList := by
  by_cases empty : front = []
  · rw [empty]
    rcases path.lead?_cases with lead | lead | lead
    · rw [lead]
      exact List.nil_prefix
    · have absolute := isAbsolute_iff.mpr lead
      rw [isAbsolute, String.startsWith_string_iff] at absolute
      rw [lead]
      exact absolute
    · have dot : ["."] <+: path.segments := by simp [segments_eq, lead, leadSegments]
      rw [lead, ← joinSegments_segments path]
      exact front_joinSegments dot
  · have inPath : leadSegments path.lead? ++ front <+: path.segments := by
      rw [segments_eq]
      exact (List.prefix_append_right_inj _).mpr isFront
    rw [text_assemble empty, ← joinSegments_segments path]
    exact front_joinSegments inPath

/-- A front of the segments after the lead spells an absolute path exactly if the path is one. -/
theorem isAbsolute_assemble (isFront : front <+: path.opening.2) :
    (assemble path.lead? front).isAbsolute = path.isAbsolute := by
  rw [Bool.eq_iff_iff]
  constructor
  · intro absolute
    rw [isAbsolute, String.startsWith_string_iff] at absolute ⊢
    exact absolute.trans (front_text_assemble isFront)
  · intro absolute
    rw [isAbsolute_iff.mp absolute, isAbsolute, String.startsWith_string_iff]
    simp [assemble]

/-- The segments that a lead and a front of those after it spell. -/
theorem segments_assemble (nonempty : front ≠ []) (isFront : front <+: path.opening.2) :
    (assemble path.lead? front).segments = leadSegments path.lead? ++ front := by
  have bare : assemble path.lead? front = ⟨joinSegments (leadSegments path.lead? ++ front)⟩ :=
    congrArg Path.mk (text_assemble nonempty path.lead?)
  have inPath : leadSegments path.lead? ++ front <+: path.segments := by
    rw [segments_eq]
    exact (List.prefix_append_right_inj _).mpr isFront
  rw [bare]
  exact segments_joinSegments (by simp [nonempty]) fun segment member =>
    slash_not_mem_segment (inPath.subset member)

/-- A front of the segments after the lead spells a path with the steps of the front. -/
theorem steps_assemble (isFront : front <+: path.opening.2) :
    (assemble path.lead? front).steps = meaningful front := by
  have idle : meaningful (leadSegments path.lead?) = [] := by
    rcases path.lead?_cases with lead | lead | lead <;> rw [lead] <;> decide
  by_cases empty : front = []
  · rw [empty]
    rcases path.lead?_cases with lead | lead | lead <;> rw [lead] <;> decide
  · rw [steps, segments_assemble empty isFront, meaningful_append, idle, List.nil_append]

end Assemble

end DeclOrder.Path
