/-!
# Sets of names

A set of names is the strictly ascending list of its members, in the order of their code points,
so two sets with the same members are equal and a set is listed in one way.
-/

namespace DeclOrder

/-- The list with the name put before the first greater one, unless it is there already. -/
def insertName (name : String) : List String → List String
  | [] => [name]
  | first :: rest =>
    if name < first then name :: first :: rest
    else if name = first then first :: rest
    else first :: insertName name rest

/-- The members after inserting a name are that name and the members before. -/
theorem mem_insertName {name member : String} {names : List String} :
    member ∈ insertName name names ↔ member = name ∨ member ∈ names := by
  induction names with
  | nil => simp [insertName]
  | cons first rest ih =>
    unfold insertName
    split
    · simp
    · split
      · next same => subst same; simp
      · simp only [List.mem_cons, ih]
        exact or_left_comm

/-- Inserting a name keeps a list strictly ascending. -/
theorem pairwise_insertName {names : List String} (name : String)
    (ascending : names.Pairwise (· < ·)) : (insertName name names).Pairwise (· < ·) := by
  induction names with
  | nil => exact List.pairwise_singleton _ _
  | cons first rest ih =>
    obtain ⟨below, tail⟩ := List.pairwise_cons.mp ascending
    unfold insertName
    split
    · next less =>
      refine List.pairwise_cons.mpr ⟨fun other mem => ?_, ascending⟩
      cases List.mem_cons.mp mem with
      | inl same => exact same ▸ less
      | inr later => exact String.lt_trans less (below other later)
    · next notLess =>
      split
      · exact ascending
      · next different =>
        refine List.pairwise_cons.mpr ⟨fun other mem => ?_, ih tail⟩
        cases mem_insertName.mp mem with
        | inl same =>
          subst same
          refine Classical.byContradiction fun notAbove => different ?_
          exact String.le_antisymm (String.not_lt.mp notAbove) (String.not_lt.mp notLess)
        | inr later => exact below other later

/-- A set of names. -/
structure NameSet where
  /-- The members, each once. -/
  names : List String
  /-- The members are listed in their order. -/
  ascending : names.Pairwise (· < ·)
  deriving DecidableEq

namespace NameSet

/-- The set without members. -/
def empty : NameSet := ⟨[], List.Pairwise.nil⟩

instance : EmptyCollection NameSet := ⟨empty⟩

instance : Inhabited NameSet := ⟨∅⟩

instance : Membership String NameSet := ⟨fun set name => name ∈ set.names⟩

instance (name : String) (set : NameSet) : Decidable (name ∈ set) :=
  inferInstanceAs (Decidable (name ∈ set.names))

/-- The set with one more member. -/
def insert (set : NameSet) (name : String) : NameSet :=
  ⟨insertName name set.names, pairwise_insertName name set.ascending⟩

/-- The set with the names of a list added. -/
def insertAll (set : NameSet) (names : List String) : NameSet := names.foldl insert set

/-- The set of the names of a list. -/
def ofList (names : List String) : NameSet := empty.insertAll names

/-- The members that satisfy the test. -/
def filter (test : String → Bool) (set : NameSet) : NameSet :=
  ⟨set.names.filter test, set.ascending.filter test⟩

/-- Membership is membership in the list. -/
theorem mem_iff {set : NameSet} {name : String} : name ∈ set ↔ name ∈ set.names := Iff.rfl

/-- The empty set has no members. -/
theorem not_mem_empty {name : String} : name ∉ (∅ : NameSet) := List.not_mem_nil

/-- The members after inserting a name are that name and the members before. -/
@[simp] theorem mem_insert {set : NameSet} {name member : String} :
    member ∈ set.insert name ↔ member = name ∨ member ∈ set := mem_insertName

/-- The members after inserting a list are its names and the members before. -/
@[simp] theorem mem_insertAll {set : NameSet} {names : List String} {member : String} :
    member ∈ set.insertAll names ↔ member ∈ names ∨ member ∈ set := by
  unfold insertAll
  induction names generalizing set with
  | nil => simp
  | cons first rest ih => simp [ih, or_assoc, or_left_comm]

/-- The members of the set of a list are the names of the list. -/
@[simp] theorem mem_ofList {names : List String} {member : String} :
    member ∈ ofList names ↔ member ∈ names := by
  unfold ofList
  rw [mem_insertAll]
  exact or_iff_left not_mem_empty

/-- The members of a filtered set are the members that satisfy the test. -/
@[simp] theorem mem_filter {test : String → Bool} {set : NameSet} {member : String} :
    member ∈ set.filter test ↔ member ∈ set ∧ test member := List.mem_filter

end NameSet

end DeclOrder
