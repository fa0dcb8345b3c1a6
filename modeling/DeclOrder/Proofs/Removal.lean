import DeclOrder.Proofs.Renaming

/-!
# What collapsing takes out

A block is found to be a duplicate by its body, but it is taken out by its name, together with
every other block of that name. The body of a duplicate is that of the last block of its base,
which may be taken out in turn. So a body is lost exactly if a block goes that is no duplicate
itself and no block that stays under the recorded base has its body. Blocks of one name with one
body never lose any.
-/

namespace DeclOrder.Duplicate

/-- The blocks that are taken out as duplicates: all those of a name that a duplicate has. -/
def removed (blocks : List Block) (builtin : Option String) : List Block :=
  (withoutBuiltin blocks builtin).filter
    (decide <| ·.name ∈ duplicates (withoutBuiltin blocks builtin))

/-- A block with the body of this one stays under the base recorded for its name. -/
def Retained (blocks : List Block) (builtin : Option String) (block : Block) : Prop :=
  ∃ entry ∈ (collapse blocks builtin).collapsed, entry.name = block.name ∧
    ∃ base ∈ surviving blocks builtin, base.name = entry.base ∧ base.body = block.body

/-- Whether a body stays can be computed. -/
instance (blocks : List Block) (builtin : Option String) (block : Block) :
    Decidable (Retained blocks builtin block) :=
  inferInstanceAs (Decidable (∃ entry ∈ _, _))

/-- A name that no duplicate has leads to itself. -/
theorem survivor_of_not_mem {names : NameSet} {name : String} (kept : name ∉ names) :
    survivor names name = name := by
  rw [survivor, if_neg kept]

/-- A duplicate leads where its base leads. -/
theorem survivor_of_mem {names : NameSet} {name base : String} (listed : name ∈ names)
    (stripped : base? name = some base) : survivor names name = survivor names base := by
  rw [survivor, if_pos listed]
  split
  · next other found => rw [Option.some.inj (found.symm.trans stripped)]
  · next missing => exact absurd (missing.symm.trans stripped) (by simp)

variable {blocks : List Block} {builtin : Option String}

/-- A block is taken out as a duplicate if a duplicate has its name. -/
theorem mem_removed_iff {block : Block} :
    block ∈ removed blocks builtin ↔
      block ∈ withoutBuiltin blocks builtin ∧
        block.name ∈ duplicates (withoutBuiltin blocks builtin) := by
  rw [removed, List.mem_filter, decide_eq_true_eq]

/-- A block stays if it is not built-in and no duplicate has its name. -/
theorem mem_surviving_iff {block : Block} :
    block ∈ surviving blocks builtin ↔
      block ∈ withoutBuiltin blocks builtin ∧
        block.name ∉ duplicates (withoutBuiltin blocks builtin) := by
  rw [surviving, List.mem_filter, decide_eq_true_eq]

/-- Each block is dropped as built-in, taken out as a duplicate, or stays. -/
theorem perm_dropped_removed_surviving (blocks : List Block) (builtin : Option String) :
    (blocks.filter (fun block => builtin == some block.name) ++
      (removed blocks builtin ++ surviving blocks builtin)).Perm blocks := by
  have parted : (removed blocks builtin ++ surviving blocks builtin).Perm
      (withoutBuiltin blocks builtin) := by
    have whole := List.filter_append_perm
      (fun block => decide (block.name ∈ duplicates (withoutBuiltin blocks builtin)))
      (withoutBuiltin blocks builtin)
    simpa only [removed, surviving, decide_not] using whole
  exact (parted.append_left _).trans (List.filter_append_perm _ blocks)

/-- The base recorded for a name is the one that the name leads to. -/
theorem retained_iff {block : Block} (gone : block ∈ removed blocks builtin) :
    Retained blocks builtin block ↔
      ∃ base ∈ surviving blocks builtin,
        base.name = survivor (duplicates (withoutBuiltin blocks builtin)) block.name ∧
          base.body = block.body := by
  constructor
  · rintro ⟨entry, listed, named, base, stays, base_named, same⟩
    rw [(mem_collapsed_iff.mp listed).2, named] at base_named
    exact ⟨base, stays, base_named, same⟩
  · rintro ⟨base, stays, base_named, same⟩
    have listed : ⟨block.name, base.name⟩ ∈ (collapse blocks builtin).collapsed :=
      mem_collapsed_iff.mpr ⟨(mem_removed_iff.mp gone).2, base_named⟩
    exact ⟨_, listed, rfl, base, stays, rfl, same⟩

/-- The base recorded for a block that is taken out stays. -/
theorem exists_surviving_base {block : Block} (gone : block ∈ removed blocks builtin) :
    ∃ entry ∈ (collapse blocks builtin).collapsed, entry.name = block.name ∧
      ∃ base ∈ surviving blocks builtin, base.name = entry.base := by
  obtain ⟨known, listed⟩ := mem_removed_iff.mp gone
  obtain ⟨declared, kept⟩ := survivor_duplicates (List.mem_map_of_mem known)
  obtain ⟨base, base_known, base_named⟩ := List.mem_map.mp declared
  have recorded : ⟨block.name, base.name⟩ ∈ (collapse blocks builtin).collapsed :=
    mem_collapsed_iff.mpr ⟨listed, base_named⟩
  exact ⟨_, recorded, rfl, base,
    mem_surviving_iff.mpr ⟨base_known, base_named.symm ▸ kept⟩, rfl⟩

/-- If the bodies stay of all blocks taken out that are no duplicates themselves, then those of all
blocks taken out do. -/
theorem retained_of_unlike
    (unlike : ∀ block ∈ removed blocks builtin,
      isDuplicate (withoutBuiltin blocks builtin) block = false → Retained blocks builtin block)
    {block : Block} (gone : block ∈ removed blocks builtin) : Retained blocks builtin block := by
  -- A base has a shorter name than its duplicate, so the way through the bases ends.
  induction size : block.name.length using Nat.strongRecOn generalizing block with
  | _ size ih =>
    by_cases duplicate : isDuplicate (withoutBuiltin blocks builtin) block = true
    · obtain ⟨name, base, stripped, last, -, same_body⟩ := isDuplicate_iff.mp duplicate
      obtain ⟨base_known, rfl⟩ := of_lastNamed? last
      have leads := survivor_of_mem (mem_removed_iff.mp gone).2 stripped
      rw [retained_iff gone, leads, ← same_body]
      by_cases base_listed : base.name ∈ duplicates (withoutBuiltin blocks builtin)
      · have base_gone := mem_removed_iff.mpr ⟨base_known, base_listed⟩
        exact (retained_iff base_gone).mp (ih _ (size ▸ base?_length stripped) base_gone rfl)
      · exact ⟨base, mem_surviving_iff.mpr ⟨base_known, base_listed⟩,
          (survivor_of_not_mem base_listed).symm, rfl⟩
    · exact unlike block gone (Bool.eq_false_iff.mpr duplicate)

/-- Where blocks of one name have one body, all blocks taken out are duplicates themselves. -/
theorem isDuplicate_of_mem_removed
    (agree : ∀ block ∈ blocks, ∀ other ∈ blocks, block.name = other.name →
      block.lines.length = other.lines.length ∧ block.body = other.body)
    {block : Block} (gone : block ∈ removed blocks builtin) :
    isDuplicate (withoutBuiltin blocks builtin) block = true := by
  obtain ⟨known, listed⟩ := mem_removed_iff.mp gone
  obtain ⟨other, other_known, duplicate, same_name⟩ := mem_duplicates_iff.mp listed
  obtain ⟨same_length, same_body⟩ := agree other (List.mem_of_mem_filter other_known) block
    (List.mem_of_mem_filter known) same_name
  obtain ⟨name, base, stripped, last, base_length, base_body⟩ := isDuplicate_iff.mp duplicate
  exact isDuplicate_iff.mpr ⟨name, base, same_name ▸ stripped, last,
    base_length.trans same_length, base_body.trans same_body⟩

/-- A block that is not dropped as built-in stays, or its name is recorded with a base that stays.
The bodies of all blocks taken out stay under the recorded bases exactly if those of the blocks do
that are no duplicates themselves; in particular they do if blocks of one name have one body. -/
theorem retained_removed_iff (blocks : List Block) (builtin : Option String) :
    (blocks.filter (fun block => builtin == some block.name) ++
        (removed blocks builtin ++ surviving blocks builtin)).Perm blocks ∧
      (∀ block ∈ removed blocks builtin,
        ∃ entry ∈ (collapse blocks builtin).collapsed, entry.name = block.name ∧
          ∃ base ∈ surviving blocks builtin, base.name = entry.base) ∧
      ((∀ block ∈ removed blocks builtin, Retained blocks builtin block) ↔
        ∀ block ∈ removed blocks builtin,
          isDuplicate (withoutBuiltin blocks builtin) block = false →
            Retained blocks builtin block) ∧
      ((∀ block ∈ blocks, ∀ other ∈ blocks, block.name = other.name →
          block.lines.length = other.lines.length ∧ block.body = other.body) →
        ∀ block ∈ removed blocks builtin, Retained blocks builtin block) := by
  refine ⟨perm_dropped_removed_surviving blocks builtin, fun block => exists_surviving_base,
    ⟨fun all block gone _ => all block gone, fun unlike block => retained_of_unlike unlike⟩, ?_⟩
  intro agree block
  refine retained_of_unlike fun other gone no_duplicate => ?_
  exact absurd (isDuplicate_of_mem_removed agree gone) (Bool.eq_false_iff.mp no_duplicate)

/-- A chain of duplicates whose middle name is declared twice, with one body. -/
def repeated : List Block :=
  [{ name := "Role12", lines := ["class Role12(Base):", "    id: str"] },
   { name := "Role1", lines := ["class Role1(Base):", "    id: str"] },
   { name := "Role1", lines := ["class Role1(Other):", "    id: str"] },
   { name := "Role", lines := ["class Role(Base):", "    id: str"] }]

/-- All but the last of the repeated declarations are taken out, and their bodies stay with it. -/
theorem retained_removed_repeated :
    (removed repeated none).length = 3 ∧
      ∀ block ∈ removed repeated none, Retained repeated none block :=
  ⟨by decide +kernel, (retained_removed_iff repeated none).2.2.2 (by decide)⟩

/-- Two declarations of one name of which only one has the body of the base. -/
def contested : List Block :=
  [{ name := "Link", lines := ["class Link(Base):", "    href: str"] },
   { name := "Link1", lines := ["class Link1(Base):", "    href: str"] },
   { name := "Link1", lines := ["class Link1(Base):", "    href: int", "    rel: str"] }]

/-- Of the contested declarations, the last is taken out although no block has its body: it goes
with the duplicate that has its name. -/
theorem not_retained_contested :
    (collapse contested none).collapsed = [⟨"Link1", "Link"⟩] ∧
      ∃ block ∈ removed contested none,
        block.body = ["    href: int", "    rel: str"] ∧ ¬ Retained contested none block ∧
          ∀ stays ∈ surviving contested none, stays.body ≠ block.body := by
  decide +kernel

end DeclOrder.Duplicate
