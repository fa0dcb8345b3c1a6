import DeclOrder.Command

/-!
# What arguments give

Reading arguments takes one step after the other: an argument gives an option by its name, with a
value that may be the argument after it, or options by their letters, until the arguments end or
one of them is no option. So every option that was read is in the arguments, by its name or by a
letter.
-/

namespace DeclOrder

namespace Arguments

/-- The name of the option that an argument gives, if it has two hyphens. -/
def optionName? (argument : String) : Option String :=
  match argument.toList with
  | '-' :: '-' :: chars => some (nameAndValue chars).1
  | _ => none

/-- Reading arguments after given options comes to options and to the arguments that are left. -/
inductive Reads (forms : List OptionForm) :
    GivenOptions → List String → GivenOptions → List String → Prop where
  /-- The arguments end. -/
  | ended (given : GivenOptions) : Reads forms given [] given []
  /-- Two hyphens end the options. -/
  | closed (given : GivenOptions) (argument : String) : Reads forms given [argument] given []
  /-- An argument is no option. -/
  | word (given : GivenOptions) (argument : String) (rest : List String) :
    Reads forms given (argument :: rest) given (argument :: rest)
  /-- An argument gives an option, whose value may be taken off the arguments after it. -/
  | option {given result : GivenOptions} {argument name : String} {rest later left : List String}
      (value : String) (named : optionName? argument = some name) (suffix : later <:+ rest)
      (reads : Reads forms (given ++ [(name, value)]) later result left) :
    Reads forms given (argument :: rest) result left
  /-- An argument gives options by their letters. -/
  | letters {given further result : GivenOptions} {argument : String} {rest left : List String}
      (chars : List Char) (lettered : readLetters forms given chars = some (.ok further))
      (reads : Reads forms further rest result left) :
    Reads forms given (argument :: rest) result left

variable {forms : List OptionForm} {given result : GivenOptions} {arguments left : List String}

/-- An option that is added comes last. -/
theorem addOption?_eq {name value : String} {repeats : Bool}
    (added : addOption? given name value repeats = some result) :
    result = given ++ [(name, value)] := by
  unfold addOption? at added
  split at added
  · cases added
  · exact (Option.some.inj added).symm

/-- Reading arguments takes its steps. -/
theorem reads_of_read? (read : read? forms given arguments = some (.options result left)) :
    Reads forms given arguments result left := by
  -- An option can take two arguments, so the induction is on how many there are.
  induction count_eq : arguments.length using Nat.strongRecOn generalizing given arguments with
  | ind count ih =>
    cases arguments with
    | nil =>
      obtain ⟨rfl, rfl⟩ : given = result ∧ [] = left := by simpa [read?] using read
      exact .ended given
    | cons argument rest =>
      have onward {name value : String} {repeats : Bool} {later : List String}
          (named : optionName? argument = some name) (suffix : later <:+ rest)
          (read : (do read? forms (← addOption? given name value repeats) later) =
            some (.options result left)) : Reads forms given (argument :: rest) result left := by
        obtain ⟨further, added, read⟩ := Option.bind_eq_some_iff.mp read
        obtain rfl := addOption?_eq added
        have shorter : later.length < count := by
          have within := suffix.length_le
          rw [← count_eq, List.length_cons]
          omega
        exact .option value named suffix (ih _ shorter read rfl)
      rw [read?] at read
      split at read
      · split at read
        · next alone =>
          obtain rfl := List.isEmpty_iff.mp alone
          obtain ⟨rfl, rfl⟩ : given = result ∧ [] = left := by simpa using read
          exact .closed given argument
        · cases read
      · next chars _ spelled =>
        rcases parts : nameAndValue chars with ⟨name, value⟩
        have named : optionName? argument = some name := by
          simp only [optionName?, spelled, parts]
        rw [parts] at read
        obtain ⟨form, -, read⟩ := Option.bind_eq_some_iff.mp read
        split at read
        · exact onward named List.suffix_rfl read
        · cases read
        · split at read
          · exact onward named List.suffix_rfl read
          · cases read
        · split at read
          · split at read
            · exact onward named (List.suffix_cons _ _) read
            · cases read
          · cases read
        · exact onward named List.suffix_rfl read
        · split at read
          · split at read
            · exact onward named (List.suffix_cons _ _) read
            · cases read
          · cases read
        · cases read
      · next letter letters _ _ spelled =>
        obtain ⟨lettered, letters_read, read⟩ := Option.bind_eq_some_iff.mp read
        cases lettered with
        | error name => cases read
        | ok further =>
          have shorter : rest.length < count := by
            rw [← count_eq, List.length_cons]
            omega
          exact .letters _ letters_read (ih _ shorter read rfl)
      · obtain ⟨rfl, rfl⟩ : given = result ∧ argument :: rest = left := by simpa using read
        exact .word given argument rest

/-- Options that are read off letters are those of forms with a letter. -/
theorem mem_of_readLetters {chars : List Char}
    (read : readLetters forms given chars = some (.ok result)) :
    ∀ option ∈ result, option ∈ given ∨ ∃ form ∈ forms, form.letter.isSome ∧
      form.name = option.1 := by
  induction chars generalizing given with
  | nil =>
    obtain rfl : given = result := by simpa [readLetters] using read
    exact fun option member => .inl member
  | cons letter rest ih =>
    obtain ⟨form, found, read⟩ := Option.bind_eq_some_iff.mp read
    split at read
    · obtain ⟨further, added, read⟩ := Option.bind_eq_some_iff.mp read
      obtain rfl := addOption?_eq added
      have lettered : form.letter = some letter := by simpa using List.find?_some found
      intro option member
      rcases ih read option member with earlier | source
      · rcases List.mem_append.mp earlier with earlier | own
        · exact .inl earlier
        · obtain rfl := List.mem_singleton.mp own
          exact .inr ⟨form, List.mem_of_find?_eq_some found, by rw [lettered]; rfl, rfl⟩
      · exact .inr source
    · cases read
    · cases read

/-- Every option that is read was given before, is given by an argument with its name, or has a
letter. -/
theorem Reads.mem (reads : Reads forms given arguments result left) :
    ∀ option ∈ result, option ∈ given ∨
      (∃ argument ∈ arguments, optionName? argument = some option.1) ∨
      ∃ form ∈ forms, form.letter.isSome ∧ form.name = option.1 := by
  induction reads with
  | ended given => exact fun option member => .inl member
  | closed given argument => exact fun option member => .inl member
  | word given argument rest => exact fun option member => .inl member
  | @option given result argument name rest later left value named suffix reads ih =>
    intro option member
    rcases ih option member with earlier | ⟨other, there, same⟩ | lettered
    · rcases List.mem_append.mp earlier with earlier | own
      · exact .inl earlier
      · obtain rfl := List.mem_singleton.mp own
        exact .inr (.inl ⟨argument, List.mem_cons_self, named⟩)
    · exact .inr (.inl ⟨other, List.mem_cons_of_mem _ (suffix.subset there), same⟩)
    · exact .inr (.inr lettered)
  | @letters given further result argument rest left chars lettered reads ih =>
    intro option member
    rcases ih option member with earlier | ⟨other, there, same⟩ | later
    · exact (mem_of_readLetters lettered option earlier).imp_right .inr
    · exact .inr (.inl ⟨other, List.mem_cons_of_mem _ there, same⟩)
    · exact .inr (.inr later)

/-- The arguments that are left come last. -/
theorem Reads.suffix (reads : Reads forms given arguments result left) : left <:+ arguments := by
  induction reads with
  | ended given => exact List.suffix_rfl
  | closed given argument => exact List.nil_suffix
  | word given argument rest => exact List.suffix_rfl
  | option value named suffix reads ih => exact (ih.trans suffix).trans (List.suffix_cons _ _)
  | letters chars lettered reads ih => exact ih.trans (List.suffix_cons _ _)

/-- An option without a letter that no argument gives is not read. -/
theorem Reads.lookup_eq_none (reads : Reads forms [] arguments result left) {name : String}
    (unlettered : ∀ form ∈ forms, form.letter.isSome → form.name ≠ name)
    (ungiven : ∀ argument ∈ arguments, optionName? argument ≠ some name) :
    result.lookup name = none := by
  refine List.lookup_eq_none_iff.mpr fun option member => bne_iff_ne.mpr ?_
  rintro rfl
  obtain earlier | ⟨argument, there, named⟩ | ⟨form, known, lettered, same⟩ :=
    reads.mem option member
  · cases earlier
  · exact ungiven argument there named
  · exact unlettered form known lettered same

end Arguments

namespace Command

variable {arguments : List String} {root : Path} {mode : Mode} {overrides : Overrides}

/-- A command that has nothing but options is made of those that are read. -/
theorem exists_of_ofOptions? {forms : List OptionForm} {help : String}
    {command : GivenOptions → Command}
    (accepted : ofOptions? forms help command arguments = some (.process root mode overrides)) :
    ∃ given, Arguments.Reads forms [] arguments given [] ∧
      command given = .process root mode overrides := by
  unfold ofOptions? at accepted
  split at accepted
  · next given read =>
    exact ⟨given, Arguments.reads_of_read? read, Option.some.inj accepted⟩
  · cases accepted
  · cases accepted

/-- A command to process modules has no directory for what is found unless an argument gives one. -/
theorem output_eq_none
    (accepted : ofArguments? arguments = some (.process root mode overrides))
    (undirected : ∀ argument ∈ arguments, Arguments.optionName? argument ≠ some "out-dir") :
    overrides.output = none := by
  have selected {given : GivenOptions} {forms : List OptionForm} {rest : List String} {mode' : Mode}
      (reads : Arguments.Reads forms [] rest given [])
      (made : ofSelection mode' given = .process root mode overrides)
      (unlettered : ∀ form ∈ forms, form.letter.isSome → form.name ≠ "out-dir")
      (within : rest ⊆ arguments) : overrides.output = none := by
    obtain ⟨-, -, rfl⟩ := Command.process.inj made
    have missing : given.lookup "out-dir" = none :=
      reads.lookup_eq_none unlettered fun argument there => undirected argument (within there)
    rw [missing]
    rfl
  unfold ofArguments? at accepted
  split at accepted
  · next given name rest read =>
    have within : rest ⊆ arguments := fun argument there =>
      (Arguments.reads_of_read? read).suffix.subset (List.mem_cons_of_mem name there)
    unfold ofName? at accepted
    split at accepted
    · obtain ⟨given, reads, made⟩ := exists_of_ofOptions? accepted
      exact selected reads made (by decide) within
    · obtain ⟨given, reads, made⟩ := exists_of_ofOptions? accepted
      exact selected reads made (by decide) within
    · obtain ⟨given, reads, made⟩ := exists_of_ofOptions? accepted
      cases made
    · split at accepted
      · cases accepted
      · obtain ⟨text, -, made⟩ := Option.map_eq_some_iff.mp accepted
        cases made
      · cases accepted
    · cases accepted
  · cases accepted
  · cases accepted
  · cases accepted

end Command

end DeclOrder
