import Reflow.CommandLine.Run
import Reflow.Proofs.Options

/-!
# Flags over configuration

The options set by flags are put over those of the configuration's table before anything is known of
spellings.  Flags spell their options out in full, so a flag's value replaces the entry of the table
with this spelling and keeps its place.  An entry behind that one with another spelling of the option
is read later, and so wins over the flag.

## Key results

- `entries_given`: which value the entries of a job give for an option
- `flag_wins_unless_overtaken`: which values the options of a file have
- `table_overtakes_flag`: a table that wins over a flag
-/

namespace Reflow.CommandLine

/-! ### Options of a job -/

/-- Flags spell their options out in full. -/
theorem keyOf_flagName {name : String} (h : name ∈ flagNames) : Options.keyOf name = name := by
  revert name
  decide

/-- The entries of flags have the names of flags. -/
theorem mem_flagEntries {a : Arguments} {e : String × OptionValue} (h : e ∈ flagEntries a) :
    e.1 ∈ flagNames := by
  obtain ⟨name, hname, heq⟩ := List.mem_filterMap.1 h
  obtain ⟨v, -, rfl⟩ := Option.map_eq_some_iff.1 heq
  exact hname

/-- No two of them have the same name. -/
theorem nodup_flagEntries (a : Arguments) : ((flagEntries a).map (·.1)).Nodup := by
  have hnames : (flagEntries a).map (·.1) = flagNames.filter fun name =>
      (a.format.lookup name).isSome := by
    rw [flagEntries, List.map_filterMap, ← List.filterMap_eq_filter]
    congr 1
    funext name
    cases h : a.format.lookup name <;> simp [Option.guard, h]
  rw [hnames]
  exact (List.filter_sublist ..).nodup (by decide)

/-- The entry of a flag has the value that was given with it. -/
theorem lookup_flagEntries (a : Arguments) {key : String} (hkey : key ∈ flagNames) :
    (flagEntries a).lookup key = a.format.lookup key := by
  -- the flags are looked up under their names, in the order of the names
  have hnames : ∀ names : List String,
      (names.filterMap fun name => (a.format.lookup name).map fun v => (name, v)).lookup key =
        if key ∈ names then a.format.lookup key else none := by
    intro names
    induction names with
    | nil => rfl
    | cons name rest ih =>
      -- the name is the key or it is not
      by_cases h : key = name
      · subst name
        cases hv : a.format.lookup key <;> simp [hv, ih]
      · cases hv : a.format.lookup name <;> simp [hv, ih, h, List.lookup_cons, beq_false_of_ne h]
  rw [flagEntries, hnames, if_pos hkey]

/-- The entries of the job are those of the configuration with the flags put on them. -/
theorem jobOf_entries {a : Arguments} {config : Toml.Table} {job : Job}
    (h : jobOf a (some config) = .ok job) :
    job.entries = (configEntries config).merge (flagEntries a) := by
  unfold jobOf at h
  simp only [bind, Except.bind, pure, Except.pure, throw, throwThe, MonadExceptOf.throw] at h
  split at h
  · cases h
  · split at h
    · cases h
    · cases h
      rfl

/-- The entries of a job give what its flags say, or else what the table says; but a table whose
entry is overtaken has its way. -/
theorem entries_given {a : Arguments} {config : Toml.Table} {job : Job}
    (h : jobOf a (some config) = .ok job) {key : String} (hkey : key ∈ flagNames) :
    job.entries.given key =
      match a.format.lookup key with
      | some v =>
        if (configEntries config).overtaken key then (configEntries config).given key else some v
      | none => (configEntries config).given key := by
  -- the flags are written as their keys
  have hkeys : ∀ e ∈ flagEntries a, Options.keyOf e.1 = e.1 :=
    fun e he => keyOf_flagName (mem_flagEntries he)
  have hgiven := Options.Entries.given_merge (nodup_flagEntries a) hkeys (configEntries config) key
  rw [lookup_flagEntries a hkey] at hgiven
  rw [jobOf_entries h]
  exact hgiven

/-- The options of a file are those of its job, but for the language. -/
theorem fileOptions_get? {input : Option FileName} {entries : Options.Entries} {file : FileOptions}
    (h : FileOptions.resolve input entries = .ok file) {key : String} (hkey : key ≠ "parser") :
    file.options.get? key = (entries.given key).or (({} : Options).get? key) := by
  unfold FileOptions.resolve at h
  -- the entries are resolved before the parser is chosen
  cases ho : Options.resolve entries with
  | error fault =>
    rw [ho] at h
    cases h
  | ok o =>
    rw [ho] at h
    rw [← Options.resolve_get? ho key]
    simp only [bind, Except.bind, pure, Except.pure] at h
    -- the parser is chosen from the name of the file, or was given
    split at h
    · cases h
      rfl
    · -- no other option depends on it
      cases h
      unfold Options.get?
      split <;> first | exact absurd rfl hkey | rfl

/-! ### What wins -/

/-- An option that a flag sets has the flag's value, exactly if the table does not spell the option
in another way behind an entry that spells it out, or ends up with the same value.  Otherwise the
option has the value that the table alone gives it. -/
theorem flag_wins_unless_overtaken {a : Arguments} {config : Toml.Table} {job : Job} {input : Input}
    {file : FileOptions} (hjob : jobOf a (some config) = .ok job)
    (hfile : FileOptions.resolve input job.entries = .ok file) {key : String}
    (hkey : key ∈ flagNames) (hparser : key ≠ "parser") :
    let table := configEntries config
    (∀ v, a.format.lookup key = some v →
      (file.options.get? key = some v ↔ table.overtaken key = false ∨ table.given key = some v) ∧
      (table.overtaken key = true → file.options.get? key = table.given key)) ∧
    (a.format.lookup key = none →
      file.options.get? key = (table.given key).or (({} : Options).get? key) ∧
      ∀ alone, Options.resolve table = .ok alone → file.options.get? key = alone.get? key) := by
  intro table
  have hoption := fileOptions_get? hfile hparser
  rw [entries_given hjob hkey] at hoption
  constructor
  · -- the flag is given, and overtaken or not
    intro v hv
    rw [hv] at hoption
    cases hovertaken : table.overtaken key with
    | false =>
      simp only [table] at hovertaken
      simp [hoption, hovertaken]
    -- what overtakes it is an entry of the table
    | true =>
      obtain ⟨u, hu⟩ := Option.isSome_iff_exists.1 (Options.Entries.given_of_overtaken hovertaken)
      simp only [table] at hovertaken hu
      simp [hoption, hovertaken, hu, table]
  · -- without the flag the table counts alone
    intro hnone
    rw [hnone] at hoption
    refine ⟨hoption, fun alone halone => ?_⟩
    rw [hoption, Options.resolve_get? halone]

/-- A flag over a table that spells the option in another way, and over one that does not set it. -/
theorem flag_wins_unless_overtaken_call :
    let a : Arguments := { inputs := ["a.js"], format := [("tab_width", .int 4)] }
    let config : Toml.Table := [("format", .table [("tabWidth", .int 8), ("useTabs", .bool true)])]
    ∃ job file, jobOf a (some config) = .ok job ∧
      FileOptions.resolve (some (.ofString "a.js")) job.entries = .ok file ∧
      file.options.get? "tab_width" = some (.int 4) ∧
      file.options.get? "use_tabs" = some (.bool true) := by
  intro a config
  -- the job and the options of the file
  have hjob : jobOf a (some config) = .ok { inputs := [some (.ofString "a.js")], entries :=
      [("tabWidth", .int 8), ("useTabs", .bool true), ("tab_width", .int 4)] } := rfl
  have hfile : FileOptions.resolve (some (.ofString "a.js"))
      [("tabWidth", .int 8), ("useTabs", .bool true), ("tab_width", .int 4)] =
        .ok ⟨{ tabWidth := 4, useTabs := true, parser := .script }, false⟩ := rfl
  -- the theorem, for a flag that is given and for one that is not
  have hset := flag_wins_unless_overtaken hjob hfile (show "tab_width" ∈ flagNames by decide)
    (by decide)
  have hunset := flag_wins_unless_overtaken hjob hfile (show "use_tabs" ∈ flagNames by decide)
    (by decide)
  have hfree : (configEntries config).overtaken "tab_width" = false := by decide +kernel
  exact ⟨_, _, hjob, hfile, ((hset.1 (.int 4) rfl).1).2 (.inl hfree), (hunset.2 rfl).1⟩

/-- A table that spells an option twice has its way over a flag, which takes the place of the first
of its entries. -/
theorem table_overtakes_flag :
    ∃ a config job file, readArguments ["a.js", "--tab-width", "4"] = .ok a ∧
      Toml.read "[format]\ntab_width = 8\ntabWidth = 3\n" = .ok config ∧
      jobOf a (some config) = .ok job ∧
      FileOptions.resolve (some (.ofString "a.js")) job.entries = .ok file ∧
      a.format.lookup "tab_width" = some (.int 4) ∧
      file.options.get? "tab_width" = some (.int 3) := by
  refine ⟨{ inputs := ["a.js"], format := [("tab_width", .int 4)] },
    [("format", .table [("tab_width", .int 8), ("tabWidth", .int 3)])], _,
    ⟨{ tabWidth := 3, parser := .script }, false⟩, ?_, rfl, rfl, rfl, rfl, rfl⟩
  with_unfolding_all rfl

end Reflow.CommandLine
