import Reflow.Options

/-!
# What entries set

Entries are read in order, each by the option that its spelling stands for, so the last one for an
option counts, wherever it came from.  Putting a value under a name finds entries by their spelling
instead: a value put in keeps the place of the entry that it replaces, and an entry behind it that
spells the option in another way is not seen and still wins.

## Key results

- `resolve_get?`: an option has the value of the last entry for it
- `given_put`, `given_put_of_ne`: what putting in a value changes
- `given_merge`: what putting entries over others changes
-/

namespace Reflow.Options

/-- The value of an option, as it could be given for it. -/
def get? (o : Options) : String → Option OptionValue
  | "print_width" => some (.int o.printWidth)
  | "tab_width" => some (.int o.tabWidth)
  | "use_tabs" => some (.bool o.useTabs)
  | "semi" => some (.bool o.semi)
  | "single_quote" => some (.bool o.singleQuote)
  | "jsx_single_quote" => some (.bool o.jsxSingleQuote)
  | "trailing_comma" => some (.string o.trailingComma.name)
  | "jsx_bracket_same_line" => some (.bool o.jsxBracketSameLine)
  | "arrow_parens" => some (.string o.arrowParens.name)
  | "parser" => some (.string o.parser.name)
  | _ => none

/-- The value that entries give for an option: that of the last entry with a spelling of it. -/
def Entries.given (key : String) : Entries → Option OptionValue
  | [] => none
  | (name, v) :: rest => (Entries.given key rest).or (if keyOf name = key then some v else none)

/-- Is an entry that spells an option out followed by one that spells it in another way? -/
def Entries.overtaken (key : String) : Entries → Bool
  | [] => false
  | (name, _) :: rest =>
    if name = key then rest.any fun e => keyOf e.1 = key else Entries.overtaken key rest

/-! ### Reading entries -/

/-- What is read as a truth value is one. -/
theorem readBool_ok {name : String} {v : OptionValue} {b : Bool} (h : readBool name v = .ok b) :
    v = .bool b := by
  cases v <;> simp_all [readBool]

/-- What is read as a number is one. -/
theorem readInt_ok {name : String} {least : Int} {v : OptionValue} {n : Int}
    (h : readInt name least v = .ok n) : v = .int n := by
  cases v with
  | int m =>
    rw [readInt] at h
    split at h
    · cases h
    · cases h
      rfl
  | _ => cases h

/-- A choice is read from its name. -/
theorem readChoice_ok {α : Type} [DecidableEq α] {name : String} {choices : List (String × α)}
    (hnames : ∀ c ∈ choices, nameIn choices c.2 = c.1) {v : OptionValue} {a : α}
    (h : readChoice name choices v = .ok a) : v = .string (nameIn choices a) := by
  cases v with
  | string s =>
    -- the name is one of the choices, and the name of what it stands for
    simp only [readChoice] at h
    split at h
    · next hs =>
      cases h
      obtain ⟨before, behind, heq, -⟩ := List.lookup_eq_some_iff.1 hs
      rw [hnames (s, a) (heq ▸ List.mem_append_right _ List.mem_cons_self)]
    · cases h
  | _ => cases h

/-- A step whose result is only changed succeeds when the step does. -/
theorem bind_pure_ok {ε α β : Type} {x : Except ε α} {f : α → β} {b : β}
    (h : (do return f (← x)) = Except.ok (ε := ε) b) : ∃ a, x = .ok a ∧ b = f a := by
  cases x with
  | error fault => cases h
  | ok a =>
    cases h
    exact ⟨a, rfl, rfl⟩

/-- Setting an option gives it the value, and leaves all others as they are. -/
theorem set_get? {o o' : Options} {name : String} {v : OptionValue} (h : o.set name v = .ok o')
    (key : String) : o'.get? key = if keyOf name = key then some v else o.get? key := by
  unfold set at h
  split at h
  case h_11 => cases h
  all_goals
    next hname =>
    obtain ⟨a, ha, rfl⟩ := bind_pure_ok h
    rw [hname]
    split
    · -- the option itself: its reader tells what the value was
      subst key
      first
        | rw [readInt_ok ha]; rfl
        | rw [readBool_ok ha]; rfl
        | rw [readChoice_ok (by decide) ha]; rfl
    · -- another one: its field is not touched
      next hother =>
      unfold get?
      split <;> first | exact absurd rfl hother | rfl

/-- When all entries are set, an option has the value that they give for it, or the one it had. -/
theorem foldlM_set_get? {entries : Entries} {o o' : Options}
    (h : entries.foldlM (fun o e => o.set e.1 e.2) o = .ok o') (key : String) :
    o'.get? key = (entries.given key).or (o.get? key) := by
  -- induction on the entries, of which the last one given counts
  induction entries generalizing o with
  | nil =>
    cases h
    rfl
  | cons e rest ih =>
    obtain ⟨name, v⟩ := e
    rw [List.foldlM_cons] at h
    -- an entry that cannot be set ends the resolution
    cases hset : o.set name v with
    | error fault =>
      rw [hset] at h
      cases h
    | ok next =>
      rw [hset] at h
      rw [ih h, set_get? hset, Entries.given, Option.or_assoc]
      -- the entry is for the key or it is not
      split <;> rfl

/-- An option has the value of the last entry for it, or else the value that it has by itself. -/
theorem resolve_get? {entries : Entries} {o : Options} (h : resolve entries = .ok o)
    (key : String) : o.get? key = (entries.given key).or (({} : Options).get? key) :=
  foldlM_set_get? h key

/-! ### Putting entries over others -/

namespace Entries

variable {key name : String} {v : OptionValue}

/-- A value is given for an option when some entry has a spelling of its name. -/
theorem given_isSome (entries : Entries) :
    (entries.given key).isSome = entries.any fun e => keyOf e.1 = key := by
  induction entries with
  | nil => rfl
  | cons e rest ih =>
    rw [given, Option.isSome_or, ih, List.any_cons, Bool.or_comm]
    split <;> simp_all

/-- What is overtaken is given. -/
theorem given_of_overtaken {entries : Entries} (h : entries.overtaken key = true) :
    (entries.given key).isSome = true := by
  induction entries with
  | nil => cases h
  | cons e rest ih =>
    rw [overtaken] at h
    rw [given, Option.isSome_or]
    split at h
    · rw [given_isSome, h, Bool.true_or]
    · rw [ih h, Bool.true_or]

/-- A value that is put in is the one given, unless the entry that it replaces is overtaken. -/
theorem given_put (hkey : keyOf key = key) (entries : Entries) :
    (entries.put key v).given key =
      if entries.overtaken key then entries.given key else some v := by
  induction entries with
  | nil => simp [put, given, overtaken, hkey]
  | cons e rest ih =>
    obtain ⟨name, w⟩ := e
    rw [put, overtaken]
    by_cases hname : name = key
    · -- the value is in the place of the old one, and what comes behind still counts
      subst name
      rw [if_pos (beq_self_eq_true key), if_pos rfl, given, given, if_pos hkey]
      rw [← given_isSome]
      cases given key rest <;> rfl
    · rw [if_neg (by simpa using hname), if_neg hname, given, ih]
      split
      · rfl
      · rfl

/-- Putting in a value changes no other option. -/
theorem given_put_of_ne (hname : keyOf name ≠ key) (entries : Entries) :
    (entries.put name v).given key = entries.given key := by
  induction entries with
  | nil => simp [put, given, hname]
  | cons e rest ih =>
    rw [put]
    split
    · next heq =>
      have hfirst : keyOf e.1 ≠ key := by rwa [beq_iff_eq.1 heq]
      simp [given, hfirst]
    · rw [given, ih, given]

/-- Putting in a value overtakes no other option. -/
theorem overtaken_put_of_ne (hname : keyOf name ≠ key) (entries : Entries) :
    (entries.put name v).overtaken key = entries.overtaken key := by
  -- the key is given with the entry if it is given without
  have hany : ∀ entries : Entries, ((entries.put name v).any fun e => keyOf e.1 = key) =
      entries.any fun e => keyOf e.1 = key := by
    intro entries
    rw [← given_isSome, given_put_of_ne hname, given_isSome]
  -- induction on the entries, in which the name keeps its place or comes last
  induction entries with
  | nil => simp [put, overtaken]
  | cons e rest ih =>
    rw [put]
    split
    · rw [overtaken, overtaken]
    · rw [overtaken, overtaken, ih, hany]

/-- Entries under names that spell their options out, each name used once, are the ones given for
their options, unless they replace entries that are overtaken. -/
theorem given_merge {later : Entries} (hlater : (later.map (·.1)).Nodup)
    (hkeys : ∀ e ∈ later, keyOf e.1 = e.1) (entries : Entries) (key : String) :
    (entries.merge later).given key =
      match later.lookup key with
      | some v => if entries.overtaken key then entries.given key else some v
      | none => entries.given key := by
  rw [merge]
  induction later generalizing entries with
  | nil => rfl
  | cons e rest ih =>
    obtain ⟨name, v⟩ := e
    obtain ⟨hname, hrest⟩ := List.nodup_cons.1 hlater
    obtain ⟨hkeyName, hkeysRest⟩ := List.forall_mem_cons.1 hkeys
    rw [List.foldl_cons, ih hrest hkeysRest, List.lookup_cons]
    by_cases heq : name = key
    · -- no later name spells the option
      subst name
      have hnone : rest.lookup key = none := by
        rw [List.lookup_eq_none_iff]
        intro e he
        rw [bne_iff_ne]
        intro heq
        exact hname (List.mem_map.2 ⟨e, he, heq.symm⟩)
      rw [hnone, beq_self_eq_true]
      exact given_put hkeyName entries
    · have hne : keyOf name ≠ key := by rwa [hkeyName]
      rw [given_put_of_ne hne, overtaken_put_of_ne hne, beq_false_of_ne (Ne.symm heq)]

end Entries

end Reflow.Options
