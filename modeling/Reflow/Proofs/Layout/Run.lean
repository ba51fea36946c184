import Reflow.Layout.Render

/-!
# Runs of the layout engine

What a step of the engine can do where its definition has many branches, and the states that a run
comes through.

## Key results

- `breakLine_ends`, `breakLine_flushes`: the two things that a broken line does
- `State.run_visited`: a run ends in one of the states it comes through
- `State.run_cons`, `Probe.fits_cons`: the first command of a run, and of a measurement
-/

namespace Reflow.Layout

variable {settings : Settings} {s : State} {c : Command}

/-- Without deferred parts a broken line ends the line. -/
theorem breakLine_ends (hs : s.suffixes = []) (kind : LineKind) :
    s.breakLine settings c kind = { s with
      remeasure := c.mode = .flat || s.remeasure
      output := if kind = .literal then .text "\n" :: s.output
        else .text ("\n" ++ (c.indentation.margin settings).text) :: trimOutput s.output
      column := if kind = .literal then 0 else (c.indentation.margin settings).columns } := by
  unfold State.breakLine
  by_cases hf : c.mode = .flat <;> by_cases hk : kind = .literal <;> simp [hf, hs, hk]

/-- Deferred parts go in front of a broken line, which is then tried again. -/
theorem breakLine_flushes (hs : s.suffixes ≠ []) (kind : LineKind) :
    s.breakLine settings c kind = { s with
      remeasure := c.mode = .flat || s.remeasure
      commands := s.suffixes.reverse ++ c :: s.commands
      suffixes := [] } := by
  unfold State.breakLine
  by_cases hf : c.mode = .flat <;> simp [hf, hs]

/-- A group becomes a command for its body. -/
theorem doc_groupCommand (body : Doc) (broken : Bool) :
    (groupCommand settings s c body broken).doc = body := by
  unfold groupCommand
  split
  · rfl
  split <;> rfl

variable (settings s c) in
/-- A group with several shapes becomes a command for one of them. -/
theorem doc_alternativesCommand (first : Doc) (others : List Doc) (broken : Bool) :
    ∃ d ∈ first :: others,
      (alternativesCommand settings s c first others broken).doc = d.breakGroups := by
  -- the most expanded shape is the last, or the first where there is no other
  have hlast : mostExpanded first others ∈ first :: others := by
    rw [mostExpanded, List.getLastD_eq_getLast?]
    cases h : others.getLast? with
    | none => exact List.mem_cons_self
    | some d => exact List.mem_cons_of_mem _ (List.mem_of_getLast? h)
  unfold alternativesCommand
  -- the shapes that may be taken, in the order in which the choice is made
  split
  · exact ⟨first, List.mem_cons_self, rfl⟩
  split
  · exact ⟨_, hlast, rfl⟩
  split
  · exact ⟨first, List.mem_cons_self, rfl⟩
  split
  · rename_i d hd
    exact ⟨d, List.mem_cons_of_mem _ (List.mem_of_find?_eq_some hd), rfl⟩
  · exact ⟨_, hlast, rfl⟩

@[simp] theorem indentation_groupCommand (body : Doc) (broken : Bool) :
    (groupCommand settings s c body broken).indentation = c.indentation := by
  unfold groupCommand
  split
  · rfl
  split <;> rfl

@[simp] theorem indentation_alternativesCommand (first : Doc) (others : List Doc) (broken : Bool) :
    (alternativesCommand settings s c first others broken).indentation = c.indentation := by
  unfold alternativesCommand
  split
  · rfl
  split
  · rfl
  split
  · rfl
  split <;> rfl

/-- A run that starts in the first state comes through the second one. -/
inductive Visits (settings : Settings) : State → State → Prop
  | here (s : State) : Visits settings s s
  /-- The next command is carried out. -/
  | step {s t : State} {c : Command} {rest : List Command} (hc : s.commands = c :: rest)
    (h : Visits settings ({ s with commands := rest }.step settings c) t) : Visits settings s t
  /-- At the end of the commands come the deferred parts. -/
  | flush {s t : State} (hc : s.commands = []) (hs : s.suffixes ≠ [])
    (h : Visits settings { s with commands := s.suffixes.reverse, suffixes := [] } t) :
    Visits settings s t

/-- The state after a number of commands, if there are that many. -/
def State.after (settings : Settings) : Nat → State → State
  | 0, s => s
  | n + 1, s =>
    match s.commands with
    | c :: rest => ({ s with commands := rest }.step settings c).after settings n
    | [] => s

/-- A run visits the states behind a number of steps. -/
theorem visits_after (settings : Settings) (n : Nat) (s : State) :
    Visits settings s (s.after settings n) := by
  induction n generalizing s with
  | zero => exact .here s
  | succ n ih =>
    rw [State.after]
    split
    · rename_i c rest hc
      exact .step hc (ih _)
    · exact .here s

/-- A run ends in a state that it comes through, with nothing left to be done. -/
theorem State.run_visited (settings : Settings) (s : State) :
    Visits settings s (s.run settings) ∧ (s.run settings).commands = [] ∧
      (s.run settings).suffixes = [] := by
  fun_induction State.run settings s with
  | case1 s c rest hc ih => exact ⟨.step hc ih.1, ih.2⟩
  | case2 s hc hs => exact ⟨.here s, hc, List.isEmpty_iff.1 hs⟩
  | case3 s hc hs ih =>
    rw [List.unattach_reverse, List.unattach_attach] at ih
    exact ⟨.flush hc (by simpa using hs) ih.1, ih.2⟩

/-- A run carries out its first command and goes on. -/
theorem State.run_cons {rest : List Command} (hc : s.commands = c :: rest) :
    s.run settings = (({ s with commands := rest } : State).step settings c).run settings := by
  rw [State.run]
  split
  · rename_i hc'
    rw [hc] at hc'
    cases hc'
    rfl
  · rename_i hnil
    rw [hc] at hnil
    cases hnil

/-- With nothing to do a run is over. -/
theorem State.run_nil (hc : s.commands = []) (hs : s.suffixes = []) : s.run settings = s := by
  rw [State.run]
  split
  · rename_i hcons
    rw [hc] at hcons
    cases hcons
  · rw [dif_pos (by simp [hs])]

/-- Without commands left, a run goes on with the deferred parts. -/
theorem State.run_flush (hc : s.commands = []) (hs : s.suffixes ≠ []) :
    s.run settings =
      ({ s with commands := s.suffixes.reverse, suffixes := [] } : State).run settings := by
  rw [State.run]
  split
  · rename_i hcons
    rw [hc] at hcons
    cases hcons
  · rw [dif_neg (by simpa using hs)]

section Visited

variable {P : State → Prop}

/-- What holds of all states of a run holds of the first one and along the rest. -/
theorem Visits.forall_cons {rest : List Command} (hc : s.commands = c :: rest) :
    (∀ t, Visits settings s t → P t) ↔
      P s ∧ ∀ t, Visits settings (({ s with commands := rest } : State).step settings c) t →
        P t := by
  constructor
  · exact fun h => ⟨h s (.here s), fun t ht => h t (.step hc ht)⟩
  · -- a state that is visited is the first one, or it is visited from the next one on
    rintro ⟨hs, hrest⟩ t ht
    cases ht with
    | here => exact hs
    | step hc' ht =>
      obtain ⟨rfl, rfl⟩ := List.cons.inj (hc.symm.trans hc')
      exact hrest t ht
    | flush hnil =>
      rw [hc] at hnil
      cases hnil

/-- Where only deferred parts are left, those are visited next. -/
theorem Visits.forall_flush (hc : s.commands = []) (hs : s.suffixes ≠ []) :
    (∀ t, Visits settings s t → P t) ↔
      P s ∧ ∀ t, Visits settings { s with commands := s.suffixes.reverse, suffixes := [] } t →
        P t := by
  constructor
  · exact fun h => ⟨h s (.here s), fun t ht => h t (.flush hc hs ht)⟩
  · -- a state that is visited is the first one, or it is visited after the flush
    rintro ⟨hself, hrest⟩ t ht
    cases ht with
    | here => exact hself
    | step hcons =>
      rw [hc] at hcons
      cases hcons
    | flush _ _ ht => exact hrest t ht

/-- Where nothing is left no other state is visited. -/
theorem Visits.forall_nil (hc : s.commands = []) (hs : s.suffixes = []) :
    (∀ t, Visits settings s t → P t) ↔ P s := by
  constructor
  · exact fun h => h s (.here s)
  · intro hself t ht
    cases ht with
    | here => exact hself
    | step hcons =>
      rw [hc] at hcons
      cases hcons
    | flush _ hne => exact absurd hs hne

end Visited

/-! ## Measurements -/

/-- A measurement looks at its first command and goes on, as long as there is room. -/
theorem Probe.fits_cons {tabWidth : Int} {mustBeFlat : Bool} {p : Probe} {rest : List Command}
    (hc : p.commands = c :: rest) :
    p.fits tabWidth mustBeFlat = (decide (0 ≤ p.width) &&
      match { p with commands := rest }.step tabWidth mustBeFlat c with
      | .known answer => answer
      | .more q => q.fits tabWidth mustBeFlat) := by
  rw [Probe.fits]
  -- without room the answer is no whatever the command is
  by_cases hw : p.width < 0
  · have hle : ¬0 ≤ p.width := by omega
    simp [hw, hle]
  · have hle : 0 ≤ p.width := by omega
    rw [if_neg hw]
    -- the match of the definition against the commands, brought to the one that stands there
    split
    · rename_i hnil
      rw [hc] at hnil
      cases hnil
    · rename_i c' rest' hcons
      rw [hc] at hcons
      cases hcons
      simp only [hle, decide_true, Bool.true_and]
      split <;> rename_i h <;> rw [h]

/-- Where nothing is left to be measured it fits if there is room. -/
theorem Probe.fits_nil {tabWidth : Int} {mustBeFlat : Bool} {p : Probe} (hc : p.commands = []) :
    p.fits tabWidth mustBeFlat = decide (0 ≤ p.width) := by
  rw [Probe.fits]
  -- nothing is left to measure, so that the room decides
  by_cases hw : p.width < 0
  · have hle : ¬0 ≤ p.width := by omega
    simp [hw, hle]
  · have hle : 0 ≤ p.width := by omega
    rw [if_neg hw]
    split
    · simp [hle]
    · rename_i hcons
      rw [hc] at hcons
      cases hcons

end Reflow.Layout
