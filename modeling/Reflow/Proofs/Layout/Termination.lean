import Reflow.Proofs.Layout.Run

/-!
# Rendering comes to an end

The engine has two loops.  One prints the commands of a stack, the other measures whether commands fit
on a line.  Here both are told turn by turn, without anything that makes them end; that they do end,
and soon, is a statement about the weight of the document.

A turn of the printing loop may leave more commands than it found: the commands for the parts of a
document, a line that has to wait for deferred parts, these parts themselves, the rest of a fill.  But
a document weighs more than what it leaves, so that the measure of the state goes down.

## Key results

- `measure_turn`, `weightOf_turn`: what a turn of each loop takes away
- `Visits.measure_le`: the measure along a run
- `render_terminates`: printing takes at most twice as many turns as the document weighs, and each
  measurement at most one more than it weighs
-/

namespace Reflow.Layout

variable {settings : Settings} {s t : State}

/-! ## Printing -/

/-- A turn of the printing loop: the next command is carried out, or the deferred parts are taken up
when no commands are left.  There is none when nothing is left. -/
def State.turn? (settings : Settings) (s : State) : Option State :=
  match s.commands with
  | c :: rest => some (({ s with commands := rest } : State).step settings c)
  | [] =>
    if s.suffixes.isEmpty then none
    else some { s with commands := s.suffixes.reverse, suffixes := [] }

/-- The printing loop ends in a state after a number of turns. -/
inductive State.EndsAfter (settings : Settings) : Nat → State → State → Prop
  | here {s : State} (h : s.turn? settings = none) : EndsAfter settings 0 s s
  | turn {n : Nat} {s t last : State} (h : s.turn? settings = some t)
      (hlast : EndsAfter settings n t last) : EndsAfter settings (n + 1) s last

variable (settings) in
/-- A turn carries out the next command. -/
theorem turn?_cons {c : Command} {rest : List Command} (hc : s.commands = c :: rest) :
    s.turn? settings = some (({ s with commands := rest } : State).step settings c) := by
  rw [State.turn?, hc]

variable (settings) in
/-- A turn takes up what was deferred. -/
theorem turn?_flush (hc : s.commands = []) (hs : s.suffixes ≠ []) :
    s.turn? settings = some { s with commands := s.suffixes.reverse, suffixes := [] } := by
  rw [State.turn?, hc]
  simp [hs]

variable (settings) in
/-- Where nothing is left there is no turn. -/
theorem turn?_nil (hc : s.commands = []) (hs : s.suffixes = []) : s.turn? settings = none := by
  rw [State.turn?, hc]
  simp [hs]

/-- Every turn brings the end nearer. -/
theorem measure_turn (h : s.turn? settings = some t) : t.measure < s.measure := by
  cases hc : s.commands with
  | cons c rest =>
    rw [turn?_cons settings hc, Option.some.injEq] at h
    have hstep := measure_step settings { s with commands := rest } c
    rw [h] at hstep
    simp only [State.measure, hc, weightOf_cons] at hstep ⊢
    omega
  | nil =>
    by_cases hs : s.suffixes = []
    · rw [turn?_nil settings hc hs] at h
      cases h
    · rw [turn?_flush settings hc hs, Option.some.injEq] at h
      -- the deferred parts weigh the same as commands; what is gone is that there are any
      rw [← h]
      simp [State.measure, hc, hs]

/-- The loop ends where the run does. -/
theorem State.endsAfter_run (settings : Settings) (s : State) :
    ∃ n ≤ s.measure, EndsAfter settings n s (s.run settings) := by
  -- induction along the run, whose measure each turn makes smaller
  fun_induction State.run settings s with
  | case1 s c rest hc ih =>
    obtain ⟨n, hn, hends⟩ := ih
    have hturn := turn?_cons settings hc
    have := measure_turn hturn
    exact ⟨n + 1, by omega, .turn hturn hends⟩
  | case2 s hc hs => exact ⟨0, Nat.zero_le _, .here (turn?_nil settings hc (List.isEmpty_iff.1 hs))⟩
  | case3 s hc hs ih =>
    rw [List.unattach_reverse, List.unattach_attach] at ih
    obtain ⟨n, hn, hends⟩ := ih
    have hturn := turn?_flush settings hc (by simpa using hs)
    have := measure_turn hturn
    exact ⟨n + 1, by omega, .turn hturn hends⟩

/-- Along a run the measure does not go up. -/
theorem Visits.measure_le (h : Visits settings s t) : t.measure ≤ s.measure := by
  induction h with
  | here => exact Nat.le_refl _
  | step hc _ ih =>
    have := measure_turn (turn?_cons settings hc)
    omega
  | flush hc hs _ ih =>
    have := measure_turn (turn?_flush settings hc hs)
    omega

/-- A run starts with twice the weight of the document. -/
theorem measure_start (d : Doc) : (State.start d).measure = 2 * d.weight := by
  simp [State.start, State.measure, Doc.breakGroups, weight_spreadBreaks]

/-- No state of a rendering has commands that weigh more than the document. -/
theorem Visits.weightOf_le {d : Doc} (h : Visits settings (.start d) s) :
    weightOf s.commands ≤ d.weight := by
  have hle := h.measure_le
  rw [measure_start, State.measure] at hle
  omega

/-! ## Measuring -/

section Measuring

variable {tabWidth : Int} {mustBeFlat : Bool} {p q : Probe}

/-- A turn of the measuring loop: without room left the commands do not fit, without commands left
they do, and otherwise the next command is measured. -/
def Probe.turn (tabWidth : Int) (mustBeFlat : Bool) (p : Probe) : Finding :=
  if p.width < 0 then .known false
  else match p.commands with
  | [] => .known true
  | c :: rest => ({ p with commands := rest } : Probe).step tabWidth mustBeFlat c

/-- The measuring loop ends with an answer after a number of turns. -/
inductive Probe.AnswersAfter (tabWidth : Int) (mustBeFlat : Bool) : Nat → Probe → Bool → Prop
  | known {p : Probe} {answer : Bool} (h : p.turn tabWidth mustBeFlat = .known answer) :
    AnswersAfter tabWidth mustBeFlat 1 p answer
  | more {n : Nat} {p q : Probe} {answer : Bool} (h : p.turn tabWidth mustBeFlat = .more q)
      (hq : AnswersAfter tabWidth mustBeFlat n q answer) :
    AnswersAfter tabWidth mustBeFlat (n + 1) p answer

/-- A turn that does not answer leaves less to be measured. -/
theorem weightOf_turn (h : p.turn tabWidth mustBeFlat = .more q) :
    weightOf q.commands < weightOf p.commands := by
  unfold Probe.turn at h
  split at h
  · cases h
  split at h
  · cases h
  · rename_i c rest hc
    rw [hc, weightOf_cons]
    exact weightOf_probe_step h

/-- A turn of a measurement looks at the next command as long as there is room. -/
theorem Probe.turn_of_room {c : Command} {rest : List Command} (hroom : ¬p.width < 0)
    (hc : p.commands = c :: rest) :
    p.turn tabWidth mustBeFlat =
      ({ p with commands := rest } : Probe).step tabWidth mustBeFlat c := by
  rw [Probe.turn, if_neg hroom, hc]

/-- The loop answers what the measurement says. -/
theorem Probe.answersAfter_fits (tabWidth : Int) (mustBeFlat : Bool) (p : Probe) :
    ∃ n ≤ weightOf p.commands + 1,
      AnswersAfter tabWidth mustBeFlat n p (p.fits tabWidth mustBeFlat) := by
  -- induction along the measurement, whose commands each turn makes lighter
  fun_induction Probe.fits tabWidth mustBeFlat p with
  | case1 p hroom => exact ⟨1, by omega, .known (by rw [Probe.turn, if_pos hroom])⟩
  | case2 p hroom hc => exact ⟨1, by omega, .known (by rw [Probe.turn, if_neg hroom, hc])⟩
  | case3 p hroom c rest hc answer h =>
    exact ⟨1, by omega, .known ((turn_of_room hroom hc).trans h)⟩
  | case4 p hroom c rest hc q h ih =>
    obtain ⟨n, hn, hanswers⟩ := ih
    have hturn := (turn_of_room hroom hc).trans h
    have := weightOf_turn hturn
    exact ⟨n + 1, by omega, .more hturn hanswers⟩

end Measuring

/-- A measurement that a state may start: where, and whether a broken group ends it. -/
structure Measurement where
  probe : Probe
  mustBeFlat : Bool

/-- The measurements that a state may start for its next command: of the body of a group, of each
shape that a group has, or of the first content of a fill and of this content with the separator and
the content behind it. -/
def State.measurements (settings : Settings) (s : State) : List Measurement :=
  match s.commands with
  | [] => []
  | c :: rest =>
    let s : State := { s with commands := rest }
    match c.doc with
    | .group body _ => [⟨s.probe settings (c.as .flat body), false⟩]
    | .alternatives first others _ =>
      (first :: others).map fun d => ⟨s.probe settings (c.asShape .flat d), false⟩
    | .fill parts => [1, 3].map fun n => ⟨fillProbe settings s.column c (parts.take n), true⟩
    | _ => []

/-- The parts of a fill that are measured weigh no more than the fill. -/
theorem weightOf_fillProbe (settings : Settings) (column : Int) (c : Command) (n : Nat)
    (parts : List Doc) :
    weightOf (fillProbe settings column c (parts.take n)).commands ≤ Doc.weightAll parts := by
  simp only [fillProbe]
  -- what is taken of the parts weighs no more than all of them
  induction parts generalizing n with
  | nil => simp [Doc.weightAll]
  | cons d parts ih =>
    cases n with
    | zero => simp
    | succ n =>
      have := ih n
      simp only [List.take_succ_cons, List.map_cons, weightOf_cons, doc_as, Doc.weightAll]
      omega

/-- What is measured weighs no more than the commands of the state. -/
theorem weightOf_measurements {m : Measurement} (hm : m ∈ s.measurements settings) :
    weightOf m.probe.commands ≤ weightOf s.commands := by
  -- the command that comes next decides what is measured in front of it
  unfold State.measurements at hm
  split at hm
  · cases hm
  rename_i c rest hc
  rw [hc, weightOf_cons]
  simp only at hm
  -- a group measures its body
  split at hm <;> rename_i hd
  · rw [List.mem_singleton] at hm
    subst hm
    simp only [State.probe, weightOf_cons, doc_as, hd, Doc.weight]
    omega
  · -- a choice measures its shapes, none of which is heavier than the choice
    rename_i first others broken
    obtain ⟨d, hmem, rfl⟩ := List.mem_map.1 hm
    have hle : d.weight ≤ first.weight + Doc.weightAll others := by
      rcases List.mem_cons.1 hmem with rfl | hmem
      · omega
      · have := weight_lt_of_mem hmem
        omega
    simp only [State.probe, weightOf_cons, weight_asShape, hd, Doc.weight]
    omega
  · -- a fill measures its first parts
    rename_i parts
    obtain ⟨n, -, rfl⟩ := List.mem_map.1 hm
    have := weightOf_fillProbe settings s.column c n parts
    simp only [hd, Doc.weight]
    omega
  · cases hm

/-- Rendering ends for every document and all settings: the printing loop, in which no deferred parts
are left over, after at most twice as many turns as the document weighs, and every measurement that
it starts on its way after at most one turn more than the document weighs. -/
theorem render_terminates (settings : Settings) (d : Doc) :
    (∃ n ≤ 2 * d.weight, ∃ last, State.EndsAfter settings n (.start d) last ∧
      last.commands = [] ∧ last.suffixes = [] ∧
      outputText last.output.reverse = render settings d) ∧
    ∀ s, Visits settings (.start d) s → ∀ m ∈ s.measurements settings,
      ∃ n ≤ d.weight + 1, m.probe.AnswersAfter settings.tabWidth m.mustBeFlat n
        (m.probe.fits settings.tabWidth m.mustBeFlat) := by
  constructor
  · -- the run: its turns are bounded by the measure of the start
    obtain ⟨n, hn, hends⟩ := State.endsAfter_run settings (.start d)
    rw [measure_start] at hn
    obtain ⟨-, hcommands, hsuffixes⟩ := State.run_visited settings (.start d)
    exact ⟨n, hn, _, hends, hcommands, hsuffixes, rfl⟩
  · intro s hs m hm
    -- a measurement: what it starts with is on the stack, and the stack only becomes lighter
    obtain ⟨n, hn, hanswers⟩ := m.probe.answersAfter_fits settings.tabWidth m.mustBeFlat
    have h1 := weightOf_measurements hm
    have h2 := hs.weightOf_le
    exact ⟨n, by omega, hanswers⟩

end Reflow.Layout
