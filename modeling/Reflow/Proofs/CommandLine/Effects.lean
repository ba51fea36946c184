import Reflow.CommandLine.Run
import Reflow.Proofs.Files.Memory

/-!
# What a run does to files

A run visits its inputs in order.  What a visit finds is told by `examine`, and what it may do about
it by `Visit.Sound`: the text goes to one place, or nowhere.  The visits of a run follow each other,
up to the first one that stops the run, and each finds the files as the one before has left them.

## Key results

- `formatInput_visits`: one input is one visit
- `formatInputs_visits`: a run over inputs is their visits, and its status is told by what they find
- `run_touches_only`: which files a run changes, and how it ends
-/

namespace Reflow.CommandLine

/-! ### Visits -/

/-- What comes of an input before anything is done about it. -/
inductive Finding where
  /-- A limit is passed, or no file can have the name of the input. -/
  | crashed
  /-- An option, a file or the formatting gives a reason to give up. -/
  | refused
  /-- The text does not follow the grammar. -/
  | unreadable
  /-- The text that was read, and what it is formatted to. -/
  | formatted (source : String) (result : Format.Formatted)

/-- Does the run stop there? -/
def Finding.stops : Finding → Bool
  | .crashed | .refused => true
  | .unreadable | .formatted .. => false

/-- Is there something wrong with the input, which does not stop the run? -/
def Finding.flags (job : Job) : Finding → Bool
  | .unreadable => true
  | .formatted source result => job.check && result.text != source
  | .crashed | .refused => false

/-- What formatting a text comes to. -/
def judge (job : Job) (file : FileOptions) (source : String) : Finding :=
  match (formatReporting job file source).1 with
  | .ok result => .formatted source result
  | .error (.unreadable ..) => .unreadable
  | .error (.limit _) | .error .tooDeep => .crashed
  | .error _ => .refused

/-- What comes of an input, and the workspace behind reading it. -/
def examine (job : Job) (input : Input) (w : Workspace) : Finding × Workspace :=
  match FileOptions.resolve input job.entries with
  | .error fault => (if fault.report.isOk then .refused else .crashed, w)
  | .ok file =>
    let (read, w) := (readInput Workspace.access input).run w
    match read with
    | .error .unusableName => (.crashed, w)
    | .error _ => (.refused, w)
    | .ok source => (judge job file source, w)

/-- A visit of an input. -/
structure Visit where
  input : Input
  before : Workspace
  finding : Finding
  after : Workspace

/-- Does a visit put a text at a place?  It does so with a formatted text that goes to the place,
but not when all is only checked, and not when the place is that of the input and has the text
already. -/
def Visit.Puts (job : Job) (v : Visit) (place : List String) (text : String) : Prop :=
  ∃ source result name, v.finding = .formatted source result ∧ job.check = false ∧
    job.target v.input = some name ∧ v.before.place? name = some place ∧
    (job.rewrites v.input = true → result.text ≠ source) ∧ result.text = text

/-- A visit finds what there is to find, and puts the formatted text where it belongs, and nothing
anywhere else. -/
structure Visit.Sound (job : Job) (v : Visit) : Prop where
  examined : (examine job v.input v.before).1 = v.finding
  consumed : v.after.input = (examine job v.input v.before).2.input
  put : ∀ place text, v.Puts job place text → v.after.contents? place = some text
  kept : ∀ place, (∀ text, ¬ v.Puts job place text) →
    v.after.contents? place = v.before.contents? place
  untouched : (∀ place text, ¬ v.Puts job place text) → v.after.files = v.before.files
  leads : ∀ name, v.after.place? name = v.before.place? name

/-- The visits of inputs in order, up to the first one that stops, from workspace to workspace. -/
inductive Visits (job : Job) : Workspace → List Input → List Visit → Workspace → Prop
  | done {w : Workspace} : Visits job w [] [] w
  | stop {v : Visit} {rest : List Input} (hv : v.Sound job) (hstop : v.finding.stops = true) :
    Visits job v.before (v.input :: rest) [v] v.after
  | next {v : Visit} {rest : List Input} {visits : List Visit} {w : Workspace} (hv : v.Sound job)
    (hgo : v.finding.stops = false) (h : Visits job v.after rest visits w) :
    Visits job v.before (v.input :: rest) (v :: visits) w

/-- What a step makes of a progress, after what a visit has found. -/
def Follows (job : Job) (p : Progress) (finding : Finding) : Step → Prop
  | .next q => finding.stops = false ∧
      q.status = (if finding.flags job then max p.status 1 else p.status) ∧
      (job.check = true → q.output = p.output)
  | .stop (.done q) => finding = .refused ∧ q.status = 2 ∧ q.output = p.output
  | .stop (.crashed _) => finding = .crashed
  | .stop (.refused _) => False

/-- What a run makes of a progress, after what visits have found. -/
def EndsFrom (job : Job) (p : Progress) (visits : List Visit) : Outcome → Prop
  | .done q => (∀ v ∈ visits, v.finding ≠ .crashed) ∧
      q.status = (if visits.any (·.finding matches .refused) then 2
        else if visits.any (·.finding.flags job) then max p.status 1 else p.status) ∧
      (job.check = true → q.output = p.output)
  | .crashed _ => ∃ v ∈ visits, v.finding = .crashed
  | .refused _ => False

/-! ### One visit -/

section Visit

variable {job : Job} {input : Input} {w : Workspace} {p : Progress}

/-- A step runs, and then what follows it from the state that it leaves. -/
theorem run_bind_of {σ α β : Type} {x : StateM σ α} {f : α → StateM σ β} {s s' : σ} {a : α}
    (h : x.run s = (a, s')) : (x >>= f).run s = (f a).run s' := by
  rw [StateT.run_bind, h]
  rfl

/-- To examine an input writes no file. -/
theorem examine_files (job : Job) (input : Input) (w : Workspace) :
    (examine job input w).2.files = w.files := by
  have hread : ((readInput Workspace.access input).run w).2.files = w.files := by
    cases input <;> rfl
  unfold examine
  cases FileOptions.resolve input job.entries with
  | error fault => rfl
  | ok file =>
    rcases hrun : (readInput Workspace.access input).run w with ⟨read, next⟩
    rw [hrun] at hread
    dsimp only
    split <;> exact hread

/-- A visit that puts nothing anywhere. -/
theorem sound_of_not_puts
    (hnone : ∀ place text,
      ¬ (Visit.mk input w (examine job input w).1 (examine job input w).2).Puts job place text) :
    (Visit.mk input w (examine job input w).1 (examine job input w).2).Sound job := by
  have hfiles := examine_files job input w
  exact {
    examined := rfl
    consumed := rfl
    put := fun place text h => absurd h (hnone place text)
    kept := fun place _ => Workspace.contents?_of_files hfiles place
    untouched := fun _ => hfiles
    leads := Workspace.place?_of_files hfiles }

/-- A visit that puts a formatted text in its place. -/
theorem sound_of_puts {source : String} {result : Format.Formatted} {name : FileName}
    {place : List String} (hfinding : (examine job input w).1 = .formatted source result)
    (hcheck : job.check = false) (htarget : job.target input = some name)
    (hplace : w.place? name = some place)
    (hdiffers : job.rewrites input = true → result.text ≠ source) :
    (Visit.mk input w (examine job input w).1
      ((examine job input w).2.put place result.text)).Sound job := by
  have hfiles := examine_files job input w
  -- to examine the input leaves the names
  have hplaceNext : (examine job input w).2.place? name = some place := by
    rw [Workspace.place?_of_files hfiles, hplace]
  -- the visit puts one text at one place
  have hputs : ∀ place' text, (Visit.mk input w (examine job input w).1
      ((examine job input w).2.put place result.text)).Puts job place' text ↔
        place' = place ∧ text = result.text := by
    intro place' text
    constructor
    · rintro ⟨_, _, _, h₁, -, h₂, h₃, -, rfl⟩
      -- the finding, the name and the place are those of the hypotheses
      rw [hfinding] at h₁
      cases h₁
      rw [htarget] at h₂
      cases h₂
      rw [hplace] at h₃
      cases h₃
      exact ⟨rfl, rfl⟩
    · rintro ⟨rfl, rfl⟩
      exact ⟨source, result, name, hfinding, hcheck, htarget, hplace, hdiffers, rfl⟩
  exact {
    examined := rfl
    consumed := rfl
    put := by
      intro place' text h
      obtain ⟨rfl, rfl⟩ := (hputs place' text).1 h
      rw [Workspace.contents?_put, if_pos rfl]
    kept := by
      -- a place that gets no text keeps its contents
      intro place' h
      have hne : place' ≠ place := fun heq => h result.text ((hputs place' _).2 ⟨heq, rfl⟩)
      rw [Workspace.contents?_put, if_neg hne, Workspace.contents?_of_files hfiles]
    untouched := fun h => absurd ((hputs place result.text).2 ⟨rfl, rfl⟩) (h _ _)
    leads := fun other => by
      rw [Workspace.place?_put hplaceNext, Workspace.place?_of_files hfiles] }

/-- To write a file whose place is found puts the text there. -/
theorem write_run {name : FileName} {place : List String} (h : w.place? name = some place)
    (text : String) :
    (Workspace.access.write name text).run w = (.ok (), w.put place text) := by
  have hwrite := Workspace.write_of_place h text
  have hget : (get : StateM Workspace Workspace).run w = (w, w) := rfl
  simp only [Workspace.access]
  rw [run_bind_of hget, hwrite]
  rfl

/-- A formatted text is put in its place, or nowhere if it has none or is there already. -/
theorem deliver_run (source : String) (result : Format.Formatted)
    (hplace : ∀ name, job.target input = some name → (w.place? name).isSome = true)
    (p : Progress) :
    ∃ q after, (deliver Workspace.access job input source result p).run w = (.next q, after) ∧
      q.status = p.status ∧
      ((after = w ∧ ∀ name, job.target input = some name →
          job.rewrites input = true ∧ result.text = source) ∨
        ∃ name place, job.target input = some name ∧ w.place? name = some place ∧
          (job.rewrites input = true → result.text ≠ source) ∧
          after = w.put place result.text) := by
  -- whatever is reported, the status stays
  have hreport : ∀ (p : Progress) (text : String), (p.report text).status = p.status :=
    fun _ _ => rfl
  unfold deliver
  cases htarget : job.target input with
  | none =>
    refine ⟨_, w, rfl, ?_, .inl ⟨rfl, by simp⟩⟩
    cases result.cursor <;> simp [hreport, apply_ite Progress.status]
  | some name =>
    obtain ⟨place, hname⟩ := Option.isSome_iff_exists.1 (hplace name htarget)
    by_cases hthere : (job.rewrites input && result.text == source) = true
    · -- it is there already
      simp only [if_pos hthere]
      refine ⟨_, w, rfl, ?_, .inl ⟨rfl, fun _ _ => ?_⟩⟩
      · cases result.cursor <;> simp [hreport, apply_ite Progress.status]
      · rwa [Bool.and_eq_true, beq_iff_eq] at hthere
    · simp only [if_neg hthere]
      rw [run_bind_of (write_run hname result.text)]
      refine ⟨_, _, rfl, ?_, .inr ⟨name, place, rfl, hname, fun hrewrites htext => ?_, rfl⟩⟩
      · cases result.cursor <;> simp [hreport, apply_ite Progress.status]
      · rw [hrewrites, htext, beq_self_eq_true] at hthere
        exact hthere rfl

/-- A file that was read has a place. -/
theorem place?_of_read {name : FileName} {text : String} {next : Workspace}
    (h : (readInput Workspace.access (some name)).run w = (.ok text, next)) :
    (w.place? name).isSome = true := by
  -- a name under which something was read leads to a place
  cases hread : w.read name with
  | ok contents =>
    obtain ⟨place, hplace, -⟩ := Workspace.read_ok hread
    rw [hplace]
    rfl
  -- the read that failed gave no text
  | error fault =>
    have hrun : (readInput Workspace.access (some name)).run w =
        ((w.read name).map Text.unifyNewlines, w) := rfl
    rw [h, hread] at hrun
    cases hrun

/-- One step of a run is a visit of the input. -/
def StepVisits (job : Job) (input : Input) (w : Workspace) (p : Progress) : Prop :=
  ∃ step after, (formatInput Workspace.access job input p).run w = (step, after) ∧
    (Visit.mk input w (examine job input w).1 after).Sound job ∧
    Follows job p (examine job input w).1 step

/-- A step that puts nothing anywhere. -/
theorem stepVisits_of_not_puts {step : Step} (finding : Finding) (next : Workspace)
    (hexamine : examine job input w = (finding, next))
    (hnone : ∀ place text, ¬ (Visit.mk input w finding next).Puts job place text)
    (hrun : (formatInput Workspace.access job input p).run w = (step, next))
    (hfollows : Follows job p finding step) : StepVisits job input w p := by
  have hsound : (Visit.mk input w (examine job input w).1 (examine job input w).2).Sound job := by
    apply sound_of_not_puts
    rw [hexamine]
    exact hnone
  rw [hexamine] at hsound
  exact ⟨step, next, hrun, hexamine ▸ hsound, hexamine ▸ hfollows⟩

/-- Only a visit that formats puts a text. -/
theorem not_puts_of_ne {finding : Finding} {next : Workspace}
    (h : ∀ source result, finding ≠ .formatted source result) (place : List String)
    (text : String) : ¬ (Visit.mk input w finding next).Puts job place text := by
  rintro ⟨source, result, name, hfinding, -⟩
  exact h source result hfinding

/-- The visit to a file with an option that cannot be read ends the run with a status of two or is
told. -/
theorem stepVisits_of_option {fault : OptionFault}
    (hfile : FileOptions.resolve input job.entries = .error fault) :
    StepVisits job input w p := by
  -- the fault can be reported, or the report itself fails
  cases hreport : fault.report with
  -- it is reported, and the status says so
  | ok message =>
    apply stepVisits_of_not_puts .refused w
    · simp only [examine, hfile, hreport]
      rfl
    · exact not_puts_of_ne (by simp)
    · simp only [formatInput, hfile, hreport]
      rfl
    · exact ⟨rfl, rfl, rfl⟩
  -- its number is too long to be written
  | error passed =>
    apply stepVisits_of_not_puts .crashed w
    · simp only [examine, hfile, hreport]
      rfl
    · exact not_puts_of_ne (by simp)
    · simp only [formatInput, hfile, hreport]
      rfl
    · rfl

variable {file : FileOptions} {next : Workspace} {source report : String}

/-- So it is for a file that cannot be read. -/
theorem stepVisits_of_file {fault : FileFault}
    (hfile : FileOptions.resolve input job.entries = .ok file)
    (hread : (readInput Workspace.access input).run w = (.error fault, next)) :
    StepVisits job input w p := by
  -- a name that cannot be used ends the run
  by_cases hname : fault = .unusableName
  · subst fault
    apply stepVisits_of_not_puts .crashed next
    · simp only [examine, hfile, hread]
    · exact not_puts_of_ne (by simp)
    · simp only [formatInput, hfile]
      rw [run_bind_of hread]
      rfl
    · rfl
  · -- any other fault is reported, and the run goes no further
    have hrun : (formatInput Workspace.access job input p).run w =
        (.stop (.done (p.giveUp fault.message)), next) := by
      simp only [formatInput, hfile]
      rw [run_bind_of hread]
      cases fault <;> first | rfl | contradiction
    apply stepVisits_of_not_puts .refused next _ _ hrun
    · exact ⟨rfl, rfl, rfl⟩
    · simp only [examine, hfile, hread]
    · exact not_puts_of_ne (by simp)

/-- So it is for a text that cannot be formatted; the faults differ in what is told. -/
theorem stepVisits_of_fault {fault : FormatFault}
    (hfile : FileOptions.resolve input job.entries = .ok file)
    (hread : (readInput Workspace.access input).run w = (.ok source, next))
    (hreport : formatReporting job file source = (.error fault, report)) :
    StepVisits job input w p := by
  have hexamine : examine job input w = (judge job file source, next) := by
    simp only [examine, hfile, hread]
  have hnone : ∀ text result, judge job file source ≠ .formatted text result := by
    unfold judge
    rw [hreport]
    cases fault <;> simp
  -- the faults differ in what is told and in whether the command goes on
  obtain ⟨step, hrun, hfollows⟩ : ∃ step,
      (formatInput Workspace.access job input p).run w = (step, next) ∧
        Follows job p (judge job file source) step := by
    simp only [formatInput, hfile]
    rw [run_bind_of hread]
    simp only [judge, hreport]
    cases fault with
    | unreadable fault text => exact ⟨_, rfl, rfl, rfl, fun _ => rfl⟩
    | limit passed => exact ⟨_, rfl, rfl⟩
    | tooDeep => exact ⟨_, rfl, rfl⟩
    | _ => exact ⟨_, rfl, rfl, rfl, rfl⟩
  exact stepVisits_of_not_puts _ next hexamine (not_puts_of_ne hnone) hrun hfollows

variable {formatted : Format.Formatted}

/-- With `--check`, a formatted text is only compared. -/
theorem stepVisits_of_check (hfile : FileOptions.resolve input job.entries = .ok file)
    (hread : (readInput Workspace.access input).run w = (.ok source, next))
    (hreport : formatReporting job file source = (.ok formatted, report))
    (hcheck : job.check = true) : StepVisits job input w p := by
  have hexamine : examine job input w = (.formatted source formatted, next) := by
    simp only [examine, hfile, hread, judge, hreport]
  -- with a check nothing is put anywhere
  have hnone : ∀ place text,
      ¬ (Visit.mk input w (.formatted source formatted) next).Puts job place text := by
    rintro place text ⟨_, _, _, -, h, -⟩
    rw [hcheck] at h
    cases h
  -- the text is as it should be, and only the report is added
  by_cases htext : formatted.text = source
  · have hrun : (formatInput Workspace.access job input p).run w =
        (.next (p.report report), next) := by
      simp only [formatInput, hfile]
      rw [run_bind_of hread]
      simp only [hreport, hcheck, htext, if_true, beq_self_eq_true]
      rfl
    apply stepVisits_of_not_puts _ next hexamine hnone hrun
    refine ⟨rfl, ?_, fun _ => rfl⟩
    simp [Finding.flags, htext, Progress.report]
  · -- the text would change, which is reported and flagged
    have hrun : (formatInput Workspace.access job input p).run w =
        (.next ((p.report report).report
          (line ("would reformat " ++ nameOf input))).flag, next) := by
      simp only [formatInput, hfile]
      rw [run_bind_of hread]
      simp only [hreport, hcheck, if_true, beq_false_of_ne htext]
      rfl
    apply stepVisits_of_not_puts _ next hexamine hnone hrun
    refine ⟨rfl, ?_, fun _ => rfl⟩
    simp [Finding.flags, htext, hcheck, Progress.report, Progress.flag]

/-- Without `--check`, a formatted text goes where it belongs. -/
theorem stepVisits_of_formatted (hfile : FileOptions.resolve input job.entries = .ok file)
    (hread : (readInput Workspace.access input).run w = (.ok source, next))
    (hreport : formatReporting job file source = (.ok formatted, report))
    (hcheck : job.check = false)
    (houtput : ∀ name, job.output = some name → (w.place? name).isSome = true) :
    StepVisits job input w p := by
  have hexamine : examine job input w = (.formatted source formatted, next) := by
    simp only [examine, hfile, hread, judge, hreport]
  -- nothing was written so far
  have hfiles : next.files = w.files := by
    have := examine_files job input w
    rwa [hexamine] at this
  -- the name that is written to leads to a place
  have hplace : ∀ name, job.target input = some name → (next.place? name).isSome = true := by
    intro name hname
    rw [Workspace.place?_of_files hfiles]
    unfold Job.target at hname
    split at hname
    · -- the input is rewritten, and it was read under its name
      rw [hname] at hread
      exact place?_of_read hread
    · -- the output is another file
      exact houtput name hname
  obtain ⟨q, after, hdeliver, hq, hafter⟩ :=
    deliver_run source formatted hplace (p.report report)
  have hrun : (formatInput Workspace.access job input p).run w = (.next q, after) := by
    simp only [formatInput, hfile]
    rw [run_bind_of hread]
    simp only [hreport, hcheck, Bool.false_eq_true, if_false]
    exact hdeliver
  have hfollows : Follows job p (.formatted source formatted) (.next q) := by
    refine ⟨rfl, ?_, fun h => ?_⟩
    · rw [hq]
      simp [Finding.flags, hcheck, Progress.report]
    · rw [hcheck] at h
      cases h
  -- the text was there already, or was put to its place
  obtain ⟨rfl, hthere⟩ | ⟨name, place, htarget, hname, hdiffers, rfl⟩ := hafter
  · apply stepVisits_of_not_puts _ _ hexamine _ hrun hfollows
    rintro place text ⟨_, _, name, h, -, htarget, -, hdiffers, -⟩
    cases h
    obtain ⟨hrewrites, htext⟩ := hthere name htarget
    exact hdiffers hrewrites htext
  · have hsound := sound_of_puts (w := w) (by rw [hexamine]) hcheck htarget
      (by rw [← hname, Workspace.place?_of_files hfiles]) hdiffers
    rw [hexamine] at hsound
    exact ⟨_, _, hrun, hexamine ▸ hsound, hexamine ▸ hfollows⟩

/-- One input is one visit. -/
theorem formatInput_visits
    (houtput : ∀ name, job.output = some name → (w.place? name).isSome = true) (input : Input)
    (p : Progress) : StepVisits job input w p := by
  -- step by step, where each fault is a visit of its own
  cases hfile : FileOptions.resolve input job.entries with
  | error fault => exact stepVisits_of_option hfile
  | ok file =>
    rcases hread : (readInput Workspace.access input).run w with ⟨read, next⟩
    cases read with
    | error fault => exact stepVisits_of_file hfile hread
    | ok source =>
      rcases hreport : formatReporting job file source with ⟨result, report⟩
      cases result with
      | error fault => exact stepVisits_of_fault hfile hread hreport
      | ok formatted =>
        cases hcheck : job.check with
        | true => exact stepVisits_of_check hfile hread hreport hcheck
        | false => exact stepVisits_of_formatted hfile hread hreport hcheck houtput

end Visit

/-! ### All visits -/

section Visits

variable {job : Job} {w : Workspace} {p q : Progress}

/-- What is made of a progress by a visit and then by more visits. -/
theorem EndsFrom.cons {v : Visit} {visits : List Visit} {outcome : Outcome}
    (hv : Follows job p v.finding (.next q)) (h : EndsFrom job q visits outcome) :
    EndsFrom job p (v :: visits) outcome := by
  obtain ⟨hgo, hstatus, houtput⟩ := hv
  -- the visits behind the first one account for the outcome
  cases outcome with
  | refused => exact h
  | crashed crash =>
    obtain ⟨u, hu, hcrashed⟩ := h
    exact ⟨u, List.mem_cons_of_mem v hu, hcrashed⟩
  | done r =>
    obtain ⟨hnone, hend, hchecked⟩ := h
    -- the first visit neither crashed nor was refused, so that it adds at most a flag
    refine ⟨?_, ?_, fun hcheck => (hchecked hcheck).trans (houtput hcheck)⟩
    · intro u hu
      obtain rfl | hu := List.mem_cons.1 hu
      · intro hcrashed
        rw [hcrashed] at hgo
        cases hgo
      · exact hnone u hu
    · have hv : (v.finding matches .refused) = false := by
        cases hfinding : v.finding with
        | refused =>
          rw [hfinding] at hgo
          cases hgo
        | _ => rfl
      rw [hend, hstatus, List.any_cons, List.any_cons, hv, Bool.false_or]
      cases v.finding.flags job <;> simp

/-- A run over inputs is the visits of them. -/
theorem formatInputs_visits
    (houtput : ∀ name, job.output = some name → (w.place? name).isSome = true)
    (inputs : List Input) (p : Progress) :
    ∃ outcome after visits, (formatInputs Workspace.access job inputs p).run w = (outcome, after) ∧
      Visits job w inputs visits after ∧ EndsFrom job p visits outcome := by
  -- induction on the inputs
  induction inputs generalizing w p with
  | nil => exact ⟨.done p, w, [], rfl, .done, by simp, by simp, fun _ => rfl⟩
  | cons input rest ih =>
    obtain ⟨step, after, hrun, hsound, hfollows⟩ := formatInput_visits houtput input p
    rw [formatInputs]
    cases step with
    | next q =>
      -- a visit leaves the names, so that the output still leads somewhere
      have houtputNext : ∀ name, job.output = some name → (after.place? name).isSome = true := by
        intro name hname
        rw [hsound.leads]
        exact houtput name hname
      obtain ⟨outcome, last, visits, hrest, hvisits, hends⟩ := ih houtputNext q
      refine ⟨outcome, last, _, ?_, .next hsound hfollows.1 hvisits, hends.cons hfollows⟩
      rw [run_bind_of hrun]
      exact hrest
    -- the run ends with this input
    | stop outcome =>
      refine ⟨outcome, after, _, ?_, .stop hsound ?_, ?_⟩
      · rw [run_bind_of hrun]
        rfl
      · -- the outcome tells what was found
        cases outcome with
        | done q => rw [hfollows.1]; rfl
        | crashed crash => rw [hfollows]; rfl
        | refused => cases hfollows
      · cases outcome with
        | done q =>
          obtain ⟨hfinding, hstatus, hunchanged⟩ := hfollows
          refine ⟨?_, ?_, fun _ => hunchanged⟩
          · simp [hfinding]
          · simp [hfinding, hstatus]
        | crashed crash => exact ⟨_, List.mem_singleton_self _, hfollows⟩
        | refused => cases hfollows

/-- After a visit, only the place of what is put there has changed. -/
theorem Visit.Sound.frame {v : Visit} (h : v.Sound job) {place : List String}
    (hplace : v.after.contents? place ≠ v.before.contents? place) :
    job.check = false ∧
      ∃ name, job.target v.input = some name ∧ v.before.place? name = some place := by
  by_cases hputs : ∃ text, v.Puts job place text
  · obtain ⟨text, source, result, name, -, hcheck, htarget, hname, -⟩ := hputs
    exact ⟨hcheck, name, htarget, hname⟩
  · exact absurd (h.kept place (not_exists.1 hputs)) hplace

/-- After all visits, only the places have changed that lead to where inputs go, and nothing if all is
only checked. -/
theorem Visits.frame {inputs : List Input} {visits : List Visit} {after : Workspace}
    (h : Visits job w inputs visits after) :
    (∀ place, after.contents? place ≠ w.contents? place → job.check = false ∧
      ∃ input ∈ inputs, ∃ name, job.target input = some name ∧ w.place? name = some place) ∧
    (job.check = true → after.files = w.files) := by
  -- a sound visit with a check leaves the files
  have huntouched : ∀ v : Visit, v.Sound job → job.check = true →
      v.after.files = v.before.files := by
    intro v hv hcheck
    apply hv.untouched
    rintro place text ⟨_, _, _, -, h, -⟩
    rw [hcheck] at h
    cases h
  -- induction on the visits
  induction h with
  | done => exact ⟨fun place h => absurd rfl h, fun _ => rfl⟩
  | @stop v rest hv hstop =>
    refine ⟨fun place hplace => ?_, huntouched _ hv⟩
    obtain ⟨hcheck, name, htarget, hname⟩ := hv.frame hplace
    exact ⟨hcheck, v.input, List.mem_cons_self, name, htarget, hname⟩
  | @next v rest visits after hv hgo hrest ih =>
    refine ⟨fun place hplace => ?_, fun hcheck => (ih.2 hcheck).trans (huntouched v hv hcheck)⟩
    -- the first visit changed the place, or one behind it did
    by_cases hfirst : v.after.contents? place = v.before.contents? place
    · rw [← hfirst] at hplace
      obtain ⟨hcheck, input, hinput, name, htarget, hname⟩ := ih.1 place hplace
      rw [hv.leads] at hname
      exact ⟨hcheck, input, List.mem_cons_of_mem _ hinput, name, htarget, hname⟩
    · obtain ⟨hcheck, name, htarget, hname⟩ := hv.frame hfirst
      exact ⟨hcheck, v.input, List.mem_cons_self, name, htarget, hname⟩

end Visits

/-! ### The run -/

/-- How a run ends after its visits: with an exit code and a text on standard output, or without, if
something cannot be worked out. -/
def Ends (job : Job) (visits : List Visit) : Outcome → Prop
  | .done q => (∀ v ∈ visits, v.finding ≠ .crashed) ∧
      q.status = (if visits.any (·.finding matches .refused) then 2
        else if visits.any (·.finding.flags job) then 1 else 0) ∧
      (job.check = true → q.output = "")
  | .crashed _ => ∃ v ∈ visits, v.finding = .crashed
  | .refused _ => False

/-- What a run of a job does from one workspace to another.  It visits the inputs in order and ends as
they say; whatever has changed is where an input goes to, and with `--check` nothing has. -/
structure Accounts (job : Job) (w : Workspace) (outcome : Outcome) (after : Workspace) : Prop where
  visits : ∃ visits, Visits job w job.inputs visits after ∧ Ends job visits outcome
  frame : ∀ place, after.contents? place ≠ w.contents? place → job.check = false ∧
    ∃ input ∈ job.inputs, ∃ name, job.target input = some name ∧ w.place? name = some place
  checked : job.check = true → after.files = w.files

/-- What holds of a run from its start holds of the whole. -/
theorem EndsFrom.ends {job : Job} {visits : List Visit} {outcome : Outcome}
    (h : EndsFrom job {} visits outcome) : Ends job visits outcome := by
  cases outcome with
  | done q => simpa [EndsFrom, Ends] using h
  | crashed crash => exact h
  | refused refusal => exact h

/-- The output of the job is the name given for it, if that is not empty. -/
theorem jobOf_output {a : Arguments} {config : Option Toml.Table} {job : Job}
    (h : jobOf a config = .ok job) : job.output = (nonEmpty a.output).map FileName.ofString := by
  -- the job has its output from the arguments
  cases config with
  | none => cases h
  | some table =>
    unfold jobOf at h
    simp only [bind, Except.bind, pure, Except.pure, throw, throwThe, MonadExceptOf.throw] at h
    split at h
    · cases h
    · split at h
      · cases h
      · cases h
        rfl

/-- Reading the configuration changes nothing, and breaks off only at a limit. -/
theorem readConfig_run {name : FileName}
    (hconfig : ∀ fault, w.read name = .error fault → fault.isAbsence = true) :
    ∃ config, (readConfig Workspace.access name).run w = (config, w) ∧
      ∀ crash, config = .error crash → ∃ passed, crash = .limit passed := by
  -- the read leaves the workspace
  have hread : (Workspace.access.read name).run w = (w.read name, w) := rfl
  rw [readConfig, run_bind_of hread]
  cases htext : w.read name with
  -- without a file the table is empty
  | error fault =>
    refine ⟨.ok (some []), ?_, by simp⟩
    simp only [hconfig fault htext, if_true]
    rfl
  | ok text =>
    simp only
    -- with one it is the table that is read, if it can be read
    cases Toml.read text with
    | ok table => exact ⟨.ok (some table), rfl, by simp⟩
    | error fault =>
      cases fault with
      | malformed => exact ⟨.ok none, rfl, by simp⟩
      | limit passed => exact ⟨.error (.limit passed), rfl, fun _ h => ⟨passed, by cases h; rfl⟩⟩

/-- A run touches only what it should, if its configuration can be read or is missing, and the output
file can be written. -/
theorem run_touches_only {arguments : List String} {a : Arguments} {w : Workspace}
    (ha : readArguments arguments = .ok a)
    (hconfig : ∀ fault, w.read (configFile a) = .error fault → fault.isAbsence = true)
    (houtput : ∀ name, nonEmpty a.output = some name → (w.place? (.ofString name)).isSome = true) :
    ∃ outcome after, (run Workspace.access arguments).run w = (outcome, after) ∧
      match ((readConfig Workspace.access (configFile a)).run w).1 with
      | .error crash => outcome = .crashed crash ∧ (∃ passed, crash = .limit passed) ∧ after = w
      | .ok config =>
        match jobOf a config with
        | .error _ => (∃ p, outcome = .done p ∧ p.status = 2 ∧ p.output = "") ∧ after = w
        | .ok job => Accounts job w outcome after := by
  obtain ⟨config, hread, hlimit⟩ := readConfig_run hconfig
  rw [run, ha]
  dsimp only
  rw [run_bind_of hread, hread]
  -- the settings are read, or reading them ends the run
  cases config with
  | error crash => exact ⟨_, w, rfl, rfl, hlimit crash rfl, rfl⟩
  | ok config =>
    dsimp only
    -- the job is made of the arguments and the settings
    cases hjob : jobOf a config with
    | error fault => exact ⟨_, w, rfl, ⟨_, rfl, rfl, rfl⟩, rfl⟩
    | ok job =>
      -- the output is a name that leads somewhere
      have hplace : ∀ name, job.output = some name → (w.place? name).isSome = true := by
        intro name hname
        rw [jobOf_output hjob] at hname
        obtain ⟨text, htext, rfl⟩ := Option.map_eq_some_iff.1 hname
        exact houtput text htext
      obtain ⟨outcome, after, visits, hrun, hvisits, hends⟩ :=
        formatInputs_visits hplace job.inputs {}
      exact ⟨outcome, after, hrun, ⟨visits, hvisits, hends.ends⟩, hvisits.frame.1, hvisits.frame.2⟩

/-- Two files that are rewritten, one of which is formatted already. -/
theorem run_touches_only_rewritten :
    let w : Workspace := { files := [(["a.js"], "x=1"), (["b.js"], "y = 2;\n")] }
    ∃ job outcome after, (run Workspace.access ["a.js", "b.js", "--write"]).run w = (outcome, after) ∧
      job.inputs = [some (.ofString "a.js"), some (.ofString "b.js")] ∧ job.write = true ∧
      Accounts job w outcome after := by
  intro w
  -- the arguments as they are read, and the file of settings they name
  have ha : readArguments ["a.js", "b.js", "--write"] =
      .ok { inputs := ["a.js", "b.js"], write := true } := by with_unfolding_all rfl
  have hname : configFile { inputs := ["a.js", "b.js"], write := true } = ⟨"", ["vxfmt.toml"]⟩ := by
    decide +kernel
  have hread : w.read ⟨"", ["vxfmt.toml"]⟩ = .error (.notFound "vxfmt.toml") := rfl
  have hconfig : ((readConfig Workspace.access ⟨"", ["vxfmt.toml"]⟩).run w).1 = .ok (some []) := rfl
  -- no settings are found, and no output is named
  obtain ⟨outcome, after, hrun, hjob⟩ := run_touches_only (w := w) ha
    (by rw [hname, hread]; rintro fault ⟨⟩; rfl) (by rintro name ⟨⟩)
  rw [hname, hconfig] at hjob
  exact ⟨_, outcome, after, hrun, rfl, rfl, hjob⟩

/-- A run that reads its only input and yet has no exit code, because a line cannot be indented. -/
theorem run_without_status :
    let w : Workspace := { files := [(["a.js"], "if (a) \x7bb\x7d"),
      (["vxfmt.toml"], "[format]\ntab_width = 9223372036854775808\n")] }
    ∃ a text, readArguments ["a.js", "--check"] = .ok a ∧ a.output = none ∧
      w.read (configFile a) = .ok text ∧
      ((run Workspace.access ["a.js", "--check"]).run w).1 = .crashed (.limit .length) := by
  intro w
  -- the arguments as they are read
  have ha : readArguments ["a.js", "--check"] = .ok { inputs := ["a.js"], check := true } := by
    with_unfolding_all rfl
  have hname : configFile { inputs := ["a.js"], check := true } = ⟨"", ["vxfmt.toml"]⟩ := by
    decide +kernel
  -- the settings have a number beyond what the layout can count
  have hread : w.read ⟨"", ["vxfmt.toml"]⟩ =
      .ok "[format]\ntab_width = 9223372036854775808\n" := rfl
  refine ⟨_, "[format]\ntab_width = 9223372036854775808\n", ha, rfl, ?_, by decide +kernel⟩
  rw [hname]
  exact hread

end Reflow.CommandLine
