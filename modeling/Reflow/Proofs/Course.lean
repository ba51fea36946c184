/-!
# Steps that keep a state in order

The scanner and the grammar are written as steps over a state that may fail.  A `Course` says how the
state may change: `kept` while steps succeed, `left` when one fails.  `Leads` says that a step keeps
to a course and that its result has a property; there is one rule for each way to build a step.

`Concludes` says of a step how it ends, with a result or with a fault, whatever happens to the state on
the way.  It has the same rules.

## Key results

- `Course.Leads.bind`, `Course.Leads.ite`: steps that keep to a course, put together
- `Concludes.bind`, `Concludes.ite`: the same for how steps end
-/

namespace Reflow

/-- How a state may change on the way. -/
structure Course (σ : Type) where
  /-- Relates the states before and after a step that succeeds. -/
  kept : σ → σ → Prop
  /-- Relates the state before a step that fails to the state in which it fails. -/
  left : σ → σ → Prop
  kept_trans : ∀ {a b c : σ}, kept a b → kept b c → kept a c
  left_of_kept : ∀ {a b c : σ}, kept a b → left b c → left a c

namespace Course

variable {σ ε α β : Type} {C : Course σ} {s : σ}

/-- The step keeps to the course from `s` on, and if it succeeds, the result and the state have the
property `Q`. -/
def Leads (C : Course σ) (x : ExceptT ε (StateM σ) α) (s : σ) (Q : α → σ → Prop) : Prop :=
  match x s with
  | (.ok a, s') => C.kept s s' ∧ Q a s'
  | (.error _, s') => C.left s s'

/-- A second step runs from where the first one left the state, unless the first one failed. -/
theorem bind_apply (x : ExceptT ε (StateM σ) α) (f : α → ExceptT ε (StateM σ) β) (s : σ) :
    (x >>= f) s = match x s with
      | (.ok a, s') => f a s'
      | (.error e, s') => (.error e, s') := by
  simp only [bind, ExceptT.bind, ExceptT.mk, StateT.bind]
  rcases x s with ⟨_ | _, _⟩ <;> rfl

namespace Leads

variable {x : ExceptT ε (StateM σ) α} {f : α → ExceptT ε (StateM σ) β} {P : α → σ → Prop}
  {Q : β → σ → Prop}

/-- A course is known step by step: here for a result that is at hand. -/
theorem of_ok {a : α} {s' : σ} (h : x s = (.ok a, s')) (hs : C.kept s s') (ha : P a s') :
    C.Leads x s P := by
  rw [Leads, h]
  exact ⟨hs, ha⟩

/-- A fault that is at hand has left the state where it may be left. -/
theorem of_error {e : ε} {s' : σ} (h : x s = (.error e, s')) (hs : C.left s s') :
    C.Leads x s P := by
  rw [Leads, h]
  exact hs

/-- What holds of a result, once there is one. -/
theorem ok (h : C.Leads x s P) {a : α} {s' : σ} (hx : x s = (.ok a, s')) :
    C.kept s s' ∧ P a s' := by
  rwa [Leads, hx] at h

/-- What holds of the state, once there is a fault. -/
theorem error (h : C.Leads x s P) {e : ε} {s' : σ} (hx : x s = (.error e, s')) : C.left s s' := by
  rwa [Leads, hx] at h

/-- A second step starts where the first one has led. -/
protected theorem bind (hx : C.Leads x s P)
    (hf : ∀ a s', C.kept s s' → P a s' → C.Leads (f a) s' Q) : C.Leads (x >>= f) s Q := by
  rcases h : x s with ⟨e | a, s'⟩
  · exact of_error (by rw [bind_apply, h]) (hx.error h)
  · obtain ⟨hs, ha⟩ := hx.ok h
    have hy := hf a s' hs ha
    rcases h' : f a s' with ⟨e | b, s''⟩
    · exact of_error (by rw [bind_apply, h]; exact h') (C.left_of_kept hs (hy.error h'))
    · obtain ⟨hs', hb⟩ := hy.ok h'
      exact of_ok (by rw [bind_apply, h]; exact h') (C.kept_trans hs hs') hb

/-- To give a value back leads nowhere else. -/
protected theorem pure {a : α} (hs : C.kept s s) (ha : P a s) :
    C.Leads (ε := ε) (pure a) s P :=
  of_ok rfl hs ha

/-- The result may be changed behind the step. -/
protected theorem map {g : α → β} (hx : C.Leads x s fun a s' => Q (g a) s') :
    C.Leads (g <$> x) s Q := by
  have h : (g <$> x) = x >>= fun a => pure (g a) := (bind_pure_comp g x).symm
  rw [h]
  rcases h : x s with ⟨e | a, s'⟩
  · exact of_error (by rw [bind_apply, h]) (hx.error h)
  · exact of_ok (by rw [bind_apply, h]; rfl) (hx.ok h).1 (hx.ok h).2

/-- The result may be dropped behind the step. -/
protected theorem discard {Q : Unit → σ → Prop} (hx : C.Leads x s fun _ s' => Q () s') :
    C.Leads (discard x) s Q :=
  hx.map

/-- Of what a step leads to, less may be claimed. -/
theorem mono {P' : α → σ → Prop} (hx : C.Leads x s P) (h : ∀ a s', C.kept s s' → P a s' → P' a s') :
    C.Leads x s P' := by
  rcases hr : x s with ⟨e | a, s'⟩
  · exact of_error hr (hx.error hr)
  · exact of_ok hr (hx.ok hr).1 (h a s' (hx.ok hr).1 (hx.ok hr).2)

/-- What is known of the result goes with the run that gave it. -/
theorem with_run (hx : C.Leads x s P) : C.Leads x s fun a s' => x s = (.ok a, s') ∧ P a s' := by
  rcases hr : x s with ⟨e | a, s'⟩
  · exact of_error hr (hx.error hr)
  · exact of_ok hr (hx.ok hr).1 ⟨rfl, (hx.ok hr).2⟩

/-- A fault leaves the state where it is. -/
protected theorem throw {e : ε} (hs : C.left s s) :
    C.Leads (throw e : ExceptT ε (StateM σ) α) s P :=
  of_error rfl hs

/-- A step that goes on as another one from a state that all further states come after as well. -/
theorem resume {y : ExceptT ε (StateM σ) α} (s' : σ) (h : x s = y s')
    (hkept : ∀ t, C.kept s' t → C.kept s t) (hleft : ∀ t, C.left s' t → C.left s t)
    (hy : C.Leads y s' P) : C.Leads x s P := by
  rcases hr : y s' with ⟨e | a, t⟩
  · exact of_error (h.trans hr) (hleft t (hy.error hr))
  · exact of_ok (h.trans hr) (hkept t (hy.ok hr).1) (hy.ok hr).2

/-- A step that goes on as another one from a later state. -/
theorem jump {y : ExceptT ε (StateM σ) α} (s' : σ) (h : x s = y s') (hs : C.kept s s')
    (hy : C.Leads y s' P) : C.Leads x s P :=
  resume s' h (fun _ => C.kept_trans hs) (fun _ => C.left_of_kept hs) hy

/-- A step that only looks at the state. -/
theorem look (a : α) (h : x s = (.ok a, s)) (hf : C.Leads (f a) s Q) : C.Leads (x >>= f) s Q := by
  have hx : (x >>= f) s = f a s := by rw [bind_apply, h]
  rw [Leads, hx]
  exact hf

/-- To look at the state is no step. -/
theorem get_bind {f : σ → ExceptT ε (StateM σ) β} (h : C.Leads (f s) s Q) :
    C.Leads (get >>= f) s Q := h

/-- The two branches of a choice. -/
protected theorem ite {c : Prop} [Decidable c] {y : ExceptT ε (StateM σ) α}
    (hx : c → C.Leads x s P) (hy : ¬c → C.Leads y s P) : C.Leads (if c then x else y) s P := by
  split
  · exact hx (by assumption)
  · exact hy (by assumption)

end Leads

/-- The course that allows every change. -/
def free (σ : Type) : Course σ where
  kept _ _ := True
  left _ _ := True
  kept_trans _ _ := trivial
  left_of_kept _ _ := trivial

/-- What goes on after any step. -/
theorem free_bind {x : ExceptT ε (StateM σ) α} {f : α → ExceptT ε (StateM σ) β}
    {Q : β → σ → Prop} (hf : ∀ a s', (free σ).Leads (f a) s' Q) : (free σ).Leads (x >>= f) s Q := by
  have hx : (free σ).Leads x s fun _ _ => True := by
    rcases h : x s with ⟨_ | _, _⟩
    · exact .of_error h trivial
    · exact .of_ok h trivial trivial
  exact hx.bind fun a s' _ _ => hf a s'

end Course

/-! ## How a step ends -/

variable {σ ε α β : Type} {s : σ}

/-- The step ends with a result and a state that have the property `Q`, or with a fault and a state
that have the property `E`. -/
def Concludes (x : ExceptT ε (StateM σ) α) (s : σ) (Q : α → σ → Prop) (E : ε → σ → Prop) : Prop :=
  match x s with
  | (.ok a, s') => Q a s'
  | (.error e, s') => E e s'

namespace Concludes

variable {x : ExceptT ε (StateM σ) α} {f : α → ExceptT ε (StateM σ) β} {P : α → σ → Prop}
  {Q : β → σ → Prop} {E E' : ε → σ → Prop}

/-- A result that is at hand. -/
theorem of_ok {a : α} {s' : σ} (h : x s = (.ok a, s')) (ha : P a s') : Concludes x s P E := by
  rw [Concludes, h]
  exact ha

/-- A fault that is at hand. -/
theorem of_error {e : ε} {s' : σ} (h : x s = (.error e, s')) (he : E e s') : Concludes x s P E := by
  rw [Concludes, h]
  exact he

/-- What holds of a result, once there is one. -/
theorem ok (h : Concludes x s P E) {a : α} {s' : σ} (hx : x s = (.ok a, s')) : P a s' := by
  rwa [Concludes, hx] at h

/-- What holds of a fault, once there is one. -/
theorem error (h : Concludes x s P E) {e : ε} {s' : σ} (hx : x s = (.error e, s')) : E e s' := by
  rwa [Concludes, hx] at h

/-- A second step concludes from what is known behind the first one. -/
protected theorem bind (hx : Concludes x s P E) (hf : ∀ a s', P a s' → Concludes (f a) s' Q E) :
    Concludes (x >>= f) s Q E := by
  cases h : x s with
  | mk r s' =>
    cases r with
    | error e => exact of_error (by rw [Course.bind_apply, h]) (hx.error h)
    | ok a =>
      have hy := hf a s' (hx.ok h)
      rw [Concludes, Course.bind_apply, h]
      exact hy

/-- Less may be concluded, of results and of faults. -/
theorem mono {P' : α → σ → Prop} (hx : Concludes x s P E) (hP : ∀ a s', P a s' → P' a s')
    (hE : ∀ e s', E e s' → E' e s') : Concludes x s P' E' := by
  cases h : x s with
  | mk r s' =>
    cases r with
    | error e => exact of_error h (hE e s' (hx.error h))
    | ok a => exact of_ok h (hP a s' (hx.ok h))

/-- To look at the state is no step. -/
theorem get_bind {f : σ → ExceptT ε (StateM σ) β} (h : Concludes (f s) s Q E) :
    Concludes (get >>= f) s Q E :=
  h

/-- Both branches conclude the same, each under its condition. -/
protected theorem ite {c : Prop} [Decidable c] {y : ExceptT ε (StateM σ) α}
    (hx : c → Concludes x s P E) (hy : ¬c → Concludes y s P E) :
    Concludes (if c then x else y) s P E := by
  split
  · exact hx (by assumption)
  · exact hy (by assumption)

end Concludes

end Reflow
