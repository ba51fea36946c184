import Reflow.Format.Text
import Reflow.Proofs.Course

/-!
# Where the cursor is reported

The cursor is looked up in the tree of the text that is read, and a mark goes in front of its node.
It is reported as far behind the mark as it was behind the start of the node, but not behind the end
of the text that is laid out.  For a fragment that is the text in its wrapper, and the wrapper is
taken off without the cursor, so that it may lie behind the end of what is handed out.

## Key results

- `movedCursor_within`: a cursor that moves with its node stays in the text
- `formatSource_cursor`: where the cursor is reported
- `fragment_cursor_outside`: the cursor of a fragment lies behind its end
-/

namespace Reflow

variable {options : Options} {fragment : Bool} {text : String} {offset : Int}

/-- The innermost node at an offset does not start behind it. -/
theorem Node.start_innermost_le {root : Node} (h : (root.start : Int) ≤ offset) :
    ((root.innermost offset).start : Int) ≤ offset := by
  fun_induction Node.innermost offset root with
  | case1 n child hfind ih =>
    apply ih
    have hholds := List.find?_some hfind
    simp only [Node.holds, Bool.and_eq_true, decide_eq_true_eq] at hholds
    exact hholds.1
  | case2 n hnone => exact h

/-- The node at an offset does not start behind it. -/
theorem Node.start_atOffset?_le {root node : Node} (h : root.atOffset? offset = some node) :
    (node.start : Int) ≤ offset := by
  unfold atOffset? at h
  split at h
  · rename_i hin
    simp only [Bool.and_eq_true, decide_eq_true_eq] at hin
    rw [← Option.some.inj h]
    exact start_innermost_le hin.1
  · cases h

namespace Format

/-- A cursor is reported, and it is a place in the text. -/
def Formatted.HasCursor (f : Formatted) : Prop :=
  ∃ cursor, f.cursor = some cursor ∧ 0 ≤ cursor ∧ cursor ≤ f.text.length

/-- A cursor that moves with its node stays in the text, if the node does not start behind it. -/
theorem movedCursor_within {mark : Option Nat} {node : Option Node} {length : Nat}
    (hoffset : 0 ≤ offset) (hnode : ∀ n ∈ node, (n.start : Int) ≤ offset) :
    0 ≤ movedCursor offset mark node length ∧ movedCursor offset mark node length ≤ length := by
  unfold movedCursor
  split
  · rename_i mark n
    have hbehind := hnode n rfl
    omega
  · omega

/-- A stylesheet is formatted with a cursor. -/
theorem formatStylesheet_hasCursor (hoffset : 0 ≤ offset) (notes : List Note) :
    (Course.free (List Note)).Leads (formatStylesheet options (some offset) text) notes
      fun formatted _ => formatted.HasCursor := by
  apply Course.free_bind
  refine fun doc notes => Course.free_bind fun rendered notes => ?_
  have hwithin : 0 ≤ min offset rendered.text.length ∧
      min offset rendered.text.length ≤ rendered.text.length := by omega
  exact .pure trivial ⟨_, rfl, hwithin⟩

/-- A script is formatted with a cursor. -/
theorem formatTree_hasCursor (hoffset : 0 ≤ offset) (notes : List Note) :
    (Course.free (List Note)).Leads (formatTree options fragment (some offset) text) notes
      fun formatted _ => formatted.HasCursor := by
  -- only what was parsed and what it was laid out to matter, whichever document lies in between
  apply Course.free_bind
  refine fun parsed notes => Course.free_bind fun _ notes => ?_
  refine Course.free_bind fun doc notes => Course.free_bind fun rendered notes => ?_
  refine Course.free_bind fun _ notes => .pure trivial ?_
  have hnode : ∀ n ∈ parsed.root.atOffset? offset, (n.start : Int) ≤ offset := fun n hn =>
    Node.start_atOffset?_le hn
  exact ⟨_, rfl, movedCursor_within hoffset hnode⟩

/-- The cursor is a place in the text that is laid out. -/
theorem formatText_hasCursor (hoffset : 0 ≤ offset) {notes notes' : List Note}
    {formatted : Formatted}
    (h : formatText options fragment (some offset) text notes = (.ok formatted, notes')) :
    formatted.HasCursor := by
  have hleads : (Course.free (List Note)).Leads
      (formatText options fragment (some offset) text) notes
      fun formatted _ => formatted.HasCursor :=
    .ite (fun _ => formatStylesheet_hasCursor hoffset notes)
      fun _ => formatTree_hasCursor hoffset notes
  exact (hleads.ok h).2

/-- What is formatted is the text, or for a fragment the text in its wrapper.  The cursor is a place
in what that is laid out to, from which the wrapper of a fragment is taken off. -/
theorem formatSource_cursor {formatted : Formatted} (hoffset : 0 ≤ offset)
    (h : (formatSource options fragment (some offset) text).result = .ok formatted) :
    (fragment = false → formatted.HasCursor) ∧
    (fragment = true → ∃ laid : Formatted, laid.HasCursor ∧
      (formatText options true (some offset) (Fragment.wrap text)).result = .ok laid ∧
      formatted = { laid with text := Fragment.unwrap laid.text }) := by
  -- a fragment is formatted in its wrapper, and the wrapper taken off
  cases fragment with
  | false =>
    refine ⟨fun _ => ?_, nofun⟩
    have hrun : (formatText options false (some offset) text).result = .ok formatted := h
    exact formatText_hasCursor hoffset (Prod.ext hrun rfl)
  | true =>
    refine ⟨nofun, fun _ => ?_⟩
    -- the run, as the run in the wrapper and what is made of its text
    change Prod.fst ((formatText options true (some offset) (Fragment.wrap text) >>= fun laid =>
      pure { laid with text := Fragment.unwrap laid.text } : Run Formatted) []) = _ at h
    rw [Course.bind_apply] at h
    cases hrun : formatText options true (some offset) (Fragment.wrap text) [] with
    | mk r notes =>
      rw [hrun] at h
      cases r with
      -- without a text in the wrapper there is none outside of it
      | error fault => cases h
      | ok laid =>
        exact ⟨laid, formatText_hasCursor hoffset hrun, congrArg Prod.fst hrun,
          (Except.ok.inj h).symm⟩

/-- A result that is some value is that value. -/
theorem eq_ok_of_toOption {ε α : Type} {r : Except ε α} {a : α} (h : r.toOption = some a) :
    r = .ok a := by
  cases r with
  | error e => cases h
  | ok b => exact congrArg Except.ok (Option.some.inj h)

/-- A cursor behind an element, which is made a statement: it does not move behind the semicolon that
is added. -/
theorem formatSource_cursor_element :
    (0 : Int) ≤ 4 ∧
      (formatSource { parser := .script } false (some 4) "<a/>").result = .ok ⟨"<a />;\n", some 4⟩ ∧
      Formatted.HasCursor ⟨"<a />;\n", some 4⟩ := by
  have hoffset : (0 : Int) ≤ 4 := by decide
  have hrun : (formatSource { parser := .script } false (some 4) "<a/>").result =
      .ok ⟨"<a />;\n", some 4⟩ := eq_ok_of_toOption (by decide +kernel)
  exact ⟨hoffset, hrun, (formatSource_cursor hoffset hrun).1 rfl⟩

/-- The cursor of a fragment may lie behind the end of its text: it is counted in the text in its
wrapper, which is longer. -/
theorem fragment_cursor_outside :
    ¬∀ (options : Options) (fragment : Bool) (text : String) (offset : Int)
        (formatted : Formatted), 0 ≤ offset → offset ≤ text.length →
        (formatSource options fragment (some offset) text).result = .ok formatted →
      formatted.HasCursor := by
  intro h
  have hrun : (formatSource {} true (some 8) "<a/><b/>").result =
      .ok ⟨"<a />\n<b />\n", some 14⟩ := eq_ok_of_toOption (by decide +kernel)
  obtain ⟨cursor, hcursor, -, hle⟩ := h {} true "<a/><b/>" 8 _ (by decide) (by decide) hrun
  rw [← Option.some.inj hcursor] at hle
  exact absurd hle (by decide)

end Format

end Reflow
