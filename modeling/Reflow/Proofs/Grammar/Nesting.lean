import Reflow.Proofs.Grammar.Parse

/-!
# Spans are nested

In a parsed tree the span of a node lies in the source, the spans of its children lie in it, and the
children lie one behind the other.  Two constructions keep to less: a shorthand property with a default
holds its key again in the default, and a class behind `export default` starts behind that word, while
the decorators in front of the export are its children.

## Key results

- `parse_nested`: what is known of the spans in a parsed tree
- `class_misses_decorator`: a class need not take in its decorators
-/

namespace Reflow

namespace Node

/-- The span of a node lies in that of another. -/
structure Within (m n : Node) : Prop where
  start : n.start ≤ m.start
  stop : m.stop ≤ n.stop

/-- What lies in a node lies in all that the node lies in. -/
theorem Within.trans {a b c : Node} (h : a.Within b) (h' : b.Within c) : a.Within c :=
  ⟨Nat.le_trans h'.start h.start, Nat.le_trans h.stop h'.stop⟩

/-- The row of a shorthand property with a default is the default alone. -/
theorem Defaults.row {n key value : Node} (h : n.Defaults key value) : n.row = [value] := by
  obtain ⟨computed, right, hform, -⟩ := h
  rw [Node.row, hform]

/-- A property with a default has one key. -/
theorem Defaults.key_unique {n key value key' value' : Node} (h : n.Defaults key value)
    (h' : n.Defaults key' value') : key = key' := by
  obtain ⟨computed, right, hform, -⟩ := h
  obtain ⟨computed', right', hform', -⟩ := h'
  rw [hform] at hform'
  exact (Form.objectProperty.inj hform').1

/-- The decorator stands in front of the class that it belongs to, which is exported by default; the
export takes it in. -/
structure EarlyDecorator (root m n : Node) : Prop where
  decorator : m ∈ n.form.decorators
  before : m.stop ≤ n.start
  exported : ∃ e, root.Reaches e ∧ e.form = .exportDefaultDeclaration n ∧ m.Within e

/-- The span of a node is one, the children lie in it, and no two of them overlap. -/
structure Nested (root n : Node) : Prop where
  start_le : n.start ≤ n.stop
  within : ∀ m ∈ n.children, m.Within n ∨ EarlyDecorator root m n
  apart : ∀ a ∈ n.children, ∀ b ∈ n.children, a ≠ b →
    a.stop ≤ b.start ∨ b.stop ≤ a.start ∨ n.Defaults a b ∨ n.Defaults b a

namespace WellBuilt

variable {root m n : Node}

/-- What stands in the row of a node ends in it. -/
theorem stop_le_of_mem_row (h : root.WellBuilt) (hn : n ∈ root.nodes) (hm : m ∈ n.row) :
    m.start ≤ m.stop ∧ m.stop ≤ n.stop := by
  obtain ⟨p, horder⟩ := (h.sound n hn).behind
  exact (horder.of_mem hm).2

/-- All spans of a well built tree end in it. -/
theorem span_le (h : root.WellBuilt) (hn : root.Reaches n) :
    n.start ≤ n.stop ∧ n.stop ≤ root.stop := by
  induction hn with
  | here => exact ⟨h.start_le, Nat.le_refl _⟩
  | child hn hm ih =>
    obtain hm | ⟨v, hv, hm, -⟩ := (h.sound_of_reaches hn).mem_row_of_child hm
    · have := h.stop_le_of_mem_row (h.mem_nodes hn) hm
      omega
    · -- the key of a shorthand property lies in its default
      have := h.stop_le_of_mem_row (h.mem_nodes hn) hv
      have := h.stop_le_of_mem_row (nodes_trans (h.mem_nodes hn) (row_subset_nodes hv)) hm
      omega

/-- A node takes in its row, or it is exported by default and takes in all but the decorators before
it. -/
theorem encloses_or (h : root.WellBuilt) (hn : root.Reaches n) :
    n.Encloses ∨ n.EnclosesBehind ∧ ∃ e, root.Reaches e ∧ n ∈ e.row ∧
      e.form = .exportDefaultDeclaration n ∧ ∀ d ∈ n.form.decorators, e.start ≤ d.start := by
  -- a node is the root or a child, and a child is in the row or named by a default
  cases hn with
  | here => exact .inl h.encloses
  | child he hn =>
    rename_i e
    have hsound := h.sound_of_reaches he
    obtain hn | ⟨v, hv, hn, computed, right, -, hform⟩ := hsound.mem_row_of_child hn
    · -- in the row it starts behind the node around it, unless an export puts decorators before it
      obtain hencloses | ⟨hform, hbehind, hdecorators⟩ := hsound.encloses n hn
      · exact .inl hencloses
      · exact .inr ⟨hbehind, e, he, hn, hform, hdecorators⟩
    · -- a default holds the name that the property has for a key
      have hvsound := h.sound v (nodes_trans (h.mem_nodes he) (row_subset_nodes hv))
      obtain hencloses | ⟨hexport, -⟩ := hvsound.encloses n hn
      · exact .inl hencloses
      · exact absurd (hform.symm.trans hexport) nofun

/-- What stands in the row of a node lies in the node, but for decorators that stand before it. -/
theorem within_of_mem_row (h : root.WellBuilt) (hn : root.Reaches n) (hm : m ∈ n.row) :
    m.Within n ∨ EarlyDecorator root m n := by
  obtain ⟨hle, hstop⟩ := h.stop_le_of_mem_row (h.mem_nodes hn) hm
  obtain hencloses | ⟨hbehind, e, he, hne, hform, hdecorators⟩ := h.encloses_or hn
  · exact .inl ⟨hencloses m hm, hstop⟩
  obtain hstart | ⟨hdecorator, hbefore⟩ := hbehind m hm
  · exact .inl ⟨hstart, hstop⟩
  · have := h.stop_le_of_mem_row (h.mem_nodes he) hne
    exact .inr ⟨hdecorator, hbefore, e, he, hform, hdecorators m hdecorator, by omega⟩

/-- The key of a shorthand property with a default lies in it, as it lies in the default. -/
theorem within_of_defaults {v : Node} (h : root.WellBuilt) (hn : root.Reaches n) (hv : v ∈ n.row)
    (hm : m ∈ v.row) (hdefaults : n.Defaults m v) : m.Within n := by
  obtain ⟨computed, right, hform, -⟩ := hdefaults
  -- the property whose value has a default holds the value, and the value its own parts
  have hvn : v.Within n := by
    obtain hwithin | hearly := h.within_of_mem_row hn hv
    · exact hwithin
    · have hnone := hearly.decorator
      rw [hform] at hnone
      cases hnone
  have hmv : m.Within v := by
    have hstop := h.stop_le_of_mem_row (nodes_trans (h.mem_nodes hn) (row_subset_nodes hv)) hm
    obtain hencloses | ⟨hexport, -⟩ := (h.sound_of_reaches hn).encloses v hv
    · exact ⟨hencloses m hm, hstop.2⟩
    · exact absurd (hform.symm.trans hexport) nofun
  exact hmv.trans hvn

/-- The spans of a well built tree are nested. -/
theorem nested (h : root.WellBuilt) (hn : root.Reaches n) : Nested root n where
  start_le := (h.span_le hn).1
  -- a child is in the row, or is the key that stands in a default, too
  within m hm := by
    obtain hm | ⟨v, hv, hm, hdefaults⟩ := (h.sound_of_reaches hn).mem_row_of_child hm
    · exact h.within_of_mem_row hn hm
    · exact .inl (h.within_of_defaults hn hv hm hdefaults)
  apart a ha b hb hab := by
    have hsound := h.sound_of_reaches hn
    obtain ⟨p, horder⟩ := hsound.behind
    -- two children of the row are apart; a key that is a default as well is within the other
    obtain ha | ⟨v, -, -, hdefaults⟩ := hsound.mem_row_of_child ha <;>
      obtain hb | ⟨w, -, -, hdefaults'⟩ := hsound.mem_row_of_child hb
    · obtain hbefore | hbehind := horder.apart ha hb hab
      · exact .inl hbefore
      · exact .inr (.inl hbehind)
    · rw [hdefaults'.row, List.mem_singleton] at ha
      subst ha
      exact .inr (.inr (.inr hdefaults'))
    · rw [hdefaults.row, List.mem_singleton] at hb
      subst hb
      exact .inr (.inr (.inl hdefaults))
    · exact absurd (hdefaults.key_unique hdefaults') hab

end WellBuilt

end Node

namespace Grammar

/-- In a parsed tree every span lies in the source, the children of a node lie in it, but for the
decorators in front of a class that is exported by default, and no two of them overlap, but for a key
and its default. -/
theorem parse_nested {source : Source} {html : Bool} {parsed : Parsed}
    (h : parse source html = .ok parsed) :
    ∀ n, parsed.root.Reaches n → Node.Nested parsed.root n ∧ n.stop ≤ source.size := by
  have hroot := root_leads html source
  unfold parse at h
  -- a text that is read has a tree whose row is sound
  cases hr : root html { scanner := .start source, html } with
  | mk r s =>
    rw [hr] at h
    cases r with
    | error fault => simp [Except.map] at h
    | ok tree =>
      simp only [Except.map, Except.ok.injEq] at h
      subst h
      obtain ⟨hkept, hwell, hstop⟩ := hroot.ok hr
      -- the tree ends where the scanner has come to, within the source
      have hsize : s.scanner.position.offset ≤ source.size := by
        have hle := (hkept.scanner.placed (Scanner.start_placed source)).le_size
        rwa [hkept.scanner.source] at hle
      intro n hn
      have hspan := (hwell.span_le hn).2
      exact ⟨hwell.nested hn, by omega⟩

set_option maxRecDepth 100000 in
/-- Decorators on both sides of `export default`, and a shorthand property with a default. -/
theorem parse_nested_class :
    let source : Source := .ofString "@a export default @b class {c = ({d = 1}) => d}"
    ∃ parsed, parse source false = .ok parsed ∧ parsed.root.stop = source.size ∧
      ∀ n, parsed.root.Reaches n → Node.Nested parsed.root n ∧ n.stop ≤ source.size := by
  intro source
  have hstop : (parse source false).toOption.map (·.root.stop) = some source.size := by
    decide +kernel
  cases h : parse source false with
  | error fault => simp [h, Except.toOption] at hstop
  | ok parsed =>
    rw [h] at hstop
    exact ⟨parsed, rfl, Option.some.inj hstop, parse_nested h⟩

set_option maxRecDepth 100000 in
/-- A class behind `export default` starts behind the decorator that is its child. -/
theorem class_misses_decorator :
    ∃ parsed n m, parse (.ofString "@d export default class {}") false = .ok parsed ∧
      parsed.root.Reaches n ∧ m ∈ n.children ∧ n.start = 18 ∧ m.start = 0 ∧ ¬m.Within n := by
  -- the parser runs on the text, and the nodes are found in what it returns
  have hfacts : (parse (.ofString "@d export default class {}") false).toOption.any
      (fun parsed => parsed.root.children.any fun e => e.children.any fun n => n.children.any fun m =>
        decide (n.start = 18 ∧ m.start = 0)) = true := by
    decide +kernel
  cases h : parse (.ofString "@d export default class {}") false with
  | error fault => simp [h, Except.toOption] at hfacts
  | ok parsed =>
    rw [h] at hfacts
    obtain ⟨e, he, hfacts⟩ := List.any_eq_true.1 hfacts
    obtain ⟨n, hn, hfacts⟩ := List.any_eq_true.1 hfacts
    obtain ⟨m, hm, hfacts⟩ := List.any_eq_true.1 hfacts
    obtain ⟨hstart, hstart'⟩ := of_decide_eq_true hfacts
    refine ⟨parsed, n, m, rfl, .child (.child .here he) hn, hm, hstart, hstart', fun hwithin => ?_⟩
    have := hwithin.start
    omega

end Grammar

end Reflow
