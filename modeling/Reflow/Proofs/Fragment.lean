import Mathlib.Control.Monad.Basic
import Reflow.Format.Text
import Reflow.Proofs.Text.Solid

/-!
# What taking the wrapper off keeps

Every line between those of the wrapper loses as many characters as the first of them starts with
blanks.  So nothing is lost exactly if these characters are white space on every line; the lines of a
template's text, of a comment or of markup that is left as it is need not start with as many.

## Key results

- `solid_unwrapLine`: a line keeps what stands behind its cut
- `solid_unwrap`: what is left of a text in its wrapper
- `unwrap_keeps_iff`: when nothing is lost
-/

namespace Reflow

namespace Fragment

open Text (solid splitAt)

/-! ## Single lines -/

/-- The blanks in front of a line hold no other characters. -/
theorem solid_leadingBlanks (line : List Char) : solid (leadingBlanks line) = [] := by
  have hblank : (leadingBlanks line).all Text.isBlank = true := List.all_takeWhile
  exact Text.solid_eq_nil.2 fun c hc => Text.isSpace_of_isBlank (List.all_eq_true.1 hblank c hc)

/-- Line breaks behind comments are not solid. -/
theorem solid_breakAfterComments {gap : List Char} (hgap : solid gap = []) (skip : Nat)
    (cs : List Char) : solid (breakAfterComments gap skip cs) = solid cs := by
  fun_induction breakAfterComments gap skip cs with
  | case1 => rfl
  | case2 c rest ih =>
    rw [List.cons_append, Text.solid_cons, Text.solid_append, hgap, ih, Text.solid_cons c rest,
      List.nil_append]
  | case3 skip c rest ih => rw [Text.solid_cons, ih, Text.solid_cons c rest]
  | case4 c rest body _ n _ ih => rw [Text.solid_cons, ih, Text.solid_cons c rest]
  | case5 c rest body _ _ ih => rw [Text.solid_cons, ih, Text.solid_cons c rest]
  | case6 c rest _ ih => rw [Text.solid_cons, ih, Text.solid_cons c rest]

/-- A line keeps the solid characters behind its cut. -/
theorem solid_unwrapLine (indent : Nat) (line : List Char) :
    solid (unwrapLine indent line) = solid (line.drop indent) := by
  refine solid_breakAfterComments ?_ 0 _
  rw [Text.solid_cons, solid_leadingBlanks]
  rfl

/-! ## Whole texts -/

/-- A text in the wrapper, each on lines of its own. -/
def wrapped (body : String) : String := "<>\n" ++ body ++ "\n</>\n"

/-- The indentation that is cut from every line of a text: that of its first line. -/
def cutOf (body : String) : Nat :=
  (leadingBlanks ((splitAt '\n' body.toList).headD [])).length

/-- Is there anything in the first line of the text? -/
def startsFilled (body : String) : Bool := (splitAt '\n' body.toList).head? != some []

/-- Wrapping a text puts a line in front of its lines and one behind them. -/
theorem splitAt_wrapped (body : String) :
    splitAt '\n' (wrapped body).toList =
      ['<', '>'] :: splitAt '\n' body.toList ++ [['<', '/', '>'], []] := by
  have htext : (wrapped body).toList =
      (['<', '>'] ++ '\n' :: body.toList) ++ '\n' :: (['<', '/', '>'] ++ '\n' :: []) := by
    simp [wrapped]
  rw [htext, Text.splitAt_append, Text.splitAt_append, Text.splitAt_append]
  rfl

/-- What unwrapping makes of a text in the wrapper. -/
theorem unwrap_wrapped (body : String) :
    unwrap (wrapped body) =
      if startsFilled body then
        String.ofList (['\n'].intercalate (if cutOf body = 0 then splitAt '\n' body.toList
          else (splitAt '\n' body.toList).map (unwrapLine (cutOf body)))) ++ "\n"
      else "\n" := by
  -- the lines of the wrapped text, without the first and the last one
  have hlines : ((splitAt '\n' (wrapped body).toList).drop 1).take
      (((splitAt '\n' (wrapped body).toList).drop 1).length - 2) = splitAt '\n' body.toList := by
    rw [splitAt_wrapped]
    simp
  unfold unwrap
  dsimp only
  rw [hlines]
  unfold startsFilled cutOf
  -- the first line decides, by whether it is filled
  cases splitAt '\n' body.toList with
  | nil => simp
  | cons first rest =>
    cases first with
    | nil => simp
    | cons c first => simp

/-- What is left of a text in its wrapper: the solid characters of every line behind its cut. -/
theorem solid_unwrap (body : String) :
    solid (unwrap (wrapped body)).toList =
      if startsFilled body then
        (splitAt '\n' body.toList).flatMap fun line => solid (line.drop (cutOf body))
      else [] := by
  rw [unwrap_wrapped]
  split
  · -- a line break is no solid character
    have hend : solid ['\n'] = [] := rfl
    rw [String.toList_append, String.toList_ofList, Text.solid_append, Text.solid_intercalate hend]
    -- the lines are cut, or stay
    split
    · rename_i hcut
      simp [hcut, hend]
    · simp [List.flatMap_map, solid_unwrapLine, hend]
  · rfl

/-- The cut of every line is white space. -/
def CutsBlanks (body : String) : Prop :=
  ∀ line ∈ splitAt '\n' body.toList, solid (line.take (cutOf body)) = []

/-- Where nothing solid is in front of the cuts, nothing solid is lost, and the other way round. -/
theorem flatMap_drop_eq_iff (n : Nat) (lines : List (List Char)) :
    (lines.flatMap fun line => solid (line.drop n)) = lines.flatMap solid ↔
      ∀ line ∈ lines, solid (line.take n) = [] := by
  -- what is cut and what is kept are all the solid characters of a line
  have hlength : ∀ lines : List (List Char), (lines.flatMap solid).length =
      (lines.flatMap fun line => solid (line.take n)).length +
        (lines.flatMap fun line => solid (line.drop n)).length := by
    intro lines
    induction lines with
    | nil => rfl
    | cons line lines ih =>
      have := congrArg List.length (Text.solid_take_append_drop n line)
      simp only [List.flatMap_cons, List.length_append] at this ⊢
      omega
  constructor
  · -- nothing is missing, so that nothing solid was cut from any line
    intro h line hline
    have hnone : (lines.flatMap fun line => solid (line.take n)) = [] := by
      have := hlength lines
      rw [h] at this
      exact List.length_eq_zero_iff.1 (by omega)
    exact List.flatMap_eq_nil_iff.1 hnone line hline
  · -- what is cut from a line is white space
    intro h
    have hline : ∀ line ∈ lines, solid (line.drop n) = solid line := by
      intro line hline
      rw [← Text.solid_take_append_drop n line, h line hline, List.nil_append]
    rw [List.flatMap_def, List.flatMap_def, List.map_congr_left hline]

/-- Unwrapping keeps all solid characters of a text exactly if the text has none at all in front of
the cuts, or has none at all when its first line is empty. -/
theorem unwrap_keeps_iff (body : String) :
    solid (unwrap (wrapped body)).toList = solid body.toList ↔
      if startsFilled body then CutsBlanks body else solid body.toList = [] := by
  rw [solid_unwrap]
  split
  · rw [← Text.flatMap_solid_splitAt body.toList]
    exact flatMap_drop_eq_iff _ _
  · exact eq_comm

/-- A fragment whose formatted text in the wrapper shows the wrapper on lines of its own is unwrapped
without a loss exactly if every line but those of the wrapper starts with the white space that is cut
from it. -/
theorem formatFragment_keeps_iff {options : Options} {source body : String}
    {formatted : Format.Formatted}
    (h : (Format.formatText options true none (wrap source)).result = .ok formatted)
    (hbody : formatted.text = wrapped body) :
    ∃ text, formatFragment options source = .ok text ∧
      (solid text.toList = solid body.toList ↔
        if startsFilled body then CutsBlanks body else solid body.toList = []) := by
  refine ⟨unwrap formatted.text, ?_, hbody ▸ unwrap_keeps_iff body⟩
  unfold formatFragment Format.formatSource
  -- the run on the wrapped text gave a text, which is unwrapped
  unfold Run.result at h ⊢
  rw [Bool.not_true, if_neg Bool.false_ne_true]
  rcases hrun : Format.formatText options true none (wrap source) [] with ⟨result, notes⟩
  have hresult : result = .ok formatted := by simpa [ExceptT.run, StateT.run, hrun] using h
  subst hresult
  simp only [ExceptT.run, StateT.run, bind, ExceptT.bind, ExceptT.mk, StateT.bind, hrun]
  rfl

/-- Two elements on lines of their own lose nothing. -/
theorem formatFragment_keeps_two :
    (Format.formatText {} true none (wrap "<a /><b />")).result =
        .ok ⟨wrapped "  <a />\n  <b />", none⟩ ∧
      ∃ text, formatFragment {} "<a /><b />" = .ok text ∧
        (solid text.toList = solid "  <a />\n  <b />".toList ↔
          if startsFilled "  <a />\n  <b />" then CutsBlanks "  <a />\n  <b />"
          else solid "  <a />\n  <b />".toList = []) := by
  have h : (Format.formatText {} true none (wrap "<a /><b />")).result =
      .ok ⟨wrapped "  <a />\n  <b />", none⟩ := by decide +kernel
  exact ⟨h, formatFragment_keeps_iff h rfl⟩

set_option maxRecDepth 100000 in
/-- The text of a template is not indented with the element around it, and loses what is cut. -/
theorem fragment_loses_text :
    ∃ body text, (Format.formatText {} true none (wrap "<div>\x7b`\nabc\n`\x7d</div>")).result =
        .ok ⟨wrapped body, none⟩ ∧
      formatFragment {} "<div>\x7b`\nabc\n`\x7d</div>" = .ok text ∧
      solid text.toList ≠ solid body.toList := by
  refine ⟨"  <div>\x7b`\nabc\n`\x7d</div>", "<div>\x7b`\nc\n</div>\n", ?_, ?_, ?_⟩ <;> decide +kernel

end Fragment

end Reflow
