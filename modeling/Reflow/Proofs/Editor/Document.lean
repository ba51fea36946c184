import Reflow.Editor.Document
import Reflow.Proofs.Format.Outcome
import Reflow.Proofs.Grammar.PlacesRules
import Reflow.Proofs.Stylesheet.Places
import Reflow.Proofs.Text.Solid

/-!
# Where an editor shows a fault

A document cannot be read if its scanner, its grammar or its stylesheet reader gives up; what goes
wrong in a template of another language is not shown.  The place of such a fault is counted in the
text that is read.  For most files this is the document.  A fragment is read in its wrapper, whose
first line is counted as well.

## Key results

- `formatSource_unreadable`: where the fault of a text that cannot be read starts
- `diagnose_starts`: a diagnostic starts at the place of the fault, or for a fragment one line below
-/

namespace Reflow

variable {options : Options} {fragment : Bool} {text : String} {fault : SourceFault}
  {source : Source}

namespace Format

/-- A script or HTML that was read is not reported as unreadable any more. -/
theorem formatTree_unreadable
    (h : (formatTree options fragment none text []).1 = .error (.unreadable fault source)) :
    (Source.ofString text).Locates fault.span.start := by
  have hread := h
  rw [formatTree, Course.bind_apply, parse_apply] at hread
  -- the text exceeds the stack, cannot be read, or gives a tree
  rcases hparse : Grammar.parseOn stackSize (.ofString text) (options.parser == .html) with
    _ | cause | parsed
  · rw [hparse] at hread
    cases hread
  · -- the fault of the reader lies in the text
    rw [hparse] at hread
    cases hread
    exact (Grammar.parse_fault (Grammar.parse_of_parseOn hparse)).1
  · -- what fails behind the reader gives no place
    have hrun := formatTree_apply fragment hparse []
    have hends : Ends (scriptContext options fragment parsed) parsed.root (fun _ => False) _ :=
      treeToDoc_ends (Grammar.parse_of_parseOn hparse) _ ([] ++ [.foundComments parsed.comments.length])
    rw [h] at hrun
    -- the printing fails, or its document is laid out
    cases hdoc : (treeToDoc options fragment none parsed
        ([] ++ [.foundComments parsed.comments.length])).1 with
    | error f =>
      -- the printing never says that the text is unreadable
      rw [hdoc] at hrun hends
      cases hrun
      exact hends.elim
    | ok doc =>
      rw [hdoc] at hrun
      change _ = laidOut options doc at hrun
      -- nor does the layout
      unfold laidOut at hrun
      split at hrun <;> cases hrun

/-- A stylesheet that was read is not reported as unreadable any more. -/
theorem formatStylesheet_unreadable (hparser : options.parser = .css)
    (h : (formatStylesheet options none text []).1 = .error (.unreadable fault source)) :
    (Source.ofString text).Locates fault.span.start := by
  rw [formatStylesheet, Course.bind_apply, Stylesheet.textToDoc_apply hparser] at h
  have hreads := Stylesheet.outcomeOf_reads (.ofString text)
  -- the fault is that of the reader, or of the layout
  cases houtcome : Stylesheet.outcomeOf (.ofString text) with
  | error f =>
    rw [houtcome] at h hreads
    cases h
    exact Stylesheet.read_fault hreads.1
  -- the layout never says that the text is unreadable
  | ok doc =>
    rw [houtcome] at h
    change (Prod.fst ((Run.within (Layout.renderWithin options.settings doc) >>= _ :
      Run Formatted) _)) = _ at h
    cases hlayout : Layout.renderWithin options.settings doc <;> rw [hlayout] at h <;> cases h

/-- A fault of the text that is formatted lies within that text. -/
theorem formatText_unreadable
    (h : (formatText options fragment none text []).1 = .error (.unreadable fault source)) :
    (Source.ofString text).Locates fault.span.start := by
  unfold formatText at h
  split at h
  next hcss => exact formatStylesheet_unreadable (beq_iff_eq.1 hcss) h
  next => exact formatTree_unreadable h

/-- What cannot be read is the text, or for a fragment the text in its wrapper. -/
theorem formatSource_unreadable
    (h : (formatSource options fragment none text).result = .error (.unreadable fault source)) :
    (Source.ofString (if fragment then Fragment.wrap text else text)).Locates fault.span.start := by
  cases fragment with
  | false => exact formatText_unreadable h
  | true =>
    -- the fault is that of the wrapped text
    change Prod.fst ((formatText options true none (Fragment.wrap text) >>= fun formatted =>
      pure { formatted with text := Fragment.unwrap formatted.text } : Run Formatted) []) = _ at h
    rw [Course.bind_apply] at h
    cases hrun : formatText options true none (Fragment.wrap text) [] with
    | mk r notes =>
      rw [hrun] at h
      cases r with
      | ok formatted => cases h
      | error f =>
        cases h
        exact formatText_unreadable (congrArg Prod.fst hrun)

end Format

namespace Editor

/-- The file is a fragment, by the ending of its name. -/
def isFragment (uri : String) : Bool := (Language.ofSuffix (fileNameOf uri).suffix).2

/-- Why a document cannot be read, if that is why it is not formatted. -/
def unreadable? (uri text : String) : Option SourceFault :=
  match formatted uri text [] with
  | .error (.format (.unreadable fault _)) => some fault
  | _ => none

/-- The place of an offset of a text: the line feeds before it are counted, and the characters
behind the last one of these. -/
def Place.ofOffset (text : String) (offset : Nat) : Place :=
  let before := text.toList.take offset
  ⟨before.count '\n', (before.reverse.takeWhile (· != '\n')).length⟩

/-- The same place one line below. -/
def Place.below (p : Place) : Place := { p with line := p.line + 1 }

/-- The place is that of an offset of the text: it is on a line of the text, and not behind the end
of that line. -/
structure Place.Shows (text : String) (offset : Nat) (p : Place) : Prop where
  within : offset ≤ text.length
  counted : p = .ofOffset text offset
  line : ∃ line, (Text.splitAt '\n' text.toList)[p.line]? = some line ∧ p.character ≤ line.length

/-- A located position is shown at the place of its offset. -/
theorem shows_ofPosition {p : Position} (h : (Source.ofString text).Locates p) :
    (Place.ofPosition p).Shows text p.offset := by
  -- the offset lies in the text
  have hsize : p.offset ≤ text.length := by
    have hle := (Source.counts_iff.1 h).1
    rwa [Source.size_eq] at hle
  -- the place is counted as the position is
  have hcounted : Place.ofPosition p = .ofOffset text p.offset := by
    have hover : p = ({} : Position).over (text.toList.take p.offset) := h
    rw [Position.over_start] at hover
    show Place.mk (p.line - 1) (p.column - 1) = _
    rw [congrArg Position.line hover, congrArg Position.column hover]
    rfl
  obtain ⟨line, hline, -, -, hcolumn⟩ := Source.Counts.line h
  exact ⟨hsize, hcounted, line, hline, Nat.sub_le_iff_le_add.2 hcolumn⟩

/-- The first line of the wrapper moves what stands in it one line down. -/
theorem ofOffset_wrap {offset : Nat} (h : offset ≤ text.length) :
    Place.ofOffset (Fragment.wrap text) (offset + 3) = (Place.ofOffset text offset).below := by
  -- the wrapper puts three characters in front
  have hbefore : (Fragment.wrap text).toList.take (offset + 3) =
      '<' :: '>' :: '\n' :: text.toList.take offset := by
    have hwrap : (Fragment.wrap text).toList =
        '<' :: '>' :: '\n' :: (text.toList ++ "\n</>".toList) := by
      simp [Fragment.wrap]
    have hlength : offset ≤ text.toList.length := h
    rw [hwrap, List.take_succ_cons, List.take_succ_cons, List.take_succ_cons,
      List.take_append_of_le_length hlength]
  -- the last line of what stands in front is not changed by the wrapper
  have hstop : ∀ l r : List Char,
      (l ++ '\n' :: r).takeWhile (· != '\n') = l.takeWhile (· != '\n') := by
    intro l r
    induction l with
    | nil => simp
    | cons c l ih => simp [List.takeWhile_cons, ih]
  unfold Place.ofOffset Place.below
  rw [hbefore]
  simp [hstop]

/-- The language of a file and its options are those of the ending of its name. -/
theorem resolve_fileNameOf (uri : String) :
    ∃ options, FileOptions.resolve (fileNameOf uri) [] = .ok ⟨options, isFragment uri⟩ := by
  unfold FileOptions.resolve isFragment
  rw [Option.map_some, Option.getD_some]
  generalize Language.ofSuffix (fileNameOf uri).suffix = language
  exact ⟨_, rfl⟩

/-- A fault of a document lies within the text that was read: the wrapped one for a fragment. -/
theorem formatted_unreadable {uri : String}
    (h : formatted uri text [] = .error (.format (.unreadable fault source))) :
    (Source.ofString (if isFragment uri then Fragment.wrap text else text)).Locates
      fault.span.start := by
  obtain ⟨options, hresolve⟩ := resolve_fileNameOf uri
  generalize isFragment uri = fragment at hresolve ⊢
  unfold formatted at h
  rw [hresolve] at h
  -- the formatting, before its text is taken
  change ((Format.formatSource options fragment none text).result.mapError Fault.format >>=
    fun f => pure f.text : Except Fault String) = _ at h
  cases hrun : (Format.formatSource options fragment none text).result with
  | ok f =>
    rw [hrun] at h
    cases h
  | error f =>
    rw [hrun] at h
    cases h
    exact Format.formatSource_unreadable hrun

/-- The fault that is reported is the one that formatting a document ends with. -/
theorem unreadable?_eq {uri : String}
    (h : formatted uri text [] = .error (.format (.unreadable fault source))) :
    unreadable? uri text = some fault := by
  unfold unreadable?
  split
  next cause source' h' =>
    rw [h] at h'
    cases h'
    rfl
  next h' => exact absurd h (h' fault source)

/-- A diagnostic starts at the place of the fault in the document.  In a fragment it starts there
in the wrapper, which is one line below. -/
theorem diagnose_starts {uri : String} {found : List Diagnostic}
    (h : diagnose uri text = .ok found) : ∀ d ∈ found, ∃ fault ∈ unreadable? uri text,
      (isFragment uri = false → d.range.start.Shows text fault.span.start.offset) ∧
      (isFragment uri = true → d.range.start.Shows (Fragment.wrap text) fault.span.start.offset ∧
        ∀ offset ≤ text.length, fault.span.start.offset = offset + 3 →
          d.range.start = (Place.ofOffset text offset).below) := by
  intro d hd
  unfold diagnose at h
  split at h
  -- the text was unreadable, and there is one diagnostic
  next fault source hformatted =>
    cases h
    obtain rfl := List.mem_singleton.1 hd
    have hlocated := formatted_unreadable hformatted
    refine ⟨fault, unreadable?_eq hformatted, fun hfile => ?_, fun hfile => ?_⟩
    · -- the text is the one that was read
      rw [hfile] at hlocated
      exact shows_ofPosition hlocated
    · -- the wrapped text is the one that was read
      rw [hfile] at hlocated
      have hshows := shows_ofPosition hlocated
      refine ⟨hshows, fun offset hoffset heq => ?_⟩
      rw [← ofOffset_wrap hoffset, ← heq]
      exact hshows.counted
  -- the other faults give no diagnostic
  next =>
    split at h <;> cases h
    cases hd
  next =>
    cases h
    cases hd

set_option maxRecDepth 100000 in
/-- The second line of a script breaks off, and the end of that line is shown. -/
theorem diagnose_starts_call :
    ∃ d, diagnose "file:///a.js" "a\n+ (b" = .ok [d] ∧ isFragment "file:///a.js" = false ∧
      d.range.start = ⟨1, 4⟩ ∧ ∃ fault ∈ unreadable? "file:///a.js" "a\n+ (b",
        d.range.start.Shows "a\n+ (b" fault.span.start.offset := by
  have hrun : diagnose "file:///a.js" "a\n+ (b" =
      .ok [⟨⟨⟨1, 4⟩, ⟨1, 5⟩⟩, "expected ')', found end of input"⟩] := by decide +kernel
  have hfile : isFragment "file:///a.js" = false := by decide +kernel
  obtain ⟨fault, hfault, hshows, -⟩ := diagnose_starts hrun _ (List.mem_singleton.2 rfl)
  exact ⟨_, hrun, hfile, rfl, fault, hfault, hshows hfile⟩

set_option maxRecDepth 100000 in
/-- In a fragment of one line, the tag that does not match is shown on a second line. -/
theorem diagnose_leaves_fragment :
    ∃ d, diagnose "file:///page.vx" "<a></b>" = .ok [d] ∧
      (Text.splitAt '\n' "<a></b>".toList).length ≤ d.range.start.line := by
  refine ⟨⟨⟨⟨1, 5⟩, ⟨1, 6⟩⟩, "expected corresponding closing tag for <a>"⟩, ?_, ?_⟩ <;>
    decide +kernel

end Editor

end Reflow
