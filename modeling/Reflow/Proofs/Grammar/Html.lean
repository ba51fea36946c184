import Reflow.Proofs.Grammar.Parse

/-!
# HTML holds no code

A source that is read as HTML has elements, attributes with texts as their values, texts, and
comments that are nodes of their own.  The scanner meets no comments on the way and no braces between
tags, so that no rule for code is ever called.

## Key results

- `parse_html`: a tree of HTML has no comments and no templates
-/

namespace Reflow

namespace Scan

variable {s : Scanner}

/-- Is the token a brace that opens an expression? -/
def opensBrace (t : Token) : Bool := Grammar.isOne t ["\x7b"]

/-- A token of a length is what lies ahead, and no comment is read. -/
theorem take_free (kind : TokenKind) (length : Nat) (newline : Bool) :
    (Course.free Scanner).Leads (take kind length newline) s fun t s' =>
      s'.comments = s.comments ∧ t.kind = kind ∧ t.text = String.ofList (s.rest.take length) :=
  .of_ok rfl trivial ⟨rfl, rfl, rfl⟩

/-- A value in quotes holds no comments. -/
theorem nextQuoted_free (quote : Char) :
    (Course.free Scanner).Leads (nextQuoted quote) s fun _ s' => s'.comments = s.comments := by
  refine .get_bind ?_
  split
  · exact (take_free _ _ _).mono fun _ _ _ h => h.1
  · exact .of_error rfl trivial

/-- Inside a tag of HTML there are no comments. -/
theorem nextTag_free :
    (Course.free Scanner).Leads (nextTag true) s fun _ s' => s'.comments = s.comments := by
  have hskip : (Course.free Scanner).Leads skipSpace s fun _ s' => s'.comments = s.comments :=
    .of_ok rfl trivial rfl
  refine hskip.bind fun _ s1 _ h1 => .get_bind ?_
  rw [← h1]
  -- by the next character: at the end of the text, a sign, a quote or a name
  split
  · exact (take_free _ _ _).mono fun _ _ _ h => h.1
  · refine .ite (fun _ => .ite (fun _ => .of_error rfl trivial) fun _ => ?_) fun _ => ?_
    · exact (take_free _ _ _).mono fun _ _ _ h => h.1
    refine .ite (fun _ => nextQuoted_free _) fun _ => ?_
    refine .ite (fun _ => (take_free _ _ _).mono fun _ _ _ h => h.1) fun _ => ?_
    exact .of_error rfl trivial

/-- Nor are there in a value. -/
theorem nextHtmlValue_free :
    (Course.free Scanner).Leads nextHtmlValue s fun _ s' => s'.comments = s.comments := by
  have hskip : (Course.free Scanner).Leads skipSpace s fun _ s' => s'.comments = s.comments :=
    .of_ok rfl trivial rfl
  refine hskip.bind fun _ s1 _ h1 => .get_bind ?_
  rw [← h1]
  split
  · refine .ite (fun _ => .of_error rfl trivial) fun _ => ?_
    exact (take_free _ _ _).mono fun _ _ _ h => h.1
  · refine .ite (fun _ => nextQuoted_free _) fun _ => ?_
    refine .ite (fun _ => .of_error rfl trivial) fun _ => ?_
    exact (take_free _ _ _).bind fun _ _ _ h => .pure trivial h.1

/-- No token between the tags of HTML is a brace. -/
theorem nextChild_free :
    (Course.free Scanner).Leads (nextChild true) s fun t s' =>
      s'.comments = s.comments ∧ opensBrace t = false := by
  -- neither a text nor an end is a brace
  have htake : ∀ {kind : TokenKind} {length : Nat}, kind ≠ .punctuator → kind ≠ .name →
      (Course.free Scanner).Leads (take kind length false) s fun t s' =>
        s'.comments = s.comments ∧ opensBrace t = false := by
    intro kind length hpunctuator hname
    refine (take_free kind length false).mono fun t s' _ ht => ⟨ht.1, ?_⟩
    simp [opensBrace, Grammar.isOne, ht.2.1, hpunctuator, hname]
  have hcomment : ∀ ending, (Course.free Scanner).Leads (nextMarkupComment ending) s fun t s' =>
      s'.comments = s.comments ∧ opensBrace t = false := by
    intro ending
    refine .get_bind ?_
    split
    · exact htake (by decide) (by decide)
    · exact .of_error rfl trivial
  -- a comment, a bracket or a text
  refine .get_bind ?_
  split
  next => exact htake (by decide) (by decide)
  next c rest hrest =>
    refine .ite (fun _ => hcomment _) fun _ => .ite (fun _ => hcomment _) fun _ => ?_
    refine .ite (fun hc => ?_) fun _ => ?_
    · -- the only punctuator is the bracket of a tag
      have hc : c = '<' := by simpa using hc
      refine (take_free _ _ _).mono fun t s' _ ht => ⟨ht.1, ?_⟩
      have htext := ht.2.2
      rw [hrest, hc] at htext
      have hne : t.text ≠ "\x7b" := by
        rw [htext]
        show String.ofList ['<'] ≠ "\x7b"
        decide
      simp [opensBrace, Grammar.isOne, hne]
    · unfold takeReach
      split
      · exact htake (by decide) (by decide)
      · exact .of_error rfl trivial

end Scan

/-- The node and all nodes below it are no templates. -/
def Node.IsPlain (n : Node) : Prop :=
  ∀ m, n.Reaches m → ∀ quasis expressions, m.form ≠ .templateLiteral quasis expressions

/-- A node that is reached is the node itself, or is reached from a child. -/
theorem Node.Reaches.eq_or_child {n m : Node} (h : n.Reaches m) :
    m = n ∨ ∃ k ∈ n.children, k.Reaches m := by
  induction h with
  | here => exact .inl rfl
  | child _ hm ih =>
    rcases ih with rfl | ⟨k, hk, hreaches⟩
    · exact .inr ⟨_, hm, .here⟩
    · exact .inr ⟨k, hk, .child hreaches hm⟩

/-- A node that is no template is plain if its children are. -/
theorem Node.isPlain_mk {id : Nat} {span : Span} {form : Form Node}
    (hform : ∀ quasis expressions, form ≠ .templateLiteral quasis expressions)
    (hchildren : ∀ n ∈ form.children.map (·.2), n.IsPlain) : (Node.mk id span form).IsPlain := by
  intro m hm
  rcases hm.eq_or_child with rfl | ⟨k, hk, hreaches⟩
  · exact hform
  · exact hchildren k (mem_of_mem_dropRepeated hk) m hreaches

namespace Grammar

/-- The parser reads HTML and met no comments. -/
structure State.InHtml (s : State) : Prop where
  html : s.html = true
  comments : s.scanner.comments = []

/-- The parser stands between tags: there is no brace ahead. -/
structure State.Between (s : State) : Prop extends State.InHtml s where
  token : Scan.opensBrace s.token = false

/-- Says nothing about how the parser moves. -/
abbrev free : Course State := Course.free State

variable {s : State} {start : Position} {α : Type}

/-- A fault asks nothing of the state. -/
theorem fail_free {Q : α → State → Prop} (cause : GrammarFault) (span : Span) :
    free.Leads (fail cause span) s Q :=
  .throw trivial

/-- Nor does it to want another token. -/
theorem want_free {Q : α → State → Prop} (wanted : Wanted) : free.Leads (want wanted) s Q :=
  .look _ rfl (fail_free _ _)

/-- What is noted leads nowhere else. -/
theorem note_free {stalls : State → Bool} {f : Unit → Parse α} {Q : α → State → Prop}
    (h : ∀ stalled, free.Leads (f ()) { s with stalled } Q) :
    free.Leads (note stalls >>= f) s Q :=
  .jump _ rfl trivial (h _)

/-- Nor does it to come to the bound. -/
theorem exhausted_free {Q : α → State → Prop} : free.Leads exhausted s Q :=
  note_free fun _ => .look _ rfl (fail_free _ _)

/-- Whether the parser has stalled does not matter to the comments. -/
theorem State.InHtml.stalled (hs : s.InHtml) (stalled : Bool) :
    State.InHtml { s with stalled } :=
  ⟨hs.html, hs.comments⟩

/-- Nor does it between tags. -/
theorem State.Between.stalled (hs : s.Between) (stalled : Bool) :
    State.Between { s with stalled } :=
  ⟨hs.toInHtml.stalled stalled, hs.token⟩

/-- The next token is read without a comment, in the modes of HTML. -/
theorem advance_free (mode : ScanMode) {P : Token → Prop} (hs : s.InHtml)
    (hscan : (Course.free Scanner).Leads (Scan.next mode) s.scanner fun t s' =>
      s'.comments = s.scanner.comments ∧ P t) :
    free.Leads (advance mode) s fun _ s' => s'.InHtml ∧ P s'.token := by
  have hrun := advance_apply mode s
  rcases h : Scan.next mode s.scanner with ⟨fault | token, scanner⟩ <;> rw [h] at hrun
  · exact .of_error hrun trivial
  · obtain ⟨-, hcomments, hP⟩ := hscan.ok h
    exact .of_ok hrun trivial ⟨⟨hs.html, hcomments.trans hs.comments⟩, hP⟩

/-- So it is inside a tag. -/
theorem advance_tag (hs : s.InHtml) :
    free.Leads (advance .htmlTag) s fun _ s' => s'.InHtml := by
  have hscan := Scan.nextTag_free (s := s.scanner)
  have hall := advance_free .htmlTag (P := fun _ => True) hs
    (hscan.mono fun _ _ _ h => ⟨h, trivial⟩)
  exact hall.mono fun _ _ _ h => h.1

/-- The same when the token is only passed over. -/
theorem pass_tag (hs : s.InHtml) :
    free.Leads (discard (advance .htmlTag)) s fun _ s' => s'.InHtml :=
  .discard (advance_tag hs)

/-- So it is for a value. -/
theorem pass_value (hs : s.InHtml) :
    free.Leads (discard (advance .htmlValue)) s fun _ s' => s'.InHtml := by
  have hscan := Scan.nextHtmlValue_free (s := s.scanner)
  have hall := advance_free .htmlValue (P := fun _ => True) hs
    (hscan.mono fun _ _ _ h => ⟨h, trivial⟩)
  exact .discard (hall.mono fun _ _ _ h => h.1)

/-- Behind a token that is taken between tags there is no brace. -/
theorem pass_child (hs : s.InHtml) :
    free.Leads (discard (advance .htmlChild)) s fun _ s' => s'.Between := by
  have hall := advance_free .htmlChild hs (Scan.nextChild_free (s := s.scanner))
  exact .discard (hall.mono fun _ _ _ h => ⟨h.1, h.2⟩)

/-- Tags are read as those of HTML. -/
theorem tagMode_apply (hs : s.InHtml) : tagMode s = (.ok .htmlTag, s) := by
  show (Except.ok (if s.html then _ else _), s) = _
  rw [hs.html]
  rfl

/-- So are children. -/
theorem childMode_apply (hs : s.InHtml) : childMode s = (.ok .htmlChild, s) := by
  show (Except.ok (if s.html then _ else _), s) = _
  rw [hs.html]
  rfl

/-- A node of a form that is no template, with plain nodes below it. -/
theorem node_free {form : Form Node} {R : State → Prop}
    (hR : R { s with nextId := s.nextId + 1 })
    (hform : ∀ quasis expressions, form ≠ .templateLiteral quasis expressions)
    (hchildren : ∀ n ∈ form.children.map (·.2), n.IsPlain) :
    free.Leads (node start form) s fun n s' => n.IsPlain ∧ R s' :=
  .of_ok rfl trivial ⟨Node.isPlain_mk hform hchildren, hR⟩

/-- A name in markup is plain. -/
theorem markupIdentifier_free (hs : s.InHtml) (wanted : Wanted) :
    free.Leads (markupIdentifier wanted) s fun n s' => n.IsPlain ∧ s'.InHtml := by
  refine .look _ rfl (.look _ rfl (.ite (fun _ => ?_) fun _ => ?_))
  · exact (want_free (Q := fun _ _ => False) _).bind fun _ _ _ h => h.elim
  · refine .look _ (tagMode_apply hs) ((advance_tag hs).bind fun token s1 _ h1 => ?_)
    exact node_free ⟨h1.html, h1.comments⟩ nofun (by simp [Form.children, Form.fields])

/-- A loop that goes on with what the last round gave. -/
theorem extend_free {step : α → Parse (Option α)} {Q : α → State → Prop}
    (hnote : ∀ a s, Q a s → ∀ stalled, Q a { s with stalled })
    (hstep : ∀ a s, Q a s → free.Leads (step a) s fun o s' => Q (o.getD a) s') {a : α}
    (ha : Q a s) : free.Leads (extend step a) s Q := by
  -- the rounds are as many as the size allows; none of them leaves markup
  refine .look _ rfl ?_
  generalize s.scanner.source.size + 2 = n
  induction n generalizing a s with
  | zero => exact exhausted_free
  | succ n ih =>
    refine .look _ rfl ((hstep a s ha).bind fun o s' _ ho => ?_)
    -- nothing follows, or the value goes on
    cases o with
    | none => exact .pure trivial ho
    | some b => exact note_free fun stalled => ih (hnote _ _ ho stalled)

/-- A loop all of whose items have a property. -/
theorem collect_free {more : Parse Bool} {item : Parse (α × Bool)} {P : α → Prop}
    {R : State → Prop} (hnote : ∀ s, R s → ∀ stalled, R { s with stalled })
    (hmore : ∀ s, ∃ b, more s = (.ok b, s))
    (hitem : ∀ s, R s → free.Leads item s fun r s' => P r.1 ∧ R s') (hs : R s) :
    free.Leads (collect more item) s fun l s' => (∀ a ∈ l, P a) ∧ R s' := by
  -- by induction on the rounds
  refine .look _ rfl ?_
  generalize s.scanner.source.size + 2 = n
  induction n generalizing s with
  | zero => exact exhausted_free
  | succ n ih =>
    obtain ⟨b, hb⟩ := hmore s
    refine .look _ rfl (.look b hb (.ite (fun _ => ?_) fun _ => .pure trivial ⟨by simp, hs⟩))
    refine (hitem s hs).bind fun r s1 _ ⟨hr, h1⟩ => note_free fun stalled => ?_
    have h1 := hnote _ h1 stalled
    refine .ite (fun _ => ?_) fun _ => .pure trivial ⟨by simpa using hr, h1⟩
    exact (ih h1).bind fun l s2 _ ⟨hl, h2⟩ => .pure trivial ⟨by simpa [hr] using hl, h2⟩

/-- So is the name of a tag. -/
theorem tagName_free (hs : s.InHtml) :
    free.Leads tagName s fun n s' => n.IsPlain ∧ s'.InHtml := by
  -- a prefix makes one node of two names
  refine .look _ rfl ((markupIdentifier_free hs _).bind fun name s1 _ ⟨hname, h1⟩ => ?_)
  refine .look _ rfl (.ite (fun _ => .look _ (tagMode_apply h1) ?_) fun _ =>
    extend_free (Q := fun (n : Node) s' => n.IsPlain ∧ s'.InHtml)
      (fun _ _ h stalled => ⟨h.1, h.2.stalled stalled⟩) ?_ ⟨hname, h1⟩)
  · refine (pass_tag h1).bind fun _ s2 _ h2 => ?_
    refine (markupIdentifier_free h2 _).bind fun inner s3 _ ⟨hinner, h3⟩ => ?_
    exact node_free ⟨h3.html, h3.comments⟩ nofun
      (by simp [Form.children, Form.fields, hname, hinner])
  · -- members, one after the other
    intro object s2 ⟨hobject, h2⟩
    refine .look _ rfl (.ite (fun _ => .look _ (tagMode_apply h2) ?_) fun _ => ?_)
    · refine (pass_tag h2).bind fun _ s3 _ h3 => ?_
      refine (markupIdentifier_free h3 _).bind fun property s4 _ ⟨hproperty, h4⟩ => ?_
      refine Course.Leads.bind (P := fun n s' => n.IsPlain ∧ s'.InHtml) ?_
        fun _ _ _ h5 => .pure trivial h5
      exact node_free ⟨h4.html, h4.comments⟩ nofun
        (by simp [Form.children, Form.fields, hobject, hproperty])
    · exact .pure trivial ⟨hobject, h2⟩

section

variable {parse : Rule → Parse Node}

/-- So is the value of an attribute, which is a string in HTML. -/
theorem attributeValue_free (hs : s.InHtml) :
    free.Leads (attributeValue parse) s fun n s' => n.IsPlain ∧ s'.InHtml := by
  refine .get_bind (.look _ (tagMode_apply hs) ?_)
  rw [hs.html]
  refine (pass_value hs).bind fun _ s1 _ h1 => .look _ rfl (.look _ rfl ?_)
  refine .ite (fun _ => .look _ (tagMode_apply h1) ?_) fun _ => ?_
  · refine (pass_tag h1).bind fun _ s2 _ h2 => ?_
    exact node_free ⟨h2.html, h2.comments⟩ nofun (by simp [Form.children, Form.fields])
  · -- the value is no expression in braces and no element
    refine .ite (fun h => by simp at h) fun _ => .ite (fun h => by simp at h) fun _ => ?_
    exact want_free _

/-- So is an attribute; nothing is spread in HTML. -/
theorem tagAttribute_free (hs : s.InHtml) :
    free.Leads (tagAttribute parse) s fun n s' => n.IsPlain ∧ s'.InHtml := by
  refine .look _ rfl (.get_bind (.look _ rfl ?_))
  -- in a page no interpolation takes the place of an attribute
  rw [hs.html]
  refine .ite (fun h => by simp at h) fun _ => ?_
  refine (markupIdentifier_free hs _).bind fun first s1 _ ⟨hfirst, h1⟩ => .look _ rfl ?_
  extract_lets finish
  -- behind the name a value may follow
  have hfinish : ∀ (name : Node) (s2 : State), name.IsPlain → s2.InHtml →
      free.Leads (finish name) s2 fun n s' => n.IsPlain ∧ s'.InHtml := by
    intro name s2 hname h2
    have hnode : ∀ (value : Option Node) (s3 : State), (∀ n ∈ value, n.IsPlain) → s3.InHtml →
        free.Leads (node s.token.span.start (.jsxAttribute name value)) s3 fun n s' =>
          n.IsPlain ∧ s'.InHtml := by
      intro value s3 hvalue h3
      refine node_free ⟨h3.html, h3.comments⟩ nofun fun n hn => ?_
      -- the children of an attribute are its name and its value
      have hn : n = name ∨ value = some n := by simpa [Form.children, Form.fields] using hn
      rcases hn with rfl | hn
      · exact hname
      · exact hvalue n hn
    refine .look _ rfl (.ite (fun _ => ?_) fun _ => hnode none s2 nofun h2)
    refine Course.Leads.bind (P := fun o s' => (∀ n ∈ o, n.IsPlain) ∧ s'.InHtml) (.map ?_)
      fun value s3 _ ⟨hvalue, h3⟩ => hnode value s3 hvalue h3
    exact (attributeValue_free h2).mono fun n s' _ ⟨hn, h3⟩ => ⟨by simpa using hn, h3⟩
  refine .ite (fun _ => .look _ (tagMode_apply h1) ?_) fun _ => hfinish first s1 hfirst h1
  refine (pass_tag h1).bind fun _ s2 _ h2 => ?_
  refine (markupIdentifier_free h2 _).bind fun inner s3 _ ⟨hinner, h3⟩ => ?_
  refine Course.Leads.bind (P := fun n s' => n.IsPlain ∧ s'.InHtml) ?_
    fun name s4 _ ⟨hname, h4⟩ => hfinish name s4 hname h4
  exact node_free ⟨h3.html, h3.comments⟩ nofun
    (by simp [Form.children, Form.fields, hfirst, hinner])

/-- Behind the bracket that ends a tag, children are read. -/
theorem expectPunctuator_free (hs : s.InHtml) {value : String} :
    free.Leads (expectPunctuator value .htmlChild) s fun _ s' => s'.Between :=
  .look _ rfl (.ite (fun _ => pass_child hs) fun _ => want_free _)

/-- Going one level deeper changes nothing but the depth. -/
theorem nested_free {x : Parse Node}
    (hx : ∀ depth, free.Leads x { s with depth } fun n s' => n.IsPlain ∧ s'.Between) :
    free.Leads (nested x) s fun n s' => n.IsPlain ∧ s'.Between := by
  -- a refusal returns no node; the body returns a plain one
  have hrun := nested_apply x s
  split at hrun
  · exact .of_error hrun trivial
  · cases h : x { s with depth := s.depth + 1 } with
    | mk r s' =>
      rw [h] at hrun
      cases r with
      | error fault => exact .of_error hrun trivial
      | ok n =>
        obtain ⟨-, hn, hs'⟩ := (hx _).ok h
        exact .of_ok hrun trivial ⟨hn, ⟨hs'.html, hs'.comments⟩, hs'.token⟩

/-- Elements are plain, and behind one there is no brace. -/
def ElementsPlain (parse : Rule → Parse Node) : Prop :=
  ∀ (s : State) (start : Position), s.InHtml →
    free.Leads (parse (.element start .htmlChild)) s fun n s' => n.IsPlain ∧ s'.Between

variable (hp : ElementsPlain parse)

include hp

/-- A child is text, a comment or an element. -/
theorem child_free (hs : s.Between) (topLevel : Bool) :
    free.Leads (child parse .htmlChild topLevel) s fun n s' => n.IsPlain ∧ s'.Between := by
  have hleaf : ∀ {form : Form Node} (s1 : State), s1.Between → form.children = [] →
      (∀ quasis expressions, form ≠ .templateLiteral quasis expressions) →
      free.Leads (node s.token.span.start form) s1 fun n s' => n.IsPlain ∧ s'.Between := by
    intro form s1 h1 hchildren hform
    exact node_free ⟨⟨h1.html, h1.comments⟩, h1.token⟩ hform (by simp [hchildren])
  refine .look _ rfl (.look _ rfl (.ite (fun _ => ?_) fun _ => .ite (fun _ => ?_) fun _ => ?_))
  · exact (pass_child hs.toInHtml).bind fun _ s1 _ h1 => hleaf s1 h1 rfl nofun
  · exact (pass_child hs.toInHtml).bind fun _ s1 _ h1 => hleaf s1 h1 rfl nofun
  · refine .ite (fun hbrace => ?_) fun _ => .ite (fun _ => ?_) fun _ => .look _ rfl (fail_free _ _)
    · -- there is no brace ahead
      have htoken := hs.token
      rw [Scan.opensBrace, hbrace] at htoken
      cases htoken
    · refine .look _ rfl (.look _ (tagMode_apply hs.toInHtml) ?_)
      exact (pass_tag hs.toInHtml).bind fun _ s1 _ h1 => hp s1 _ h1

/-- All children are plain, up to the bracket of the tag that closes them. -/
theorem childrenUpTo_free (hs : s.Between) (n : Nat) :
    free.Leads (childrenUpTo parse .htmlChild n) s fun r s' =>
      (∀ n ∈ r.1, n.IsPlain) ∧ s'.InHtml := by
  -- by induction on the rounds
  induction n generalizing s with
  | zero => exact exhausted_free
  | succ n ih =>
    -- a child in front of those of the following rounds
    have hrest : ∀ (first : Node) (s1 : State), first.IsPlain → s1.Between →
        ∀ before, free.Leads (do
          onward before
          let r ← childrenUpTo parse .htmlChild n
          return (first :: r.1, r.2)) s1 fun r s' => (∀ n ∈ r.1, n.IsPlain) ∧ s'.InHtml := by
      intro first s1 hfirst h1 before
      refine note_free fun stalled => (ih (h1.stalled stalled)).bind fun r s2 _ ⟨hrest, h2⟩ =>
        .pure trivial ⟨?_, h2⟩
      simpa [hfirst] using hrest
    refine .look _ rfl (.look _ rfl ?_)
    refine .ite (fun _ => ?_) fun _ => .look _ rfl (.ite (fun _ => ?_) fun _ => ?_)
    · -- the end of the text is refused
      exact Course.Leads.bind (P := fun _ _ => False) (.look _ rfl (fail_free _ _))
        fun _ _ _ h => h.elim
    · -- the next bracket opens an element, or closes the one around the children
      refine .look _ rfl (.look _ (tagMode_apply hs.toInHtml) ?_)
      refine (pass_tag hs.toInHtml).bind fun _ s1 _ h1 => .look _ rfl ?_
      refine .ite (fun _ => .pure trivial ⟨by simp, h1⟩) fun _ => ?_
      exact (hp s1 _ h1).bind fun element s2 _ ⟨helement, h2⟩ => hrest element s2 helement h2 _
    · exact (child_free hp hs false).bind fun first s1 _ ⟨hfirst, h1⟩ => hrest first s1 hfirst h1 _

/-- The rounds of their loop do not matter. -/
theorem children_free (hs : s.Between) :
    free.Leads (children parse) s fun r s' => (∀ n ∈ r.1, n.IsPlain) ∧ s'.InHtml :=
  .look _ (childMode_apply hs.toInHtml) (.look _ rfl (childrenUpTo_free hp hs _))

/-- A fragment is plain. -/
theorem fragment_free (hs : s.InHtml) :
    free.Leads (fragment parse start .htmlChild) s fun n s' => n.IsPlain ∧ s'.Between := by
  refine .look _ (childMode_apply hs) ((pass_child hs).bind fun _ s1 _ h1 => ?_)
  -- the opening tag, the children and the closing tag are nodes of their own
  refine Course.Leads.bind (P := fun n s' => n.IsPlain ∧ s'.Between) ?_
    fun opening s2 _ ⟨hopening, h2⟩ => ?_
  · exact node_free ⟨⟨h1.html, h1.comments⟩, h1.token⟩ nofun
      (by simp [Form.children, Form.fields])
  refine (children_free hp h2).bind fun r s3 _ ⟨hchildren, h3⟩ => .look _ (tagMode_apply h3) ?_
  refine (pass_tag h3).bind fun _ s4 _ h4 => ?_
  refine (expectPunctuator_free h4).bind fun _ s5 _ h5 => ?_
  refine Course.Leads.bind (P := fun n s' => n.IsPlain ∧ s'.Between) ?_
    fun closing s6 _ ⟨hclosing, h6⟩ => ?_
  · exact node_free ⟨⟨h5.html, h5.comments⟩, h5.token⟩ nofun
      (by simp [Form.children, Form.fields])
  refine node_free ⟨⟨h6.html, h6.comments⟩, h6.token⟩ nofun fun n hn => ?_
  -- its children are plain, so the element is
  have hn : n = opening ∨ n ∈ r.1 ∨ n = closing := by
    simpa [Form.children, Form.fields] using hn
  rcases hn with rfl | hn | rfl
  · exact hopening
  · exact hchildren n hn
  · exact hclosing

/-- So is an element with a name. -/
theorem namedElement_free (hs : s.InHtml) :
    free.Leads (namedElement parse start .htmlChild) s fun n s' => n.IsPlain ∧ s'.Between := by
  refine (tagName_free hs).bind fun name s1 _ ⟨hname, h1⟩ => ?_
  -- attributes one after the other
  refine (collect_free (P := Node.IsPlain) (R := State.InHtml) (fun _ h => h.stalled)
    (fun _ => ⟨_, rfl⟩) ?_ h1).bind fun attributes s2 _ ⟨hattributes, h2⟩ => .look _ rfl ?_
  · intro s hs
    refine .look _ rfl (.ite (fun _ => ?_) fun _ => ?_)
    · exact (want_free (Q := fun _ _ => False) _).bind fun _ _ _ h => h.elim
    · exact (tagAttribute_free hs).bind fun _ _ _ h => .pure trivial h
  extract_lets text finish
  -- the end of the opening tag, the children and the closing tag
  have hfinish : ∀ u (s3 : State), s3.InHtml →
      free.Leads (finish u) s3 fun n s' => n.IsPlain ∧ s'.Between := by
    intro u s3 h3
    refine .get_bind (.look _ (childMode_apply h3) ?_)
    simp only [ite_self]
    refine (expectPunctuator_free h3).bind fun _ s4 _ h4 => ?_
    refine Course.Leads.bind (P := fun n s' => n.IsPlain ∧ s'.Between) ?_
      fun opening s5 _ ⟨hopening, h5⟩ => ?_
    · refine node_free ⟨⟨h4.html, h4.comments⟩, h4.token⟩ nofun fun n hn => ?_
      have hn : n = name ∨ n ∈ attributes := by simpa [Form.children, Form.fields] using hn
      rcases hn with rfl | hn
      · exact hname
      · exact hattributes n hn
    -- an element that is closed at once
    refine .ite (fun _ => ?_) fun _ => ?_
    · exact node_free ⟨⟨h5.html, h5.comments⟩, h5.token⟩ nofun
        (by simp [Form.children, Form.fields, hopening])
    refine (children_free hp h5).bind fun r s6 _ ⟨hchildren, h6⟩ => .look _ (tagMode_apply h6) ?_
    refine (pass_tag h6).bind fun _ s7 _ h7 => ?_
    refine (tagName_free h7).bind fun closingName s8 _ ⟨hclosingName, h8⟩ => ?_
    refine .ite (fun _ => ?_) fun _ => ?_
    · -- a closing tag of another name is refused
      exact (fail_free (Q := fun _ _ => False) _ _).bind fun _ _ _ h => h.elim
    refine (expectPunctuator_free h8).bind fun _ s9 _ h9 => ?_
    refine Course.Leads.bind (P := fun n s' => n.IsPlain ∧ s'.Between) ?_
      fun closing s10 _ ⟨hclosing, h10⟩ => ?_
    · exact node_free ⟨⟨h9.html, h9.comments⟩, h9.token⟩ nofun
        (by simp [Form.children, Form.fields, hclosingName])
    refine node_free ⟨⟨h10.html, h10.comments⟩, h10.token⟩ nofun fun n hn => ?_
    -- the children of an element are its tags and what is between them
    have hn : n = opening ∨ n ∈ r.1 ∨ n = closing := by
      simpa [Form.children, Form.fields] using hn
    rcases hn with rfl | hn | rfl
    · exact hopening
    · exact hchildren n hn
    · exact hclosing
  refine .ite (fun _ => .look _ (tagMode_apply h2) ?_) fun _ => hfinish ⟨⟩ s2 h2
  exact (pass_tag h2).bind fun u s3 _ h3 => hfinish u s3 h3

/-- So is whatever stands behind the bracket of an element. -/
theorem elementBody_free (hs : s.InHtml) :
    free.Leads (elementBody parse start .htmlChild) s fun n s' => n.IsPlain ∧ s'.Between := by
  refine nested_free fun depth => ?_
  have hdepth : State.InHtml { s with depth } := ⟨hs.html, hs.comments⟩
  refine .look _ rfl (.ite (fun _ => fragment_free hp hdepth) fun _ => ?_)
  exact namedElement_free hp hdepth

end

/-- So are the elements of a source, however deep they are. -/
theorem parseRule_free (fuel : Nat) : ElementsPlain (parseRule fuel) := by
  induction fuel with
  | zero => exact fun _ _ _ => exhausted_free
  | succ fuel ih =>
    intro s start hs
    have hcalled : ElementsPlain (called (parseRule fuel) (.element start .htmlChild) s.back) :=
      fun s start hs => note_free fun stalled => ih _ start (hs.stalled stalled)
    exact .look _ rfl (.jump _ rfl trivial (elementBody_free hcalled ⟨hs.html, hs.comments⟩))

/-- So is the tree of a source, and there are no comments. -/
theorem root_free (source : Source) :
    free.Leads (root true) { scanner := .start source, html := true } fun n s' =>
      n.IsPlain ∧ s'.InHtml := by
  have hscan := Scan.nextChild_free (s := Scanner.start source)
  refine Course.Leads.bind (P := fun t s' => s'.InHtml ∧ Scan.opensBrace t = false) ?_
    fun first s1 _ ⟨h1, hfirst⟩ => ?_
  · -- the first token is scanned by hand, before any rule
    rcases h : Scan.next .htmlChild (Scanner.start source) with ⟨fault | token, scanner⟩
    · exact .of_error (by rw [scan_apply]; simp only [if_true]; rw [h]) trivial
    · obtain ⟨-, hcomments, htoken⟩ := hscan.ok h
      exact .of_ok (by rw [scan_apply]; simp only [if_true]; rw [h]) trivial
        ⟨⟨rfl, hcomments⟩, htoken⟩
  · have hbetween : State.Between { s1 with token := first } := ⟨⟨h1.html, h1.comments⟩, hfirst⟩
    refine Course.Leads.bind (P := fun _ s' => s' = { s1 with token := first })
      (.of_ok rfl trivial rfl) fun _ _ _ hs => ?_
    subst hs
    refine .get_bind ?_
    -- the children of the page, up to its end
    refine (collect_free (P := Node.IsPlain) (R := State.Between) (fun _ h => h.stalled)
      (fun _ => ⟨_, rfl⟩) ?_ hbetween).bind fun nodes s2 _ ⟨hnodes, h2⟩ => .get_bind ?_
    · intro s hs
      exact (child_free (parseRule_free _) hs true).bind fun _ _ _ h => .pure trivial h
    refine Course.Leads.bind (P := fun n s' => n.IsPlain ∧ s'.InHtml) ?_
      fun n s3 _ ⟨hn, h3⟩ => ?_
    · refine .of_ok rfl trivial ⟨Node.isPlain_mk nofun ?_, ⟨h2.html, h2.comments⟩⟩
      simpa [Form.children, Form.fields] using hnodes
    · -- a page that is followed by more is refused
      split
      · exact fail_free _ _
      · exact .pure trivial ⟨hn, h3⟩

/-- A tree of HTML has no comments and no templates. -/
theorem parse_html {source : Source} {parsed : Parsed} (h : parse source true = .ok parsed) :
    parsed.comments = [] ∧ parsed.root.IsPlain := by
  have hroot := root_free source
  unfold parse at h
  rcases hr : root true { scanner := .start source, html := true } with ⟨fault | n, s⟩
  · simp [hr, Except.map] at h
  · simp only [hr, Except.map, Except.ok.injEq] at h
    subst h
    obtain ⟨-, hn, hs⟩ := hroot.ok hr
    exact ⟨by simp [hs.comments], hn⟩

end Grammar

end Reflow
