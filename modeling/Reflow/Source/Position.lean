/-! # Source text and positions

A source is a list of characters.  A position in it counts lines and columns from one and
characters from zero; only a line feed starts a new line. -/

namespace Reflow

/-- A position in a source. -/
structure Position where
  line : Nat := 1
  column : Nat := 1
  offset : Nat := 0
  deriving Repr, DecidableEq, Inhabited

/-- The position behind a character. -/
def Position.after (p : Position) (c : Char) : Position :=
  if c = '\n' then { line := p.line + 1, column := 1, offset := p.offset + 1 }
  else { p with column := p.column + 1, offset := p.offset + 1 }

/-- The position behind a list of characters. -/
def Position.over (p : Position) (cs : List Char) : Position := cs.foldl Position.after p

@[simp] theorem Position.over_nil (p : Position) : p.over [] = p := rfl

/-- A position moves over one text and then over the other. -/
theorem Position.over_append (p : Position) (a b : List Char) :
    p.over (a ++ b) = (p.over a).over b := by
  simp [Position.over]

@[simp] theorem Position.offset_over (p : Position) (cs : List Char) :
    (p.over cs).offset = p.offset + cs.length := by
  induction cs generalizing p with
  | nil => rfl
  | cons c cs ih =>
    have h : (p.after c).offset = p.offset + 1 := by unfold Position.after; split <;> rfl
    have := ih (p.after c)
    simp only [Position.over, List.foldl_cons, List.length_cons] at this ⊢
    omega

/-- A range of a source, without its end. -/
structure Span where
  start : Position
  stop : Position
  deriving Repr, DecidableEq, Inhabited

/-- The parts of a list from each of its characters on. -/
def tailsOf : List Char → List (List Char)
  | [] => []
  | c :: rest => (c :: rest) :: tailsOf rest

/-- The parts of a list up to each of its characters, backwards, and in front of what stands before
the list. -/
def headsOf (before : List Char) : List Char → List (List Char)
  | [] => []
  | c :: rest => (c :: before) :: headsOf (c :: before) rest

@[simp] theorem length_tailsOf (cs : List Char) : (tailsOf cs).length = cs.length := by
  induction cs with
  | nil => rfl
  | cons c cs ih => simp [tailsOf, ih]

/-- The tails of a text are what is left behind each of its characters. -/
theorem getD_tailsOf (cs : List Char) (n : Nat) : (tailsOf cs).getD n [] = cs.drop n := by
  induction cs generalizing n with
  | nil => simp [tailsOf]
  | cons c cs ih =>
    cases n with
    | zero => rfl
    | succ n => simpa [tailsOf] using ih n

/-- A source text.  The parts of its characters from each offset on and up to each offset are at
hand, so that looking at an offset takes no search. -/
structure Source where
  chars : List Char
  tails : Array (List Char) := (tailsOf chars).toArray
  heads : Array (List Char) := (headsOf [] chars).toArray
  tails_eq : tails = (tailsOf chars).toArray := by rfl
  heads_eq : heads = (headsOf [] chars).toArray := by rfl

namespace Source

/-- The source of a text. -/
def ofString (s : String) : Source := { chars := s.toList }

instance : Inhabited Source := ⟨ofString ""⟩

instance : Repr Source := ⟨fun s n => reprPrec s.chars n⟩

/-- Sources of the same characters are equal. -/
theorem ext_chars {a b : Source} (h : a.chars = b.chars) : a = b := by
  obtain ⟨chars, _, _, ht, hh⟩ := a
  obtain ⟨chars', _, _, ht', hh'⟩ := b
  simp only at h
  subst h ht hh ht' hh'
  rfl

instance : DecidableEq Source := fun a b =>
  if h : a.chars = b.chars then .isTrue (ext_chars h) else .isFalse fun e => h (e ▸ rfl)

/-- Number of characters. -/
def size (s : Source) : Nat := s.tails.size

/-- The size of a source is the number of its characters. -/
theorem size_eq (s : Source) : s.size = s.chars.length := by
  simp [size, s.tails_eq]

/-- The characters from an offset on. -/
def suffix (s : Source) (offset : Nat) : List Char := s.tails.getD offset []

/-- The rest of a source is what is left behind an offset. -/
theorem suffix_eq (s : Source) (offset : Nat) : s.suffix offset = s.chars.drop offset := by
  rw [suffix, s.tails_eq, ← getD_tailsOf]
  simp [Array.getD_eq_getD_getElem?, List.getD_eq_getElem?_getD]

/-- The characters before an offset, the last one first. -/
def before (s : Source) (offset : Nat) : List Char :=
  if offset = 0 then [] else s.heads.getD (min offset s.size - 1) []

/-- The character at an offset. -/
def at? (s : Source) (offset : Nat) : Option Char := (s.suffix offset).head?

/-- The characters from one offset to another. -/
def slice (s : Source) (start stop : Nat) : List Char := (s.suffix start).take (stop - start)

/-- The text from one offset to another. -/
def text (s : Source) (start stop : Nat) : String := String.ofList (s.slice start stop)

/-- The position of an offset.  An offset behind the end counts columns of the last line. -/
def positionAt (s : Source) (offset : Nat) : Position :=
  let before := s.chars.take offset
  let line := (before.reverse.takeWhile (· != '\n')).length
  { line := before.count '\n' + 1
    column := line + (offset - before.length) + 1
    offset := offset }

end Source

end Reflow
