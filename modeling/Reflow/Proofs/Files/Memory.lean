import Reflow.Files.Memory

/-!
# Names and places

A name leads to a place, at which a file is or could be made.  Which place that is depends on the
directories only.  Files are written at such places, which makes no directory and takes none away, so
names go on leading where they led before.

## Key results

- `read_ok`, `write_of_place`: reading and writing go by the place that a name leads to
- `contents?_put`: what is in the files after one of them was written
- `place?_put`: where names lead then
-/

namespace Reflow.Workspace

variable {w : Workspace} {name : FileName} {place : List String} {text : String}

/-- The place at which a file is or could be made. -/
def Entry.place? : Entry → Option (List String)
  | .file place _ | .free place => some place
  | .directory | .fault _ => none

/-- The place that a name leads to. -/
def place? (w : Workspace) (name : FileName) : Option (List String) := (w.find name).place?

/-- The contents of the file at a place. -/
def contents? (w : Workspace) (place : List String) : Option String := w.files.lookup place

/-! ### Reading and writing -/

/-- A file that is found is one of the files. -/
theorem follow_file {start : Option (List String)} {parts : List String}
    (h : w.follow start parts = .file place text) : w.contents? place = some text := by
  fun_induction follow w start parts with
  | case1 | case3 | case5 | case8 | case9 | case10 => cases h
  | case2 _ ih | case4 _ _ ih => exact ih h
  | case6 _ _ _ _ _ _ _ ih => exact ih h
  | case7 _ _ _ _ _ _ _ hfound =>
    obtain ⟨hplace, htext⟩ := Entry.file.inj h
    rw [← hplace, ← htext]
    exact hfound

/-- What is read is what is at the place that the name leads to. -/
theorem read_ok (h : w.read name = .ok text) :
    ∃ place, w.place? name = some place ∧ w.contents? place = some text := by
  unfold read at h
  -- the entry is a file, and its place is where the name leads
  split at h
  · next place found hfind =>
    cases h
    refine ⟨place, by rw [place?, hfind, Entry.place?], ?_⟩
    unfold find at hfind
    split at hfind
    · cases hfind
    · split at hfind
      · -- a name that is too long leads nowhere
        cases hfind
      · exact follow_file hfind
  all_goals cases h

/-- A file whose place is found is written there. -/
theorem write_of_place (h : w.place? name = some place) (text : String) :
    w.write name text = .ok (w.put place text) := by
  unfold place? at h
  unfold write
  cases hfind : w.find name with
  | file | free =>
    rw [hfind] at h
    cases h
    rfl
  | directory | fault =>
    rw [hfind] at h
    cases h

/-- Writing changes one file. -/
theorem contents?_put (w : Workspace) (place : List String) (text : String) (other : List String) :
    (w.put place text).contents? other =
      if other = place then some text else w.contents? other := by
  unfold contents? put
  induction w.files with
  | nil =>
    simp only [List.filter_nil, List.nil_append, List.lookup_cons]
    by_cases hother : other = place
    · simp [hother]
    · simp [hother, beq_false_of_ne hother]
  | cons f rest ih =>
    obtain ⟨taken, old⟩ := f
    by_cases htaken : taken = place
    · -- the old contents are gone
      simp only [htaken, bne_self_eq_false, Bool.false_eq_true, not_false_eq_true,
        List.filter_cons_of_neg, ih, List.lookup_cons]
      split
      · rfl
      · rw [beq_false_of_ne ‹_›]
    · simp only [bne_iff_ne, ne_eq, htaken, not_false_eq_true, List.filter_cons_of_pos,
        List.cons_append, List.lookup_cons, ih]
      by_cases hother : other = taken
      · simp [hother, htaken]
      · simp [beq_false_of_ne hother]

/-! ### Where names lead -/

/-- A directory is the root, or a place that a file lies behind. -/
theorem isDirectory_iff (w : Workspace) (place : List String) :
    w.isDirectory place = true ↔
      place = [] ∨ ∃ f ∈ w.files, place <+: f.1 ∧ place.length < f.1.length := by
  simp [isDirectory]

/-- What leads to a directory is one. -/
theorem isDirectory_of_prefix {outer inner : List String} (h : outer <+: inner)
    (hinner : w.isDirectory inner = true) : w.isDirectory outer = true := by
  rw [isDirectory_iff] at hinner ⊢
  obtain rfl | ⟨f, hf, hpre, hlt⟩ := hinner
  · exact .inl (List.prefix_nil.1 h)
  · have := h.length_le
    exact .inr ⟨f, hf, h.trans hpre, by omega⟩

/-- A name leads to a place in a directory. -/
theorem follow_inside {start : Option (List String)} {parts : List String}
    (hstart : ∀ dir, start = some dir → w.isDirectory dir = true)
    (h : (w.follow start parts).place? = some place) :
    ∃ dir last, w.isDirectory dir = true ∧ place = dir ++ [last] := by
  -- induction along the parts of the name
  fun_induction follow w start parts with
  | case1 | case3 | case5 | case8 | case10 => cases h
  | case2 _ ih => exact ih (by simp) h
  -- two points lead to the directory outside, which is one as well
  | case4 dir _ ih =>
    apply ih _ h
    intro outer houter
    split at houter
    · cases houter
    · cases houter
      exact isDirectory_of_prefix (List.dropLast_prefix dir) (hstart dir rfl)
  -- a part leads into a directory
  | case6 _ _ _ _ _ _ hdir ih =>
    apply ih _ h
    intro dir heq
    cases heq
    exact hdir
  -- the last part names a place in the directory
  | case7 dir last | case9 dir last =>
    exact ⟨dir, last, hstart dir rfl, (Option.some.inj h).symm⟩

/-- Writing at a place that a name leads to makes no directory and takes none away. -/
theorem isDirectory_put (h : w.place? name = some place) (text : String) (dir : List String) :
    (w.put place text).isDirectory dir = w.isDirectory dir := by
  obtain ⟨outer, last, houter, hplace⟩ : ∃ outer last, w.isDirectory outer = true ∧
      place = outer ++ [last] := by
    unfold place? find at h
    split at h
    · cases h
    · split at h
      · cases h
      · apply follow_inside _ h
        intro dir hdir
        split at hdir <;> cases hdir
        simp [isDirectory]
  rw [Bool.eq_iff_iff]
  constructor
  · -- the file that was written is in a directory that was there
    intro hdir
    rw [isDirectory_iff] at hdir
    obtain rfl | ⟨f, hf, hpre, hlt⟩ := hdir
    · simp [isDirectory]
    · obtain hf | hf := List.mem_append.1 hf
      · rw [isDirectory_iff]
        exact .inr ⟨f, (List.mem_filter.1 hf).1, hpre, hlt⟩
      · cases List.mem_singleton.1 hf
        apply isDirectory_of_prefix _ houter
        apply List.prefix_of_prefix_length_le hpre
        · exact hplace ▸ List.prefix_append outer [last]
        · simp [hplace] at hlt
          omega
  · -- a file that was there is there, perhaps with other contents
    intro hdir
    rw [isDirectory_iff] at hdir ⊢
    obtain rfl | ⟨f, hf, hpre, hlt⟩ := hdir
    · exact .inl rfl
    · right
      by_cases heq : f.1 = place
      · exact ⟨(place, text), by simp [put], heq ▸ hpre, heq ▸ hlt⟩
      · exact ⟨f, by simp [put, hf, heq], hpre, hlt⟩

/-- One part of a name is followed without a look at contents. -/
theorem place?_follow_cons (w : Workspace) (dir : List String) {part : String} (rest : List String)
    (hpart : part ≠ "..") :
    (w.follow (some dir) (part :: rest)).place? =
      if maxPartBytes < part.utf8ByteSize then none
      else if w.isDirectory (dir ++ [part]) then (w.follow (some (dir ++ [part])) rest).place?
      else if rest.isEmpty then some (dir ++ [part]) else none := by
  -- one turn of the way, with a part that leads down
  rw [follow.eq_def]
  simp only
  split
  · rfl
  · -- the part is a directory, a file, or nothing
    split
    · rfl
    · cases rest <;> cases w.files.lookup (dir ++ [part]) <;> rfl

/-- Where names lead depends on the directories. -/
theorem follow_place?_congr {w' : Workspace} (h : ∀ dir, w'.isDirectory dir = w.isDirectory dir)
    (start : Option (List String)) (parts : List String) :
    (w'.follow start parts).place? = (w.follow start parts).place? := by
  induction parts generalizing start with
  | nil => cases start <;> rfl
  | cons part rest ih =>
    by_cases hpart : part = ".."
    · subst part
      cases start <;> rw [follow, follow, ih]
    · cases start with
      | none => rw [follow, follow] <;> simp_all
      | some dir => rw [place?_follow_cons _ _ _ hpart, place?_follow_cons _ _ _ hpart, h, ih]

/-- Where a name leads depends on the directories only. -/
theorem place?_congr {w' : Workspace} (h : ∀ dir, w'.isDirectory dir = w.isDirectory dir)
    (name : FileName) : w'.place? name = w.place? name := by
  unfold place? find
  split
  · rfl
  · split
    · rfl
    · exact follow_place?_congr h _ _

/-- After writing, names lead where they led before. -/
theorem place?_put (h : w.place? name = some place) (text : String) (other : FileName) :
    (w.put place text).place? other = w.place? other :=
  place?_congr (isDirectory_put h text) other

/-- Standard input leads nowhere. -/
theorem place?_of_files {w' : Workspace} (h : w'.files = w.files) (name : FileName) :
    w'.place? name = w.place? name :=
  place?_congr (fun dir => by rw [isDirectory, h, isDirectory]) name

/-- What a file holds depends on the files only. -/
theorem contents?_of_files {w' : Workspace} (h : w'.files = w.files) (place : List String) :
    w'.contents? place = w.contents? place := by
  rw [contents?, h, contents?]

end Reflow.Workspace
