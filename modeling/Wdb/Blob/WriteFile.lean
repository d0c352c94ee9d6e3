import Wdb.Blob.Files

/-! `writeFile` step by step.

    The old file is removed, the data goes to a temporary file through a buffered stream, the stream's
    state is checked, the temporary file gets its name, and the stream is closed when the function
    returns. What each call to the system does is given; a crash may come after any step. -/

namespace Wdb.Blob
open Relational

/-- What the system does in one call of `writeFile`. -/
structure System where
  /-- `initializeFileStorage` and `fs::exists` do not throw. -/
  finds : Bool
  /-- `fs::remove` does not throw. -/
  removes : Bool
  /-- The temporary file can be opened. -/
  opens : Bool
  /-- How many bytes have reached the temporary file when `f.write` is done; the rest is in the buffer. -/
  written : ℕ
  /-- No error while writing. -/
  writes : Bool
  /-- `fs::rename` does not throw. -/
  renames : Bool
  /-- How many bytes of the buffer are written when the stream is closed. -/
  closes : ℕ
  deriving DecidableEq

/-- Where the function is. -/
inductive Point where
  | entered | removed | opened | written | checked | renamed | returned | raised
  deriving DecidableEq

/-- The function as it runs: the storage directory, the temporary file, and the stream, which is writing
    to the temporary file whatever its name. -/
structure Writing where
  directory : Directory
  tmpFile : Option (List UInt8)
  buffer : List UInt8
  good : Bool
  point : Point

/-- The bytes of a file. -/
def Directory.content (d : Directory) (id : ℤ) : Option (List UInt8) :=
  (d.rows.find? fun f => f.id = id).map (·.data)

section WriteFile
variable (sys : System) (id : ℤ) (data : List UInt8) (now : ℤ)

/-- The call. -/
def Writing.start (d : Directory) : Writing := ⟨d, none, [], true, .entered⟩

/-- An exception: the stream is closed on the way out. -/
def Writing.raise (w : Writing) : Writing :=
  { w with tmpFile := w.tmpFile.map (· ++ w.buffer.take sys.closes), buffer := [], point := .raised }

/-- The next step of `writeFile`. -/
def Writing.step (w : Writing) : Writing :=
  match w.point with
  | .entered =>
    if sys.finds then
      if (w.directory.content id).isSome then
        if sys.removes then
          { w with directory := FileStep.apply w.directory (.remove id), point := .removed }
        else w.raise sys
      else { w with point := .removed }
    else w.raise sys
  | .removed =>
    if sys.opens then { w with tmpFile := some [], point := .opened }
    else { w with good := false, point := .opened }
  | .opened =>
    if w.good then
      { w with
        tmpFile := w.tmpFile.map (· ++ data.take sys.written)
        buffer := data.drop sys.written
        good := sys.writes
        point := .written }
    else { w with point := .written }
  | .written => if w.good then { w with point := .checked } else w.raise sys
  | .checked =>
    if sys.renames then
      { w with
        directory := FileStep.apply w.directory (.create ⟨id, w.tmpFile.getD [], now⟩)
        tmpFile := none
        point := .renamed }
    else w.raise sys
  | .renamed =>
    { w with
      directory := FileStep.apply w.directory
        (.create ⟨id, (w.directory.content id).getD [] ++ w.buffer.take sys.closes, now⟩)
      buffer := []
      point := .returned }
  | .returned | .raised => w

/-- The function after a number of steps. -/
def Writing.after (d : Directory) (n : ℕ) : Writing := (Writing.step sys id data now)^[n] (.start d)

/-- In every state the file is as it was, or holds the data; and it does when the function returns. -/
structure Atomic (d : Directory) : Prop where
  always : ∀ n, (Writing.after sys id data now d n).directory.content id = d.content id ∨
    (Writing.after sys id data now d n).directory.content id = some data
  returned : ∀ n, (Writing.after sys id data now d n).point = .returned →
    (Writing.after sys id data now d n).directory.content id = some data

end WriteFile

/-! ### The states of a call -/

section Lemmas
variable {sys : System} {id : ℤ} {data : List UInt8} {now : ℤ} {d : Directory}

theorem content_remove (d : Directory) (id : ℤ) :
    Directory.content (FileStep.apply d (.remove id)) id = none := by
  rw [Directory.content, Option.map_eq_none_iff, List.find?_eq_none]
  intro f hf
  simpa using (mem_remove.1 hf).2

theorem content_create (d : Directory) (f : File) :
    Directory.content (FileStep.apply d (.create f)) f.id = some f.data := by
  have hfind := (find_file (d := FileStep.apply d (.create f))).2 ⟨mem_create.2 (Or.inr rfl), rfl⟩
  rw [Directory.content, hfind, Option.map_some]

theorem after_succ (n : ℕ) : Writing.after sys id data now d (n + 1) =
    (Writing.after sys id data now d n).step sys id data now :=
  Function.iterate_succ_apply' _ _ _

/-- What is so before a step and kept by it is so after any number of steps. -/
theorem after_induction {P : Writing → Prop} (hstart : P (.start d))
    (hstep : ∀ w, P w → P (w.step sys id data now)) (n : ℕ) : P (Writing.after sys id data now d n) := by
  induction n with
  | zero => exact hstart
  | succ n ih =>
    rw [after_succ]
    exact hstep _ ih

/-- A function that raises at once has done nothing. -/
structure Untouched (d : Directory) (w : Writing) : Prop where
  directory : w.directory = d
  point : w.point = .entered ∨ w.point = .raised

/-- When the old file cannot be found or removed, the function only raises. -/
theorem Untouched.step {w : Writing} (h : Untouched d w)
    (hsys : sys.finds = false ∨ (d.content id).isSome ∧ sys.removes = false) :
    Untouched d (w.step sys id data now) := by
  obtain ⟨hdir, hpoint | hpoint⟩ := h
  · have hraise : w.step sys id data now = w.raise sys := by
      rcases hsys with hfinds | ⟨hold, hremoves⟩
      · simp [Writing.step, hpoint, hfinds]
      · simp [Writing.step, hpoint, hdir, hold, hremoves]
    rw [hraise]
    exact ⟨hdir, Or.inr rfl⟩
  · have hstay : w.step sys id data now = w := by simp [Writing.step, hpoint]
    rw [hstay]
    exact ⟨hdir, Or.inr hpoint⟩

/-- What a function has done that found no old file: nothing until the rename, and then the file has the
    bytes that were written by then. -/
def Fresh (sys : System) (id : ℤ) (data : List UInt8) (w : Writing) : Prop :=
  match w.point with
  | .entered | .removed | .raised => w.directory.content id = none
  | .opened => w.directory.content id = none ∧ (w.good → sys.opens ∧ w.tmpFile = some [])
  | .written => w.directory.content id = none ∧ (w.good → sys.opens ∧ sys.writes ∧
      w.tmpFile = some (data.take sys.written) ∧ w.buffer = data.drop sys.written)
  | .checked => w.directory.content id = none ∧ sys.opens ∧ sys.writes ∧
      w.tmpFile = some (data.take sys.written) ∧ w.buffer = data.drop sys.written
  | .renamed => sys.opens ∧ sys.writes ∧ sys.renames ∧
      w.directory.content id = some (data.take sys.written) ∧ w.buffer = data.drop sys.written
  | .returned => sys.opens ∧ sys.writes ∧ sys.renames ∧ w.directory.content id =
      some (data.take sys.written ++ (data.drop sys.written).take sys.closes)

theorem Fresh.step {w : Writing} (h : Fresh sys id data w) : Fresh sys id data (w.step sys id data now) := by
  obtain ⟨directory, tmpFile, buffer, good, point⟩ := w
  cases point with
  | entered =>
    have hold : directory.content id = none := h
    by_cases hfinds : sys.finds <;> simp [Writing.step, hfinds, hold, Fresh, Writing.raise]
  | removed =>
    have hold : directory.content id = none := h
    by_cases hopens : sys.opens <;> simp [Writing.step, hopens, hold, Fresh]
  | opened =>
    obtain ⟨hold, hgood⟩ := h
    cases good with
    | false => simpa [Writing.step, Fresh] using hold
    | true =>
      obtain ⟨hopens, htmp⟩ := hgood rfl
      have htmp : tmpFile = some [] := htmp
      simp [Writing.step, Fresh, hopens, htmp]
      exact hold
  | written =>
    obtain ⟨hold, hgood⟩ := h
    cases good with
    | false => simpa [Writing.step, Fresh, Writing.raise] using hold
    | true => exact ⟨hold, hgood rfl⟩
  | checked =>
    obtain ⟨hold, hopens, hwrites, htmp, hbuffer⟩ := h
    by_cases hrenames : sys.renames
    · have htmp : tmpFile = some (data.take sys.written) := htmp
      simp only [Writing.step, hrenames, if_true, htmp, Option.getD_some]
      exact ⟨hopens, hwrites, hrenames, content_create _ ⟨id, _, now⟩, hbuffer⟩
    · simpa [Writing.step, Fresh, Writing.raise, hrenames] using hold
  | renamed =>
    obtain ⟨hopens, hwrites, hrenames, hcontent, hbuffer⟩ := h
    have hcontent : directory.content id = some (data.take sys.written) := hcontent
    have hbuffer : buffer = data.drop sys.written := hbuffer
    simp only [Writing.step, hcontent, hbuffer, Option.getD_some]
    exact ⟨hopens, hwrites, hrenames, content_create _ ⟨id, _, now⟩⟩
  | returned => exact h
  | raised => exact h

/-- The file as it gets its name. -/
theorem content_renamed (hfinds : sys.finds) (hold : d.content id = none) (hopens : sys.opens)
    (hwrites : sys.writes) (hrenames : sys.renames) :
    (Writing.after sys id data now d 5).directory.content id = some (data.take sys.written) := by
  have hstart : Writing.after sys id data now d 0 = .start d := rfl
  have h : Writing.after sys id data now d 5 = ⟨FileStep.apply d (.create ⟨id, data.take sys.written, now⟩),
      none, data.drop sys.written, true, .renamed⟩ := by
    simp [after_succ, hstart, Writing.start, Writing.step, hfinds, hold, hopens, hwrites, hrenames]
  rw [h]
  exact content_create d ⟨id, _, now⟩

/-- An old file that is removed. -/
theorem content_removed (hfinds : sys.finds) (hold : (d.content id).isSome) (hremoves : sys.removes) :
    (Writing.after sys id data now d 1).directory.content id = none := by
  have hstart : Writing.after sys id data now d 0 = .start d := rfl
  have h : (Writing.after sys id data now d 1).directory = FileStep.apply d (.remove id) := by
    simp [after_succ, hstart, Writing.start, Writing.step, hfinds, hold, hremoves]
  rw [h]
  exact content_remove d id

/-- The function raises before it has removed a file; or there is none, and it raises before the rename
    or has written all the data by then. -/
def Harmless (sys : System) (id : ℤ) (data : List UInt8) (d : Directory) : Prop :=
  sys.finds = false ∨ ((d.content id).isSome ∧ sys.removes = false) ∨
    (d.content id = none ∧
      (sys.opens = false ∨ sys.writes = false ∨ sys.renames = false ∨ data.length ≤ sys.written))

theorem Untouched.atomic (hsys : sys.finds = false ∨ (d.content id).isSome ∧ sys.removes = false) :
    Atomic sys id data now d := by
  have hall : ∀ n, Untouched d (Writing.after sys id data now d n) :=
    after_induction ⟨rfl, Or.inl rfl⟩ fun w hw => hw.step hsys
  refine ⟨fun n => Or.inl (by rw [(hall n).directory]), fun n hn => ?_⟩
  rcases (hall n).point with h | h <;> rw [h] at hn <;> cases hn

theorem Fresh.atomic (hold : d.content id = none)
    (hsys : sys.opens = false ∨ sys.writes = false ∨ sys.renames = false ∨ data.length ≤ sys.written) :
    Atomic sys id data now d := by
  have hall : ∀ n, Fresh sys id data (Writing.after sys id data now d n) :=
    after_induction hold fun w hw => hw.step
  have hcomplete : sys.opens → sys.writes → sys.renames → data.length ≤ sys.written :=
    fun hopens hwrites hrenames => by simpa [hopens, hwrites, hrenames] using hsys
  refine ⟨fun n => ?_, fun n hn => ?_⟩
  · have h := hall n
    rw [hold]
    unfold Fresh at h
    split at h
    · exact Or.inl h
    · exact Or.inl h
    · exact Or.inl h
    · exact Or.inl h.1
    · exact Or.inl h.1
    · exact Or.inl h.1
    · obtain ⟨hopens, hwrites, hrenames, hcontent, -⟩ := h
      rw [List.take_of_length_le (hcomplete hopens hwrites hrenames)] at hcontent
      exact Or.inr hcontent
    · obtain ⟨hopens, hwrites, hrenames, hcontent⟩ := h
      have hall := hcomplete hopens hwrites hrenames
      rw [List.take_of_length_le hall, List.drop_eq_nil_of_le hall, List.take_nil,
        List.append_nil] at hcontent
      exact Or.inr hcontent
  · have h := hall n
    simp only [Fresh, hn] at h
    obtain ⟨hopens, hwrites, hrenames, hcontent⟩ := h
    have hall := hcomplete hopens hwrites hrenames
    rwa [List.take_of_length_le hall, List.drop_eq_nil_of_le hall, List.take_nil,
      List.append_nil] at hcontent

/-- For every directory, every data and every way in which the system may fail: the file is as it was or
    holds the data after every step, and holds the data when the function returns, exactly when the
    function raises before it has removed anything, or finds no file and the stream has nothing in its
    buffer at the rename. -/
theorem writeFile_atomic_iff (sys : System) (id : ℤ) (data : List UInt8) (now : ℤ) (d : Directory) :
    Atomic sys id data now d ↔ Harmless sys id data d := by
  constructor
  · intro h
    by_cases hfinds : sys.finds
    · cases hold : d.content id with
      | some old =>
        have hsome : (d.content id).isSome := by rw [hold]; rfl
        refine Or.inr (Or.inl ⟨hsome, ?_⟩)
        by_contra hremoves
        have hone := h.always 1
        rw [content_removed hfinds hsome (by simpa using hremoves), hold] at hone
        rcases hone with hone | hone <;> cases hone
      | none =>
        refine Or.inr (Or.inr ⟨hold, ?_⟩)
        by_contra hno
        simp only [not_or, Bool.not_eq_false] at hno
        obtain ⟨hopens, hwrites, hrenames, hlength⟩ := hno
        have hfive := h.always 5
        rw [content_renamed hfinds hold hopens hwrites hrenames, hold] at hfive
        rcases hfive with hfive | hfive
        · cases hfive
        · have := congrArg List.length (Option.some_inj.1 hfive)
          rw [List.length_take] at this
          omega
    · exact Or.inl (by simpa using hfinds)
  · rintro (hfinds | ⟨hold, hremoves⟩ | ⟨hold, hsys⟩)
    · exact Untouched.atomic (Or.inl hfinds)
    · exact Untouched.atomic (Or.inr ⟨hold, hremoves⟩)
    · exact Fresh.atomic hold hsys

/-- A file that is created last replaces the others of its name. -/
theorem rows_create_create (d : Directory) (f g : File) (h : f.id = g.id) :
    (FileStep.apply (FileStep.apply d (.create f)) (.create g)).rows =
      (FileStep.apply (FileStep.apply d (.remove g.id)) (.create g)).rows := by
  simp [FileStep.apply, Directory.remove, Table.delete, List.filter_filter, h]

theorem rows_remove_create (d : Directory) (f : File) :
    (FileStep.apply (FileStep.apply d (.remove f.id)) (.create f)).rows =
      (FileStep.apply d (.create f)).rows := by
  simp [FileStep.apply, Directory.remove, Table.delete, List.filter_filter]

/-- A function that has raised does nothing more. -/
theorem point_raised {n m : ℕ} (hn : (Writing.after sys id data now d n).point = .raised) (hle : n ≤ m) :
    (Writing.after sys id data now d m).point = .raised := by
  induction m, hle using Nat.le_induction with
  | base => exact hn
  | succ m _ ih =>
    rw [after_succ, Writing.step, ih]
    exact ih

/-- Nothing throws in the call. -/
structure Succeeds (sys : System) (id : ℤ) (d : Directory) : Prop where
  finds : sys.finds
  removes : (d.content id).isSome → sys.removes
  opens : sys.opens
  writes : sys.writes
  renames : sys.renames

variable (data now) in
/-- The first step removes the old file, if there is one. -/
theorem after_one (hfinds : sys.finds) (hremoves : (d.content id).isSome → sys.removes) :
    ∃ d' : Directory, (d' = d ∨ d' = FileStep.apply d (.remove id)) ∧
      Writing.after sys id data now d 1 = ⟨d', none, [], true, .removed⟩ := by
  have hone : Writing.after sys id data now d 1 = (Writing.start d).step sys id data now := rfl
  by_cases hold : (d.content id).isSome
  · refine ⟨_, Or.inr rfl, ?_⟩
    simp [hone, Writing.step, Writing.start, hfinds, hold, hremoves hold]
  · refine ⟨_, Or.inl rfl, ?_⟩
    simp [hone, Writing.step, Writing.start, hfinds, hold]

variable (data now) in
/-- When nothing throws, the file has its name after five steps, and the bytes that were written by then. -/
theorem Succeeds.after_five (h : Succeeds sys id d) :
    ∃ d' : Directory, (d' = d ∨ d' = FileStep.apply d (.remove id)) ∧ Writing.after sys id data now d 5 =
      ⟨FileStep.apply d' (.create ⟨id, data.take sys.written, now⟩), none, data.drop sys.written, true,
        .renamed⟩ := by
  obtain ⟨d', hcases, hone⟩ := after_one data now h.finds h.removes
  refine ⟨d', hcases, ?_⟩
  simp [after_succ 4, after_succ 3, after_succ 2, after_succ 1, hone, Writing.step, h.opens, h.writes, h.renames]

variable (data now) in
/-- What throws is raised within five steps. -/
theorem succeeds_or_raises :
    Succeeds sys id d ∨ (Writing.after sys id data now d 6).point = .raised := by
  rw [or_iff_not_imp_right]
  intro hend
  have hnot : ∀ n ≤ 6, (Writing.after sys id data now d n).point ≠ .raised := fun n hn hraised =>
    hend (point_raised hraised hn)
  have hone : Writing.after sys id data now d 1 = (Writing.start d).step sys id data now := rfl
  have hfinds : sys.finds := by
    by_contra hno
    exact hnot 1 (by decide) (by simp [hone, Writing.step, Writing.start, Writing.raise, hno])
  have hremoves : (d.content id).isSome → sys.removes := by
    intro hold
    by_contra hno
    exact hnot 1 (by decide) (by simp [hone, Writing.step, Writing.start, Writing.raise, hfinds, hold, hno])
  obtain ⟨d', -, hone⟩ := after_one data now hfinds hremoves
  -- the state of the stream is looked at in the fourth step
  have hfour : (Writing.after sys id data now d 4).point = if sys.opens && sys.writes then .checked else .raised := by
    cases hopens : sys.opens <;> cases hwrites : sys.writes <;>
      simp [after_succ 3, after_succ 2, after_succ 1, hone, Writing.step, Writing.raise, hopens, hwrites]
  have hgood : sys.opens && sys.writes := by
    by_contra hno
    exact hnot 4 (by decide) (by rw [hfour, if_neg hno])
  obtain ⟨hopens, hwrites⟩ := Bool.and_eq_true_iff.1 hgood
  refine ⟨hfinds, hremoves, hopens, hwrites, ?_⟩
  by_contra hno
  refine hnot 5 (by decide) ?_
  simp [after_succ 4, after_succ 3, after_succ 2, after_succ 1, hone, Writing.step, Writing.raise, hopens, hwrites, hno]

/-- After six steps the function has ended. -/
theorem point_after_six : (Writing.after sys id data now d 6).point = .returned ∨
    (Writing.after sys id data now d 6).point = .raised := by
  refine (succeeds_or_raises data now).imp_left fun h => ?_
  obtain ⟨d', -, hfive⟩ := h.after_five data now
  rw [after_succ, hfive, Writing.step]

/-- A call that returns does to the directory what `writeFile` says, with the bytes that have been written
    when the stream is closed. -/
theorem writing_refines (hreturned : (Writing.after sys id data now d 6).point = .returned) :
    (Writing.after sys id data now d 6).directory.rows =
      (applyAll d (writeFile id (data.take (sys.written + sys.closes)) now)).rows := by
  have hsucceeds : Succeeds sys id d := by
    refine (succeeds_or_raises data now).resolve_right fun hraised => ?_
    rw [hreturned] at hraised
    cases hraised
  obtain ⟨d', hd', hfive⟩ := hsucceeds.after_five data now
  have hbytes : data.take sys.written ++ (data.drop sys.written).take sys.closes =
      data.take (sys.written + sys.closes) := List.take_add.symm
  rw [after_succ, hfive]
  simp only [Writing.step, content_create d' ⟨id, _, now⟩, Option.getD_some, hbytes]
  rw [rows_create_create d' ⟨id, data.take sys.written, now⟩ ⟨id, data.take (sys.written + sys.closes), now⟩ rfl,
    rows_remove_create]
  rcases hd' with rfl | rfl
  · exact (rows_remove_create _ ⟨id, data.take (sys.written + sys.closes), now⟩).symm
  · rfl

end Lemmas

/-- A system in which nothing fails, and short data stays in the buffer until the stream is closed. -/
def bufferingSystem : System := ⟨true, true, true, 0, true, true, 4096⟩

/-- The empty directory. -/
def noFiles : Directory := ⟨[], .nil⟩

/-- Between rename and close the file is empty; and an old file is gone before the new one is there. -/
theorem writeFile_exposed :
    ¬ Atomic bufferingSystem 1 [0, 1] 0 noFiles ∧
    ¬ Atomic bufferingSystem 1 [0, 1] 0 (FileStep.apply noFiles (.create ⟨1, [2], 0⟩)) :=
  ⟨fun h => absurd (h.always 5) (by decide), fun h => absurd (h.always 1) (by decide)⟩

end Wdb.Blob
