import Wdb.Blob.Files
import Wdb.Lib.Runs

/-! Writers of grids and runs of `remove_unreferenced_files` side by side.

    A writer reserves an id, inserts the row, writes the file and commits, in a transaction that other
    sessions do not see before. A collector reads the ids that are committed, and then goes through the
    directory and removes the files that are not among them and whose last write is more than an hour
    ago. Time passes between any two steps. The row keeps the bytes that its writer has for it, so that
    they can be compared with the file. -/

namespace Wdb.Blob.Collector
open Relational Runs

/-- A row of `file_blob`, with the transaction that inserts it and what it has done so far. -/
structure Row where
  fileId : ℤ
  data : List UInt8
  writer : ℕ
  written : Option ℤ
  committed : Bool
  deriving DecidableEq

/-- `file_blob_pkey`. -/
def Row.clash (a b : Row) : Prop := a.fileId = b.fileId

instance : DecidableRel Row.clash := fun a b => inferInstanceAs (Decidable (a.fileId = b.fileId))

/-- A run of `remove_unreferenced_files` after its query: when it read the ids, and what it read. -/
structure Scan where
  begun : ℤ
  referencedFiles : List ℤ
  deriving DecidableEq

/-- The state of all sessions. -/
structure State where
  now : ℤ
  fileIdSeq : ℤ
  reserved : List (ℕ × ℤ)
  fileBlob : Table Row Row.clash
  directory : Directory
  scans : List Scan

/-- What a session does next. The first argument of a writer's action is its transaction. -/
inductive Action where
  | tick (seconds : ℕ)
  | reserveFileId (xid : ℕ)
  | insertFileBlob (xid : ℕ) (gridId : ℤ) (data : List UInt8)
  | writeFile (xid : ℕ) (gridId : ℤ)
  | commit (xid : ℕ)
  | abort (xid : ℕ)
  | allReferencedFiles
  | visit (scan : Scan) (f : File)
  deriving DecidableEq

/-- The rows that a transaction has inserted and not committed. -/
def Row.pending (r : Row) (xid : ℕ) : Bool := r.writer = xid ∧ ¬ r.committed

/-- The row of an id that its writer is to write the file for. -/
def Row.unwritten (r : Row) (xid : ℕ) (gridId : ℤ) : Bool :=
  r.fileId = gridId ∧ r.pending xid ∧ r.written = none

section Step
variable (s : State)

/-- The row's file is written: it is recorded when. -/
def setWritten (xid : ℕ) (gridId : ℤ) : Table Row Row.clash :=
  s.fileBlob.update (fun r => r.unwritten xid gridId) (fun r => { r with written := some s.now })
    (fun _ _ h => h) (fun _ _ h => h)

/-- The rows of a transaction become visible. -/
def setCommitted (xid : ℕ) : Table Row Row.clash :=
  s.fileBlob.update (fun r => r.pending xid) (fun r => { r with committed := true })
    (fun _ _ h => h) (fun _ _ h => h)

/-- One step, when it is enabled. A call of `write_file` inserts the row and writes the file, so that a
    transaction commits only when the file of every row it inserted is written. -/
def step : Action → Option State
  | .tick seconds => some { s with now := s.now + seconds }
  | .reserveFileId xid =>
    some { s with fileIdSeq := s.fileIdSeq + 1, reserved := (xid, s.fileIdSeq) :: s.reserved }
  | .insertFileBlob xid gridId data =>
    if (xid, gridId) ∈ s.reserved then
      (s.fileBlob.insert ⟨gridId, data, xid, none, false⟩).map fun t => { s with fileBlob := t }
    else none
  | .writeFile xid gridId =>
    (s.fileBlob.rows.find? fun r => r.unwritten xid gridId).map fun r =>
      { s with
        fileBlob := setWritten s xid gridId
        directory := applyAll s.directory (Blob.writeFile gridId r.data s.now) }
  | .commit xid =>
    if (∀ r ∈ s.fileBlob.rows, r.pending xid → r.written ≠ none) then
      some { s with
        reserved := s.reserved.filter fun p => p.1 ≠ xid
        fileBlob := setCommitted s xid }
    else none
  | .abort xid =>
    some { s with
      reserved := s.reserved.filter fun p => p.1 ≠ xid
      fileBlob := s.fileBlob.delete fun r => r.pending xid }
  | .allReferencedFiles =>
    some { s with
      scans := ⟨s.now, (s.fileBlob.rows.filter (·.committed)).map (·.fileId)⟩ :: s.scans }
  | .visit scan f =>
    if scan ∈ s.scans ∧ f ∈ s.directory.rows then
      some { s with
        directory := if obsolete scan.referencedFiles s.now f then s.directory.remove f.id
          else s.directory }
    else none

end Step

/-- No session has begun, and every row is committed and has its file. -/
structure Initial (s : State) : Prop where
  scans : s.scans = []
  rows : ∀ r ∈ s.fileBlob.rows, r.committed = true ∧
    ∃ f ∈ s.directory.rows, f.id = r.fileId ∧ f.data = r.data ∧ r.written = some f.writeTime

/-- Every committed row has a file that holds its bytes. -/
def Kept (s : State) : Prop :=
  ∀ r ∈ s.fileBlob.rows, r.committed = true →
    ∃ f ∈ s.directory.rows, f.id = r.fileId ∧ f.data = r.data

instance (s : State) : Decidable (Kept s) := inferInstanceAs (Decidable (∀ r ∈ _, _ → _))

/-- A writer commits at most `A` seconds after it wrote a file, and a collector comes to no file more
    than `B` seconds after it read the ids. -/
def Timely (A B : ℕ) (s : State) : Action → Prop
  | .commit xid => ∀ r ∈ s.fileBlob.rows, r.pending xid → ∀ w, r.written = some w → s.now ≤ w + A
  | .visit scan _ => s.now ≤ scan.begun + B
  | _ => True

/-! ### The invariant -/

/-- The file of a row, as its writer wrote it. -/
def HasFile (d : Directory) (r : Row) : Prop :=
  ∃ f ∈ d.rows, f.id = r.fileId ∧ f.data = r.data ∧ r.written = some f.writeTime

/-- A committed row was written. A written row has its file, or its transaction is too old to commit. A
    collector that misses a committed row read the ids before the row got too old to commit. -/
structure Inv (A : ℕ) (s : State) : Prop where
  begun : ∀ σ ∈ s.scans, σ.begun ≤ s.now
  written : ∀ r ∈ s.fileBlob.rows, r.committed = true → r.written ≠ none
  file : ∀ r ∈ s.fileBlob.rows, ∀ w, r.written = some w →
    HasFile s.directory r ∨ r.committed = false ∧ w + A < s.now
  missed : ∀ σ ∈ s.scans, ∀ r ∈ s.fileBlob.rows, r.committed = true →
    r.fileId ∉ σ.referencedFiles → ∀ w, r.written = some w → σ.begun ≤ w + A

section Steps
variable {A B : ℕ} {s s' : State}

theorem Initial.inv (h : Initial s) : Inv A s where
  begun σ hσ := by rw [h.scans] at hσ; cases hσ
  written r hr _ := by
    obtain ⟨_, f, _, _, _, hw⟩ := h.rows r hr
    rw [hw]
    exact Option.some_ne_none _
  file r hr w hw := Or.inl (h.rows r hr).2
  missed σ hσ := by rw [h.scans] at hσ; cases hσ

theorem Inv.kept (h : Inv A s) : Kept s := by
  intro r hr hcom
  obtain ⟨w, hw⟩ := Option.ne_none_iff_exists'.1 (h.written r hr hcom)
  rcases h.file r hr w hw with ⟨f, hf, hid, hdata, _⟩ | ⟨hno, _⟩
  · exact ⟨f, hf, hid, hdata⟩
  · rw [hcom] at hno; cases hno

theorem pending_iff {r : Row} {xid : ℕ} :
    r.pending xid = true ↔ r.writer = xid ∧ r.committed = false := by
  simp [Row.pending]

theorem unwritten_iff {r : Row} {xid : ℕ} {gridId : ℤ} : r.unwritten xid gridId = true ↔
    r.fileId = gridId ∧ (r.writer = xid ∧ r.committed = false) ∧ r.written = none := by
  simp [Row.unwritten, pending_iff]

theorem inv_tick {seconds : ℕ} (hi : Inv A s) : Inv A { s with now := s.now + seconds } where
  begun σ hσ := by have := hi.begun σ hσ; simp only; omega
  written := hi.written
  file r hr w hw := (hi.file r hr w hw).imp_right fun ⟨hc, hlt⟩ => ⟨hc, by simp only; omega⟩
  missed := hi.missed

theorem inv_insert {xid : ℕ} {gridId : ℤ} {data : List UInt8} {t : Table Row Row.clash}
    (ht : s.fileBlob.insert ⟨gridId, data, xid, none, false⟩ = some t) (hi : Inv A s) :
    Inv A { s with fileBlob := t } := by
  have hmem : ∀ r ∈ t.rows, r ∈ s.fileBlob.rows ∨ r = ⟨gridId, data, xid, none, false⟩ := by
    intro r hr
    rw [(Table.insert_eq_some ht).2] at hr
    simpa using hr
  refine ⟨hi.begun, fun r hr hc => ?_, fun r hr w hw => ?_, fun σ hσ r hr hc href w hw => ?_⟩
  · rcases hmem r hr with hr | rfl
    · exact hi.written r hr hc
    · cases hc
  · rcases hmem r hr with hr | rfl
    · exact hi.file r hr w hw
    · cases hw
  · rcases hmem r hr with hr | rfl
    · exact hi.missed σ hσ r hr hc href w hw
    · cases hc

/-- Writing a file touches no other. -/
theorem mem_writeFile {d : Directory} {gridId now : ℤ} {data : List UInt8} {f : File} :
    f ∈ (applyAll d (Blob.writeFile gridId data now)).rows ↔
      f ∈ d.rows ∧ f.id ≠ gridId ∨ f = ⟨gridId, data, now⟩ := by
  refine mem_create.trans (or_congr_left ?_)
  exact (and_congr_left' mem_remove).trans (by rw [and_assoc, and_self])

theorem inv_writeFile {xid : ℕ} {gridId : ℤ} {r₀ : Row} (hr₀ : r₀ ∈ s.fileBlob.rows)
    (hun₀ : r₀.unwritten xid gridId) (hi : Inv A s) :
    Inv A { s with
      fileBlob := setWritten s xid gridId
      directory := applyAll s.directory (Blob.writeFile gridId r₀.data s.now) } := by
  -- a row is the one that is written, or another that is not of its id
  have hmem : ∀ r ∈ (setWritten s xid gridId).rows,
      r = { r₀ with written := some s.now } ∨ r ∈ s.fileBlob.rows ∧ r.fileId ≠ gridId := by
    intro r hr
    obtain ⟨a, ha, rfl⟩ := List.mem_map.1 hr
    have hid₀ := (unwritten_iff.1 hun₀).1
    by_cases hid : a.fileId = gridId
    · obtain rfl : a = r₀ := s.fileBlob.eq_of_clash (fun _ _ h => h.symm) ha hr₀ (hid.trans hid₀.symm)
      left
      unfold Table.updateRow
      rw [if_pos hun₀]
    · right
      have hun : ¬ a.unwritten xid gridId = true := fun h => hid (unwritten_iff.1 h).1
      unfold Table.updateRow
      rw [if_neg hun]
      exact ⟨ha, hid⟩
  obtain ⟨hid₀, ⟨_, hcom₀⟩, _⟩ := unwritten_iff.1 hun₀
  refine ⟨hi.begun, fun r hr hc => ?_, fun r hr w hw => ?_, fun σ hσ r hr hc href w hw => ?_⟩
  · rcases hmem r hr with rfl | ⟨hr, _⟩
    · exact Option.some_ne_none _
    · exact hi.written r hr hc
  · rcases hmem r hr with rfl | ⟨hr, hid⟩
    · exact Or.inl ⟨_, mem_writeFile.2 (Or.inr rfl), hid₀.symm, rfl, rfl⟩
    · refine (hi.file r hr w hw).imp_left ?_
      rintro ⟨f, hf, hfid, hdata, hwt⟩
      exact ⟨f, mem_writeFile.2 (Or.inl ⟨hf, hfid ▸ hid⟩), hfid, hdata, hwt⟩
  · rcases hmem r hr with rfl | ⟨hr, _⟩
    · exact absurd hc (by simp [hcom₀])
    · exact hi.missed σ hσ r hr hc href w hw

theorem inv_commit {xid : ℕ} (hall : ∀ r ∈ s.fileBlob.rows, r.pending xid → r.written ≠ none)
    (htime : Timely A B s (.commit xid)) (hi : Inv A s) :
    Inv A { s with
      reserved := s.reserved.filter fun p => p.1 ≠ xid
      fileBlob := setCommitted s xid } := by
  have hmem : ∀ r ∈ (setCommitted s xid).rows, r ∈ s.fileBlob.rows ∨
      ∃ a ∈ s.fileBlob.rows, a.pending xid ∧ r = { a with committed := true } := by
    intro r hr
    obtain ⟨a, ha, rfl⟩ := List.mem_map.1 hr
    unfold Table.updateRow
    by_cases hp : a.pending xid = true
    · rw [if_pos hp]; exact Or.inr ⟨a, ha, hp, rfl⟩
    · rw [if_neg hp]; exact Or.inl ha
  refine ⟨hi.begun, fun r hr hc => ?_, fun r hr w hw => ?_, fun σ hσ r hr hc href w hw => ?_⟩
  · rcases hmem r hr with hr | ⟨a, ha, hp, rfl⟩
    · exact hi.written r hr hc
    · exact hall a ha hp
  · rcases hmem r hr with hr | ⟨a, ha, hp, rfl⟩
    · exact hi.file r hr w hw
    · rcases hi.file a ha w hw with hfile | ⟨_, hlt⟩
      · exact Or.inl hfile
      · have := htime a ha hp w hw
        omega
  · rcases hmem r hr with hr | ⟨a, ha, hp, rfl⟩
    · exact hi.missed σ hσ r hr hc href w hw
    · exact (hi.begun σ hσ).trans (htime a ha hp w hw)

theorem inv_abort {xid : ℕ} (hi : Inv A s) :
    Inv A { s with
      reserved := s.reserved.filter fun p => p.1 ≠ xid
      fileBlob := s.fileBlob.delete fun r => r.pending xid } where
  begun := hi.begun
  written r hr := hi.written r (Table.mem_delete.1 hr).1
  file r hr := hi.file r (Table.mem_delete.1 hr).1
  missed σ hσ r hr := hi.missed σ hσ r (Table.mem_delete.1 hr).1

theorem inv_allReferencedFiles (hi : Inv A s) :
    Inv A { s with
      scans := ⟨s.now, (s.fileBlob.rows.filter (·.committed)).map (·.fileId)⟩ :: s.scans } where
  begun σ hσ := by
    rcases List.mem_cons.1 hσ with rfl | hσ
    · exact le_rfl
    · exact hi.begun σ hσ
  written := hi.written
  file := hi.file
  missed σ hσ r hr hc href w hw := by
    rcases List.mem_cons.1 hσ with rfl | hσ
    · exact absurd (List.mem_map.2 ⟨r, List.mem_filter.2 ⟨hr, hc⟩, rfl⟩) href
    · exact hi.missed σ hσ r hr hc href w hw

/-- The file that a collector removes is not that of a committed row. -/
theorem inv_visit {σ : Scan} {f : File} (hAB : A + B ≤ 3600) (hσ : σ ∈ s.scans)
    (hf : f ∈ s.directory.rows) (hobs : obsolete σ.referencedFiles s.now f)
    (htime : s.now ≤ σ.begun + B) (hi : Inv A s) :
    Inv A { s with directory := s.directory.remove f.id } := by
  obtain ⟨href, hold⟩ := of_decide_eq_true hobs
  refine ⟨hi.begun, hi.written, fun r hr w hw => ?_, hi.missed⟩
  rcases hi.file r hr w hw with ⟨g, hg, hid, hdata, hwt⟩ | hlost
  · by_cases hgf : g.id = f.id
    · obtain rfl : g = f := s.directory.eq_of_clash (fun _ _ h => h.symm) hg hf hgf
      obtain rfl : g.writeTime = w := Option.some_inj.1 (hwt.symm.trans hw)
      right
      cases hc : r.committed with
      | false => exact ⟨rfl, by simp only; omega⟩
      | true =>
        have := hi.missed σ hσ r hr hc (hid ▸ href) _ hw
        omega
    · exact Or.inl ⟨g, mem_remove.2 ⟨hg, hgf⟩, hid, hdata, hwt⟩
  · exact Or.inr hlost

/-- Every timely step keeps the invariant. -/
theorem inv_step (hAB : A + B ≤ 3600) {a : Action} (hi : Inv A s) (htime : Timely A B s a)
    (h : step s a = some s') : Inv A s' := by
  cases a with
  | tick seconds =>
    obtain rfl := Option.some_inj.1 h
    exact inv_tick hi
  | reserveFileId xid =>
    obtain rfl := Option.some_inj.1 h
    exact ⟨hi.begun, hi.written, hi.file, hi.missed⟩
  | insertFileBlob xid gridId data =>
    simp only [step] at h
    split at h
    · obtain ⟨t, ht, rfl⟩ := Option.map_eq_some_iff.1 h
      exact inv_insert ht hi
    · cases h
  | writeFile xid gridId =>
    obtain ⟨r, hr, rfl⟩ := Option.map_eq_some_iff.1 h
    exact inv_writeFile (List.mem_of_find?_eq_some hr)
        (List.find?_some (p := fun r : Row => r.unwritten xid gridId) hr) hi
  | commit xid =>
    simp only [step] at h
    split at h
    · next hall =>
      obtain rfl := Option.some_inj.1 h
      exact inv_commit hall htime hi
    · cases h
  | abort xid =>
    obtain rfl := Option.some_inj.1 h
    exact inv_abort hi
  | allReferencedFiles =>
    obtain rfl := Option.some_inj.1 h
    exact inv_allReferencedFiles hi
  | visit scan f =>
    simp only [step] at h
    split at h
    · next hmem =>
      obtain rfl := Option.some_inj.1 h
      split
      · next hobs => exact inv_visit hAB hmem.1 hmem.2 hobs htime hi
      · exact hi
    · cases h

end Steps

/-! ### How old a transaction and a scan may get -/

/-- No rows and no files. -/
def empty : State := ⟨0, 1, [], .empty, .empty, []⟩

/-- A grid of one byte that was written at time 0. -/
def oneGrid (now : ℤ) (committed : Bool) (scans : List Scan) : State where
  now := now
  fileIdSeq := 2
  reserved := if committed then [] else [(0, 1)]
  fileBlob := ⟨[⟨1, [0], 0, some 0, committed⟩], List.pairwise_singleton _ _⟩
  directory := ⟨[⟨1, [0], 0⟩], List.pairwise_singleton _ _⟩
  scans := scans

/-- A grid is written, `A` seconds later a collector reads the ids and the writer commits, and `B` seconds
    after that the collector comes to the file. -/
def lateVisit (A B : ℕ) : List Action :=
  [.reserveFileId 0, .insertFileBlob 0 1 [0], .writeFile 0 1, .tick A, .allReferencedFiles, .commit 0,
    .tick B, .visit ⟨0 + A, []⟩ ⟨1, [0], 0⟩]

theorem empty_initial : Initial empty := ⟨rfl, fun _ h => nomatch h⟩

section Late
variable (A B : ℕ)

theorem lateVisit_timely : EachOf step (Timely A B) empty (lateVisit A B) := by
  refine .cons step rfl trivial (.cons step rfl trivial ?_)
  refine .cons step (t := oneGrid 0 false []) rfl trivial ?_
  refine .cons step (t := oneGrid (0 + A) false []) rfl trivial ?_
  refine .cons step (t := oneGrid (0 + A) false [⟨0 + A, []⟩]) rfl trivial ?_
  refine .cons step (t := oneGrid (0 + A) true [⟨0 + A, []⟩]) rfl ?_ ?_
  · intro r hr _ w hw
    obtain rfl := List.mem_singleton.1 hr
    obtain rfl := Option.some_inj.1 hw
    exact le_rfl
  refine .cons step (t := oneGrid (0 + A + B) true [⟨0 + A, []⟩]) rfl trivial ?_
  exact ⟨le_rfl, fun _ _ => trivial⟩

theorem lateVisit_removes (h : 3600 < A + B) :
    ∃ s', exec step empty (lateVisit A B) = some s' ∧ ¬ Kept s' := by
  refine ⟨{ oneGrid (0 + A + B) true [⟨0 + A, []⟩] with directory := .empty }, ?_, ?_⟩
  · unfold lateVisit
    rw [exec_cons step rfl, exec_cons step rfl, exec_cons step (t := oneGrid 0 false []) rfl,
      exec_cons step (t := oneGrid (0 + A) false []) rfl,
      exec_cons step (t := oneGrid (0 + A) false [⟨0 + A, []⟩]) rfl,
      exec_cons step (t := oneGrid (0 + A) true [⟨0 + A, []⟩]) rfl,
      exec_cons step (t := oneGrid (0 + A + B) true [⟨0 + A, []⟩]) rfl]
    have hobs : obsolete [] (0 + A + B) ⟨1, [0], 0⟩ = true :=
      decide_eq_true ⟨List.not_mem_nil, by simp only; omega⟩
    refine (exec_cons step ?_ []).trans rfl
    simp only [step]
    rw [if_pos ⟨List.mem_cons_self, List.mem_cons_self⟩]
    simp only [oneGrid, hobs, if_true]
    rfl
  · intro hkept
    obtain ⟨f, hf, _⟩ := hkept _ List.mem_cons_self rfl
    cases hf

end Late

/-- A transaction that is open for more than an hour loses its file to a collector. -/
theorem openTransaction_loses : Initial empty ∧
    ∃ s', exec step empty (lateVisit 3601 0) = some s' ∧ ¬ Kept s' :=
  ⟨empty_initial, lateVisit_removes 3601 0 (by decide)⟩

/-- Committed rows keep their files in all runs whose transactions commit within `A` seconds of writing a
    file and whose collectors use their ids for `B` seconds, exactly when the two together are no more
    than an hour. -/
theorem kept_iff (A B : ℕ) :
    (∀ (s s' : State) (acts : List Action), Initial s → EachOf step (Timely A B) s acts →
      exec step s acts = some s' → Kept s') ↔ A + B ≤ 3600 := by
  constructor
  · intro h
    by_contra hlate
    obtain ⟨s', hexec, hlost⟩ := lateVisit_removes A B (by omega)
    exact hlost (h empty s' _ empty_initial (lateVisit_timely A B) hexec)
  · intro hAB s s' acts hs htimely hexec
    exact (inv_exec_eachOf step (Inv A) (fun _ _ _ hi ht h => inv_step hAB hi ht h) acts s s'
      hs.inv htimely hexec).kept

end Wdb.Blob.Collector
