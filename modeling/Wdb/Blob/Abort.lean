import Wdb.Blob.Statements

/-! What an abort leaves of the files.

    A transaction that aborts gets its rows back and keeps what it did to the files so far. As long as
    every row that could be read has its file, this is harmless for all statements but one:
    `vacuum_file_blob` removes the files of inactive rows, also of rows that the transaction itself
    made inactive, and `cleanupdb` runs it in the transaction of the cleaning functions. -/

namespace Wdb.Blob
open Relational Runs Store

/-- Every active row has its file. -/
def Intact (s : State) : Prop :=
  ∀ r ∈ s.fileBlob.rows, r.active = true → ∃ f ∈ s.directory.rows, f.id = r.fileId

/-- What an abort leaves: the rows as they were, and the files as the steps made them. The sequences
    keep what was drawn, and `read_file` looks at neither. -/
def aborted (s : State) (steps : List FileStep) : State :=
  { s with directory := applyAll s.directory steps }

/-- Wherever the statements abort, what could be read before can be read after. -/
def AbortSafe (cat : Catalog) (s : State) (sts : List Statement) : Prop :=
  ∀ steps, steps <+: trace (step cat) (fun s st => st.files cat s) s sts →
    ∀ id data, s.readFile id = some data → (aborted s steps).readFile id = some data

/-- A vacuum of a transaction begun in `s` that finds no row inactive which was active in `s`. -/
def VacuumsOld (s t : State) : Statement → Prop
  | .vacuumFileBlob => ∀ r ∈ t.fileBlob.rows, r.active = false → ⟨r.fileId, true⟩ ∉ s.fileBlob.rows
  | _ => True

section Abort
variable {cat : Catalog} {s t t' : State} {st : Statement} {id : ℤ} {data : List UInt8}

theorem State.readFile_eq_some : s.readFile id = some data ↔
    ⟨id, true⟩ ∈ s.fileBlob.rows ∧ ∃ f ∈ s.directory.rows, f.id = id ∧ f.data = data :=
  Blob.readFile_eq_some

/-- In an intact state the readable ids are those of the active rows. -/
theorem exists_readFile (hs : Intact s) (h : ⟨id, true⟩ ∈ s.fileBlob.rows) :
    ∃ data, s.readFile id = some data := by
  obtain ⟨f, hf, hid⟩ := hs _ h rfl
  exact ⟨f.data, State.readFile_eq_some.2 ⟨h, f, hf, hid, rfl⟩⟩

/-- A write touches one file, and only when no row has its id. -/
theorem mem_files_write {k : Key} {dataversion confidencecode now : ℤ} {x : FileStep}
    (h : x ∈ (Statement.write k dataversion confidencecode data now).files cat t) :
    (∀ r ∈ t.fileBlob.rows, r.fileId ≠ t.fileIdSeq) ∧
      (Statement.write k dataversion confidencecode data now).files cat t =
        writeFile t.fileIdSeq data now := by
  unfold Statement.files at h ⊢
  dsimp only at h ⊢
  split at h
  · next u hu =>
    obtain ⟨db, _, hmap⟩ := Option.bind_eq_some_iff.1 hu
    obtain ⟨fileBlob, hins, _⟩ := Option.map_eq_some_iff.1 hmap
    exact ⟨(Table.insert_eq_some hins).1, rfl⟩
  · cases h

/-- A file that a statement creates was removed first. -/
theorem remove_of_create {f : File} (h : .create f ∈ st.files cat t) :
    .remove f.id ∈ st.files cat t := by
  cases st with
  | write k dataversion confidencecode data now =>
    obtain ⟨_, hfiles⟩ := mem_files_write h
    rw [hfiles] at h ⊢
    simp only [writeFile, List.mem_cons, reduceCtorEq, FileStep.create.injEq, List.not_mem_nil,
      false_or, or_false] at h
    rw [h]
    exact List.mem_cons_self
  | vacuumFileBlob => simp [Statement.files] at h
  | removeUnreferencedFiles time => simp [Statement.files, Blob.removeUnreferencedFiles] at h
  | writeGid | deleteGridvalue | deleteFloatvalueitem => cases h

/-- An abort is safe wherever it comes when no step removes a readable file. -/
theorem abortSafe_iff_forall {sts : List Statement} : AbortSafe cat s sts ↔
    ∀ x ∈ trace (step cat) (fun s st => st.files cat s) s sts,
      ∀ id data, x = .remove id → s.readFile id ≠ some data := by
  constructor
  · rintro h x hx id data rfl hread
    obtain ⟨before, after, htrace⟩ := List.append_of_mem hx
    have hpre : before ++ [FileStep.remove id] <+: trace (step cat)
        (fun s st => st.files cat s) s sts := ⟨after, by rw [htrace]; simp⟩
    obtain ⟨_, f, hf, hid, _⟩ := State.readFile_eq_some.1 (h _ hpre id data hread)
    exact not_mem_removed hid hf
  · intro h steps hpre id data hread
    obtain ⟨hrow, f, hf, hid, hdata⟩ := State.readFile_eq_some.1 hread
    have hkeep : f ∈ (applyAll s.directory steps).rows := by
      refine (mem_applyAll_iff ?_ ?_).2 hf
      · intro x hx heq
        exact h x (hpre.subset hx) id data (hid ▸ heq) hread
      · intro g hg hgf
        obtain ⟨s', st, hmem, hall⟩ := exists_of_mem_trace (step cat) (hpre.subset hg)
        exact h _ (hall _ (remove_of_create hmem)) id data (by rw [hgf, hid]) hread
    exact State.readFile_eq_some.2 ⟨hrow, f, hkeep, hid, hdata⟩

/-- Every readable file of the state the transaction began in still has a row. -/
def RowsKept (s t : State) : Prop :=
  ∀ r ∈ s.fileBlob.rows, r.active = true → ∃ r' ∈ t.fileBlob.rows, r'.fileId = r.fileId

/-- The ids after the trigger are those before it. -/
theorem exists_dropFile {fileBlob : Table FileBlob FileBlob.clash} {i : ℤ} :
    (∃ r ∈ (dropFile fileBlob i).rows, r.fileId = id) ↔ ∃ r ∈ fileBlob.rows, r.fileId = id := by
  have hid : ∀ r : FileBlob, (Table.updateRow (fun r : FileBlob => decide (r.fileId = i))
      (fun r => { r with active := false }) r).fileId = r.fileId := fun r => by
    unfold Table.updateRow
    split <;> rfl
  constructor
  · rintro ⟨_, hr', h⟩
    obtain ⟨r, hr, rfl⟩ := List.mem_map.1 hr'
    exact ⟨r, hr, (hid r).symm.trans h⟩
  · rintro ⟨r, hr, h⟩
    exact ⟨_, List.mem_map.2 ⟨r, hr, rfl⟩, (hid r).trans h⟩

theorem exists_deleteObsoleteGrids {db : Db} : ∀ {old : List GridValue}
    {fileBlob : Table FileBlob FileBlob.clash},
    (∃ r ∈ (old.foldl (deleteObsoleteGrids db) fileBlob).rows, r.fileId = id) ↔
      ∃ r ∈ fileBlob.rows, r.fileId = id
  | [], _ => Iff.rfl
  | v :: old, fileBlob => by
    rw [List.foldl_cons, exists_deleteObsoleteGrids]
    unfold deleteObsoleteGrids
    split
    · exact exists_dropFile
    · exact Iff.rfl

/-- A statement keeps the rows of the ids, but a vacuum those of inactive rows only. -/
theorem rowsKept_step (hstep : step cat t st = some t') {r : FileBlob} (hr : r ∈ t.fileBlob.rows)
    (hfiles : FileStep.remove r.fileId ∉ st.files cat t) :
    ∃ r' ∈ t'.fileBlob.rows, r'.fileId = r.fileId := by
  obtain ⟨u, hu, rfl⟩ := Option.map_eq_some_iff.1 hstep
  cases st with
  | write k dataversion confidencecode data now =>
    obtain ⟨db, _, hmap⟩ := Option.bind_eq_some_iff.1 hu
    obtain ⟨fileBlob, hins, rfl⟩ := Option.map_eq_some_iff.1 hmap
    refine ⟨r, ?_, rfl⟩
    rw [(Table.insert_eq_some hins).2]
    exact List.mem_append_left _ hr
  | writeGid k dataversion confidencecode value now =>
    obtain ⟨db, _, rfl⟩ := Option.map_eq_some_iff.1 hu
    exact ⟨r, hr, rfl⟩
  | deleteGridvalue p =>
    obtain ⟨q, _, rfl⟩ := Option.map_eq_some_iff.1 hu
    exact exists_deleteObsoleteGrids.2 ⟨r, hr, rfl⟩
  | deleteFloatvalueitem p =>
    obtain ⟨q, _, rfl⟩ := Option.map_eq_some_iff.1 hu
    exact ⟨r, hr, rfl⟩
  | vacuumFileBlob =>
    obtain rfl := Option.some_inj.1 hu
    refine ⟨r, Table.mem_delete.2 ⟨hr, ?_⟩, rfl⟩
    by_contra hinactive
    refine hfiles (List.mem_map.2 ⟨r, List.mem_filter.2 ⟨hr, ?_⟩, rfl⟩)
    simpa using hinactive
  | removeUnreferencedFiles time =>
    obtain rfl := Option.some_inj.1 hu
    exact ⟨r, hr, rfl⟩

/-- While the rows are kept, a statement removes no readable file exactly when it is not a vacuum of
    one. -/
theorem spares_iff (hs : Intact s) (hrows : RowsKept s t) :
    (∀ x ∈ st.files cat t, ∀ id data, x = .remove id → s.readFile id ≠ some data) ↔
      VacuumsOld s t st := by
  have hmem : ∀ {id data}, s.readFile id = some data → ∃ r ∈ t.fileBlob.rows, r.fileId = id :=
    fun hread => hrows _ (State.readFile_eq_some.1 hread).1 rfl
  cases st with
  | write k dataversion confidencecode data now =>
    refine iff_of_true ?_ trivial
    rintro x hx id data' rfl hread
    obtain ⟨hfresh, hfiles⟩ := mem_files_write hx
    rw [hfiles] at hx
    simp only [writeFile, List.mem_cons, FileStep.remove.injEq, reduceCtorEq, List.not_mem_nil,
      or_false] at hx
    obtain ⟨r, hr, hid⟩ := hmem hread
    exact hfresh r hr (hid.trans hx)
  | vacuumFileBlob =>
    constructor
    · intro h r hr hinactive hactive
      obtain ⟨data, hread⟩ := exists_readFile hs hactive
      refine h _ (List.mem_map.2 ⟨r, List.mem_filter.2 ⟨hr, ?_⟩, rfl⟩) r.fileId data rfl hread
      simpa using hinactive
    · rintro h x hx id data rfl hread
      obtain ⟨r, hr, hid⟩ := List.mem_map.1 hx
      obtain ⟨hr, hinactive⟩ := List.mem_filter.1 hr
      obtain rfl := FileStep.remove.inj hid
      exact h r hr (by simpa using hinactive) (State.readFile_eq_some.1 hread).1
  | removeUnreferencedFiles time =>
    refine iff_of_true ?_ trivial
    rintro x hx id data rfl hread
    obtain ⟨f, hf, hid⟩ := List.mem_map.1 hx
    have hobsolete := of_decide_eq_true (List.mem_filter.1 hf).2
    obtain ⟨r, hr, hrid⟩ := hmem hread
    exact hobsolete.1 (List.mem_map.2 ⟨r, hr, hrid.trans (FileStep.remove.inj hid).symm⟩)
  | writeGid | deleteGridvalue | deleteFloatvalueitem =>
    exact iff_of_true (fun _ h => nomatch h) trivial

/-- What was readable stays so wherever the transaction aborts exactly when every vacuum in it finds
    inactive only what was inactive when it began. -/
theorem abortSafe_iff (cat : Catalog) (s : State) (calls : List Call) (hs : Intact s) :
    AbortSafe cat s (statements cat s calls) ↔
      EachOf (step cat) (VacuumsOld s) s (statements cat s calls) := by
  refine abortSafe_iff_forall.trans ((forall_mem_trace (step cat) _ _ _ s).trans ?_)
  refine eachOf_iff_eachOf (step cat) (RowsKept s) (fun t st ht => spares_iff hs ht) ?_ _ s ?_
  · intro t st t' ht hspare hstep r hr hact
    obtain ⟨r', hr', hid⟩ := ht r hr hact
    obtain ⟨data, hread⟩ := @exists_readFile _ r.fileId hs (by cases r; cases hact; exact hr)
    obtain ⟨r'', hr'', hid'⟩ := rowsKept_step hstep hr' fun hx =>
      hspare _ hx _ data rfl (by rw [hid]; exact hread)
    exact ⟨r'', hr'', hid'.trans hid⟩
  · exact fun r hr _ => ⟨r, hr, rfl⟩

end Abort

/-- One grid value of a named series, and its file. -/
def oneFile : State where
  db := { Db.empty with
    gridvalue := oneGrid
    gridvalueSeq := 2
    valueid_drawn := oneGrid_drawn }
  fileBlob := ⟨[⟨1, true⟩], List.pairwise_singleton _ _⟩
  fileIdSeq := 2
  directory := ⟨[⟨1, [0, 0, 0, 0], 0⟩], List.pairwise_singleton _ _⟩

/-- The call that removes everything. -/
def removeAll : Call :=
  remove oneName oneSession {} .null (readFloat oneName oneSession (fun _ => none) {})

/-- An aborted removal loses nothing. -/
theorem removeAll_safe :
    Intact oneFile ∧ AbortSafe oneName oneFile (statements oneName oneFile [removeAll]) := by
  have hintact : Intact oneFile := by unfold Intact; decide
  refine ⟨hintact, (abortSafe_iff oneName oneFile [removeAll] hintact).2 ?_⟩
  refine ⟨trivial, fun s _ => ⟨trivial, fun s' _ => ?_⟩⟩
  rw [List.append_eq, List.nil_append]
  split <;> exact trivial

/-- A run of `cleanupdb` whose only cleaning function removes everything. -/
def cleanAll : List Call := cleanupdb [removeAll] fun _ => 0

/-- When `cleanupdb` aborts after the vacuum, the grid value is back and its file is gone. -/
theorem cleanupdb_loses : Intact oneFile ∧ (aborted oneFile [.remove 1]).readFile 1 = none ∧
    ¬ AbortSafe oneName oneFile (statements oneName oneFile cleanAll) := by
  refine ⟨by unfold Intact; decide, by decide, fun h => ?_⟩
  have hread := h [.remove 1] (by decide) 1 [0, 0, 0, 0] (by decide)
  revert hread
  decide

end Wdb.Blob
