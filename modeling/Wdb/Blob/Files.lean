import Wdb.Lib.Table

/-! The file store behind grid values.

    A grid value refers to a row of `file_blob`, and the bytes are in a file of the storage directory
    that is named after the row's id. The rows are transactional; the files are not. A file is read
    only through its row, which has to be active. -/

namespace Wdb.Blob
open Relational

/-- Queues of pairs are searched in several modules. -/
scoped instance lawfulBEq_pair : LawfulBEq (ℕ × ℤ) := inferInstance

/-- A row of `file_blob`. -/
structure FileBlob where
  fileId : ℤ
  active : Bool
  deriving DecidableEq

/-- `file_blob_pkey`. -/
def FileBlob.clash (a b : FileBlob) : Prop := a.fileId = b.fileId

instance : DecidableRel FileBlob.clash := fun a b => inferInstanceAs (Decidable (a.fileId = b.fileId))

/-- A file of the storage directory, with the time of its last write in seconds. -/
structure File where
  id : ℤ
  data : List UInt8
  writeTime : ℤ
  deriving DecidableEq

/-- Two files of one name. -/
def File.clash (a b : File) : Prop := a.id = b.id

/-- The storage directory, in the order in which it is scanned. -/
abbrev Directory := Table File File.clash

/-- What is done to the directory, one file at a time. -/
inductive FileStep where
  | remove (id : ℤ)
  | create (f : File)
  deriving DecidableEq

/-- The directory without a file. -/
def Directory.remove (d : Directory) (id : ℤ) : Directory := d.delete fun f => f.id = id

theorem mem_remove {d : Directory} {id : ℤ} {f : File} :
    f ∈ (d.remove id).rows ↔ f ∈ d.rows ∧ f.id ≠ id := by
  simp only [Directory.remove, Table.mem_delete, decide_eq_false_iff_not, ne_eq]

/-- The directory after a step. A file that is renamed replaces the one that has its name. -/
def FileStep.apply (d : Directory) : FileStep → Directory
  | .remove id => d.remove id
  | .create f =>
    ⟨(d.remove f.id).rows ++ [f], List.pairwise_append.2
      ⟨(d.remove f.id).unique, List.pairwise_singleton _ _, fun g hg h hh => by
        rw [List.mem_singleton.1 hh]
        exact (mem_remove.1 hg).2⟩⟩

/-- The directory after several steps. -/
def applyAll (d : Directory) (steps : List FileStep) : Directory := steps.foldl FileStep.apply d

/-- `writeFile`: a file that is there is removed, and a temporary file is renamed to take its place. -/
def writeFile (id : ℤ) (data : List UInt8) (now : ℤ) : List FileStep :=
  [.remove id, .create ⟨id, data, now⟩]

/-- Whether `removeUnreferencedFiles` removes a file when it comes to it at the time `now`. -/
def obsolete (referencedFiles : List ℤ) (now : ℤ) (f : File) : Bool :=
  f.id ∉ referencedFiles ∧ now - f.writeTime > 3600

/-- `removeUnreferencedFiles`: the files that are removed, and those that are skipped because they are
    not an hour old. `time` is the clock at each file. -/
def removeUnreferencedFiles (referencedFiles : List ℤ) (time : ℤ → ℤ) (d : Directory) :
    List FileStep × List ℤ :=
  ((d.rows.filter fun f => obsolete referencedFiles (time f.id) f).map fun f => .remove f.id,
    (d.rows.filter fun f => f.id ∉ referencedFiles ∧
      ¬ time f.id - f.writeTime > 3600).map (·.id))

/-- `read_file`: the row has to be there and active, and the file to be there. -/
def readFile (fileBlob : Table FileBlob FileBlob.clash) (d : Directory) (id : ℤ) :
    Option (List UInt8) :=
  match fileBlob.rows.find? fun r => r.fileId = id with
  | some r => if r.active then (d.rows.find? fun f => f.id = id).map (·.data) else none
  | none => none

/-! ### What the steps do to one file -/

section Lemmas
variable {fileBlob : Table FileBlob FileBlob.clash} {d : Directory} {id : ℤ} {data : List UInt8}

theorem mem_create {f g : File} :
    f ∈ (FileStep.apply d (.create g)).rows ↔ f ∈ d.rows ∧ f.id ≠ g.id ∨ f = g := by
  simp only [FileStep.apply, List.mem_append, mem_remove, List.mem_singleton]

theorem find_row {r : FileBlob} :
    fileBlob.rows.find? (fun r => r.fileId = id) = some r ↔ r ∈ fileBlob.rows ∧ r.fileId = id :=
  fileBlob.find?_key_eq_some (f := FileBlob.fileId) (fun _ _ h => h.symm) fun _ _ h => h

theorem find_file {f : File} :
    d.rows.find? (fun f => f.id = id) = some f ↔ f ∈ d.rows ∧ f.id = id :=
  d.find?_key_eq_some (f := File.id) (fun _ _ h => h.symm) fun _ _ h => h

/-- A file can be read when its row is active and the file is there. -/
theorem readFile_eq_some : readFile fileBlob d id = some data ↔
    ⟨id, true⟩ ∈ fileBlob.rows ∧ ∃ f ∈ d.rows, f.id = id ∧ f.data = data := by
  unfold readFile
  constructor
  · intro h
    split at h
    · next r hfind =>
      obtain ⟨hr, rfl⟩ := find_row.1 hfind
      split at h
      · next hact =>
        obtain ⟨f, hf, rfl⟩ := Option.map_eq_some_iff.1 h
        exact ⟨hact ▸ hr, f, (find_file.1 hf).1, (find_file.1 hf).2, rfl⟩
      · cases h
    · cases h
  · rintro ⟨hr, f, hf, rfl, rfl⟩
    rw [find_row.2 ⟨hr, rfl⟩]
    simp only [if_true]
    rw [find_file.2 ⟨hf, rfl⟩, Option.map_some]

/-- Steps that remove and create other files leave a file alone. -/
theorem mem_applyAll_iff {f : File} : ∀ {steps : List FileStep} {d : Directory},
    (∀ t ∈ steps, t ≠ .remove f.id) → (∀ g, .create g ∈ steps → g.id ≠ f.id) →
    (f ∈ (applyAll d steps).rows ↔ f ∈ d.rows)
  | [], _, _, _ => Iff.rfl
  | t :: steps, d, hremove, hcreate => by
    refine (mem_applyAll_iff (fun u hu => hremove u (List.mem_cons_of_mem _ hu))
      (fun g hg => hcreate g (List.mem_cons_of_mem _ hg))).trans ?_
    cases t with
    | remove i =>
      have hne : f.id ≠ i := fun h => hremove _ List.mem_cons_self (h ▸ rfl)
      exact mem_remove.trans (and_iff_left hne)
    | create g =>
      have hne : f.id ≠ g.id := fun h => hcreate g List.mem_cons_self h.symm
      rw [mem_create]
      refine ⟨?_, fun h => Or.inl ⟨h, hne⟩⟩
      rintro (h | rfl)
      · exact h.1
      · exact absurd rfl hne

/-- A file is gone right after it is removed. -/
theorem not_mem_removed {steps : List FileStep} {f : File} (hf : f.id = id) :
    f ∉ (applyAll d (steps ++ [.remove id])).rows := by
  unfold applyAll
  rw [List.foldl_append]
  exact fun h => (mem_remove.1 h).2 hf

end Lemmas

end Wdb.Blob
