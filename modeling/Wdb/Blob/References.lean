import Wdb.Blob.Files
import Wdb.Lib.Mvcc
import Wdb.Lib.Runs

/-! The reference of a grid value to its row of `file_blob`, under concurrent transactions.

    No foreign key keeps it. The overloads of `wci.write` that take the bytes insert both rows; the one
    that takes a `wci.returnGid` row inserts its `value` unchecked (the one that takes a grid id reads
    an undeclared variable before its first statement, and always raises). `deleteObsoleteGrids` makes
    the row of a file inactive when it sees no grid value that refers to it, and `vacuum_file_blob`
    deletes the inactive rows. Every statement sees what is committed when it starts and what its own
    transaction did; one that is about a row that another open transaction has changed waits.

    Of a grid value only the id of its row and that of its file are kept: the `UPDATE` of a grid write
    changes neither. -/

namespace Wdb.Blob.References
open Relational Runs Mvcc

/-- What a row of `gridvalue` refers to. -/
structure GridRef where
  valueid : ℤ
  value : ℤ
  deriving DecidableEq

/-- The tables with their versions, and the triggers that are not done: `triggers` has the transaction
    and the `value` of each row whose trigger is to run, `drops` of each that has counted no row and is
    to call `drop_file`. -/
structure State where
  gridvalue : List (Version GridRef)
  gridvalueSeq : ℤ
  fileBlob : List (Version FileBlob)
  fileIdSeq : ℤ
  triggers : List (ℕ × ℤ)
  drops : List (ℕ × ℤ)

/-- What a transaction does next. A `DELETE` of any grid values, and a vacuum, may come to its rows one
    by one. `deleteObsoleteGrids` counts the rows in one statement and drops the file in another. -/
inductive Action where
  | write (xid : ℕ)
  | writeGid (xid : ℕ) (value : ℤ)
  | deleteGridvalue (xid : ℕ) (p : GridRef → Bool)
  | deleteObsoleteGrids (xid : ℕ) (value : ℤ)
  | dropFile (xid : ℕ) (value : ℤ)
  | vacuumFileBlob (xid : ℕ) (p : ℤ → Bool)
  | commit (xid : ℕ)
  | abort (xid : ℕ)

section Step
variable (s : State) (xid : ℕ)

/-- The transaction is between two statements: all its triggers have run. -/
def Idle : Prop := ∀ e ∈ s.triggers ++ s.drops, e.1 ≠ xid

instance : Decidable (Idle s xid) := inferInstanceAs (Decidable (∀ e ∈ _, _))

/-- A grid value that the transaction sees refers to the file. -/
def Referenced (value : ℤ) : Prop := ∃ v ∈ s.gridvalue, v.visible xid ∧ v.row.value = value

instance (value : ℤ) : Decidable (Referenced s xid value) :=
  inferInstanceAs (Decidable (∃ v ∈ _, _))

/-- The rows that `drop_file` updates. -/
def isFile (id : ℤ) (r : FileBlob) : Bool := r.fileId = id

/-- The rows that `vacuum_file_blob` deletes, as far as it has come. -/
def inactive (p : ℤ → Bool) (r : FileBlob) : Bool := !r.active && p r.fileId

/-- The state after a grid value is inserted. -/
def insertGridvalue (value : ℤ) : State :=
  { s with
    gridvalue := insert s.gridvalue xid ⟨s.gridvalueSeq, value⟩
    gridvalueSeq := s.gridvalueSeq + 1 }

/-- One step, when it does not have to wait. -/
def step (s : State) : Action → Option State
  | .write xid =>
    let dataId := s.fileIdSeq
    if Idle s xid ∧ ∀ r ∈ s.fileBlob, r.row.fileId ≠ dataId then
      some { insertGridvalue s xid dataId with
        fileBlob := insert s.fileBlob xid ⟨dataId, true⟩
        fileIdSeq := s.fileIdSeq + 1 }
    else none
  | .writeGid xid value => if Idle s xid then some (insertGridvalue s xid value) else none
  | .deleteGridvalue xid p =>
    if Free s.gridvalue xid p then
      some { s with
        gridvalue := delete s.gridvalue xid p
        triggers := s.triggers ++
          (s.gridvalue.filter (selects xid p)).map fun v => (xid, v.row.value) }
    else none
  | .deleteObsoleteGrids xid value =>
    if (xid, value) ∈ s.triggers then
      some { s with
        triggers := s.triggers.erase (xid, value)
        drops := if Referenced s xid value then s.drops else (xid, value) :: s.drops }
    else none
  | .dropFile xid value =>
    if (xid, value) ∈ s.drops ∧ Free s.fileBlob xid (isFile value) then
      some { s with
        fileBlob := update s.fileBlob xid (isFile value) fun r => { r with active := false }
        drops := s.drops.erase (xid, value) }
    else none
  | .vacuumFileBlob xid p =>
    if Idle s xid ∧ Free s.fileBlob xid (inactive p) then
      some { s with fileBlob := delete s.fileBlob xid (inactive p) }
    else none
  | .commit xid =>
    if Idle s xid then
      some { s with
        gridvalue := commit s.gridvalue xid
        fileBlob := commit s.fileBlob xid }
    else none
  | .abort xid =>
    some { s with
      gridvalue := abort s.gridvalue xid
      fileBlob := abort s.fileBlob xid
      triggers := s.triggers.filter fun e => e.1 ≠ xid
      drops := s.drops.filter fun e => e.1 ≠ xid }

end Step

/-- A grid value and the active row of its file. -/
def Refers (v : GridRef) (r : FileBlob) : Prop := r.fileId = v.value ∧ r.active = true

/-- Every committed grid value refers to a committed active row. -/
def Intact (s : State) : Prop :=
  ∀ v ∈ committed s.gridvalue, ∃ r ∈ committed s.fileBlob, Refers v r

/-- No transaction is open, and every grid value refers to an active row. -/
structure Initial (s : State) : Prop where
  gridvalue : ∀ v ∈ s.gridvalue, v.xmin = none ∧ v.xmax = none
  fileBlob : ∀ r ∈ s.fileBlob, r.xmin = none ∧ r.xmax = none
  triggers : s.triggers = []
  drops : s.drops = []
  intact : Intact s

/-- A write that takes the id of a file finds its row active, committed or of the same transaction, and
    not about to be changed by any. When a file is dropped, all that refers to it is deleted by the
    same transaction: no other has inserted a reference that the trigger did not count. -/
def Good (s : State) : Action → Prop
  | .writeGid xid value => ∃ r ∈ s.fileBlob, r.row.fileId = value ∧ r.row.active = true ∧
      (r.xmin = none ∨ r.xmin = some xid) ∧ r.xmax = none
  | .dropFile xid value => ∀ v ∈ s.gridvalue, v.row.value = value → v.xmax = some xid
  | _ => True

/-! ### The invariant -/

/-- Every version of a grid value is supported by an active version of its file's row. -/
def Inv (s : State) : Prop := Supported Refers s.gridvalue s.fileBlob

section Steps
variable {s s' : State}

theorem Initial.inv (h : Initial s) : Inv s := by
  intro v hv
  obtain ⟨hmin, _⟩ := h.gridvalue v hv
  obtain ⟨b, hb, href⟩ := h.intact v.row (mem_committed.2 ⟨v, hv, hmin, rfl⟩)
  obtain ⟨r, hr, hrmin, rfl⟩ := mem_committed.1 hb
  refine ⟨r, hr, href, Or.inl hrmin, fun x hx => ?_⟩
  rw [(h.fileBlob r hr).2] at hx
  cases hx

theorem Inv.intact (h : Inv s) : Intact s := fun _ hv => Supported.committed h hv

/-- A file is dropped when all that refers to it is deleted by the same transaction. -/
theorem inv_drop {xid : ℕ} {value : ℤ}
    (hrefs : ∀ v ∈ s.gridvalue, v.row.value = value → v.xmax = some xid) (hi : Inv s) :
    Supported Refers s.gridvalue
      (update s.fileBlob xid (isFile value) fun r => { r with active := false }) := by
  refine (Supported.delete_right (p := isFile value) ?_ hi).mono fun r hr =>
    List.mem_append_left _ hr
  intro v hv r _ href hsel
  exact hrefs v hv (href.1.symm.trans (of_decide_eq_true (selects_iff.1 hsel).2))

/-- The rows that a vacuum deletes support nothing. -/
theorem inv_vacuum {xid : ℕ} {p : ℤ → Bool} (hi : Inv s) :
    Supported Refers s.gridvalue (delete s.fileBlob xid (inactive p)) := by
  refine Supported.delete_right ?_ hi
  intro v _ r _ href hsel
  have hin := (selects_iff.1 hsel).2
  unfold inactive at hin
  rw [href.2] at hin
  cases hin

/-- Every good step keeps the invariant. -/
theorem inv_step {a : Action} (hi : Inv s) (hgood : Good s a) (h : step s a = some s') : Inv s' := by
  cases a with
  | write xid =>
    simp only [step] at h
    split at h
    · obtain rfl := Option.some_inj.1 h
      refine (Supported.mono hi fun r hr => mem_insert.2 (Or.inl hr)).insert ?_
      exact ⟨_, mem_insert.2 (Or.inr rfl), ⟨rfl, rfl⟩, Or.inr rfl, rfl⟩
    · cases h
  | writeGid xid value =>
    simp only [step] at h
    split at h
    · obtain rfl := Option.some_inj.1 h
      obtain ⟨r, hr, hid, hact, hmin, hmax⟩ := hgood
      exact Supported.insert hi ⟨r, hr, ⟨hid, hact⟩, hmin, hmax⟩
    · cases h
  | deleteGridvalue xid p =>
    simp only [step] at h
    split at h
    · next hfree =>
      obtain rfl := Option.some_inj.1 h
      exact Supported.delete hfree hi
    · cases h
  | deleteObsoleteGrids xid value =>
    simp only [step] at h
    split at h
    · obtain rfl := Option.some_inj.1 h
      exact hi
    · cases h
  | dropFile xid value =>
    simp only [step] at h
    split at h
    · obtain rfl := Option.some_inj.1 h
      exact inv_drop hgood hi
    · cases h
  | vacuumFileBlob xid p =>
    simp only [step] at h
    split at h
    · obtain rfl := Option.some_inj.1 h
      exact inv_vacuum hi
    · cases h
  | commit xid =>
    simp only [step] at h
    split at h
    · obtain rfl := Option.some_inj.1 h
      exact Supported.commit hi
    · cases h
  | abort xid =>
    obtain rfl := Option.some_inj.1 h
    exact Supported.abort hi

end Steps

/-- In a run whose writes by id and whose drops are good, every committed grid value has its row in
    every state that is reached. -/
theorem references_intact (s s' : State) (acts : List Action) (hs : Initial s)
    (hgood : EachOf step Good s acts) (hexec : exec step s acts = some s') : Intact s' :=
  (inv_exec_eachOf step Inv (fun _ _ _ hi hg h => inv_step hi hg h) acts s s' hs.inv hgood
    hexec).intact

/-- No grids. -/
def empty : State := ⟨[], 1, [], 1, [], []⟩

/-- One committed grid value and its file. -/
def oneGrid : State := ⟨[⟨⟨1, 1⟩, none, none⟩], 2, [⟨⟨1, true⟩, none, none⟩], 2, [], []⟩

/-- A grid is written, deleted with its file, and vacuumed, each in a transaction of its own. -/
def life : List Action :=
  [.write 0, .commit 0, .deleteGridvalue 1 fun _ => true, .deleteObsoleteGrids 1 1, .dropFile 1 1,
    .commit 1, .vacuumFileBlob 2 fun _ => true, .commit 2]

theorem life_intact : ∃ s', exec step empty life = some s' ∧ Intact s' := by
  have hexec : exec step empty life = some ⟨[], 2, [], 2, [], []⟩ := rfl
  refine ⟨_, hexec, references_intact empty _ life ?_ ?_ hexec⟩
  · exact ⟨(fun _ h => nomatch h), (fun _ h => nomatch h), rfl, rfl, (fun _ h => nomatch h)⟩
  · refine .cons step rfl trivial (.cons step rfl trivial (.cons step rfl trivial ?_))
    refine .cons step rfl trivial (.cons step rfl ?_ ?_)
    · unfold Good
      decide
    · exact .cons step rfl trivial (.cons step rfl trivial (.cons step rfl trivial trivial))

/-- A row of a grid that never was is accepted; and while the last grid value of a file is deleted,
    another that refers to it is written. -/
theorem references_dangle :
    (∃ s', exec step empty [.writeGid 0 7, .commit 0] = some s' ∧ ¬ Intact s') ∧
    Initial oneGrid ∧
    ∃ s', exec step oneGrid
      [.deleteGridvalue 1 fun _ => true, .writeGid 2 1, .deleteObsoleteGrids 1 1, .dropFile 1 1,
        .commit 1, .commit 2] = some s' ∧ ¬ Intact s' := by
  refine ⟨⟨_, rfl, ?_⟩, ?_, _, rfl, ?_⟩
  · unfold Intact Refers; decide
  · refine ⟨by decide, by decide, rfl, rfl, ?_⟩
    unfold Intact Refers; decide
  · unfold Intact Refers; decide

end Wdb.Blob.References
