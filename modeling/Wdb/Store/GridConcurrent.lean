import Wdb.Lib.ReadCommitted
import Wdb.Lib.Runs
import Wdb.Store.GridMax

/-! Two concurrent grid writes of one key.

    A write is two statements and a commit. The `UPDATE` collects the rows of its snapshot, waits until
    no other transaction holds a lock on one of them, and sets the maximum in their newest versions; the
    `INSERT` draws an id and appends the row; locks are held, and the new row is hidden, until the
    commit. The rows of both transactions are in one heap, since unique indexes cover rows that are not
    committed yet, and the `UPDATE` is made there, since no statement of a write reads
    `maxdataversion`. -/

namespace Wdb.Store
open Relational Runs ReadCommitted

/-- The arguments of a grid write, besides the key. -/
structure GridWrite where
  dataversion : ℤ
  confidencecode : ℤ
  dataId : ℤ
  now : ℤ

/-- How far a transaction is. `targets` are the ids of the rows that its `UPDATE` collected. -/
inductive GridPc where
  | begun
  | updating (targets : List ℤ)
  | updated (targets : List ℤ)
  | inserted (targets : List ℤ) (valueid : ℤ)
  | committed
  deriving DecidableEq

/-- The rows that a transaction has locked. -/
def GridPc.locks : GridPc → List ℤ
  | .updated targets => targets
  | .inserted targets _ => targets
  | _ => []

/-- The row that a transaction has inserted and not committed. -/
def GridPc.uncommitted : GridPc → Option ℤ
  | .inserted _ valueid => some valueid
  | _ => none

/-- The tables, and the two transactions. -/
structure GridRace where
  db : Db
  pc : Tx → GridPc

/-- Both transactions have begun. -/
def GridRace.start (db : Db) : GridRace := ⟨db, fun _ => .begun⟩

/-- `UPDATE gridvalue SET maxdataversion`, in the rows collected. -/
def setMaxOf (db : Db) (targets : List ℤ) (dataversion_ : ℤ) : Db :=
  { db with
    gridvalue := db.gridvalue.update (fun v => v.valueid ∈ targets)
      (fun v => { v with maxdataversion := dataversion_ }) (fun _ _ h => h) (fun _ _ h => h)
    valueid_drawn := fun v hv => by
      obtain ⟨a, ha, rfl⟩ := List.mem_map.1 hv
      have h := db.valueid_drawn a ha
      unfold Table.updateRow
      split <;> exact h }

/-- The next statement of a transaction; `none` when it waits or raises. -/
def gridStatement (cat : Catalog) (k : Key) (w : Tx → GridWrite) (s : GridRace) (t : Tx) :
    Option GridRace :=
  let goTo (db : Db) (pc : GridPc) : GridRace := ⟨db, Function.update s.pc t pc⟩
  match s.pc t with
  | .begun =>
    let visible := s.db.gridvalue.rows.filter fun v => some v.valueid ≠ (s.pc t.other).uncommitted
    some (goTo s.db (.updating ((visible.filter fun v => v.toKey = k).map (·.valueid))))
  | .updating targets =>
    if ∀ id ∈ targets, id ∉ (s.pc t.other).locks then
      some (goTo (setMaxOf s.db targets (w t).dataversion) (.updated targets))
    else none
  | .updated targets =>
    (insertGrid cat s.db k (w t).dataversion (w t).confidencecode (w t).dataId (w t).now).map
      fun db => goTo db (.inserted targets s.db.gridvalueSeq)
  | .inserted _ _ => some (goTo s.db .committed)
  | .committed => none

/-- The versions stored for a key. -/
def Db.gridVersions (db : Db) (k : Key) : Set ℤ :=
  {n | ∃ v ∈ db.gridvalue.rows, v.toKey = k ∧ v.dataversion = n}

/-- Every grid value of the key has the greatest version of the key as its maximum. -/
def Db.GridMaxOf (db : Db) (k : Key) : Prop :=
  ∀ v ∈ db.gridvalue.rows, v.toKey = k → IsGreatest (db.gridVersions k) v.maxdataversion

/-! ### The statements as steps on the versions of the key -/

/-- A grid write sets its own version as the maximum before it inserts its row. -/
def gridWriter (w : GridWrite) : Writer where
  version := w.dataversion
  chooses _ m := m = w.dataversion
  insertAt := 2
  selectAt := 0
  snapshotAt := 0
  updateAt := 1
  length := 4
  select_le := le_rfl
  snapshot_lt := by decide
  insert_apart := by decide
  insert_lt := by decide

/-- The number of statements made. -/
def GridPc.rank : GridPc → ℕ
  | .begun => 0
  | .updating _ => 1
  | .updated _ => 2
  | .inserted _ _ => 3
  | .committed => 4

/-- A grid value of the key, with its version and maximum. -/
def GridRow (db : Db) (k : Key) (n m : ℤ) : Prop :=
  ∃ v ∈ db.gridvalue.rows, v.toKey = k ∧ v.dataversion = n ∧ v.maxdataversion = m

/-- A grid value of the key, with its id and version. -/
def GridId (db : Db) (k : Key) (id n : ℤ) : Prop :=
  ∃ v ∈ db.gridvalue.rows, v.valueid = id ∧ v.toKey = k ∧ v.dataversion = n

/-- The tables have the same grid values of the key, and perhaps new ones with new ids. -/
structure GridExtends (k : Key) (db db' : Db) : Prop where
  keep : ∀ id n, GridId db k id n → GridId db' k id n
  fresh : ∀ id n, GridId db' k id n → GridId db k id n ∨ ∀ m, ¬ GridId db k id m

/-- The state shows the rows of the key and the progress of the transactions. -/
structure GridShows (k : Key) (w : Tx → GridWrite) (s : GridRace) (a : State) : Prop where
  rows : ∀ n m, a.rows n = some m ↔ GridRow s.db k n m
  done : ∀ t, a.done t = (s.pc t).rank
  max : ∀ t, 0 < (s.pc t).rank → a.max t = some (w t).dataversion
  targets : ∀ t l, s.pc t = .updating l →
    (∀ n, n ∈ a.targets t ↔ ∃ id ∈ l, GridId s.db k id n) ∧ ∀ id ∈ l, ∃ n, GridId s.db k id n
  uncommitted : ∀ t l id, s.pc t = .inserted l id → GridId s.db k id (w t).dataversion

section Simulation
variable {cat : Catalog} {k : Key} {w : Tx → GridWrite} {s : GridRace} {a : State} {t : Tx}
  {db db' : Db}

/-- A key and version have one maximum. -/
theorem gridRow_unique {n m m' : ℤ} (h : GridRow db k n m) (h' : GridRow db k n m') : m = m' := by
  obtain ⟨v, hv, hk, hn, rfl⟩ := h
  obtain ⟨v', hv', hk', hn', rfl⟩ := h'
  rw [grid_eq_of_version hv hv' (hk.trans hk'.symm) (hn.trans hn'.symm)]

theorem exists_gridRows (db : Db) (k : Key) :
    ∃ rows : ℤ → Option ℤ, ∀ n m, rows n = some m ↔ GridRow db k n m :=
  exists_rows fun _ _ _ => gridRow_unique

/-- A key and version have one id. -/
theorem gridId_unique {id id' n : ℤ} (h : GridId db k id n) (h' : GridId db k id' n) : id = id' := by
  obtain ⟨v, hv, rfl, hk, hn⟩ := h
  obtain ⟨v', hv', rfl, hk', hn'⟩ := h'
  rw [grid_eq_of_version hv hv' (hk.trans hk'.symm) (hn.trans hn'.symm)]

/-- An id has one version. -/
theorem gridId_version {id n n' : ℤ} (h : GridId db k id n) (h' : GridId db k id n') : n = n' := by
  obtain ⟨v, hv, hid, _, rfl⟩ := h
  obtain ⟨v', hv', hid', _, rfl⟩ := h'
  rw [grid_eq hv hv' (hid.trans hid'.symm)]

theorem GridExtends.refl : GridExtends k db db := ⟨fun _ _ h => h, fun _ _ h => Or.inl h⟩

/-- What was collected is still there, and nothing was added to it. -/
theorem GridExtends.collected (h : GridExtends k db db') {l : List ℤ}
    (hl : ∀ id ∈ l, ∃ n, GridId db k id n) (n : ℤ) :
    (∃ id ∈ l, GridId db' k id n) ↔ ∃ id ∈ l, GridId db k id n := by
  constructor
  · rintro ⟨id, hid, hn⟩
    obtain ⟨m, hm⟩ := hl id hid
    exact ⟨id, hid, (h.fresh id n hn).resolve_right fun hno => hno m hm⟩
  · rintro ⟨id, hid, hn⟩
    exact ⟨id, hid, h.keep id n hn⟩

theorem GridShows.isSome_iff (h : GridShows k w s a) {n : ℤ} :
    (a.rows n).isSome ↔ ∃ id, GridId s.db k id n := by
  rw [Option.isSome_iff_exists]
  constructor
  · rintro ⟨m, hm⟩
    obtain ⟨v, hv, hk, hn, _⟩ := (h.rows n m).1 hm
    exact ⟨_, v, hv, rfl, hk, hn⟩
  · rintro ⟨_, v, hv, _, hk, hn⟩
    exact ⟨_, (h.rows n _).2 ⟨v, hv, hk, hn, rfl⟩⟩

/-- The rows that a statement sees are those of the versions that it sees. -/
theorem GridShows.visible_iff (h : GridShows k w s a) {id n : ℤ} (hid : GridId s.db k id n) :
    n ∈ visible (fun t => gridWriter (w t)) a t ↔ some id ≠ (s.pc t.other).uncommitted := by
  have hdone := h.done t.other
  unfold visible
  rw [Set.mem_ofPred_eq, and_iff_right (h.isSome_iff.2 ⟨id, hid⟩), hdone]
  cases hpc : s.pc t.other with
  | inserted l id' =>
    have hid' := h.uncommitted t.other l id' hpc
    simp only [GridPc.uncommitted, ne_eq, Option.some_inj]
    refine not_congr ⟨fun ⟨hn, _⟩ => ?_, fun heq =>
      ⟨?_, Nat.lt_succ_self 2, Nat.lt_succ_self 3⟩⟩
    · rw [hn] at hid
      exact gridId_unique hid hid'
    · rw [heq] at hid
      exact gridId_version hid hid'
  | _ =>
    refine iff_of_true (fun hc => ?_) (by simp [GridPc.uncommitted])
    simp [GridPc.rank, gridWriter] at hc

/-- What is to be shown of a step that takes its transaction to `pc` and the tables to `db`. -/
theorem GridShows.goTo (h : GridShows k w s a) (hext : GridExtends k s.db db) {pc : GridPc}
    {rows : ℤ → Option ℤ} {max : Tx → Option ℤ} {targets : Tx → Set ℤ}
    (hrank : pc.rank = (s.pc t).rank + 1) (hrows : ∀ n m, rows n = some m ↔ GridRow db k n m)
    (hmax : max t = some (w t).dataversion) (hmax' : max t.other = a.max t.other)
    (htargets : ∀ l, pc = .updating l →
      (∀ n, n ∈ targets t ↔ ∃ id ∈ l, GridId db k id n) ∧ ∀ id ∈ l, ∃ n, GridId db k id n)
    (htargets' : targets t.other = a.targets t.other)
    (hnew : ∀ l id, pc = .inserted l id → GridId db k id (w t).dataversion) :
    GridShows k w ⟨db, Function.update s.pc t pc⟩ (a.next t rows max targets) where
  rows := hrows
  done := by
    rw [Tx.forall_iff t, State.done_next_self, State.done_next_other, h.done, h.done]
    simp only [Function.update_self, Function.update_of_ne t.other_ne]
    exact ⟨hrank.symm, trivial⟩
  max := by
    rw [Tx.forall_iff t]
    simp only [Function.update_of_ne t.other_ne]
    refine ⟨fun _ => hmax, fun hpos => ?_⟩
    exact hmax'.trans (h.max t.other hpos)
  targets := by
    rw [Tx.forall_iff t]
    simp only [Function.update_self, Function.update_of_ne t.other_ne]
    refine ⟨htargets, fun l hl => ?_⟩
    obtain ⟨hmem, hall⟩ := h.targets t.other l hl
    refine ⟨fun n => ?_, fun id hid => (hall id hid).imp fun n => hext.keep id n⟩
    rw [hext.collected hall, ← hmem]
    exact Iff.of_eq (congrArg (n ∈ ·) htargets')
  uncommitted := by
    rw [Tx.forall_iff t]
    simp only [Function.update_self, Function.update_of_ne t.other_ne]
    exact ⟨hnew, fun l id hid => hext.keep _ _ (h.uncommitted t.other l id hid)⟩

/-- The `UPDATE` takes its snapshot. -/
theorem gridShows_begun (h : GridShows k w s a) (hpc : s.pc t = .begun) {l : List ℤ}
    (hl : l = ((s.db.gridvalue.rows.filter fun v =>
      some v.valueid ≠ (s.pc t.other).uncommitted).filter fun v => v.toKey = k).map (·.valueid)) :
    ∃ a', Step (fun t => gridWriter (w t)) a t a' ∧
      GridShows k w ⟨s.db, Function.update s.pc t (.updating l)⟩ a' := by
  have hdone : a.done t = 0 := by rw [h.done, hpc]; rfl
  have hmem : ∀ id, id ∈ l ↔ some id ≠ (s.pc t.other).uncommitted ∧ ∃ n, GridId s.db k id n := by
    intro id
    rw [hl]
    simp only [List.mem_map, List.mem_filter, decide_eq_true_eq]
    constructor
    · rintro ⟨v, ⟨⟨hv, hvis⟩, hk⟩, rfl⟩
      exact ⟨hvis, _, v, hv, rfl, hk, rfl⟩
    · rintro ⟨hvis, _, v, hv, rfl, hk, rfl⟩
      exact ⟨v, ⟨⟨hv, hvis⟩, hk⟩, rfl⟩
  refine ⟨a.next t a.rows (Function.update a.max t (some (w t).dataversion))
    (Function.update a.targets t (visible (fun t => gridWriter (w t)) a t)), ?_, ?_⟩
  · exact {
      running := by rw [hdone]; exact Nat.succ_pos 3
      past := rfl
      inserts := fun hc => by rw [hdone] at hc; cases hc
      sets := fun hc => by rw [hdone] at hc; cases hc
      rows := fun _ _ _ => rfl
      selects := fun _ m hm => by
        have hm' : Function.update a.max t (some (w t).dataversion) t = some m := hm
        rw [Function.update_self, Option.some_inj] at hm'
        exact hm'.symm
      max := fun u hu => Function.update_of_ne (fun hut => hu ⟨hut, hdone⟩) _ _
      collects := fun _ => Function.update_self ..
      targets := fun u hu => Function.update_of_ne (fun hut => hu ⟨hut, hdone⟩) _ _ }
  · refine h.goTo .refl (by rw [hpc]; rfl) h.rows (Function.update_self ..)
      (Function.update_of_ne t.other_ne ..) ?_ (Function.update_of_ne t.other_ne ..) (by simp)
    rintro _ ⟨⟩
    refine ⟨fun n => ?_, fun id hid => ((hmem id).1 hid).2⟩
    rw [Function.update_self]
    constructor
    · intro hn
      obtain ⟨id, hid⟩ := h.isSome_iff.1 hn.1
      exact ⟨id, (hmem id).2 ⟨(h.visible_iff hid).1 hn, n, hid⟩, hid⟩
    · rintro ⟨id, hmem', hid⟩
      exact (h.visible_iff hid).2 ((hmem id).1 hmem').1

/-- The rows after the `UPDATE`. -/
theorem mem_setMaxOf {targets : List ℤ} {m : ℤ} {v : GridValue} :
    v ∈ (setMaxOf db targets m).gridvalue.rows ↔ ∃ r ∈ db.gridvalue.rows,
      v = if r.valueid ∈ targets then { r with maxdataversion := m } else r := by
  have hrows : (setMaxOf db targets m).gridvalue.rows = db.gridvalue.rows.map
      (Table.updateRow (fun v => v.valueid ∈ targets) fun v => { v with maxdataversion := m }) := rfl
  rw [hrows, List.mem_map]
  unfold Table.updateRow
  simp only [decide_eq_true_eq, eq_comm (a := v)]

theorem gridId_setMaxOf {targets : List ℤ} {m id n : ℤ} :
    GridId (setMaxOf db targets m) k id n ↔ GridId db k id n := by
  constructor
  · rintro ⟨v, hv, hid, hk, hn⟩
    obtain ⟨r, hr, rfl⟩ := mem_setMaxOf.1 hv
    refine ⟨r, hr, ?_⟩
    split at hid <;> split at hk <;> split at hn <;> exact ⟨hid, hk, hn⟩
  · rintro ⟨r, hr, hid, hk, hn⟩
    refine ⟨_, mem_setMaxOf.2 ⟨r, hr, rfl⟩, ?_⟩
    split <;> exact ⟨hid, hk, hn⟩

/-- The `UPDATE` writes. -/
theorem gridShows_updating (h : GridShows k w s a) {l : List ℤ} (hpc : s.pc t = .updating l) :
    ∃ a', Step (fun t => gridWriter (w t)) a t a' ∧ GridShows k w
      ⟨setMaxOf s.db l (w t).dataversion, Function.update s.pc t (.updated l)⟩ a' := by
  have hdone : a.done t = 1 := by rw [h.done, hpc]; rfl
  have hmax : a.max t = some (w t).dataversion := h.max t (by rw [hpc]; exact Nat.one_pos)
  obtain ⟨hmem, hall⟩ := h.targets t l hpc
  obtain ⟨rows, hrows⟩ := exists_gridRows (setMaxOf s.db l (w t).dataversion) k
  -- a row is written to when its version was collected
  have hwrite : ∀ r ∈ s.db.gridvalue.rows, r.toKey = k →
      (r.valueid ∈ l ↔ r.dataversion ∈ a.targets t) := by
    intro r hr hk
    rw [hmem]
    refine ⟨fun hid => ⟨_, hid, r, hr, rfl, hk, rfl⟩, ?_⟩
    rintro ⟨id, hid, hidr⟩
    rwa [gridId_unique ⟨r, hr, rfl, hk, rfl⟩ hidr]
  refine ⟨a.next t rows a.max a.targets, ?_, ?_⟩
  · exact {
      running := by rw [hdone]; exact Nat.one_lt_succ_succ 2
      past := rfl
      inserts := fun hc => by rw [hdone] at hc; cases hc
      sets := fun _ => ⟨by rw [hmax]; rfl, fun n hn hsome => by
        rw [hmax]
        obtain ⟨m, hm⟩ := Option.isSome_iff_exists.1 hsome
        obtain ⟨r, hr, hk, rfl, _⟩ := (h.rows n m).1 hm
        refine (hrows _ _).2 ⟨_, mem_setMaxOf.2 ⟨r, hr, rfl⟩, ?_⟩
        rw [if_pos ((hwrite r hr hk).2 hn)]
        exact ⟨hk, rfl, rfl⟩⟩
      rows := fun n _ hn => by
        refine Option.ext fun m => ?_
        change rows n = some m ↔ a.rows n = some m
        rw [hrows, h.rows]
        have hnot : ∀ r ∈ s.db.gridvalue.rows, r.toKey = k → r.dataversion = n → r.valueid ∉ l :=
          fun r hr hk hrn hid => hn ⟨hdone, hrn ▸ (hwrite r hr hk).1 hid,
            h.isSome_iff.2 ⟨_, r, hr, rfl, hk, hrn⟩⟩
        constructor
        · rintro ⟨v, hv, hk, hvn, hm⟩
          obtain ⟨r, hr, rfl⟩ := mem_setMaxOf.1 hv
          have hid : r.valueid ∉ l := hnot r hr (by revert hk; split <;> exact id)
            (by revert hvn; split <;> exact id)
          rw [if_neg hid] at hk hvn hm
          exact ⟨r, hr, hk, hvn, hm⟩
        · rintro ⟨r, hr, hk, hrn, hm⟩
          refine ⟨r, mem_setMaxOf.2 ⟨r, hr, ?_⟩, hk, hrn, hm⟩
          rw [if_neg (hnot r hr hk hrn)]
      selects := fun hc => by rw [hdone] at hc; cases hc
      max := fun _ _ => rfl
      collects := fun hc => by rw [hdone] at hc; cases hc
      targets := fun _ _ => rfl }
  · refine h.goTo ⟨fun _ _ => gridId_setMaxOf.2, fun _ _ hc => Or.inl (gridId_setMaxOf.1 hc)⟩
      (by rw [hpc]; rfl) hrows hmax rfl (by simp) rfl (by simp)

/-- The `INSERT`. -/
theorem gridShows_updated (h : GridShows k w s a) {l : List ℤ} (hpc : s.pc t = .updated l)
    (hins : insertGrid cat s.db k (w t).dataversion (w t).confidencecode (w t).dataId (w t).now =
      some db) :
    ∃ a', Step (fun t => gridWriter (w t)) a t a' ∧ GridShows k w
      ⟨db, Function.update s.pc t (.inserted l s.db.gridvalueSeq)⟩ a' := by
  have hdone : a.done t = 2 := by rw [h.done, hpc]; rfl
  have hmax : a.max t = some (w t).dataversion := h.max t (by rw [hpc]; exact Nat.succ_pos 1)
  rcases insertGrid_cases cat s.db k (w t).dataversion (w t).confidencecode (w t).dataId (w t).now with
    ⟨_, hnone⟩ | ⟨hok, _, hsome, hdb, _⟩
  · rw [hnone] at hins
    cases hins
  obtain rfl : db = _ := Option.some_inj.1 (hins.symm.trans hsome)
  have hnone : a.rows (w t).dataversion = none := by
    rw [← Option.not_isSome_iff_eq_none, h.isSome_iff]
    rintro ⟨_, v, hv, _, hk, hn⟩
    exact hok (Or.inr ⟨v, hv, hk, hn⟩)
  have hmem : ∀ v, v ∈ db.gridvalue.rows ↔ v ∈ s.db.gridvalue.rows ∨ v = newGrid s.db k
      (w t).dataversion (w t).confidencecode (w t).dataId (w t).now := by
    intro v
    rw [hdb, List.mem_append, List.mem_singleton]
  have hid : ∀ id n, GridId db k id n ↔ GridId s.db k id n ∨
      (s.db.gridvalueSeq = id ∧ (w t).dataversion = n) := by
    intro id n
    constructor
    · rintro ⟨v, hv, hvid, hk, hn⟩
      rcases (hmem v).1 hv with hv | rfl
      · exact Or.inl ⟨v, hv, hvid, hk, hn⟩
      · exact Or.inr ⟨hvid, hn⟩
    · rintro (⟨v, hv, hvid, hk, hn⟩ | ⟨rfl, rfl⟩)
      · exact ⟨v, (hmem v).2 (Or.inl hv), hvid, hk, hn⟩
      · exact ⟨_, (hmem _).2 (Or.inr rfl), rfl, rfl, rfl⟩
  refine ⟨a.next t (Function.update a.rows (w t).dataversion (some (w t).dataversion)) a.max a.targets,
    ?_, ?_⟩
  · exact {
      running := by rw [hdone]; exact Nat.lt_add_of_pos_right Nat.two_pos
      past := rfl
      inserts := fun _ => ⟨hnone, Function.update_self ..⟩
      sets := fun hc => by rw [hdone] at hc; cases hc
      rows := fun n hn _ => Function.update_of_ne (fun hv => hn ⟨hdone, hv⟩) _ _
      selects := fun hc => by rw [hdone] at hc; cases hc
      max := fun _ _ => rfl
      collects := fun hc => by rw [hdone] at hc; cases hc
      targets := fun _ _ => rfl }
  · refine h.goTo ⟨fun id n hn => (hid id n).2 (Or.inl hn), fun id n hn => ?_⟩ (by rw [hpc]; rfl) ?_
      hmax rfl (by simp) rfl ?_
    · refine ((hid id n).1 hn).imp_right ?_
      rintro ⟨rfl, _⟩ m ⟨v, hv, hvid, _⟩
      exact absurd (s.db.valueid_drawn v hv) (hvid ▸ lt_irrefl _)
    · intro n m
      by_cases hn : n = (w t).dataversion
      · rw [hn, Function.update_self, Option.some_inj]
        constructor
        · rintro rfl
          exact ⟨_, (hmem _).2 (Or.inr rfl), rfl, rfl, rfl⟩
        · rintro ⟨v, hv, hk, hvn, hm⟩
          rcases (hmem v).1 hv with hv | rfl
          · exact absurd (Or.inr ⟨v, hv, hk, hvn⟩) hok
          · exact hm
      · rw [Function.update_of_ne hn, h.rows]
        constructor
        · rintro ⟨v, hv, hvm⟩
          exact ⟨v, (hmem v).2 (Or.inl hv), hvm⟩
        · rintro ⟨v, hv, hk, hvn, hm⟩
          rcases (hmem v).1 hv with hv | rfl
          · exact ⟨v, hv, hk, hvn, hm⟩
          · exact absurd hvn.symm hn
    · rintro l' id ⟨⟩
      exact (hid _ _).2 (Or.inr ⟨rfl, rfl⟩)

/-- The commit. -/
theorem gridShows_inserted (h : GridShows k w s a) {l : List ℤ} {id : ℤ}
    (hpc : s.pc t = .inserted l id) :
    ∃ a', Step (fun t => gridWriter (w t)) a t a' ∧ GridShows k w
      ⟨s.db, Function.update s.pc t .committed⟩ a' := by
  have hdone : a.done t = 3 := by rw [h.done, hpc]; rfl
  have hmax : a.max t = some (w t).dataversion := h.max t (by rw [hpc]; exact Nat.succ_pos 2)
  refine ⟨a.next t a.rows a.max a.targets, ?_, ?_⟩
  · apply Step.quiet <;> rw [hdone] <;> simp [gridWriter]
  · exact h.goTo .refl (by rw [hpc]; rfl) h.rows hmax rfl (by simp) rfl (by simp)

/-- Every statement is a step on the versions of the key. -/
theorem gridStatement_shows (h : GridShows k w s a) {s' : GridRace}
    (hs : gridStatement cat k w s t = some s') :
    ∃ a', Step (fun t => gridWriter (w t)) a t a' ∧ GridShows k w s' a' := by
  unfold gridStatement at hs
  simp only at hs
  cases hpc : s.pc t with
  | begun =>
    rw [hpc] at hs
    rw [← Option.some_inj.1 hs]
    exact gridShows_begun h hpc rfl
  | updating l =>
    rw [hpc] at hs
    simp only at hs
    split at hs
    · rw [← Option.some_inj.1 hs]
      exact gridShows_updating h hpc
    · cases hs
  | updated l =>
    rw [hpc] at hs
    obtain ⟨db, hins, rfl⟩ := Option.map_eq_some_iff.1 hs
    exact gridShows_updated h hpc hins
  | inserted l id =>
    rw [hpc] at hs
    rw [← Option.some_inj.1 hs]
    exact gridShows_inserted h hpc
  | committed =>
    rw [hpc] at hs
    cases hs

/-- A run of statements is a run of steps. -/
theorem gridRace_shows {db : Db} {l : List Tx} {s' : GridRace}
    (h : exec (gridStatement cat k w) (.start db) l = some s') :
    ∃ (rows : ℤ → Option ℤ) (a : State), (∀ n, (rows n).isSome ↔ n ∈ db.gridVersions k) ∧
      Reaches (fun t => gridWriter (w t)) rows a ∧ a.past = l ∧ GridShows k w s' a := by
  obtain ⟨rows, hrows⟩ := exists_gridRows db k
  have hstart : GridShows k w (.start db) ⟨[], rows, fun _ => none, fun _ => ∅⟩ :=
    ⟨hrows, fun _ => rfl, fun _ h => absurd h (lt_irrefl 0), by simp [GridRace.start],
      by simp [GridRace.start]⟩
  have hinv := inv_exec (gridStatement cat k w) (fun p s => ∃ a,
    Reaches (fun t => gridWriter (w t)) rows a ∧ a.past = p ∧ GridShows k w s a) (by
      rintro p s t s' ⟨a, ha, rfl, hshows⟩ hs
      obtain ⟨a', hstep, hshows'⟩ := gridStatement_shows hshows hs
      exact ⟨a', ha.step hstep, hstep.past, hshows'⟩) l [] _ s' ⟨_, .init, rfl, hstart⟩ h
  obtain ⟨a, ha, hpast, hshows⟩ := hinv
  refine ⟨rows, a, fun n => ?_, ha, hpast, hshows⟩
  rw [hstart.isSome_iff]
  exact ⟨fun ⟨_, v, hv, _, hk, hn⟩ => ⟨v, hv, hk, hn⟩, fun ⟨v, hv, hk, hn⟩ => ⟨_, v, hv, rfl, hk, hn⟩⟩

end Simulation

/-- After two concurrent writes of one key, its maxima are right exactly when one transaction began after
    the other had committed, and wrote the greatest version. -/
theorem gridRace_iff {cat : Catalog} {k : Key} {w : Tx → GridWrite} {db : Db} {l : List Tx}
    {s : GridRace} (hne : (w .first).dataversion ≠ (w .second).dataversion)
    (h : exec (gridStatement cat k w) (.start db) l = some s) (hend : ∀ t, s.pc t = .committed) :
    s.db.GridMaxOf k ↔ ∃ t : Tx, l = List.replicate 4 t.other ++ List.replicate 4 t ∧
      ∀ n ∈ insert (w t.other).dataversion (db.gridVersions k), n ≤ (w t).dataversion := by
  obtain ⟨rows, a, hV, hreach, rfl, hshows⟩ := gridRace_shows h
  have hne' : ∀ t, (gridWriter (w t)).version ≠ (gridWriter (w t.other)).version := by
    rw [Tx.forall_iff .first]
    exact ⟨hne, hne.symm⟩
  have hinv := hreach.inv hne'
  have hdone : ∀ t, a.done t = 4 := fun t => by rw [hshows.done, hend]; rfl
  have hmax : ∀ t, a.max t = some (w t).dataversion := fun t =>
    hshows.max t (by rw [hend]; exact Nat.succ_pos 3)
  -- the versions stored in the end are the old ones and the two new ones
  have hstored : ∀ t n, n ∈ s.db.gridVersions k ↔
      n ∈ db.gridVersions k ∨ n = (w t).dataversion ∨ n = (w t.other).dataversion := by
    intro t n
    have hdom := hinv.dom n
    rw [hshows.isSome_iff, Set.mem_ofPred_eq, hV, Tx.exists_iff t, hdone, hdone] at hdom
    have hins : (gridWriter (w t)).insertAt < 4 ∧ (gridWriter (w t.other)).insertAt < 4 :=
      ⟨Nat.lt_add_of_pos_right Nat.two_pos, Nat.lt_add_of_pos_right Nat.two_pos⟩
    rw [and_iff_right hins.1, and_iff_right hins.2] at hdom
    refine Iff.trans ?_ hdom
    exact ⟨fun ⟨v, hv, hk, hn⟩ => ⟨_, v, hv, rfl, hk, hn⟩, fun ⟨_, v, hv, _, hk, hn⟩ => ⟨v, hv, hk, hn⟩⟩
  obtain ⟨g, hg⟩ : ∃ g, IsGreatest (s.db.gridVersions k) g := by
    obtain ⟨v, hv, hk, _⟩ := (hstored .first _).2 (Or.inr (Or.inl rfl))
    obtain ⟨b, hb, hbk, hmax⟩ := exists_greatest GridValue.dataversion
      (p := fun b => b.toKey = k) ⟨v, hv, hk⟩
    exact ⟨b.dataversion, ⟨b, hb, hbk, rfl⟩, fun n ⟨c, hc, hck, hcn⟩ => hcn ▸ hmax c hc hck⟩
  have hsome : {n | (a.rows n).isSome} = s.db.gridVersions k := by
    ext n
    rw [Set.mem_ofPred_eq, hshows.isSome_iff]
    exact ⟨fun ⟨_, v, hv, _, hk, hn⟩ => ⟨v, hv, hk, hn⟩, fun ⟨v, hv, hk, hn⟩ => ⟨_, v, hv, rfl, hk, hn⟩⟩
  have hmaxOf : s.db.GridMaxOf k ↔ ∀ n m, a.rows n = some m → m = g := by
    constructor
    · intro hall n m hnm
      obtain ⟨v, hv, hk, _, rfl⟩ := (hshows.rows n m).1 hnm
      exact (hall v hv hk).unique hg
    · intro hall v hv hk
      rwa [hall _ _ ((hshows.rows _ _).2 ⟨v, hv, hk, rfl, rfl⟩)]
  have hfirst : ∀ t, ¬ (gridWriter (w t)).insertsFirst := fun t => Nat.not_lt_zero 2
  rw [hmaxOf, hinv.greatest_iff hne' hdone (hsome ▸ hg) (fun t _ m _ hm => hm)
    (fun t ht => absurd ht.2 (hfirst t)), or_iff_left fun hall => hfirst .first (hall .first).2.1]
  refine exists_congr fun t => ?_
  have hcount : a.past.count t = 4 ∧ a.past.count t.other = 4 := ⟨hdone t, hdone t.other⟩
  have hfollows := follows_all_iff (l := a.past) (t := t) (by rw [hcount.1]; decide)
  rw [hcount.1, hcount.2] at hfollows
  have hupdates : (gridWriter (w t)).updates := Nat.one_lt_succ_succ 2
  rw [and_iff_right hupdates]
  refine and_congr hfollows ?_
  rw [hmax, Option.some_inj]
  constructor
  · rintro rfl n hn
    refine hg.2 ((hstored t n).2 ?_)
    exact hn.elim (fun hn => Or.inr (Or.inr hn)) Or.inl
  · intro hall
    refine le_antisymm (hg.2 ((hstored t _).2 (Or.inr (Or.inl rfl)))) ?_
    rcases (hstored t g).1 hg.1 with hn | hn | hn
    · exact hall g (Or.inr hn)
    · exact le_of_eq hn
    · exact hall g (Or.inl hn)

end Wdb.Store
