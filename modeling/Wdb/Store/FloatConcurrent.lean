import Wdb.Lib.ReadCommitted
import Wdb.Store.FloatMax
import Wdb.Store.GridConcurrent

/-! Two concurrent float writes of one key.

    A write inserts its group, or finds it, and then its item. For a positive version it selects the
    maximum from the view, and updates the items of the key that its snapshot shows. The heap has the
    rows of both transactions, as for grids. The groups of two versions differ, so that an insert never
    waits for the other transaction, and a group without visible items shows nothing, so that it is
    enough to hide items. -/

namespace Wdb.Store
open Relational SqlTime SqlTypes Versioned Runs ReadCommitted

/-- The arguments of a float write, besides the key, with its session. -/
structure FloatWrite where
  session : Session
  dataversion : ℤ
  confidencecode : ℤ
  value : ℚ
  now : ℤ

/-- The primary key of an item. -/
abbrev ItemId := ℤ × ℤ

def FloatValueItem.id (i : FloatValueItem) : ItemId := (i.valuegroupid, i.referencetime)

/-- How far a transaction is: its group, its item, the maximum it has selected, and the items that its
    `UPDATE` collected. -/
inductive FloatPc where
  | begun
  | grouped (groupid_ : Option ℤ)
  | stored (item : ItemId)
  | selected (item : ItemId) (max_ : Option ℤ)
  | updating (item : ItemId) (max_ : Option ℤ) (targets : List ItemId)
  | updated (item : ItemId) (targets : List ItemId)
  | committed
  deriving DecidableEq

/-- The items that a transaction has locked. -/
def FloatPc.locks : FloatPc → List ItemId
  | .updated _ targets => targets
  | _ => []

/-- The item that a transaction has inserted and not committed. -/
def FloatPc.uncommitted : FloatPc → Option ItemId
  | .stored item => some item
  | .selected item _ => some item
  | .updating item _ _ => some item
  | .updated item _ => some item
  | _ => none

/-- The tables, and the two transactions. -/
structure FloatRace where
  db : Db
  pc : Tx → FloatPc

/-- Both transactions have begun. -/
def FloatRace.start (db : Db) : FloatRace := ⟨db, fun _ => .begun⟩

/-- `UPDATE floatvalueitem SET maxdataversion`, in the items collected. -/
def setItemsMax (db : Db) (targets : List ItemId) (max_ : ℤ) : Db :=
  { db with
    floatvalueitem := db.floatvalueitem.update (fun i => i.id ∈ targets)
      (fun i => { i with maxdataversion := max_ }) (fun _ _ h => h) (fun _ _ h => h)
    valuegroupid_refers := fun i hi => by
      obtain ⟨j, hj, rfl⟩ := List.mem_map.1 hi
      obtain ⟨g, hg, hid⟩ := db.valuegroupid_refers j hj
      refine ⟨g, hg, ?_⟩
      unfold Table.updateRow
      split <;> exact hid }

/-- What the statements of a transaction see: not the item of the other one before it commits. -/
def FloatRace.visible (s : FloatRace) (t : Tx) : Db :=
  (deleteItems s.db fun i => some i.id = (s.pc t.other).uncommitted).1

/-- The next statement of a transaction; `none` when it waits or raises. -/
def floatStatement (cat : Catalog) (k : Key) (w : Tx → FloatWrite) (s : FloatRace) (t : Tx) :
    Option FloatRace :=
  let goTo (db : Db) (pc : FloatPc) : FloatRace := ⟨db, Function.update s.pc t pc⟩
  match s.pc t with
  | .begun => (insertGroup cat s.db k (w t).dataversion).map fun (db, groupid_) =>
      goTo db (.grouped groupid_)
  | .grouped groupid_ => groupid_.bind fun groupid =>
      (insertItem cat s.db (some groupid) k.referencetime (w t).dataversion (w t).confidencecode
        (w t).value (w t).now).map fun db => goTo db (.stored (groupid, k.referencetime))
  | .stored item =>
    if (w t).dataversion > 0 then
      some (goTo s.db (.selected item (selectMax cat (s.visible t) (w t).session k)))
    else some (goTo s.db .committed)
  | .selected item max_ =>
    let targets := (s.visible t).floatvalueitem.rows.filter (ofKey (s.visible t) k)
    some (goTo s.db (.updating item max_ (targets.map FloatValueItem.id)))
  | .updating item max_ targets =>
    if ∀ id ∈ targets, id ∉ (s.pc t.other).locks then
      match max_ with
      | some m => some (goTo (setItemsMax s.db targets m) (.updated item targets))
      | none => if targets = [] then some (goTo s.db (.updated item targets)) else none
    else none
  | .updated _ _ => some (goTo s.db .committed)
  | .committed => none

/-- Every float value of the key has the greatest version of the key as its maximum. -/
def Db.FloatMaxOf (db : Db) (k : Key) : Prop :=
  ∀ x ∈ db.floats, floatKey x = k → IsGreatest (db.keyVersions k) x.1.maxdataversion

/-- The number of statements of a write, with the commit. -/
def FloatWrite.length (w : FloatWrite) : ℕ := if 0 < w.dataversion then 6 else 3

/-! ### The statements as steps on the versions of the key -/

/-- A float write inserts its item, and then sets the greatest version that its view shows. -/
def floatWriter (db : Db) (k : Key) (w : FloatWrite) : Writer where
  version := w.dataversion
  chooses V m := IsGreatest ({n | Faithful w.session k ∧ n ∈ V} ∪ db.shownVersions w.session k) m
  insertAt := 1
  selectAt := if 0 < w.dataversion then 2 else 3
  snapshotAt := if 0 < w.dataversion then 3 else 4
  updateAt := if 0 < w.dataversion then 4 else 5
  length := w.length
  select_le := by split <;> decide
  snapshot_lt := by split <;> decide
  insert_apart := by split <;> decide
  insert_lt := by unfold FloatWrite.length; split <;> decide

/-- The number of statements made. -/
def FloatPc.rank (length : ℕ) : FloatPc → ℕ
  | .begun => 0
  | .grouped _ => 1
  | .stored _ => 2
  | .selected _ _ => 3
  | .updating _ _ _ => 4
  | .updated _ _ => 5
  | .committed => length

/-- The maximum that a transaction has selected. -/
def FloatPc.chosen : FloatPc → Option (Option ℤ)
  | .selected _ max_ => some max_
  | .updating _ max_ _ => some max_
  | _ => none

/-- A float value of the key, with its version and maximum. -/
def FloatRow (db : Db) (k : Key) (n m : ℤ) : Prop :=
  ∃ x ∈ db.floats, floatKey x = k ∧ x.2.dataversion = n ∧ x.1.maxdataversion = m

/-- A float value of the key, with its id and version. -/
def FloatId (db : Db) (k : Key) (id : ItemId) (n : ℤ) : Prop :=
  ∃ x ∈ db.floats, x.1.id = id ∧ floatKey x = k ∧ x.2.dataversion = n

/-- The tables have the same float values of the key, and perhaps new ones with new ids; those of other
    keys are the same, and groups are added only. -/
structure FloatExtends (k : Key) (db db' : Db) : Prop where
  keep : ∀ id n, FloatId db k id n → FloatId db' k id n
  fresh : ∀ id n, FloatId db' k id n → FloatId db k id n ∨ ∀ m, ¬ FloatId db k id m
  groups : ∀ g ∈ db.floatvaluegroup.rows, g ∈ db'.floatvaluegroup.rows
  canonical : Canonical db → Canonical db'
  foreign : ∀ x, floatKey x ≠ k → (x ∈ db'.floats ↔ x ∈ db.floats)

/-- The state shows the rows of the key and the progress of the transactions. -/
structure FloatShows (db₀ : Db) (k : Key) (w : Tx → FloatWrite) (s : FloatRace) (a : State) :
    Prop where
  rows : ∀ n m, a.rows n = some m ↔ FloatRow s.db k n m
  done : ∀ t, a.done t = (s.pc t).rank (w t).length
  positive : ∀ t item, (s.pc t).uncommitted = some item →
    s.pc t = .stored item ∨ 0 < (w t).dataversion
  max : ∀ t max_, (s.pc t).chosen = some max_ → a.max t = max_
  targets : ∀ t item max_ l, s.pc t = .updating item max_ l →
    (∀ n, n ∈ a.targets t ↔ ∃ id ∈ l, FloatId s.db k id n) ∧ ∀ id ∈ l, ∃ n, FloatId s.db k id n
  own : ∀ t item max_ l, s.pc t = .updating item max_ l → item ∈ l
  grouped : ∀ t id, s.pc t = .grouped (some id) → ∃ g ∈ s.db.floatvaluegroup.rows,
    g.valuegroupid = id ∧ g.ofKey k ∧ g.dataversion = (w t).dataversion
  uncommitted : ∀ t item, (s.pc t).uncommitted = some item →
    FloatId s.db k item (w t).dataversion
  canonical : Canonical s.db
  foreign : ∀ x, floatKey x ≠ k → (x ∈ s.db.floats ↔ x ∈ db₀.floats)

section Rows
variable {db db' : Db} {k : Key}

/-- Two float values with one item are one value. -/
theorem float_eq {x y : FloatValueItem × FloatValueGroup} (hx : x ∈ db.floats) (hy : y ∈ db.floats)
    (h : x.1.id = y.1.id) : x = y := by
  obtain ⟨hxi, hxg, hx⟩ := mem_floats.1 hx
  obtain ⟨hyi, hyg, hy⟩ := mem_floats.1 hy
  obtain ⟨hg, hr⟩ := Prod.mk.inj h
  exact Prod.ext (item_eq hxi hyi hg hr) (group_eq hxg hyg (hx.symm.trans (hg.trans hy)))

/-- Two float values of one key and version are one value. -/
theorem float_eq_of_version {x y : FloatValueItem × FloatValueGroup} (hx : x ∈ db.floats)
    (hy : y ∈ db.floats) (hk : floatKey x = floatKey y) (hv : x.2.dataversion = y.2.dataversion) :
    x = y := by
  obtain ⟨_, hxg, hxid⟩ := mem_floats.1 hx
  obtain ⟨_, hyg, hyid⟩ := mem_floats.1 hy
  obtain ⟨hs, hr⟩ := floatKey_eq_iff.1 hk
  have hg : x.2 = y.2 := db.floatvaluegroup.eq_of_clash FloatValueGroup.clash_symm hxg hyg
    (Or.inr ⟨hs, hv⟩)
  exact float_eq hx hy (Prod.ext (hxid.trans (hg ▸ hyid.symm)) hr)

/-- A key and version have one maximum. -/
theorem floatRow_unique {n m m' : ℤ} (h : FloatRow db k n m) (h' : FloatRow db k n m') : m = m' := by
  obtain ⟨x, hx, hk, hn, rfl⟩ := h
  obtain ⟨y, hy, hk', hn', rfl⟩ := h'
  rw [float_eq_of_version hx hy (hk.trans hk'.symm) (hn.trans hn'.symm)]

theorem exists_floatRows (db : Db) (k : Key) :
    ∃ rows : ℤ → Option ℤ, ∀ n m, rows n = some m ↔ FloatRow db k n m :=
  exists_rows fun _ _ _ => floatRow_unique

/-- A key and version have one id. -/
theorem floatId_unique {id id' : ItemId} {n : ℤ} (h : FloatId db k id n) (h' : FloatId db k id' n) :
    id = id' := by
  obtain ⟨x, hx, rfl, hk, hn⟩ := h
  obtain ⟨y, hy, rfl, hk', hn'⟩ := h'
  rw [float_eq_of_version hx hy (hk.trans hk'.symm) (hn.trans hn'.symm)]

/-- An id has one version. -/
theorem floatId_version {id : ItemId} {n n' : ℤ} (h : FloatId db k id n) (h' : FloatId db k id n') :
    n = n' := by
  obtain ⟨x, hx, hid, _, rfl⟩ := h
  obtain ⟨y, hy, hid', _, rfl⟩ := h'
  rw [float_eq hx hy (hid.trans hid'.symm)]

theorem FloatExtends.refl : FloatExtends k db db :=
  ⟨fun _ _ h => h, fun _ _ h => Or.inl h, fun _ h => h, id, fun _ _ => Iff.rfl⟩

/-- What was collected is still there, and nothing was added to it. -/
theorem FloatExtends.collected (h : FloatExtends k db db') {l : List ItemId}
    (hl : ∀ id ∈ l, ∃ n, FloatId db k id n) (n : ℤ) :
    (∃ id ∈ l, FloatId db' k id n) ↔ ∃ id ∈ l, FloatId db k id n := by
  constructor
  · rintro ⟨id, hid, hn⟩
    obtain ⟨m, hm⟩ := hl id hid
    exact ⟨id, hid, (h.fresh id n hn).resolve_right fun hno => hno m hm⟩
  · rintro ⟨id, hid, hn⟩
    exact ⟨id, hid, h.keep id n hn⟩

/-- The first statement leaves the values alone, and a group of the key and version. -/
theorem insertGroup_floats {cat : Catalog} {v : ℤ} {groupid_ : Option ℤ}
    (h : insertGroup cat db k v = some (db', groupid_)) :
    (∀ x, x ∈ db'.floats ↔ x ∈ db.floats) ∧ FloatExtends k db db' ∧
      ∃ g ∈ db'.floatvaluegroup.rows, groupid_ = some g.valuegroupid ∧ g.ofKey k ∧
        g.dataversion = v := by
  rcases insertGroup_cases cat db k v with ⟨_, hnone⟩ | ⟨_, db₁, g, hsome, hg, hofKey, hver, hgroup,
    hitems, _⟩
  · rw [hnone] at h
    cases h
  rw [hsome, Option.some_inj, Prod.mk.injEq] at h
  obtain ⟨rfl, rfl⟩ := h
  have hgroups : ∀ g' ∈ db.floatvaluegroup.rows, g' ∈ db₁.floatvaluegroup.rows := fun g' hg' => by
    rcases hgroup with ⟨_, hrows⟩ | ⟨_, hrows⟩
    · rw [hrows]; exact hg'
    · rw [hrows]; exact List.mem_append_left _ hg'
  have hfloats : ∀ x, x ∈ db₁.floats ↔ x ∈ db.floats := by
    intro x
    rw [mem_floats, mem_floats, hitems]
    refine ⟨fun ⟨hi, hg', hid⟩ => ⟨hi, ?_, hid⟩, fun ⟨hi, hg', hid⟩ => ⟨hi, hgroups _ hg', hid⟩⟩
    -- the items refer to old groups, so that a new one is not theirs
    obtain ⟨g₀, hg₀, hid₀⟩ := db.valuegroupid_refers x.1 hi
    rw [group_eq hg' (hgroups g₀ hg₀) (hid.symm.trans hid₀.symm)]
    exact hg₀
  have hids : ∀ id n, FloatId db₁ k id n ↔ FloatId db k id n := fun id n =>
    exists_congr fun x => and_congr_left fun _ => hfloats x
  refine ⟨hfloats, ⟨fun id n => (hids id n).2, fun id n hn => Or.inl ((hids id n).1 hn), hgroups, ?_,
    fun x _ => hfloats x⟩, g, hg, rfl, hofKey, hver⟩
  intro hc h hh
  rcases hgroup with ⟨_, hrows⟩ | ⟨rfl, hrows⟩
  · exact hc h (hrows ▸ hh)
  · rw [hrows, List.mem_append, List.mem_singleton] at hh
    rcases hh with hh | rfl
    · exact hc h hh
    · unfold newGroup
      rw [span_timestampMi, span_timestampMi]
      exact ⟨rfl, rfl⟩

/-- The values after the `UPDATE`. -/
theorem mem_setItemsMax {l : List ItemId} {m : ℤ} {x : FloatValueItem × FloatValueGroup} :
    x ∈ (setItemsMax db l m).floats ↔ ∃ y ∈ db.floats, x = if y.1.id ∈ l then withMax m y else y := by
  have hrows : (setItemsMax db l m).floatvalueitem.rows = db.floatvalueitem.rows.map
      (Table.updateRow (fun i => i.id ∈ l) fun i => { i with maxdataversion := m }) := rfl
  have hgroups : (setItemsMax db l m).floatvaluegroup = db.floatvaluegroup := rfl
  rw [mem_floats, hrows, hgroups, List.mem_map]
  unfold Table.updateRow
  simp only [decide_eq_true_eq]
  constructor
  · rintro ⟨⟨i, hi, hix⟩, hg, hid⟩
    have hgid : i.valuegroupid = x.1.valuegroupid := by
      rw [← hix]
      split <;> rfl
    refine ⟨(i, x.2), mem_floats.2 ⟨hi, hg, hgid.trans hid⟩, Prod.ext ?_ ?_⟩
    · rw [← hix]
      split <;> rfl
    · split <;> rfl
  · rintro ⟨y, hy, rfl⟩
    obtain ⟨hi, hg, hid⟩ := mem_floats.1 hy
    refine ⟨⟨y.1, hi, ?_⟩, ?_, ?_⟩
    · split <;> rfl
    · split <;> exact hg
    · split <;> exact hid

theorem setItemsMax_extends {l : List ItemId} (m : ℤ) (hl : ∀ id ∈ l, ∃ n, FloatId db k id n) :
    FloatExtends k db (setItemsMax db l m) := by
  have hids : ∀ id n, FloatId (setItemsMax db l m) k id n ↔ FloatId db k id n := by
    intro id n
    constructor
    · rintro ⟨x, hx, hid, hk, hn⟩
      obtain ⟨y, hy, rfl⟩ := mem_setItemsMax.1 hx
      refine ⟨y, hy, ?_⟩
      split at hid <;> split at hk <;> split at hn <;> exact ⟨hid, hk, hn⟩
    · rintro ⟨y, hy, hid, hk, hn⟩
      refine ⟨_, mem_setItemsMax.2 ⟨y, hy, rfl⟩, ?_⟩
      split <;> exact ⟨hid, hk, hn⟩
  refine ⟨fun id n => (hids id n).2, fun id n hn => Or.inl ((hids id n).1 hn), fun _ hg => hg, fun hc => hc,
    fun x hx => ?_⟩
  -- the values of other keys are not collected
  have hnot : ∀ y ∈ db.floats, floatKey y ≠ k → y.1.id ∉ l := by
    intro y hy hyk hmem
    obtain ⟨n, z, hz, hid, hzk, _⟩ := hl _ hmem
    rw [float_eq hz hy hid] at hzk
    exact hyk hzk
  rw [mem_setItemsMax]
  constructor
  · rintro ⟨y, hy, rfl⟩
    by_cases hmem : y.1.id ∈ l
    · rw [if_pos hmem] at hx
      exact absurd hmem (hnot y hy hx)
    · rwa [if_neg hmem]
  · intro hy
    exact ⟨x, hy, by rw [if_neg (hnot x hy hx)]⟩

end Rows

end Wdb.Store
