import Wdb.Lib.Table
import Wdb.Store.Read

/-! The value tables, the views over them, and the reads from the views.

    A grid value is one row of `gridvalue`; its value is the id of a file. A float value is an item
    with its reference time, and a group that holds the series, the version and the valid times as
    intervals relative to the reference time; many items share a group. -/

namespace Wdb.Store
open Relational SqlTime

/-- A row of `gridvalue`. -/
structure GridValue extends Key where
  valueid : ℤ
  dataversion : ℤ
  maxdataversion : ℤ
  confidencecode : ℤ
  value : ℤ
  valuestoretime : ℤ
  deriving DecidableEq

/-- A row of `floatvaluegroup`. -/
structure FloatValueGroup extends Series where
  valuegroupid : ℤ
  validtimefrom : SqlTime.Interval
  validtimeto : SqlTime.Interval
  dataversion : ℤ
  deriving DecidableEq

/-- A row of `floatvalueitem`. -/
structure FloatValueItem where
  valuegroupid : ℤ
  referencetime : ℤ
  maxdataversion : ℤ
  confidencecode : ℤ
  value : ℚ
  valuestoretime : ℤ
  deriving DecidableEq

/-- `gridvalue_pkey` and `XAK1Wdb_gridvalue`. -/
def GridValue.clash (a b : GridValue) : Prop :=
  a.valueid = b.valueid ∨ (a.toKey = b.toKey ∧ a.dataversion = b.dataversion)

/-- Two groups are of one series and have equal valid times; intervals are compared by length. -/
def FloatValueGroup.sameValid (a b : FloatValueGroup) : Prop :=
  a.toSeries = b.toSeries ∧ a.validtimefrom.span = b.validtimefrom.span ∧
  a.validtimeto.span = b.validtimeto.span

/-- `floatvaluegroup_pkey` and `XAK1Wdb_FloatValueGroup`. -/
def FloatValueGroup.clash (a b : FloatValueGroup) : Prop :=
  a.valuegroupid = b.valuegroupid ∨ (a.sameValid b ∧ a.dataversion = b.dataversion)

/-- `floatvalueitem_pkey`. -/
def FloatValueItem.clash (a b : FloatValueItem) : Prop :=
  a.valuegroupid = b.valuegroupid ∧ a.referencetime = b.referencetime

instance : DecidableRel GridValue.clash := fun _ _ => inferInstanceAs (Decidable (_ ∨ _))
instance : DecidableRel FloatValueGroup.sameValid := fun _ _ => inferInstanceAs (Decidable (_ ∧ _))
instance : DecidableRel FloatValueGroup.clash := fun _ _ => inferInstanceAs (Decidable (_ ∨ _))
instance : DecidableRel FloatValueItem.clash := fun _ _ => inferInstanceAs (Decidable (_ ∧ _))

theorem GridValue.clash_symm (a b : GridValue) : a.clash b → b.clash a := by
  rintro (h | ⟨h₁, h₂⟩)
  · exact Or.inl h.symm
  · exact Or.inr ⟨h₁.symm, h₂.symm⟩

theorem FloatValueGroup.sameValid_symm {a b : FloatValueGroup} (h : a.sameValid b) :
    b.sameValid a := ⟨h.1.symm, h.2.1.symm, h.2.2.symm⟩

theorem FloatValueGroup.sameValid_trans {a b c : FloatValueGroup} (h : a.sameValid b)
    (h' : b.sameValid c) : a.sameValid c :=
  ⟨h.1.trans h'.1, h.2.1.trans h'.2.1, h.2.2.trans h'.2.2⟩

theorem FloatValueGroup.clash_refl (a : FloatValueGroup) : a.clash a := Or.inl rfl

theorem FloatValueGroup.clash_symm (a b : FloatValueGroup) : a.clash b → b.clash a := by
  rintro (h | ⟨h₁, h₂⟩)
  · exact Or.inl h.symm
  · exact Or.inr ⟨sameValid_symm h₁, h₂.symm⟩

theorem FloatValueItem.clash_symm (a b : FloatValueItem) (h : a.clash b) : b.clash a :=
  ⟨h.1.symm, h.2.symm⟩

/-- The value tables with the sequences of their ids. Every id was drawn from its sequence, and every
    item refers to a group. -/
structure Db where
  gridvalue : Table GridValue GridValue.clash
  gridvalueSeq : ℤ
  floatvaluegroup : Table FloatValueGroup FloatValueGroup.clash
  floatvaluegroupSeq : ℤ
  floatvalueitem : Table FloatValueItem FloatValueItem.clash
  valueid_drawn : ∀ v ∈ gridvalue.rows, v.valueid < gridvalueSeq
  valuegroupid_drawn : ∀ g ∈ floatvaluegroup.rows, g.valuegroupid < floatvaluegroupSeq
  valuegroupid_refers : ∀ i ∈ floatvalueitem.rows,
    ∃ g ∈ floatvaluegroup.rows, g.valuegroupid = i.valuegroupid

/-- No values yet. -/
def Db.empty : Db where
  gridvalue := .empty
  gridvalueSeq := 1
  floatvaluegroup := .empty
  floatvaluegroupSeq := 1
  floatvalueitem := .empty
  valueid_drawn _ h := nomatch h
  valuegroupid_drawn _ h := nomatch h
  valuegroupid_refers _ h := nomatch h

section Views
variable (cat : Catalog) (session : Session) (db : Db)

/-- The rows of `gridvalue_v` for one grid value. -/
def GridValue.shown (v : GridValue) : List (ValueV ℤ) :=
  (cat.names session v.toSeries v.referencetime).map fun n =>
    { toKey := v.toKey
      value := v.value
      names := n
      dataversion := v.dataversion
      maxdataversion := v.maxdataversion
      confidencecode := v.confidencecode
      valuestoretime := v.valuestoretime
      valueid := v.valueid }

/-- `gridvalue_v`. -/
def gridvalueV : List (ValueV ℤ) := db.gridvalue.rows.flatMap (GridValue.shown cat session)

/-- The rows of `floatvalue_v` for an item and its group. The valid times are computed in the time
    zone of the session. -/
def FloatValueItem.shown (i : FloatValueItem) (g : FloatValueGroup) : List (ValueV ℚ) :=
  (cat.names session g.toSeries i.referencetime).map fun n =>
    { toSeries := g.toSeries
      referencetime := i.referencetime
      validtimefrom := timestamptzPlInterval session.timezone i.referencetime g.validtimefrom
      validtimeto := timestamptzPlInterval session.timezone i.referencetime g.validtimeto
      value := i.value
      names := n
      dataversion := g.dataversion
      maxdataversion := i.maxdataversion
      confidencecode := i.confidencecode
      valuestoretime := i.valuestoretime
      valueid := g.valuegroupid }

/-- `floatvalue_v`. -/
def floatvalueV : List (ValueV ℚ) :=
  db.floatvalueitem.rows.flatMap fun i =>
    (db.floatvaluegroup.rows.filter fun g => i.valuegroupid = g.valuegroupid).flatMap fun g =>
      i.shown cat session g

/-- `wci.read(…, NULL::wci.returngid)`. -/
def readGid (p : ReadParameters) (location : Arg Location) : Option (List (ValueV ℤ)) :=
  buildQuery cat p (addLocationQuery cat session location) (gridvalueV cat session db)

/-- The part of `wci.read(…, NULL::wci.returnfloat)` that comes from the float table, without a
    location. -/
def readFloatTable (p : ReadParameters) : Option (List (ValueV ℚ)) :=
  buildQuery cat p (some fun _ => true) (floatvalueV cat session db)

end Views

/-! ### What the views show -/

section ViewLemmas
variable {cat : Catalog} {session : Session} {db : Db}

/-- Two items of one group and reference time are one item. -/
theorem item_eq {i j : FloatValueItem} (hi : i ∈ db.floatvalueitem.rows)
    (hj : j ∈ db.floatvalueitem.rows) (hg : i.valuegroupid = j.valuegroupid)
    (hr : i.referencetime = j.referencetime) : i = j :=
  db.floatvalueitem.eq_of_clash FloatValueItem.clash_symm hi hj ⟨hg, hr⟩

/-- Two groups with one id are one group. -/
theorem group_eq {g h : FloatValueGroup} (hg : g ∈ db.floatvaluegroup.rows)
    (hh : h ∈ db.floatvaluegroup.rows) (hid : g.valuegroupid = h.valuegroupid) : g = h :=
  db.floatvaluegroup.eq_of_clash FloatValueGroup.clash_symm hg hh (Or.inl hid)

/-- Two grid values with one id are one value. -/
theorem grid_eq {a b : GridValue} (ha : a ∈ db.gridvalue.rows) (hb : b ∈ db.gridvalue.rows)
    (hid : a.valueid = b.valueid) : a = b :=
  db.gridvalue.eq_of_clash GridValue.clash_symm ha hb (Or.inl hid)

theorem mem_gridvalueV {v : ValueV ℤ} :
    v ∈ gridvalueV cat session db ↔ ∃ a ∈ db.gridvalue.rows, v ∈ a.shown cat session :=
  List.mem_flatMap

theorem mem_floatvalueV {v : ValueV ℚ} :
    v ∈ floatvalueV cat session db ↔ ∃ i ∈ db.floatvalueitem.rows,
      ∃ g ∈ db.floatvaluegroup.rows, i.valuegroupid = g.valuegroupid ∧
        v ∈ i.shown cat session g := by
  unfold floatvalueV
  simp only [List.mem_flatMap, List.mem_filter, decide_eq_true_eq, and_assoc]

/-- The columns of a row of `gridvalue_v`. -/
theorem shown_grid {a : GridValue} {v : ValueV ℤ} (h : v ∈ a.shown cat session) :
    v.toKey = a.toKey ∧ v.valueid = a.valueid ∧ v.dataversion = a.dataversion ∧
    v.maxdataversion = a.maxdataversion ∧
    v.names ∈ cat.names session a.toSeries a.referencetime := by
  obtain ⟨n, hn, rfl⟩ := List.mem_map.1 h
  exact ⟨rfl, rfl, rfl, rfl, hn⟩

/-- The columns of a row of `floatvalue_v`. -/
theorem shown_item {i : FloatValueItem} {g : FloatValueGroup} {v : ValueV ℚ}
    (h : v ∈ i.shown cat session g) :
    v.toSeries = g.toSeries ∧ v.referencetime = i.referencetime ∧
    v.validtimefrom = timestamptzPlInterval session.timezone i.referencetime g.validtimefrom ∧
    v.validtimeto = timestamptzPlInterval session.timezone i.referencetime g.validtimeto ∧
    v.valueid = g.valuegroupid ∧ v.dataversion = g.dataversion ∧
    v.maxdataversion = i.maxdataversion ∧
    v.names ∈ cat.names session g.toSeries i.referencetime := by
  obtain ⟨n, hn, rfl⟩ := List.mem_map.1 h
  exact ⟨rfl, rfl, rfl, rfl, rfl, rfl, rfl, hn⟩

/-- What is said of the maximum of a row in every view that shows it. -/
theorem forall_shown {β : Type} {P : ℤ → Prop} {s : Series} {referencetime m : ℤ}
    {shown : Session → Names → ValueV β} (hmax : ∀ session n, (shown session n).maxdataversion = m) :
    (∀ session, ∀ v ∈ (cat.names session s referencetime).map (shown session), P v.maxdataversion) ↔
      cat.Unnamed s referencetime ∨ P m := by
  simp only [List.forall_mem_map, hmax]
  constructor
  · intro h
    rw [or_iff_not_imp_right]
    intro hP session
    rw [List.eq_nil_iff_forall_not_mem]
    intro n hn
    exact hP (h session n hn)
  · rintro (hnone | hP) session n hn
    · exact absurd (hnone session) (List.ne_nil_of_mem hn)
    · exact hP

theorem forall_shown_grid {P : ℤ → Prop} {a : GridValue} :
    (∀ session, ∀ v ∈ a.shown cat session, P v.maxdataversion) ↔
      cat.Unnamed a.toSeries a.referencetime ∨ P a.maxdataversion :=
  forall_shown fun _ _ => rfl

theorem forall_shown_item {P : ℤ → Prop} {i : FloatValueItem} {g : FloatValueGroup} :
    (∀ session, ∀ v ∈ i.shown cat session g, P v.maxdataversion) ↔
      cat.Unnamed g.toSeries i.referencetime ∨ P i.maxdataversion :=
  forall_shown fun _ _ => rfl

/-- Whether a grid value is shown depends on its key. -/
theorem exists_shown_grid {a b : GridValue} {v : ValueV ℤ} (h : v ∈ a.shown cat session)
    (hkey : b.toKey = a.toKey) : ∃ w, w ∈ b.shown cat session := by
  have hn := (shown_grid h).2.2.2.2
  have hs : b.toSeries = a.toSeries := congrArg Key.toSeries hkey
  have hr : b.referencetime = a.referencetime := congrArg Key.referencetime hkey
  rw [← hs, ← hr] at hn
  exact ⟨_, List.mem_map.2 ⟨_, hn, rfl⟩⟩

/-- Whether an item is shown depends on the series of its group and its reference time. -/
theorem exists_shown_item {i j : FloatValueItem} {g h : FloatValueGroup} {v : ValueV ℚ}
    (hv : v ∈ i.shown cat session g) (hs : h.toSeries = g.toSeries)
    (hr : j.referencetime = i.referencetime) : ∃ w, w ∈ j.shown cat session h := by
  have hn := (shown_item hv).2.2.2.2.2.2.2
  rw [← hs, ← hr] at hn
  exact ⟨_, List.mem_map.2 ⟨_, hn, rfl⟩⟩

end ViewLemmas

end Wdb.Store
