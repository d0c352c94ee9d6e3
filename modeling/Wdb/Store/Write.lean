import Wdb.Store.Versions

/-! `__WCI_SCHEMA__.write`, for grids and for floats.

    Every overload of `wci.write` and `wci.writed` ends here, with ids, instants and a data version. A
    write either returns the new tables or raises, which undoes everything but the id drawn from the
    sequence. -/

namespace Wdb.Store
open Relational SqlTime SqlTypes Versioned

section Grid
variable (cat : Catalog) (db : Db) (k : Key) (dataversion_ confidencecode_ dataId now : ℤ)

/-- The row that a grid write inserts. -/
def newGrid : GridValue :=
  { toKey := k
    valueid := db.gridvalueSeq
    dataversion := dataversion_
    maxdataversion := dataversion_
    confidencecode := confidencecode_
    value := dataId
    valuestoretime := now }

/-- `UPDATE gridvalue SET maxdataversion = dataversion_ WHERE` the key is that of the write. -/
def setGridMax : Table GridValue GridValue.clash :=
  db.gridvalue.update (fun v => v.toKey = k) (fun v => { v with maxdataversion := dataversion_ })
    (fun _ _ h => h) (fun _ _ h => h)

theorem setGridMax_drawn {v : GridValue} (hv : v ∈ (setGridMax db k dataversion_).rows) :
    v.valueid < db.gridvalueSeq := by
  obtain ⟨a, ha, rfl⟩ := List.mem_map.1 hv
  have h := db.valueid_drawn a ha
  unfold Table.updateRow
  split <;> exact h

/-- The tables after the `UPDATE` of a grid write. -/
def updateGridMax : Db :=
  { db with
    gridvalue := setGridMax db k dataversion_
    valueid_drawn := fun _ hv => setGridMax_drawn db k dataversion_ hv }

/-- `INSERT INTO gridvalue`. The id is drawn from the sequence. -/
def insertGrid : Option Db :=
  if cat.refers k.toSeries ∧ confidencecode_ ∈ cat.qualityconfidencecode then
    (db.gridvalue.insert (newGrid db k dataversion_ confidencecode_ dataId now)).attach.map fun t =>
      { db with
        gridvalue := t.1
        gridvalueSeq := db.gridvalueSeq + 1
        valueid_drawn := fun v hv => by
          rw [(Table.insert_eq_some t.2).2, List.mem_append, List.mem_singleton] at hv
          rcases hv with hv | rfl
          · exact lt_trans (db.valueid_drawn v hv) (lt_add_one _)
          · exact lt_add_one _ }
  else none

/-- `__WCI_SCHEMA__.write` for grids: the maximum of the key is set to the version written, whether or
    not it is the greatest. -/
def writeGrid : Option Db :=
  insertGrid cat (updateGridMax db k dataversion_) k dataversion_ confidencecode_ dataId now

/-- What is left of a grid write that raises. -/
def failedGrid : Db :=
  { db with
    gridvalueSeq := db.gridvalueSeq + 1
    valueid_drawn := fun v hv => lt_trans (db.valueid_drawn v hv) (lt_add_one _) }

/-- The constraints of `gridvalue` refuse the write: a foreign key has no referent, or the version is
    stored already. -/
def GridRefused : Prop :=
  ¬ (cat.refers k.toSeries ∧ confidencecode_ ∈ cat.qualityconfidencecode) ∨
  ∃ v ∈ db.gridvalue.rows, v.toKey = k ∧ v.dataversion = dataversion_

instance : Decidable (GridRefused cat db k dataversion_ confidencecode_) :=
  inferInstanceAs (Decidable (_ ∨ _))

variable {cat db k dataversion_ confidencecode_ dataId now}

theorem setGridMax_rows : (setGridMax db k dataversion_).rows = db.gridvalue.rows.map fun a =>
    if a.toKey = k then { a with maxdataversion := dataversion_ } else a := by
  refine List.map_congr_left fun a _ => ?_
  unfold Table.updateRow
  simp only [decide_eq_true_eq]

theorem mem_setGridMax {v : GridValue} : v ∈ (setGridMax db k dataversion_).rows ↔
    ∃ a ∈ db.gridvalue.rows,
      (if a.toKey = k then { a with maxdataversion := dataversion_ } else a) = v := by
  rw [setGridMax_rows, List.mem_map]

theorem exists_setGridMax_iff :
    (∃ v ∈ (setGridMax db k dataversion_).rows, v.toKey = k ∧ v.dataversion = dataversion_) ↔
      ∃ v ∈ db.gridvalue.rows, v.toKey = k ∧ v.dataversion = dataversion_ := by
  constructor
  · rintro ⟨v, hv, hkey, hver⟩
    obtain ⟨a, ha, rfl⟩ := mem_setGridMax.1 hv
    refine ⟨a, ha, ?_⟩
    revert hkey hver
    split <;> exact fun h₁ h₂ => ⟨h₁, h₂⟩
  · rintro ⟨a, ha, hkey, hver⟩
    refine ⟨_, mem_setGridMax.2 ⟨a, ha, rfl⟩, ?_⟩
    rw [if_pos hkey]
    exact ⟨hkey, hver⟩

/-- A row clashes with the one that is inserted when it is of its key and version. -/
theorem newGrid_clash {v : GridValue} (hv : v ∈ db.gridvalue.rows) :
    v.clash (newGrid db k dataversion_ confidencecode_ dataId now) ↔
      v.toKey = k ∧ v.dataversion = dataversion_ := by
  constructor
  · rintro (h | h)
    · exact absurd (db.valueid_drawn v hv) (h ▸ lt_irrefl _)
    · exact h
  · exact Or.inr

variable (cat db k dataversion_ confidencecode_ dataId now) in
/-- An `INSERT` of a grid value is refused by the constraints, or appends the row. -/
theorem insertGrid_cases :
    (GridRefused cat db k dataversion_ confidencecode_ ∧
      insertGrid cat db k dataversion_ confidencecode_ dataId now = none) ∨
    (¬ GridRefused cat db k dataversion_ confidencecode_ ∧ ∃ db',
      insertGrid cat db k dataversion_ confidencecode_ dataId now = some db' ∧
      db'.gridvalue.rows = db.gridvalue.rows ++
        [newGrid db k dataversion_ confidencecode_ dataId now] ∧
      db'.gridvalueSeq = db.gridvalueSeq + 1) := by
  unfold insertGrid
  by_cases href : cat.refers k.toSeries ∧ confidencecode_ ∈ cat.qualityconfidencecode
  · rw [if_pos href]
    by_cases hdup : ∃ v ∈ db.gridvalue.rows, v.toKey = k ∧ v.dataversion = dataversion_
    · refine Or.inl ⟨Or.inr hdup, ?_⟩
      obtain ⟨v, hv, hd⟩ := hdup
      rw [Option.map_eq_none_iff, Option.attach_eq_none_iff]
      exact Table.insert_of_clash hv ((newGrid_clash hv).2 hd)
    · refine Or.inr ⟨?_, ?_⟩
      · rintro (h | h)
        · exact h href
        · exact hdup h
      · obtain ⟨t, ht, hrows⟩ := Table.insert_of_noClash (t := db.gridvalue)
          (a := newGrid db k dataversion_ confidencecode_ dataId now)
          fun v hv hc => hdup ⟨v, hv, (newGrid_clash hv).1 hc⟩
        refine ⟨_, Option.map_eq_some_iff.2 ⟨⟨t, ht⟩, ?_, rfl⟩, hrows, rfl⟩
        exact Option.mem_attach _ ⟨t, ht⟩
  · rw [if_neg href]
    exact Or.inl ⟨Or.inl href, rfl⟩

/-- The `UPDATE` of a grid write refuses nothing. -/
theorem gridRefused_update : GridRefused cat (updateGridMax db k dataversion_) k dataversion_
    confidencecode_ ↔ GridRefused cat db k dataversion_ confidencecode_ :=
  or_congr_right exists_setGridMax_iff

variable (cat db k dataversion_ confidencecode_ dataId now) in
/-- A grid write is refused by the constraints, or sets the maxima and appends its row. -/
theorem writeGrid_cases :
    (GridRefused cat db k dataversion_ confidencecode_ ∧
      writeGrid cat db k dataversion_ confidencecode_ dataId now = none) ∨
    (¬ GridRefused cat db k dataversion_ confidencecode_ ∧ ∃ db',
      writeGrid cat db k dataversion_ confidencecode_ dataId now = some db' ∧
      db'.gridvalue.rows = (setGridMax db k dataversion_).rows ++
        [newGrid db k dataversion_ confidencecode_ dataId now]) := by
  rcases insertGrid_cases cat (updateGridMax db k dataversion_) k dataversion_ confidencecode_ dataId
    now with ⟨href, hnone⟩ | ⟨hok, db', hsome, hrows, _⟩
  · exact Or.inl ⟨gridRefused_update.1 href, hnone⟩
  · exact Or.inr ⟨mt gridRefused_update.2 hok, db', hsome, hrows⟩

end Grid

section Float
variable (cat : Catalog) (db : Db)

/-- The group of a float write: its valid times relative to the reference time. -/
def newGroup (k : Key) (dataversion_ valuegroupid : ℤ) : FloatValueGroup :=
  { toSeries := k.toSeries
    valuegroupid := valuegroupid
    validtimefrom := timestampMi k.validtimefrom k.referencetime
    validtimeto := timestampMi k.validtimeto k.referencetime
    dataversion := dataversion_ }

/-- The tables after an id was drawn for a group. They are also what is left of a float write that
    raises. -/
def drawGroupId : Db :=
  { db with
    floatvaluegroupSeq := db.floatvaluegroupSeq + 1
    valuegroupid_drawn := fun g hg => lt_trans (db.valuegroupid_drawn g hg) (lt_add_one _) }

/-- `INSERT INTO floatvaluegroup … RETURNING valuegroupid`. A unique violation is caught, and then the
    id of the group that is there is selected, `none` being `NULL`; a foreign key violation is not. -/
def insertGroup (k : Key) (dataversion_ : ℤ) : Option (Db × Option ℤ) :=
  let group := newGroup k dataversion_ db.floatvaluegroupSeq
  match h : db.floatvaluegroup.insert group with
  | some t =>
    if cat.refers k.toSeries then
      some ({ db with
          floatvaluegroup := t
          floatvaluegroupSeq := db.floatvaluegroupSeq + 1
          valuegroupid_drawn := fun g hg => by
            rw [(Table.insert_eq_some h).2, List.mem_append, List.mem_singleton] at hg
            rcases hg with hg | rfl
            · exact lt_trans (db.valuegroupid_drawn g hg) (lt_add_one _)
            · exact lt_add_one _
          valuegroupid_refers := fun i hi => by
            obtain ⟨g, hg, hid⟩ := db.valuegroupid_refers i hi
            rw [(Table.insert_eq_some h).2]
            exact ⟨g, List.mem_append_left _ hg, hid⟩ },
        some db.floatvaluegroupSeq)
    else none
  | none =>
    some (drawGroupId db, (db.floatvaluegroup.rows.find? fun g =>
      g.sameValid group ∧ g.dataversion = dataversion_).map (·.valuegroupid))

/-- `INSERT INTO floatvalueitem`. The value is cast to `real`. -/
def insertItem (groupid_ : Option ℤ) (referencetime_ dataversion_ confidencecode_ : ℤ) (value_ : ℚ)
    (now : ℤ) : Option Db :=
  groupid_.bind fun groupid => (toReal value_).bind fun value =>
    if h : confidencecode_ ∈ cat.qualityconfidencecode ∧
        ∃ g ∈ db.floatvaluegroup.rows, g.valuegroupid = groupid then
      (db.floatvalueitem.insert
          ⟨groupid, referencetime_, dataversion_, confidencecode_, value, now⟩).attach.map fun t =>
        { db with
          floatvalueitem := t.1
          valuegroupid_refers := fun i hi => by
            rw [(Table.insert_eq_some t.2).2, List.mem_append, List.mem_singleton] at hi
            rcases hi with hi | rfl
            · exact db.valuegroupid_refers i hi
            · exact h.2 }
    else none

/-- `SELECT max(dataversion) FROM floatvalue_v` for a key, as the session sees it. -/
def selectMax (session : Session) (k : Key) : Option ℤ :=
  (((floatvalueV cat session db).filter fun v => v.toKey = k).map (·.dataversion)).max?

/-- The items that the last statement updates: those of the reference time in a group of the series and
    valid times, of whatever version. -/
def ofKey (k : Key) (i : FloatValueItem) : Bool :=
  i.referencetime = k.referencetime ∧
    ∃ g ∈ db.floatvaluegroup.rows, g.valuegroupid = i.valuegroupid ∧ g.sameValid (newGroup k 0 0)

/-- `UPDATE floatvalueitem SET maxdataversion = max_`. -/
def setFloatMax (k : Key) (max_ : ℤ) : Db :=
  { db with
    floatvalueitem := db.floatvalueitem.update (ofKey db k) (fun i => { i with maxdataversion := max_ })
      (fun _ _ h => h) (fun _ _ h => h)
    valuegroupid_refers := fun i hi => by
      obtain ⟨j, hj, rfl⟩ := List.mem_map.1 hi
      obtain ⟨g, hg, hid⟩ := db.valuegroupid_refers j hj
      refine ⟨g, hg, ?_⟩
      unfold Table.updateRow
      split <;> exact hid }

/-- The last part of a float write: the maximum is recomputed for positive versions only, and a `NULL`
    maximum violates the column's constraint when there is an item to set it in. -/
def recomputeMax (session : Session) (k : Key) (dataversion_ : ℤ) : Option Db :=
  if dataversion_ > 0 then
    match selectMax cat db session k with
    | some max_ => some (setFloatMax db k max_)
    | none => if ∃ i ∈ db.floatvalueitem.rows, ofKey db k i then none else some db
  else some db

/-- `__WCI_SCHEMA__.write` for floats. -/
def writeFloat (session : Session) (k : Key) (dataversion_ confidencecode_ : ℤ) (value_ : ℚ)
    (now : ℤ) : Option Db :=
  (insertGroup cat db k dataversion_).bind fun (db₁, groupid_) =>
  (insertItem cat db₁ groupid_ k.referencetime dataversion_ confidencecode_ value_ now).bind fun db₂ =>
    recomputeMax cat db₂ session k dataversion_

end Float

end Wdb.Store
