import Wdb.Store.Tables

/-! `wci.remove`.

    Two statements: one deletes the grid values whose ids `wci.read` returns, one the float items that
    match a row of `wci.read(…, NULL::wci.returnfloat)` in id and reference time. That read returns
    float rows and, for every grid it finds, a row for each point of the grid, with the grid's own
    `valueid`, which comes from another sequence than the group ids it is compared with. The second
    statement runs after the first, so that the grids that could be confused are gone. -/

namespace Wdb.Store
open Relational

/-- The result type of `wci.remove`. -/
structure RemoveStats where
  gridsRemoved : ℤ
  floatsRemoved : ℤ
  deriving DecidableEq

section Remove
variable (cat : Catalog) (session : Session)

/-- `DELETE FROM gridvalue WHERE …`, with its `ROW_COUNT`. -/
def deleteGrids (db : Db) (p : GridValue → Bool) : Db × ℤ :=
  ({ db with
      gridvalue := db.gridvalue.delete p
      valueid_drawn := fun v hv => db.valueid_drawn v (List.mem_of_mem_filter hv) },
    db.gridvalue.rows.countP p)

/-- `DELETE FROM floatvalueitem WHERE …`, with its `ROW_COUNT`. -/
def deleteItems (db : Db) (p : FloatValueItem → Bool) : Db × ℤ :=
  ({ db with
      floatvalueitem := db.floatvalueitem.delete p
      valuegroupid_refers := fun i hi => db.valuegroupid_refers i (List.mem_of_mem_filter hi) },
    db.floatvalueitem.rows.countP p)

/-- The first statement of `wci.remove`. -/
def removeGrids (p : ReadParameters) (location : Arg Location) (db : Db) : Option (Db × ℤ) :=
  (readGid cat session db p location).map fun gs =>
    deleteGrids db fun v => v.valueid ∈ gs.map (·.valueid)

/-- `wci.read(…, NULL::wci.returnfloat)` without a location: the rows of the float table, and for every
    grid a row for each value that `points` reads from its file; `none` when a file cannot be read. -/
def readFloat (points : ValueV ℤ → Option (List ℚ)) (p : ReadParameters) (db : Db) :
    Option (List (ValueV ℚ)) :=
  (readFloatTable cat session db p).bind fun fs =>
  (buildQuery cat p (some fun _ => true) (gridvalueV cat session db)).bind fun gs =>
  (gs.mapM fun g => (points g).map fun xs => xs.map fun x => { g with value := x }).map fun ps =>
    fs ++ ps.flatten

/-- `wci.remove` without a location. -/
def remove (points : ValueV ℤ → Option (List ℚ)) (p : ReadParameters) (db : Db) :
    Option (Db × RemoveStats) :=
  (removeGrids cat session p .null db).bind fun (db₁, gridsRemoved) =>
  (readFloat cat session points p db₁).map fun q =>
    let (db₂, _) := deleteItems db₁ fun v =>
      q.any fun r => v.valuegroupid = r.valueid ∧ v.referencetime = r.referencetime
    -- the row count of the second statement is overwritten
    (db₂, { gridsRemoved := gridsRemoved, floatsRemoved := 0 })

end Remove

section Exact
variable (cat : Catalog) (session : Session) (points : ValueV ℤ → Option (List ℚ))
  (p : ReadParameters) (db : Db)

/-- A float item that the float table part of a read returns. -/
def Designated (fs : List (ValueV ℚ)) (i : FloatValueItem) : Prop :=
  ∃ r ∈ fs, i.valuegroupid = r.valueid ∧ i.referencetime = r.referencetime

instance (fs : List (ValueV ℚ)) (i : FloatValueItem) : Decidable (Designated fs i) :=
  inferInstanceAs (Decidable (∃ r ∈ fs, _))

/-- What a removal should delete when the reads return `gs` and `fs`: these grid values and float items,
    and nothing else. -/
structure Deletes (gs : List (ValueV ℤ)) (fs : List (ValueV ℚ)) (db' : Db) : Prop where
  grids : db'.gridvalue.rows = db.gridvalue.rows.filter fun v => v.valueid ∉ gs.map (·.valueid)
  items : db'.floatvalueitem.rows = db.floatvalueitem.rows.filter fun i => ¬ Designated fs i
  groups : db'.floatvaluegroup = db.floatvaluegroup

/-- How many grid values it should report. -/
def gridCount (gs : List (ValueV ℤ)) : ℤ :=
  db.gridvalue.rows.countP fun v => v.valueid ∈ gs.map (·.valueid)

/-- How many float items it should report. -/
def itemCount (fs : List (ValueV ℚ)) : ℤ :=
  db.floatvalueitem.rows.countP fun i => Designated fs i

/-- The promise of `wci.remove`: it removes what the reads return, and raises when they do. -/
def RemovesExactly : Prop :=
  match readGid cat session db p .null, readFloatTable cat session db p with
  | some gs, some fs => ∃ db', Deletes db gs fs db' ∧
      remove cat session points p db = some (db', ⟨gridCount db gs, itemCount db fs⟩)
  | _, _ => remove cat session points p db = none

variable {cat session points p db}

theorem mem_deleteGrids {q : GridValue → Bool} {v : GridValue} :
    v ∈ (deleteGrids db q).1.gridvalue.rows ↔ v ∈ db.gridvalue.rows ∧ q v = false :=
  Table.mem_delete

/-- After the first statement the filters find no grid, and do not raise. -/
theorem grids_gone {db₁ : Db} {n : ℤ} {gs : List (ValueV ℤ)}
    (hgs : readGid cat session db p .null = some gs)
    (h : removeGrids cat session p .null db = some (db₁, n)) :
    buildQuery cat p (some fun _ => true) (gridvalueV cat session db₁) = some [] := by
  have hdb₁ : db₁ = (deleteGrids db fun v => v.valueid ∈ gs.map (·.valueid)).1 := by
    rw [removeGrids, hgs, Option.map_some, Option.some_inj] at h
    rw [h]
  have hshown : ∀ v ∈ gridvalueV cat session db₁, v ∈ gridvalueV cat session db ∧
      v.valueid ∉ gs.map (·.valueid) := by
    intro v hv
    obtain ⟨a, ha, hshown⟩ := mem_gridvalueV.1 hv
    rw [hdb₁, mem_deleteGrids, decide_eq_false_iff_not] at ha
    refine ⟨mem_gridvalueV.2 ⟨a, ha.1, hshown⟩, ?_⟩
    rw [(shown_grid hshown).2.1]
    exact ha.2
  unfold readGid addLocationQuery Arg.condition at hgs
  obtain ⟨rows, hrows, hmem⟩ := buildQuery_part hgs fun v hv => (hshown v hv).1
  have hempty : rows = [] := List.eq_nil_iff_forall_not_mem.2 fun v hv =>
    (hshown v ((hmem v).1 hv).1).2 (List.mem_map_of_mem ((hmem v).1 hv).2)
  rw [hrows, hempty]

variable (points) in
/-- What `wci.remove` does when the reads do not raise. -/
theorem remove_eq {gs : List (ValueV ℤ)} {fs : List (ValueV ℚ)}
    (hgs : readGid cat session db p .null = some gs)
    (hfs : readFloatTable cat session db p = some fs) :
    ∃ db', Deletes db gs fs db' ∧
      remove cat session points p db = some (db', ⟨gridCount db gs, 0⟩) := by
  have hremove : removeGrids cat session p .null db =
      some (deleteGrids db fun v => v.valueid ∈ gs.map (·.valueid)) := by
    unfold removeGrids; rw [hgs]; rfl
  generalize hdel : deleteGrids db (fun v => v.valueid ∈ gs.map (·.valueid)) = del at hremove
  obtain ⟨db₁, n⟩ := del
  have hdb₁ : db₁ = (deleteGrids db fun v => v.valueid ∈ gs.map (·.valueid)).1 := by rw [hdel]
  have hn : n = gridCount db gs :=
    (congrArg Prod.snd hdel).symm
  have hfs₁ : readFloatTable cat session db₁ p = some fs := by rw [hdb₁]; exact hfs
  -- the grid part of the second read does not raise either, and finds nothing
  have hgs₁ := grids_gone hgs hremove
  have hq : readFloat cat session points p db₁ = some fs := by
    unfold readFloat
    rw [hfs₁, Option.bind_some, hgs₁, Option.bind_some]
    simp
  refine ⟨(deleteItems db₁ fun v =>
    fs.any fun r => v.valuegroupid = r.valueid ∧ v.referencetime = r.referencetime).1, ?_, ?_⟩
  · refine ⟨?_, ?_, by rw [hdb₁]; rfl⟩
    · rw [hdb₁]
      exact List.filter_congr fun v _ => by rw [decide_not]
    · rw [hdb₁]
      refine List.filter_congr fun i _ => ?_
      rw [decide_not, Bool.not_inj_iff, Bool.eq_iff_iff, decide_eq_true_iff]
      simp [Designated]
  · unfold remove
    rw [hremove, Option.bind_some]
    simp only [hq, Option.map_some, hn]

/-- A removal that returns has read both tables. -/
theorem reads_of_remove {r : Db × RemoveStats} (h : remove cat session points p db = some r) :
    ∃ gs fs, readGid cat session db p .null = some gs ∧ readFloatTable cat session db p = some fs := by
  obtain ⟨⟨db₁, n⟩, hgrids, h⟩ := Option.bind_eq_some_iff.1 h
  obtain ⟨q, hq, -⟩ := Option.map_eq_some_iff.1 h
  obtain ⟨gs, hgs, hdel⟩ := Option.map_eq_some_iff.1 hgrids
  obtain ⟨fs, hfs, -⟩ := Option.bind_eq_some_iff.1 hq
  have hdb₁ : db₁ = (deleteGrids db fun v => v.valueid ∈ gs.map (·.valueid)).1 := by rw [hdel]
  rw [hdb₁] at hfs
  exact ⟨gs, fs, hgs, hfs⟩

/-- Every row of the float table part of a read is a stored item. -/
theorem designated_of_mem {fs : List (ValueV ℚ)}
    (hfs : readFloatTable cat session db p = some fs) {r : ValueV ℚ} (hr : r ∈ fs) :
    ∃ i ∈ db.floatvalueitem.rows, Designated fs i := by
  obtain ⟨i, hi, g, _, hid, hshown⟩ := mem_floatvalueV.1 (mem_of_buildQuery hfs hr)
  obtain ⟨_, href, _, _, hvid, _⟩ := shown_item hshown
  exact ⟨i, hi, r, hr, hid.trans hvid.symm, href.symm⟩

/-- When no item is to be deleted the read returned nothing. -/
theorem eq_nil_of_itemCount {fs : List (ValueV ℚ)}
    (hfs : readFloatTable cat session db p = some fs) (hcount : itemCount db fs = 0) : fs = [] := by
  unfold itemCount at hcount
  rw [Int.natCast_eq_zero] at hcount
  by_contra hne
  obtain ⟨r, hr⟩ := List.exists_mem_of_ne_nil fs hne
  obtain ⟨i, hi, hdes⟩ := designated_of_mem hfs hr
  exact List.countP_eq_zero.1 hcount i hi (decide_eq_true hdes)

end Exact

/-- One grid value of a named series. -/
def oneGrid : Table GridValue GridValue.clash :=
  ⟨[⟨⟨⟨1, 1, 0, 1, 1, 0, 0, 0⟩, 0, 0, 0⟩, 1, 0, 0, 0, 1, 0⟩], List.pairwise_singleton _ _⟩

theorem oneGrid_drawn : ∀ v ∈ oneGrid.rows, v.valueid < 2 := by decide

/-- One float value of a named series. -/
def oneFloat : Db where
  gridvalue := .empty
  gridvalueSeq := 1
  floatvaluegroup := ⟨[⟨⟨1, 1, 0, 1, 1, 0, 0, 0⟩, 1, ⟨0, 0⟩, ⟨0, 0⟩, 0⟩], List.pairwise_singleton _ _⟩
  floatvaluegroupSeq := 2
  floatvalueitem := ⟨[⟨1, 0, 0, 0, 0, 0⟩], List.pairwise_singleton _ _⟩
  valueid_drawn := Db.empty.valueid_drawn
  valuegroupid_drawn := by decide
  valuegroupid_refers := by decide

end Wdb.Store
