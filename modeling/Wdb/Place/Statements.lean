import Wdb.Place.Tables

/-! The statements that write places, and the triggers that maintain the materialized views.

    A statement is refused (`none`) when it breaks a constraint; the foreign keys are checked when it is
    done. PostgreSQL checks a unique index after each row of an `UPDATE` and may refuse some that keep
    it in the end. The row triggers fire after the statement, on the tables as it has left them. There
    is none on `INSERT` into `placedefinition` or `placeregulargrid`. -/

namespace Wdb.Place
open SqlTypes Store Relational Periods

/-- The tables of places and the materialized views. -/
structure PlaceDb where
  tables : PlaceTables
  placedefinitionMv : List PlaceDefinitionV
  placeregulargridMv : List PlaceRegularGridV

/-! ### The tables -/

/-- The end of a statement: the foreign keys are checked. -/
def PlaceTables.set (t : PlaceTables) (placedefinition : Table PlaceDefinition samePlace)
    (placeregulargrid : Table PlaceRegularGrid sameGrid) (placename : Table PlaceName sameStart)
    (referenced : List ℤ) : Option PlaceTables :=
  if h : References placedefinition.rows placeregulargrid.rows placename.rows
      t.placeindeterminatetype t.namespaces then
    some { t with
      placedefinition := placedefinition
      placeregulargrid := placeregulargrid
      placename := placename
      referenced := referenced
      references := h }
  else none

section Tables
variable (gis : Gis) (t : PlaceTables)

/-- `INSERT INTO placedefinition`. -/
def PlaceTables.insertPlaceDefinition (pd : PlaceDefinition) : Option PlaceTables :=
  if gis.fitsColumn pd.placegeometry then
    (t.placedefinition.insert pd).bind fun pds =>
      t.set pds t.placeregulargrid t.placename t.referenced
  else none

/-- `INSERT INTO placename`. -/
def PlaceTables.insertPlaceName (pn : PlaceName) : Option PlaceTables :=
  (t.placename.insert pn).bind fun pns =>
    t.set t.placedefinition t.placeregulargrid pns t.referenced

/-- `INSERT INTO placeregulargrid`. A trigger inserts the definition first
    (`createPlaceDefinitionFromPlaceRegularGrid`). -/
def PlaceTables.insertPlaceRegularGrid (now : Timestamp) (pg : PlaceRegularGrid) :
    Option PlaceTables :=
  let projdef := (t.spatialRefSys.find? fun srs => srs.srid = pg.originalsrid).map (·.proj4text)
  (gis.getGeometry pg projdef).bind fun geo =>
    (t.insertPlaceDefinition gis ⟨pg.placeid, 0, .grid, now, geo⟩).bind fun t' =>
      (t'.placeregulargrid.insert pg).bind fun pgs =>
        t'.set t'.placedefinition pgs t'.placename t'.referenced

/-- `UPDATE placename`; a row is refused (`none`) when it breaks a check. -/
def PlaceTables.updatePlaceName (p : PlaceName → Bool) (f : PlaceName → Option PlaceName) :
    Option PlaceTables :=
  (t.placename.updateChecked p f).bind fun pns =>
    t.set t.placedefinition t.placeregulargrid pns t.referenced

/-- `UPDATE placeregulargrid`. -/
def PlaceTables.updatePlaceRegularGrid (p : PlaceRegularGrid → Bool)
    (f : PlaceRegularGrid → Option PlaceRegularGrid) : Option PlaceTables :=
  (t.placeregulargrid.updateChecked p f).bind fun pgs =>
    t.set t.placedefinition pgs t.placename t.referenced

/-- The new id of a place under an `UPDATE placedefinition`. -/
def PlaceTables.moved (p : PlaceDefinition → Bool) (f : PlaceDefinition → Option PlaceDefinition)
    (k : ℤ) : ℤ :=
  match t.placedefinition.rows.find? fun pd => pd.placeid = k with
  | some pd => (Table.updateRow p (fun pd => (f pd).getD pd) pd).placeid
  | none => k

/-- `UPDATE placedefinition`, which cascades a new `placeid` to the rows that refer to it. -/
def PlaceTables.updatePlaceDefinition (p : PlaceDefinition → Bool)
    (f : PlaceDefinition → Option PlaceDefinition) : Option PlaceTables :=
  (t.placedefinition.updateChecked p fun pd =>
      (f pd).filter fun pd' => gis.fitsColumn pd'.placegeometry).bind fun pds =>
    (t.placeregulargrid.updateChecked (fun pg => t.moved p f pg.placeid ≠ pg.placeid) fun pg =>
        some { pg with placeid := t.moved p f pg.placeid }).bind fun pgs =>
      (t.placename.updateChecked (fun pn => t.moved p f pn.placeid ≠ pn.placeid) fun pn =>
          some { pn with placeid := t.moved p f pn.placeid }).bind fun pns =>
        t.set pds pgs pns (t.referenced.map (t.moved p f))

/-- `DELETE FROM placename`. -/
def PlaceTables.deletePlaceName (p : PlaceName → Bool) : Option PlaceTables :=
  t.set t.placedefinition t.placeregulargrid (t.placename.delete p) t.referenced

/-- `DELETE FROM placeregulargrid`. -/
def PlaceTables.deletePlaceRegularGrid (p : PlaceRegularGrid → Bool) : Option PlaceTables :=
  t.set t.placedefinition (t.placeregulargrid.delete p) t.placename t.referenced

/-- A place that a `DELETE FROM placedefinition` removes. -/
def PlaceTables.removed (p : PlaceDefinition → Bool) (k : ℤ) : Bool :=
  t.placedefinition.rows.any fun pd => p pd && pd.placeid = k

/-- `DELETE FROM placedefinition`: refused when a stored value refers to a place, else it cascades. -/
def PlaceTables.deletePlaceDefinition (p : PlaceDefinition → Bool) : Option PlaceTables :=
  if ∀ k ∈ t.referenced, t.removed p k = false then
    t.set (t.placedefinition.delete p)
      (t.placeregulargrid.delete fun pg => t.removed p pg.placeid)
      (t.placename.delete fun pn => t.removed p pn.placeid) t.referenced
  else none

end Tables

/-! ### The triggers -/

/-- `wdb_int.updateplacespec()`, for the place of the new row. -/
def updateplacespec (placeid : ℤ) : Mirror.Action ℤ := .refresh placeid

/-- `wdb_int.updateplacespec_delete()`, for the place of the old row. -/
def updateplacespecDelete (placeid : ℤ) : Mirror.Action ℤ := .clear placeid

/-- `wdb_int.refreshplacespec()`. -/
def refreshplacespec : Mirror.Action ℤ := .refreshAll

section Db
variable (gis : Gis) (db : PlaceDb)

/-- The tables after a statement, and the materialized views after its triggers. -/
def PlaceDb.fire (t : PlaceTables) (actions : List (Mirror.Action ℤ)) : PlaceDb where
  tables := t
  placedefinitionMv := Mirror.replay (·.placeid) (t.placedefinitionV gis) db.placedefinitionMv actions
  placeregulargridMv :=
    Mirror.replay (·.placeid) (t.placeregulargridV gis) db.placeregulargridMv actions

def PlaceDb.insertPlaceDefinition (pd : PlaceDefinition) : Option PlaceDb :=
  (db.tables.insertPlaceDefinition gis pd).map fun t => db.fire gis t []

def PlaceDb.insertPlaceRegularGrid (now : Timestamp) (pg : PlaceRegularGrid) : Option PlaceDb :=
  (db.tables.insertPlaceRegularGrid gis now pg).map fun t => db.fire gis t []

def PlaceDb.insertPlaceName (pn : PlaceName) : Option PlaceDb :=
  (db.tables.insertPlaceName pn).map fun t => db.fire gis t [updateplacespec pn.placeid]

def PlaceDb.updatePlaceName (p : PlaceName → Bool) (f : PlaceName → Option PlaceName) :
    Option PlaceDb :=
  (db.tables.updatePlaceName p f).map fun t => db.fire gis t <|
    (db.tables.placename.rows.filter p).map fun pn => updateplacespec ((f pn).getD pn).placeid

def PlaceDb.updatePlaceRegularGrid (p : PlaceRegularGrid → Bool)
    (f : PlaceRegularGrid → Option PlaceRegularGrid) : Option PlaceDb :=
  (db.tables.updatePlaceRegularGrid p f).map fun t => db.fire gis t <|
    (db.tables.placeregulargrid.rows.filter p).flatMap fun pg =>
      [updateplacespec ((f pg).getD pg).placeid, refreshplacespec]

/-- The triggers of the rows that a new `placeid` cascades to fire after those of `placedefinition`. -/
def PlaceDb.updatePlaceDefinition (p : PlaceDefinition → Bool)
    (f : PlaceDefinition → Option PlaceDefinition) : Option PlaceDb :=
  let moved := db.tables.moved p f
  (db.tables.updatePlaceDefinition gis p f).map fun t => db.fire gis t <|
    ((db.tables.placedefinition.rows.filter p).map fun pd =>
      updateplacespec ((f pd).getD pd).placeid) ++
    ((db.tables.placeregulargrid.rows.filter fun pg => moved pg.placeid ≠ pg.placeid).flatMap
      fun pg => [updateplacespec (moved pg.placeid), refreshplacespec]) ++
    (db.tables.placename.rows.filter fun pn => moved pn.placeid ≠ pn.placeid).map fun pn =>
      updateplacespec (moved pn.placeid)

def PlaceDb.deletePlaceName (p : PlaceName → Bool) : Option PlaceDb :=
  (db.tables.deletePlaceName p).map fun t => db.fire gis t <|
    (db.tables.placename.rows.filter p).map fun pn => updateplacespecDelete pn.placeid

/-- Two triggers do the same here. -/
def PlaceDb.deletePlaceRegularGrid (p : PlaceRegularGrid → Bool) : Option PlaceDb :=
  (db.tables.deletePlaceRegularGrid p).map fun t => db.fire gis t <|
    (db.tables.placeregulargrid.rows.filter p).flatMap fun pg =>
      [updateplacespecDelete pg.placeid, updateplacespecDelete pg.placeid]

def PlaceDb.deletePlaceDefinition (p : PlaceDefinition → Bool) : Option PlaceDb :=
  (db.tables.deletePlaceDefinition p).map fun t => db.fire gis t <|
    ((db.tables.placedefinition.rows.filter p).map fun pd => updateplacespecDelete pd.placeid) ++
    ((db.tables.placeregulargrid.rows.filter fun pg => db.tables.removed p pg.placeid).flatMap
      fun pg => [updateplacespecDelete pg.placeid, updateplacespecDelete pg.placeid]) ++
    (db.tables.placename.rows.filter fun pn => db.tables.removed p pn.placeid).map fun pn =>
      updateplacespecDelete pn.placeid

end Db

/-! ### What a successful statement did -/

/-- The rows that a statement leaves in the three tables; the tables they refer to are untouched. -/
structure PlaceTables.Leaves (t t' : PlaceTables) (pds : List PlaceDefinition)
    (pgs : List PlaceRegularGrid) (pns : List PlaceName) : Prop where
  placedefinition : t'.placedefinition.rows = pds
  placeregulargrid : t'.placeregulargrid.rows = pgs
  placename : t'.placename.rows = pns
  spatialRefSys : t'.spatialRefSys = t.spatialRefSys
  placeindeterminatetype : t'.placeindeterminatetype = t.placeindeterminatetype

section Specs
variable {gis : Gis} {t t' : PlaceTables}

theorem PlaceTables.set_eq_some {pds : Table PlaceDefinition samePlace}
    {pgs : Table PlaceRegularGrid sameGrid} {pns : Table PlaceName sameStart} {referenced : List ℤ}
    (h : t.set pds pgs pns referenced = some t') : t.Leaves t' pds.rows pgs.rows pns.rows := by
  unfold PlaceTables.set at h
  split at h
  · cases h
    exact ⟨rfl, rfl, rfl, rfl, rfl⟩
  · cases h

theorem PlaceTables.insertPlaceDefinition_eq_some {pd : PlaceDefinition}
    (h : t.insertPlaceDefinition gis pd = some t') :
    (∀ d ∈ t.placedefinition.rows, d.placeid ≠ pd.placeid) ∧
      t.Leaves t' (t.placedefinition.rows ++ [pd]) t.placeregulargrid.rows t.placename.rows := by
  unfold PlaceTables.insertPlaceDefinition at h
  split at h
  · obtain ⟨pds, hpds, hset⟩ := Option.bind_eq_some_iff.1 h
    obtain ⟨hnew, hrows⟩ := Table.insert_eq_some hpds
    exact ⟨hnew, hrows ▸ set_eq_some hset⟩
  · cases h

theorem PlaceTables.insertPlaceName_eq_some {pn : PlaceName} (h : t.insertPlaceName pn = some t') :
    (∀ n ∈ t.placename.rows, ¬ sameStart n pn) ∧
      t.Leaves t' t.placedefinition.rows t.placeregulargrid.rows (t.placename.rows ++ [pn]) := by
  obtain ⟨pns, hpns, hset⟩ := Option.bind_eq_some_iff.1 h
  obtain ⟨hnew, hrows⟩ := Table.insert_eq_some hpns
  exact ⟨hnew, hrows ▸ set_eq_some hset⟩

theorem PlaceTables.insertPlaceRegularGrid_eq_some {now : Timestamp} {pg : PlaceRegularGrid}
    (h : t.insertPlaceRegularGrid gis now pg = some t') : ∃ pd : PlaceDefinition,
      pd.placeid = pg.placeid ∧ (∀ d ∈ t.placedefinition.rows, d.placeid ≠ pg.placeid) ∧
      t.Leaves t' (t.placedefinition.rows ++ [pd]) (t.placeregulargrid.rows ++ [pg])
        t.placename.rows := by
  obtain ⟨geo, -, h⟩ := Option.bind_eq_some_iff.1 h
  obtain ⟨t₁, h₁, h⟩ := Option.bind_eq_some_iff.1 h
  obtain ⟨pgs, hpgs, hset⟩ := Option.bind_eq_some_iff.1 h
  obtain ⟨hnew, hl₁⟩ := insertPlaceDefinition_eq_some h₁
  obtain ⟨-, hrows⟩ := Table.insert_eq_some hpgs
  have hl := set_eq_some hset
  refine ⟨_, rfl, hnew, hl.placedefinition.trans hl₁.placedefinition, ?_,
    hl.placename.trans hl₁.placename, hl.spatialRefSys.trans hl₁.spatialRefSys,
    hl.placeindeterminatetype.trans hl₁.placeindeterminatetype⟩
  rw [hl.placeregulargrid, hrows, hl₁.placeregulargrid]

theorem PlaceTables.updatePlaceName_eq_some {p : PlaceName → Bool}
    {f : PlaceName → Option PlaceName} (h : t.updatePlaceName p f = some t') :
    (∀ pn ∈ t.placename.rows, p pn → (f pn).isSome) ∧
      t.Leaves t' t.placedefinition.rows t.placeregulargrid.rows
        (t.placename.rows.map (Table.updateRow p fun pn => (f pn).getD pn)) := by
  obtain ⟨pns, hpns, hset⟩ := Option.bind_eq_some_iff.1 h
  obtain ⟨hcheck, hrows⟩ := Table.updateChecked_eq_some hpns
  exact ⟨hcheck, hrows ▸ set_eq_some hset⟩

theorem PlaceTables.updatePlaceRegularGrid_eq_some {p : PlaceRegularGrid → Bool}
    {f : PlaceRegularGrid → Option PlaceRegularGrid} (h : t.updatePlaceRegularGrid p f = some t') :
    t.Leaves t' t.placedefinition.rows
      (t.placeregulargrid.rows.map (Table.updateRow p fun pg => (f pg).getD pg))
      t.placename.rows := by
  obtain ⟨pgs, hpgs, hset⟩ := Option.bind_eq_some_iff.1 h
  exact (Table.updateChecked_eq_some hpgs).2 ▸ set_eq_some hset

theorem PlaceTables.updatePlaceDefinition_eq_some {p : PlaceDefinition → Bool}
    {f : PlaceDefinition → Option PlaceDefinition} (h : t.updatePlaceDefinition gis p f = some t') :
    t.Leaves t' (t.placedefinition.rows.map (Table.updateRow p fun pd => (f pd).getD pd))
      (t.placeregulargrid.rows.map fun pg => { pg with placeid := t.moved p f pg.placeid })
      (t.placename.rows.map fun pn => { pn with placeid := t.moved p f pn.placeid }) := by
  obtain ⟨pds, hpds, h⟩ := Option.bind_eq_some_iff.1 h
  obtain ⟨pgs, hpgs, h⟩ := Option.bind_eq_some_iff.1 h
  obtain ⟨pns, hpns, hset⟩ := Option.bind_eq_some_iff.1 h
  obtain ⟨hcheck, hpdrows⟩ := Table.updateChecked_eq_some hpds
  have hpd : pds.rows = t.placedefinition.rows.map (Table.updateRow p fun pd => (f pd).getD pd) := by
    rw [hpdrows]
    refine List.map_congr_left fun pd hmem => ?_
    unfold Table.updateRow
    by_cases hp : p pd = true
    · obtain ⟨pd', hpd'⟩ := Option.isSome_iff_exists.1 (hcheck pd hmem hp)
      rw [if_pos hp, if_pos hp]
      dsimp only
      rw [hpd', (Option.filter_eq_some_iff.1 hpd').1]
    · rw [if_neg hp, if_neg hp]
  have hpg : pgs.rows = t.placeregulargrid.rows.map fun pg =>
      { pg with placeid := t.moved p f pg.placeid } := by
    rw [(Table.updateChecked_eq_some hpgs).2]
    refine List.map_congr_left fun pg _ => ?_
    by_cases hm : t.moved p f pg.placeid = pg.placeid
    · simp [Table.updateRow, hm]
    · simp [Table.updateRow, hm]
  have hpn : pns.rows = t.placename.rows.map fun pn =>
      { pn with placeid := t.moved p f pn.placeid } := by
    rw [(Table.updateChecked_eq_some hpns).2]
    refine List.map_congr_left fun pn _ => ?_
    by_cases hm : t.moved p f pn.placeid = pn.placeid
    · simp [Table.updateRow, hm]
    · simp [Table.updateRow, hm]
  exact hpd ▸ hpg ▸ hpn ▸ set_eq_some hset

theorem PlaceTables.deletePlaceRegularGrid_eq_some {p : PlaceRegularGrid → Bool}
    (h : t.deletePlaceRegularGrid p = some t') :
    t.Leaves t' t.placedefinition.rows (t.placeregulargrid.rows.filter fun pg => !p pg)
      t.placename.rows :=
  set_eq_some h

theorem PlaceTables.deletePlaceDefinition_eq_some {p : PlaceDefinition → Bool}
    (h : t.deletePlaceDefinition p = some t') :
    t.Leaves t' (t.placedefinition.rows.filter fun pd => !p pd)
      (t.placeregulargrid.rows.filter fun pg => !t.removed p pg.placeid)
      (t.placename.rows.filter fun pn => !t.removed p pn.placeid) := by
  unfold PlaceTables.deletePlaceDefinition at h
  split at h
  · exact set_eq_some h
  · cases h

/-- The new id of a place that is updated. -/
theorem PlaceTables.moved_of_mem {p : PlaceDefinition → Bool}
    {f : PlaceDefinition → Option PlaceDefinition} {pd : PlaceDefinition}
    (hpd : pd ∈ t.placedefinition.rows) : t.moved p f pd.placeid =
      (Table.updateRow p (fun pd => (f pd).getD pd) pd).placeid := by
  have hfind : (t.placedefinition.rows.find? fun d => d.placeid = pd.placeid) = some pd :=
    (Table.find?_key_eq_some (f := PlaceDefinition.placeid) (fun _ _ h => Eq.symm h)
      (fun _ _ h => h) t.placedefinition).2 ⟨hpd, rfl⟩
  unfold PlaceTables.moved
  rw [hfind]

theorem PlaceTables.deletePlaceName_eq_some {p : PlaceName → Bool}
    (h : t.deletePlaceName p = some t') :
    t.Leaves t' t.placedefinition.rows t.placeregulargrid.rows
      (t.placename.rows.filter fun pn => !p pn) :=
  set_eq_some h

end Specs

end Wdb.Place
