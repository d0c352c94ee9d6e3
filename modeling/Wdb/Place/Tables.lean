import Wdb.Store.Catalog
import Wdb.Lib.Table
import Wdb.Lib.Mirror
import Wdb.Lib.Periods
import Wdb.Lib.SqlTypes

/-! Place definitions, grids and names, and the views over them.

    A place has a row in `placedefinition`, a regular grid one in `placeregulargrid` besides, and a row
    in `placename` for every name and period. The canonical names of namespace 0 are not stored: the
    views make them from the geometry or the grid. A geometry is its text; what PostGIS and the
    projection library say about it is a parameter. -/

namespace Wdb.Place
open SqlTypes Store Relational Periods

/-- The values that the check constraint of `placegeometrytype` allows. -/
inductive PlaceGeometryType where
  | grid | line | point | polygon
  deriving DecidableEq

/-- A row of `placedefinition`. -/
structure PlaceDefinition where
  placeid : ℤ
  placeindeterminatecode : ℤ
  placegeometrytype : PlaceGeometryType
  placestoretime : Timestamp
  placegeometry : String
  deriving DecidableEq

/-- A row of `placeregulargrid`. -/
structure PlaceRegularGrid where
  placeid : ℤ
  numberx : ℤ
  numbery : ℤ
  incrementx : ℚ
  incrementy : ℚ
  startx : ℚ
  starty : ℚ
  originalsrid : ℤ
  deriving DecidableEq

/-- A row of `placename`; `valid` runs from `placenamevalidfrom` to `placenamevalidto`. -/
structure PlaceName where
  placeid : ℤ
  placenamespaceid : ℤ
  placename : String
  short : placename.toList.length ≤ 255
  valid : Period Timestamp
  placenameupdatetime : Timestamp
  deriving DecidableEq

/-- A row of `spatial_ref_sys`. -/
structure SpatialRefSys where
  srid : ℤ
  proj4text : String
  deriving DecidableEq

/-- What is taken from PostGIS, the projection library and the output of numbers. -/
structure Gis where
  /-- `GeometryType(g)` -/
  geometryType : String → String
  stEquals : String → String → Bool
  stAstext : String → String
  /-- The geometry has the spatial reference system and the dimension of the column. -/
  fitsColumn : String → Bool
  /-- `wdb_int.getGeometry` of a grid with a projection, which may fail. -/
  getGeometry : PlaceRegularGrid → Option String → Option String
  /-- The text of a `real`. -/
  realText : ℚ → String
  /-- `round(x::numeric, 3)` of a `real` and of a double precision number. -/
  realNumeric : ℚ → ℚ
  floatNumeric : ℚ → ℚ
  /-- `__WDB_SRID__`, fixed when the database is built. -/
  wdbSrid : ℤ

/-- `placedefinition_pkey`. -/
def samePlace (a b : PlaceDefinition) : Prop := a.placeid = b.placeid

/-- `placeregulargrid_pkey` and `placeregulargrid_skey`. -/
def sameGrid (a b : PlaceRegularGrid) : Prop :=
  a.placeid = b.placeid ∨ a = { b with placeid := a.placeid }

/-- Two rows of one name in one namespace. -/
def PlaceName.Same (a b : PlaceName) : Prop :=
  a.placenamespaceid = b.placenamespaceid ∧ a.placename = b.placename

/-- `placename_unique`, which implies the primary key. -/
def sameStart (a b : PlaceName) : Prop := a.Same b ∧ a.valid.start = b.valid.start

instance : DecidableRel samePlace := fun _ _ => inferInstanceAs (Decidable (_ = _))

instance : DecidableRel sameGrid := fun _ _ => inferInstanceAs (Decidable (_ ∨ _))

instance : DecidableRel PlaceName.Same := fun _ _ => inferInstanceAs (Decidable (_ ∧ _))

instance : DecidableRel sameStart := fun _ _ => inferInstanceAs (Decidable (_ ∧ _))

/-- The foreign keys of the tables of places. -/
structure References (pds : List PlaceDefinition) (pgs : List PlaceRegularGrid)
    (pns : List PlaceName) (pits : List (ℤ × String)) (namespaces : List ℤ) : Prop where
  placedefinition_placeindeterminatecode : ∀ pd ∈ pds, ∃ pit ∈ pits,
    pit.1 = pd.placeindeterminatecode
  placeregulargrid_placeid : ∀ pg ∈ pgs, ∃ pd ∈ pds, pd.placeid = pg.placeid
  placename_placeid : ∀ pn ∈ pns, ∃ pd ∈ pds, pd.placeid = pn.placeid
  placename_placenamespaceid : ∀ pn ∈ pns, pn.placenamespaceid ∈ namespaces

instance (pds : List PlaceDefinition) (pgs : List PlaceRegularGrid) (pns : List PlaceName)
    (pits : List (ℤ × String)) (namespaces : List ℤ) :
    Decidable (References pds pgs pns pits namespaces) :=
  decidable_of_iff
    ((∀ pd ∈ pds, ∃ pit ∈ pits, pit.1 = pd.placeindeterminatecode) ∧
      (∀ pg ∈ pgs, ∃ pd ∈ pds, pd.placeid = pg.placeid) ∧
      (∀ pn ∈ pns, ∃ pd ∈ pds, pd.placeid = pn.placeid) ∧
      ∀ pn ∈ pns, pn.placenamespaceid ∈ namespaces)
    ⟨fun ⟨h₁, h₂, h₃, h₄⟩ => ⟨h₁, h₂, h₃, h₄⟩, fun ⟨h₁, h₂, h₃, h₄⟩ => ⟨h₁, h₂, h₃, h₄⟩⟩

/-- The tables of places. `referenced` holds the places of stored values; `namespaces` are the ids of
    the table `namespace`. -/
structure PlaceTables where
  placedefinition : Table PlaceDefinition samePlace
  placeregulargrid : Table PlaceRegularGrid sameGrid
  placename : Table PlaceName sameStart
  spatialRefSys : List SpatialRefSys
  placeindeterminatetype : List (ℤ × String)
  namespaces : List ℤ
  referenced : List ℤ
  references : References placedefinition.rows placeregulargrid.rows placename.rows
    placeindeterminatetype namespaces

theorem samePlace_refl (a : PlaceDefinition) : samePlace a a := rfl

theorem PlaceName.Same.symm {a b : PlaceName} (h : a.Same b) : b.Same a :=
  ⟨Eq.symm h.1, Eq.symm h.2⟩

theorem sameStart_refl (a : PlaceName) : sameStart a a := ⟨⟨rfl, rfl⟩, rfl⟩

/-- A place has one definition. -/
theorem PlaceTables.place_unique (t : PlaceTables) {a b : PlaceDefinition}
    (ha : a ∈ t.placedefinition.rows) (hb : b ∈ t.placedefinition.rows)
    (h : a.placeid = b.placeid) : a = b :=
  t.placedefinition.eq_of_clash (fun _ _ h => Eq.symm h) ha hb h

/-- A place has at most one grid. -/
theorem PlaceTables.grid_unique (t : PlaceTables) {a b : PlaceRegularGrid}
    (ha : a ∈ t.placeregulargrid.rows) (hb : b ∈ t.placeregulargrid.rows)
    (h : a.placeid = b.placeid) : a = b :=
  t.placeregulargrid.eq_of_clash
    (fun _ _ h => h.imp Eq.symm fun h => by rw [h]) ha hb (Or.inl h)

/-- A row of `placedefinition_v` and `placedefinition_mv`. -/
structure PlaceDefinitionV where
  placeid : ℤ
  placegeometrytype : PlaceGeometryType
  placegeometry : String
  placeindeterminatecode : ℤ
  placenamespaceid : ℤ
  placename : String
  placenamevalidfrom : Timestamp
  placenamevalidto : Timestamp
  originalsrid : ℤ
  placestoretime : Timestamp
  deriving DecidableEq

/-- A row of `placeregulargrid_v` and `placeregulargrid_mv`. -/
structure PlaceRegularGridV where
  placeid : ℤ
  placegeometrytype : PlaceGeometryType
  placegeometry : String
  placeindeterminatetype : String
  placenamespaceid : ℤ
  placename : String
  numberx : ℤ
  numbery : ℤ
  incrementx : ℚ
  incrementy : ℚ
  startx : ℚ
  starty : ℚ
  originalsrid : ℤ
  projdefinition : String
  placestoretime : Timestamp
  deriving DecidableEq

section Views
variable (gis : Gis)

/-- The canonical name of a grid. -/
def gridName (pg : PlaceRegularGrid) : String :=
  "grid(" ++ gis.realText pg.startx ++ " " ++ gis.realText pg.starty ++ ", " ++
    gis.realText pg.incrementx ++ " " ++ gis.realText pg.incrementy ++ ", " ++
    toString pg.numberx ++ " " ++ toString pg.numbery ++ ", " ++ toString pg.originalsrid ++ ")"

/-- The columns of `placedefinition` with a name. -/
def PlaceDefinition.named (pd : PlaceDefinition) (pn : PlaceName) (originalsrid : ℤ) :
    PlaceDefinitionV :=
  ⟨pd.placeid, pd.placegeometrytype, pd.placegeometry, pd.placeindeterminatecode,
    pn.placenamespaceid, pn.placename, pn.valid.start, pn.valid.stop, originalsrid,
    pd.placestoretime⟩

/-- The columns of `placedefinition` with a canonical name. -/
def PlaceDefinition.canonical (pd : PlaceDefinition) (placename : String) (originalsrid : ℤ) :
    PlaceDefinitionV :=
  ⟨pd.placeid, pd.placegeometrytype, pd.placegeometry, pd.placeindeterminatecode,
    0, placename, .negInfinity, .infinity, originalsrid, pd.placestoretime⟩

/-- `wci_int.placedefinition_v`. -/
def placedefinitionV (pds : List PlaceDefinition) (pgs : List PlaceRegularGrid)
    (pns : List PlaceName) : List PlaceDefinitionV :=
  (pds.flatMap fun pd =>
    (pgs.filter fun pg => pd.placeid = pg.placeid).flatMap fun pg =>
      (pns.filter fun pn => pd.placeid = pn.placeid).map fun pn => pd.named pn pg.originalsrid) ++
  ((pds.filter fun pd => pd.placegeometrytype ≠ .grid).flatMap fun pd =>
    (pns.filter fun pn => pd.placeid = pn.placeid).map fun pn => pd.named pn gis.wdbSrid) ++
  (pds.flatMap fun pd =>
    (pgs.filter fun pg => pd.placeid = pg.placeid).map fun pg =>
      pd.canonical (gridName gis pg) pg.originalsrid) ++
  (pds.filter fun pd => pd.placegeometrytype ≠ .grid).map fun pd =>
    pd.canonical (lower (gis.stAstext pd.placegeometry)) gis.wdbSrid

/-- The columns of `placeregulargrid_v`, with a name in a namespace. -/
def PlaceRegularGrid.row (pg : PlaceRegularGrid) (pd : PlaceDefinition) (srs : SpatialRefSys)
    (placeindeterminatetype : String) (placenamespaceid : ℤ) (placename : String) :
    PlaceRegularGridV :=
  ⟨pd.placeid, pd.placegeometrytype, pd.placegeometry, placeindeterminatetype, placenamespaceid,
    placename, pg.numberx, pg.numbery, pg.incrementx, pg.incrementy, pg.startx, pg.starty,
    pg.originalsrid, btrim srs.proj4text, pd.placestoretime⟩

/-- `wci_int.placeregulargrid_v`. -/
def placeregulargridV (pds : List PlaceDefinition) (pgs : List PlaceRegularGrid)
    (pns : List PlaceName) (srss : List SpatialRefSys) (pits : List (ℤ × String)) :
    List PlaceRegularGridV :=
  (pds.flatMap fun pd =>
    (pns.filter fun pn => pd.placeid = pn.placeid).flatMap fun pn =>
      (pgs.filter fun pg => pd.placeid = pg.placeid).flatMap fun pg =>
        (srss.filter fun srs => srs.srid = pg.originalsrid).flatMap fun srs =>
          (pits.filter fun pit => pit.1 = pd.placeindeterminatecode).map fun pit =>
            pg.row pd srs pit.2 pn.placenamespaceid pn.placename) ++
  (pds.flatMap fun pd =>
    (pgs.filter fun pg => pd.placeid = pg.placeid).flatMap fun pg =>
      (srss.filter fun srs => srs.srid = pg.originalsrid).flatMap fun srs =>
        (pits.filter fun pit => pit.1 = pd.placeindeterminatecode).map fun pit =>
          pg.row pd srs pit.2 0 (gridName gis pg))

/-- The views of a state of the tables. -/
def PlaceTables.placedefinitionV (t : PlaceTables) : List PlaceDefinitionV :=
  Place.placedefinitionV gis t.placedefinition.rows t.placeregulargrid.rows t.placename.rows

def PlaceTables.placeregulargridV (t : PlaceTables) : List PlaceRegularGridV :=
  Place.placeregulargridV gis t.placedefinition.rows t.placeregulargrid.rows t.placename.rows
    t.spatialRefSys t.placeindeterminatetype

end Views

/-! ### The rows of one place -/

section Fibres
variable {gis : Gis} {k : ℤ} {pds : List PlaceDefinition} {pgs : List PlaceRegularGrid}
  {pns : List PlaceName} {srss : List SpatialRefSys} {pits : List (ℤ × String)}

/-- The rows of one place in a join that starts from `placedefinition`. -/
theorem fibre_flatMap {ρ : Type} {key : ρ → ℤ} {rows : PlaceDefinition → List ρ}
    (h : ∀ pd, ∀ r ∈ rows pd, key r = pd.placeid) :
    Mirror.fibre key k (pds.flatMap rows) =
      (Mirror.fibre PlaceDefinition.placeid k pds).flatMap rows := by
  induction pds with
  | nil => rfl
  | cons pd pds ih =>
    rw [List.flatMap_cons, Mirror.fibre_append, ih]
    unfold Mirror.fibre
    by_cases hk : pd.placeid = k
    · rw [List.filter_eq_self.2 fun r hr => by simp [h pd r hr, hk],
        List.filter_cons_of_pos (by simpa using hk), List.flatMap_cons]
    · rw [List.filter_eq_nil_iff.2 fun r hr => by simp [h pd r hr, hk],
        List.filter_cons_of_neg (by simpa using hk), List.nil_append]

theorem fibre_filter {p : PlaceDefinition → Bool} :
    Mirror.fibre PlaceDefinition.placeid k (pds.filter p) =
      (Mirror.fibre PlaceDefinition.placeid k pds).filter p := by
  simp [Mirror.fibre, List.filter_filter, Bool.and_comm]

/-- A join on the place sees the rows of the place only. -/
theorem filter_fibre {ρ : Type} {key : ρ → ℤ} {l : List ρ} {pd : PlaceDefinition}
    (hk : pd.placeid = k) : (Mirror.fibre key k l).filter (fun r => pd.placeid = key r) =
      l.filter fun r => pd.placeid = key r := by
  unfold Mirror.fibre
  rw [List.filter_filter]
  refine List.filter_congr fun r _ => ?_
  by_cases h : k = key r
  · simp [hk, h]
  · simp [hk, h]

/-- The rows of a place in `placedefinition_v` come from its own rows. -/
theorem fibre_placedefinitionV : Mirror.fibre PlaceDefinitionV.placeid k
      (placedefinitionV gis pds pgs pns) =
    placedefinitionV gis (Mirror.fibre PlaceDefinition.placeid k pds)
      (Mirror.fibre PlaceRegularGrid.placeid k pgs) (Mirror.fibre PlaceName.placeid k pns) := by
  have hkey : ∀ pd ∈ Mirror.fibre PlaceDefinition.placeid k pds, pd.placeid = k := fun pd h => by
    simpa using (List.mem_filter.1 h).2
  unfold placedefinitionV
  simp only [Mirror.fibre_append, List.map_eq_flatMap]
  congr 1
  · congr 1
    · congr 1
      · rw [fibre_flatMap]
        · refine List.flatMap_congr fun pd hpd => ?_
          rw [filter_fibre (hkey pd hpd), filter_fibre (hkey pd hpd)]
        · simp +contextual [PlaceDefinition.named]
      · rw [fibre_flatMap, fibre_filter]
        · refine List.flatMap_congr fun pd hpd => ?_
          rw [filter_fibre (hkey pd (List.mem_of_mem_filter hpd))]
        · simp +contextual [PlaceDefinition.named]
    · rw [fibre_flatMap]
      · refine List.flatMap_congr fun pd hpd => ?_
        rw [filter_fibre (hkey pd hpd)]
      · simp +contextual [PlaceDefinition.canonical]
  · rw [fibre_flatMap, fibre_filter]
    simp [PlaceDefinition.canonical]

/-- The rows of a place in `placeregulargrid_v` come from its own rows. -/
theorem fibre_placeregulargridV : Mirror.fibre PlaceRegularGridV.placeid k
      (placeregulargridV gis pds pgs pns srss pits) =
    placeregulargridV gis (Mirror.fibre PlaceDefinition.placeid k pds)
      (Mirror.fibre PlaceRegularGrid.placeid k pgs) (Mirror.fibre PlaceName.placeid k pns)
      srss pits := by
  have hkey : ∀ pd ∈ Mirror.fibre PlaceDefinition.placeid k pds, pd.placeid = k := fun pd h => by
    simpa using (List.mem_filter.1 h).2
  unfold placeregulargridV
  rw [Mirror.fibre_append]
  congr 1
  · rw [fibre_flatMap]
    · refine List.flatMap_congr fun pd hpd => ?_
      rw [filter_fibre (hkey pd hpd), filter_fibre (hkey pd hpd)]
    · intro pd r hr
      simp only [List.mem_flatMap, List.mem_map] at hr
      obtain ⟨pn, -, pg, -, srs, -, pit, -, rfl⟩ := hr
      rfl
  · rw [fibre_flatMap]
    · refine List.flatMap_congr fun pd hpd => ?_
      rw [filter_fibre (hkey pd hpd)]
    · intro pd r hr
      simp only [List.mem_flatMap, List.mem_map] at hr
      obtain ⟨pg, -, srs, -, pit, -, rfl⟩ := hr
      rfl

/-- The rows of a place that has no definition. -/
theorem fibre_eq_nil (h : ∀ pd ∈ pds, pd.placeid ≠ k) :
    Mirror.fibre PlaceDefinition.placeid k pds = [] :=
  List.filter_eq_nil_iff.2 fun pd hpd => by simpa using h pd hpd

/-- The row of a place. -/
theorem fibre_eq_singleton (t : PlaceTables) {pd : PlaceDefinition}
    (hpd : pd ∈ t.placedefinition.rows) :
    Mirror.fibre PlaceDefinition.placeid pd.placeid t.placedefinition.rows = [pd] := by
  refine Table.filter_eq_singleton (t.placedefinition.nodup samePlace_refl) hpd (by simp) ?_
  intro b hb hk
  exact t.place_unique hb hpd (by simpa using hk)

/-- How many rows the view has for a place: one for each of its names and one for the canonical name,
    for its grid and, unless its type is grid, besides. -/
theorem length_fibre_placedefinitionV (t : PlaceTables) {pd : PlaceDefinition}
    (hpd : pd ∈ t.placedefinition.rows) :
    (Mirror.fibre PlaceDefinitionV.placeid pd.placeid (t.placedefinitionV gis)).length =
      ((Mirror.fibre PlaceRegularGrid.placeid pd.placeid t.placeregulargrid.rows).length +
        if pd.placegeometrytype = .grid then 0 else 1) *
      ((Mirror.fibre PlaceName.placeid pd.placeid t.placename.rows).length + 1) := by
  have hpgs : (Mirror.fibre PlaceRegularGrid.placeid pd.placeid t.placeregulargrid.rows).filter
      (fun pg => pd.placeid = pg.placeid) =
      Mirror.fibre PlaceRegularGrid.placeid pd.placeid t.placeregulargrid.rows :=
    List.filter_eq_self.2 fun pg hpg => by simpa [eq_comm] using (List.mem_filter.1 hpg).2
  have hpns : (Mirror.fibre PlaceName.placeid pd.placeid t.placename.rows).filter
      (fun pn => pd.placeid = pn.placeid) =
      Mirror.fibre PlaceName.placeid pd.placeid t.placename.rows :=
    List.filter_eq_self.2 fun pn hpn => by simpa [eq_comm] using (List.mem_filter.1 hpn).2
  rw [PlaceTables.placedefinitionV, fibre_placedefinitionV, fibre_eq_singleton t hpd]
  unfold placedefinitionV
  by_cases hgrid : pd.placegeometrytype = .grid
  · simp [hpgs, hpns, hgrid, List.length_flatMap]
    ring
  · simp [hpgs, hpns, hgrid, List.length_flatMap]
    ring

/-- A place without rows in the views: it is not defined, or it is of type grid and has no grid. -/
def PlaceTables.Bare (t : PlaceTables) (k : ℤ) : Prop :=
  ∀ pd ∈ t.placedefinition.rows, pd.placeid = k →
    pd.placegeometrytype = .grid ∧ ∀ pg ∈ t.placeregulargrid.rows, pg.placeid ≠ k

instance (t : PlaceTables) (k : ℤ) : Decidable (t.Bare k) :=
  inferInstanceAs (Decidable (∀ pd ∈ _, _ → _ ∧ ∀ pg ∈ _, _))

theorem fibre_placedefinitionV_eq_nil {t : PlaceTables} :
    Mirror.fibre PlaceDefinitionV.placeid k (t.placedefinitionV gis) = [] ↔ t.Bare k := by
  by_cases h : ∃ pd ∈ t.placedefinition.rows, pd.placeid = k
  · obtain ⟨pd, hpd, rfl⟩ := h
    have huniq : t.Bare pd.placeid ↔ pd.placegeometrytype = .grid ∧
        ∀ pg ∈ t.placeregulargrid.rows, pg.placeid ≠ pd.placeid := by
      refine ⟨fun hbare => hbare pd hpd rfl, fun hgrid d hd hk => ?_⟩
      rw [t.place_unique hd hpd hk]
      exact hgrid
    rw [huniq, ← List.length_eq_zero_iff, length_fibre_placedefinitionV t hpd, Nat.mul_eq_zero,
      or_iff_left (Nat.succ_ne_zero _), Nat.add_eq_zero_iff, List.length_eq_zero_iff, and_comm]
    refine and_congr (by by_cases hg : pd.placegeometrytype = .grid <;> simp [hg]) ?_
    simp [Mirror.fibre, List.filter_eq_nil_iff]
  · push Not at h
    refine iff_of_true ?_ fun pd hpd hk => absurd hk (h pd hpd)
    rw [PlaceTables.placedefinitionV, fibre_placedefinitionV, fibre_eq_nil h]
    rfl

theorem fibre_placeregulargridV_eq_nil {t : PlaceTables}
    (h : ∀ pg ∈ t.placeregulargrid.rows, pg.placeid ≠ k) :
    Mirror.fibre PlaceRegularGridV.placeid k (t.placeregulargridV gis) = [] := by
  have hnone : Mirror.fibre PlaceRegularGrid.placeid k t.placeregulargrid.rows = [] :=
    List.filter_eq_nil_iff.2 fun pg hpg => by simpa using h pg hpg
  rw [PlaceTables.placeregulargridV, fibre_placeregulargridV, hnone]
  simp [placeregulargridV]

end Fibres

end Wdb.Place
