import Wdb.Place.Disjoint
import Wdb.Lib.Runs
import Wdb.Lib.SqlText
import Wdb.Read.Location

/-! The four ways in which a place name is resolved.

    `wci.write` calls `getPlaceId` (`location.in.sql`). A read of float values joins with the geometries
    of the name, a read of grid ids compares with a subquery on the names (`location.cpp`), and the points
    of a grid are taken at the geometry that `build_placeNameQuery` finds. The last three read the text as
    a location first, and splice the place name that this has into the text of a query. -/

namespace Wdb.Place
open SqlTypes SqlText Store Relational Periods

/-! ### The look-ups -/

section Lookups
variable (mv : List PlaceDefinitionV) (names : List PlaceName) (namespace_ : ℤ)

/-- The row gives a name of the session's namespace to its place, at a time. -/
def PlaceDefinitionV.standsFor (name : String) (at_time : Timestamp) (p : PlaceDefinitionV) : Bool :=
  p.placenamespaceid = namespace_ && p.placename = name && p.placenamevalidfrom ≤ at_time &&
    at_time < p.placenamevalidto

/-- `getPlaceId`; `none` when it raises `Failed to identify placename in namespace`. -/
def getPlaceId (name_ : String) (at_time : Timestamp) : Option ℤ :=
  (mv.find? (PlaceDefinitionV.standsFor namespace_ (lower name_) at_time)).map (·.placeid)

/-- What a read takes a text for, when it is the name of a place: a location without a geometry. -/
def namedLocation (name : String) : Option Read.Location :=
  (Read.Location.parseWithSpirit_ name).toOption.filter fun loc => !loc.hasGeometry && loc.hasPlaceName

/-- The rows of `geometries`, or of `wanted_location`, that the float query joins with for a reference time.
    A bilinear one has the condition `FALSE`. -/
def geometriesAt (loc : Read.Location) (placeName : String) (referencetime : Timestamp) : List PlaceDefinitionV :=
  if loc.interpolationType = .bilinear then []
  else mv.filter (PlaceDefinitionV.standsFor namespace_ placeName referencetime)

/-- The subquery `(SELECT placeid FROM placename_v …)`; more than one row is an error (`none`). -/
def placeidQuery (placeName : String) : Option (Option ℤ) :=
  match (names.filter fun p => p.placenamespaceid = namespace_ && p.placename = placeName).map
      (·.placeid) with
  | [] => some none
  | [placeid] => some (some placeid)
  | _ => none

/-- `s ILIKE pattern`. -/
def ilike (s pattern : String) : Option Bool := like (lower s) (lower pattern)

/-- The row that `build_placeNameQuery` finds, with a limit of one; `none` when it raises. -/
def namedPlace (placeName : String) : Option (Option PlaceDefinitionV) :=
  let rows := mv.filter fun p => p.placenamespaceid = namespace_
  if rows.any fun p => ilike p.placename placeName = none then none
  else some (rows.find? fun p => ilike p.placename placeName = some true)

/-- `getNamedGeometryAsWKT`. -/
def getNamedGeometryAsWKT (gis : Gis) (placeName : String) : Option (Option String) :=
  (namedPlace mv namespace_ placeName).map (·.map fun p => gis.stAstext p.placegeometry)

/-- A stored row, with the columns of its place. -/
structure StoredRow where
  placeid : ℤ
  placegeometry : String
  referencetime : Timestamp

/-- What a row adds to the result of a query for a name: a float row is in the join, a grid row has the
    place of the subquery, or a grid gives points at a geometry. `meets` is the test of the join for a
    location: `&&` with `_ST_Intersects`, or that the place of the row is one of the nearest. -/
def StoredRow.Contributes (meets : Read.Location → String → StoredRow → Bool) (loc : Read.Location)
    (placeName : String) (v : StoredRow) : Prop :=
  (∃ g ∈ geometriesAt mv namespace_ loc placeName v.referencetime, meets loc g.placegeometry v) ∨
  placeidQuery names namespace_ placeName = some (some v.placeid) ∨
  ∃ g, namedPlace mv namespace_ placeName = some (some g)

/-- All ways agree on a name at a reference time: on a place, or that there is none, and then no row is
    written or found. A write has the name as it is given, a read that of the location. -/
structure PathsAgree (meets : Read.Location → String → StoredRow → Bool) (name : String) (r : Timestamp)
    (loc : Read.Location) (placeName : String) (placeid : Option ℤ) : Prop where
  write : getPlaceId mv namespace_ name r = placeid
  float : ∀ p, (∃ g ∈ geometriesAt mv namespace_ loc placeName r, g.placeid = p) ↔ placeid = some p
  grid : placeidQuery names namespace_ placeName = some placeid
  points : (namedPlace mv namespace_ placeName).map (·.map (·.placeid)) = some placeid
  nothing : placeid = none → ∀ v : StoredRow, v.referencetime = r →
    ¬ v.Contributes mv names namespace_ meets loc placeName

end Lookups

/-! ### What the tables say -/

section Tables
variable {gis : Gis} {t : PlaceTables} {namespace_ : ℤ} {name : String} {r : Timestamp}

/-- The canonical name of a place: that of its grid, or its geometry in lower case. -/
def PlaceTables.Canonical (t : PlaceTables) (gis : Gis) (name : String) (placeid : ℤ) : Prop :=
  ∃ pd ∈ t.placedefinition.rows, pd.placeid = placeid ∧
    ((∃ pg ∈ t.placeregulargrid.rows, pg.placeid = placeid ∧ gridName gis pg = name) ∨
      pd.placegeometrytype ≠ .grid ∧ lower (gis.stAstext pd.placegeometry) = name)

/-- A name stands for a place at a time: by a row of `placename` whose place has a geometry, or as the
    canonical name in namespace 0. -/
def PlaceTables.Stands (t : PlaceTables) (gis : Gis) (namespace_ : ℤ) (name : String) (r : Timestamp)
    (placeid : ℤ) : Prop :=
  (∃ pn ∈ t.placename.rows, (pn.placenamespaceid = namespace_ ∧ pn.placename = name) ∧
    pn.valid.Covers r ∧ pn.placeid = placeid ∧ ¬ t.Bare placeid) ∨
  namespace_ = 0 ∧ r < .infinity ∧ t.Canonical gis name placeid

theorem not_bare_iff {k : ℤ} : ¬ t.Bare k ↔ ∃ pd ∈ t.placedefinition.rows, pd.placeid = k ∧
    (pd.placegeometrytype ≠ .grid ∨ ∃ pg ∈ t.placeregulargrid.rows, pg.placeid = k) := by
  unfold PlaceTables.Bare
  push Not
  refine exists_congr fun pd => and_congr_right fun _ => and_congr_right fun _ => ?_
  by_cases hg : pd.placegeometrytype = .grid
  · simp [hg]
  · simp [hg]

theorem standsFor_iff {v : PlaceDefinitionV} : v.standsFor namespace_ name r ↔
    (v.placenamespaceid = namespace_ ∧ v.placename = name) ∧
      v.placenamevalidfrom ≤ r ∧ r < v.placenamevalidto := by
  simp only [PlaceDefinitionV.standsFor, Bool.and_eq_true, decide_eq_true_eq, and_assoc]

/-- The rows of the view: those of the names whose places have a geometry, and the canonical names. -/
theorem exists_view_iff {P : ℤ → String → Timestamp → Timestamp → ℤ → Prop} :
    (∃ v ∈ t.placedefinitionV gis,
      P v.placenamespaceid v.placename v.placenamevalidfrom v.placenamevalidto v.placeid) ↔
    (∃ pn ∈ t.placename.rows, ¬ t.Bare pn.placeid ∧
      P pn.placenamespaceid pn.placename pn.valid.start pn.valid.stop pn.placeid) ∨
    ∃ name placeid, t.Canonical gis name placeid ∧ P 0 name .negInfinity .infinity placeid := by
  unfold PlaceTables.placedefinitionV placedefinitionV PlaceTables.Canonical
  simp only [List.mem_append, List.mem_flatMap, List.mem_filter, List.mem_map, decide_eq_true_eq,
    or_assoc, not_bare_iff]
  constructor
  · rintro ⟨v, ⟨pd, hpd, pg, ⟨hpg, hk⟩, pn, ⟨hpn, hkn⟩, rfl⟩ | ⟨pd, ⟨hpd, hg⟩, pn, ⟨hpn, hkn⟩, rfl⟩ |
      ⟨pd, hpd, pg, ⟨hpg, hk⟩, rfl⟩ | ⟨pd, ⟨hpd, hg⟩, rfl⟩, hv⟩
    · exact Or.inl ⟨pn, hpn, ⟨pd, hpd, hkn, Or.inr ⟨pg, hpg, hk.symm.trans hkn⟩⟩, hkn ▸ hv⟩
    · exact Or.inl ⟨pn, hpn, ⟨pd, hpd, hkn, Or.inl hg⟩, hkn ▸ hv⟩
    · exact Or.inr ⟨_, _, ⟨pd, hpd, rfl, Or.inl ⟨pg, hpg, hk.symm, rfl⟩⟩, hv⟩
    · exact Or.inr ⟨_, _, ⟨pd, hpd, rfl, Or.inr ⟨hg, rfl⟩⟩, hv⟩
  · rintro (⟨pn, hpn, ⟨pd, hpd, hk, hgeometry⟩, hP⟩ |
      ⟨name, _, ⟨pd, hpd, rfl, ⟨pg, hpg, hkg, rfl⟩ | ⟨hg, rfl⟩⟩, hP⟩)
    · rw [← hk] at hP
      rcases hgeometry with hg | ⟨pg, hpg, hkg⟩
      · exact ⟨_, Or.inr (Or.inl ⟨pd, ⟨hpd, hg⟩, pn, ⟨hpn, hk⟩, rfl⟩), hP⟩
      · exact ⟨_, Or.inl ⟨pd, hpd, pg, ⟨hpg, hk.trans hkg.symm⟩, pn, ⟨hpn, hk⟩, rfl⟩, hP⟩
    · exact ⟨_, Or.inr (Or.inr (Or.inl ⟨pd, hpd, pg, ⟨hpg, hkg.symm⟩, rfl⟩)), hP⟩
    · exact ⟨_, Or.inr (Or.inr (Or.inr ⟨pd, ⟨hpd, hg⟩, rfl⟩)), hP⟩

/-- The view says of a name what the tables say. -/
theorem stands_iff {p : ℤ} :
    (∃ v ∈ t.placedefinitionV gis, v.standsFor namespace_ name r ∧ v.placeid = p) ↔
      t.Stands gis namespace_ name r p := by
  simp only [standsFor_iff]
  rw [exists_view_iff (P := fun ns placename from_ to_ placeid =>
    ((ns = namespace_ ∧ placename = name) ∧ from_ ≤ r ∧ r < to_) ∧ placeid = p)]
  unfold PlaceTables.Stands
  refine or_congr (exists_congr fun pn => and_congr_right fun _ => ?_) ?_
  · constructor
    · rintro ⟨hbare, ⟨hname, hcov⟩, rfl⟩
      exact ⟨hname, hcov, rfl, hbare⟩
    · rintro ⟨hname, hcov, rfl, hbare⟩
      exact ⟨hbare, ⟨hname, hcov⟩, rfl⟩
  · have hle : Timestamp.negInfinity ≤ r := by cases r <;> rfl
    constructor
    · rintro ⟨name', placeid, hcanonical, ⟨⟨hns, rfl⟩, -, hr⟩, rfl⟩
      exact ⟨hns.symm, hr, hcanonical⟩
    · rintro ⟨hns, hr, hcanonical⟩
      exact ⟨name, p, hcanonical, ⟨⟨hns.symm, rfl⟩, hle, hr⟩, rfl⟩

/-- The name of the location has at most one row, which stands for its place at the time, and nothing else
    does; the text stands for this place, too; and as a pattern the name finds the names of this place only. -/
structure PlaceTables.Settled (t : PlaceTables) (gis : Gis) (namespace_ : ℤ) (name : String)
    (r : Timestamp) (loc : Read.Location) (placeName : String) (placeid : Option ℤ) : Prop where
  rows : (t.placename.rows.filter fun p =>
    p.placenamespaceid = namespace_ && p.placename = placeName).map (·.placeid) = placeid.toList
  stands : ∀ p, loc.interpolationType ≠ .bilinear ∧ t.Stands gis namespace_ placeName r p ↔ placeid = some p
  written : ∀ p, t.Stands gis namespace_ (lower name) r p ↔ placeid = some p
  pattern : ∀ v ∈ t.placedefinitionV gis, v.placenamespaceid = namespace_ →
    ∃ b, ilike v.placename placeName = some b ∧ (b = true → placeid = some v.placeid)
  found : ∀ p, placeid = some p → ∃ v ∈ t.placedefinitionV gis, v.placenamespaceid = namespace_ ∧
    ilike v.placename placeName = some true

theorem placeidQuery_eq_some {names : List PlaceName} {placeName : String} {placeid : Option ℤ} :
    placeidQuery names namespace_ placeName = some placeid ↔ (names.filter fun p =>
      p.placenamespaceid = namespace_ && p.placename = placeName).map (·.placeid) =
        placeid.toList := by
  unfold placeidQuery
  split
  · next h => cases placeid <;> simp [h]
  · next k h => cases placeid <;> simp [h]
  · next h₀ h₁ =>
    refine iff_of_false (by simp) fun h => ?_
    cases placeid with
    | none => exact h₀ h
    | some k => exact h₁ k h

/-- The places of the rows that the float query joins with. -/
theorem exists_geometriesAt {mv : List PlaceDefinitionV} (hmv : mv.Perm (t.placedefinitionV gis))
    {loc : Read.Location} {placeName : String} {p : ℤ} :
    (∃ g ∈ geometriesAt mv namespace_ loc placeName r, g.placeid = p) ↔
      loc.interpolationType ≠ .bilinear ∧ t.Stands gis namespace_ placeName r p := by
  rw [geometriesAt, ← stands_iff]
  split
  · next hbilinear => simp [hbilinear]
  · next hother => simp [hother, and_assoc, hmv.mem_iff]

/-- The first row that a test finds is of the only place that it finds. -/
theorem map_find?_eq {rows : List PlaceDefinitionV} {test : PlaceDefinitionV → Bool}
    {placeid : Option ℤ} (h : ∀ p, (∃ v ∈ rows, test v ∧ v.placeid = p) ↔ placeid = some p) :
    (rows.find? test).map (·.placeid) = placeid := by
  cases hfind : rows.find? test with
  | none =>
    cases placeid with
    | none => rfl
    | some p =>
      obtain ⟨v, hv, htest, -⟩ := (h p).2 rfl
      exact absurd htest (by simpa using List.find?_eq_none.1 hfind v hv)
  | some v =>
    exact ((h v.placeid).1 ⟨v, List.mem_of_find?_eq_some hfind, List.find?_some hfind, rfl⟩).symm

/-- What the ways agree on, whatever the order of the rows. -/
theorem PlaceTables.Settled.agree {loc : Read.Location} {placeName : String} {placeid : Option ℤ}
    (h : t.Settled gis namespace_ name r loc placeName placeid)
    (meets : Read.Location → String → StoredRow → Bool)
    {mv : List PlaceDefinitionV} (hmv : mv.Perm (t.placedefinitionV gis)) :
    PathsAgree mv t.placename.rows namespace_ meets name r loc placeName placeid := by
  have hstands : ∀ key p, (∃ v ∈ mv, v.standsFor namespace_ key r ∧ v.placeid = p) ↔
      t.Stands gis namespace_ key r p := fun key p => by
    rw [← stands_iff]
    exact exists_congr fun v => and_congr_left fun _ => hmv.mem_iff
  have hfloat : ∀ p, (∃ g ∈ geometriesAt mv namespace_ loc placeName r, g.placeid = p) ↔
      placeid = some p := fun p => (exists_geometriesAt hmv).trans (h.stands p)
  have hgrid : placeidQuery t.placename.rows namespace_ placeName = some placeid :=
    placeidQuery_eq_some.2 h.rows
  have hnone : ¬ ∃ p ∈ mv.filter fun p => p.placenamespaceid = namespace_,
      ilike p.placename placeName = none := by
    rintro ⟨v, hv, hnone⟩
    obtain ⟨hv, hns⟩ := List.mem_filter.1 hv
    obtain ⟨b, hb, -⟩ := h.pattern v (hmv.mem_iff.1 hv) (by simpa using hns)
    exact absurd (hb.symm.trans hnone) (Option.some_ne_none b)
  have hpoints : (namedPlace mv namespace_ placeName).map (·.map (·.placeid)) = some placeid := by
    unfold namedPlace
    dsimp only
    rw [if_neg (by simpa using hnone), Option.map_some]
    refine congrArg some (map_find?_eq fun p => ⟨?_, fun hp => ?_⟩)
    · rintro ⟨v, hv, hmatch, rfl⟩
      obtain ⟨hv, hns⟩ := List.mem_filter.1 hv
      obtain ⟨b, hb, hplace⟩ := h.pattern v (hmv.mem_iff.1 hv) (by simpa using hns)
      exact hplace (Option.some_inj.1 (hb.symm.trans (by simpa using hmatch)))
    · obtain ⟨v, hv, hns, hmatch⟩ := h.found p hp
      obtain ⟨b, hb, hplace⟩ := h.pattern v hv hns
      have hb : b = true := Option.some_inj.1 (hb.symm.trans hmatch)
      exact ⟨v, List.mem_filter.2 ⟨hmv.mem_iff.2 hv, by simpa using hns⟩, by simpa using hmatch,
        Option.some_inj.1 ((hplace hb).symm.trans hp)⟩
  refine ⟨map_find?_eq fun p => (hstands _ p).trans (h.written p), hfloat, hgrid, hpoints, ?_⟩
  rintro rfl v rfl (⟨g, hg, -⟩ | hplace | ⟨g, hg⟩)
  · exact absurd ((hfloat g.placeid).1 ⟨g, hg, rfl⟩) nofun
  · exact absurd (hgrid.symm.trans hplace) nofun
  · rw [hg] at hpoints
    exact absurd hpoints nofun

/-- A row may be the first of its table. -/
theorem exists_first {mv : List PlaceDefinitionV} {v : PlaceDefinitionV} (h : v ∈ mv) :
    ∃ l, (v :: l).Perm mv :=
  ⟨mv.erase v, (List.perm_cons_erase h).symm⟩

/-- The places that `getPlaceId` may find are those the name stands for. -/
theorem exists_getPlaceId {placeid : ℤ} : (∃ mv, mv.Perm (t.placedefinitionV gis) ∧
      getPlaceId mv namespace_ name r = some placeid) ↔
    t.Stands gis namespace_ (lower name) r placeid := by
  rw [← stands_iff]
  constructor
  · rintro ⟨mv, hmv, hplace⟩
    obtain ⟨v, hv, hid⟩ := Option.map_eq_some_iff.1 hplace
    exact ⟨v, hmv.mem_iff.1 (List.mem_of_find?_eq_some hv), List.find?_some hv, hid⟩
  · rintro ⟨v, hv, hstands, rfl⟩
    obtain ⟨l, hl⟩ := exists_first hv
    exact ⟨v :: l, hl, by rw [getPlaceId, List.find?_cons_of_pos hstands, Option.map_some]⟩

/-- For any text and reference time: the ways agree, in whatever order the rows of the materialized view
    are, exactly when the text is read as the name of a place and the tables settle that name. -/
theorem paths_agree_iff (gis : Gis) (meets : Read.Location → String → StoredRow → Bool) (t : PlaceTables)
    (namespace_ : ℤ) (name : String) (r : Timestamp) :
    (∀ mv : List PlaceDefinitionV, mv.Perm (t.placedefinitionV gis) → ∃ loc placeName placeid,
      namedLocation name = some loc ∧ denoted loc.placeName = some placeName ∧
      PathsAgree mv t.placename.rows namespace_ meets name r loc placeName placeid) ↔
    ∃ loc placeName placeid, namedLocation name = some loc ∧ denoted loc.placeName = some placeName ∧
      t.Settled gis namespace_ name r loc placeName placeid := by
  constructor
  · intro h
    obtain ⟨loc, placeName, placeid, hloc, hname, hagree⟩ := h _ (List.Perm.refl _)
    -- the subquery does not see the order of the rows, so that all orders agree on one place
    have hsame : ∀ mv : List PlaceDefinitionV, mv.Perm (t.placedefinitionV gis) →
        PathsAgree mv t.placename.rows namespace_ meets name r loc placeName placeid := by
      intro mv hmv
      obtain ⟨loc', placeName', placeid', hloc', hname', hagree'⟩ := h mv hmv
      obtain rfl : loc' = loc := Option.some_inj.1 (hloc'.symm.trans hloc)
      obtain rfl : placeName' = placeName := Option.some_inj.1 (hname'.symm.trans hname)
      obtain rfl : placeid' = placeid :=
        Option.some_inj.1 (hagree'.grid.symm.trans hagree.grid)
      exact hagree'
    refine ⟨loc, placeName, placeid, hloc, hname, placeidQuery_eq_some.1 hagree.grid, fun p => ?_,
      fun p => ?_, fun v hv hns => ?_, fun p hp => ?_⟩
    · exact (exists_geometriesAt (List.Perm.refl _)).symm.trans (hagree.float p)
    · rw [← stands_iff]
      constructor
      · rintro ⟨v, hv, hstands, rfl⟩
        obtain ⟨l, hl⟩ := exists_first hv
        have hwrite := (hsame _ hl).write
        rwa [getPlaceId, List.find?_cons_of_pos hstands, Option.map_some, eq_comm] at hwrite
      · intro hp
        have hwrite := hagree.write
        rw [hp, getPlaceId, Option.map_eq_some_iff] at hwrite
        obtain ⟨v, hv, hid⟩ := hwrite
        exact ⟨v, List.mem_of_find?_eq_some hv, List.find?_some hv, hid⟩
    · obtain ⟨l, hl⟩ := exists_first hv
      have hpoints := (hsame _ hl).points
      unfold namedPlace at hpoints
      dsimp only at hpoints
      split at hpoints
      · cases hpoints
      · next hnone =>
        rw [List.filter_cons_of_pos (by simpa using hns)] at hnone hpoints
        cases hb : ilike v.placename placeName with
        | none => simp [hb] at hnone
        | some b =>
          refine ⟨b, rfl, fun htrue => ?_⟩
          rw [List.find?_cons_of_pos (by simp [hb, htrue])] at hpoints
          exact (Option.some_inj.1 hpoints).symm
    · have hpoints := hagree.points
      unfold namedPlace at hpoints
      dsimp only at hpoints
      split at hpoints
      · cases hpoints
      · rw [hp, Option.map_some, Option.some_inj, Option.map_eq_some_iff] at hpoints
        obtain ⟨v, hv, -⟩ := hpoints
        obtain ⟨hmem, hns⟩ := List.mem_filter.1 (List.mem_of_find?_eq_some hv)
        exact ⟨v, hmem, by simpa using hns, by simpa using List.find?_some hv⟩
  · rintro ⟨loc, placeName, placeid, hloc, hname, hsettled⟩ mv hmv
    exact ⟨loc, placeName, placeid, hloc, hname, hsettled.agree meets hmv⟩

end Tables

/-- A name that goes from one point to another: the subquery raises where `getPlaceId` finds the second
    point. A name that is a pattern for the name of another point: the points of a grid are taken there. And
    a name that starts with the letters of an interpolation: a read looks for what is left of it. -/
theorem paths_differ :
    (let t := (Runs.run (PlaceDb.step plainGis) noPlaces
      [.addPlacePoint (callerOf 1) "place" "POINT(10 60)" (.at 0) (.at 10),
        .addPlacePoint { callerOf 1 with nextval := 2 } "place" "POINT(11 60)" (.at 10)
          .infinity]).tables
    DisjointRows t.placename.rows ∧ getPlaceId (t.placedefinitionV plainGis) 1 "place" (.at 20) = some 2 ∧
    ¬ ∀ mv : List PlaceDefinitionV, mv.Perm (t.placedefinitionV plainGis) → ∃ loc placeName placeid,
      namedLocation "place" = some loc ∧ denoted loc.placeName = some placeName ∧
      PathsAgree mv t.placename.rows 1 (fun _ _ _ => true) "place" (.at 20) loc placeName placeid) ∧
    (let t := (Runs.run (PlaceDb.step plainGis) noPlaces
      [.addPlacePoint (callerOf 1) "axb" "POINT(10 60)" (.at 0) .infinity,
        .addPlacePoint { callerOf 1 with nextval := 2 } "a_b" "POINT(11 60)" (.at 0)
          .infinity]).tables
    DisjointRows t.placename.rows ∧ getPlaceId (t.placedefinitionV plainGis) 1 "a_b" (.at 20) = some 2 ∧
    ¬ ∀ mv : List PlaceDefinitionV, mv.Perm (t.placedefinitionV plainGis) → ∃ loc placeName placeid,
      namedLocation "a_b" = some loc ∧ denoted loc.placeName = some placeName ∧
      PathsAgree mv t.placename.rows 1 (fun _ _ _ => true) "a_b" (.at 20) loc placeName placeid) ∧
    (let t := (Runs.run (PlaceDb.step plainGis) noPlaces
      [.addPlacePoint (callerOf 1) "exactly" "POINT(10 60)" (.at 0) .infinity]).tables
    DisjointRows t.placename.rows ∧ getPlaceId (t.placedefinitionV plainGis) 1 "exactly" (.at 20) = some 1 ∧
    ¬ ∀ mv : List PlaceDefinitionV, mv.Perm (t.placedefinitionV plainGis) → ∃ loc placeName placeid,
      namedLocation "exactly" = some loc ∧ denoted loc.placeName = some placeName ∧
      PathsAgree mv t.placename.rows 1 (fun _ _ _ => true) "exactly" (.at 20) loc placeName placeid) := by
  have hread {name k placeName : String} {loc : Read.Location} (h : namedLocation name = some loc)
      (hname : denoted loc.placeName = some placeName)
      (hread : ((namedLocation name).bind fun loc => denoted loc.placeName) = some k) : placeName = k := by
    rw [h, Option.bind_some, hname] at hread
    exact Option.some.inj hread
  refine ⟨⟨by decide, by decide, fun h => ?_⟩, ⟨by decide, by decide, fun h => ?_⟩,
    ⟨by decide, by decide, fun h => ?_⟩⟩
  · obtain ⟨loc, placeName, placeid, hloc, hname, hagree⟩ := h _ (List.Perm.refl _)
    obtain rfl := hread (k := "place") hloc hname (by decide +kernel)
    exact absurd (Option.isSome_iff_exists.2 ⟨_, hagree.grid⟩) (by decide)
  · obtain ⟨loc, placeName, placeid, hloc, hname, hagree⟩ := h _ (List.Perm.refl _)
    obtain rfl := hread (k := "a_b") hloc hname (by decide +kernel)
    exact absurd (hagree.grid.trans hagree.points.symm) (by decide)
  · obtain ⟨loc, placeName, placeid, hloc, hname, hagree⟩ := h _ (List.Perm.refl _)
    obtain rfl := hread (k := "ly") hloc hname (by decide +kernel)
    have hgrid := hagree.grid
    rw [← hagree.write] at hgrid
    exact absurd hgrid (by decide)

end Wdb.Place
