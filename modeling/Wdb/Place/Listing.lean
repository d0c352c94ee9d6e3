import Wdb.Lib.Like
import Wdb.Place.Paths

/-! What the functions that list places say of a name at an instant.

    `getPlaceId` compares with the name and takes the end of a period as exclusive. `wci.getPlaceDefinition`,
    `wci.getPlacePoint` and `wci.getPlaceName` take the name as a pattern, and the end as inclusive; the last
    reads the table of names, in which there are no canonical names. -/

namespace Wdb.Place
open SqlTypes Store Relational Periods

/-! ### The listings -/

section Listings
variable (mv : List PlaceDefinitionV) (names : List PlaceName) (namespace_ : ℤ)

/-- `( $1 IS NULL OR placename LIKE lower($1) )`; `none` is the error of the pattern. -/
def nameMatches (location : Option String) (placename : String) : Option Bool :=
  location.elim (some true) fun location => like placename (lower location)

/-- `( $2 IS NULL OR ( placenamevalidfrom <= $2 AND placenamevalidto >= $2 ) )`. -/
def validAt (valid : Option Timestamp) (placenamevalidfrom placenamevalidto : Timestamp) : Bool :=
  valid.elim true fun valid => placenamevalidfrom ≤ valid && valid ≤ placenamevalidto

/-- The rows that match the name and pass the other conditions; `none` when the pattern raises. -/
def listed {ρ : Type} (rows : List ρ) (placename : ρ → String) (location : Option String)
    (p : ρ → Bool) : Option (List ρ) :=
  if rows.any fun row => nameMatches location (placename row) = none then none
  else some (rows.filter fun row => nameMatches location (placename row) = some true && p row)

/-- `wci.getPlaceDefinition`. -/
def getPlaceDefinition (location : Option String) (valid : Option Timestamp) :
    Option (List PlaceDefinitionV) :=
  listed (mv.filter fun p => p.placenamespaceid = namespace_) (·.placename) location fun p =>
    validAt valid p.placenamevalidfrom p.placenamevalidto

/-- `wci.getPlacePoint`. -/
def getPlacePoint (location : Option String) (valid : Option Timestamp) :
    Option (List PlaceDefinitionV) :=
  listed (mv.filter fun p => p.placenamespaceid = namespace_) (·.placename) location fun p =>
    validAt valid p.placenamevalidfrom p.placenamevalidto && p.placegeometrytype = .point

/-- A row of `placename_valid_v`. -/
structure PlaceNameValidV where
  placeid : ℤ
  placename : String
  placenamevalidfrom : Timestamp
  placenamevalidto : Timestamp
  deriving DecidableEq

/-- `placename_valid_v`: the stored names of the session's namespace. -/
def placenameValidV : List PlaceNameValidV :=
  (names.filter fun p => p.placenamespaceid = namespace_).map fun p =>
    ⟨p.placeid, p.placename, p.valid.start, p.valid.stop⟩

/-- `wci.getPlaceName`. -/
def getPlaceName (name_ : Option String) (valid_ : Option Timestamp) : Option (List PlaceNameValidV) :=
  listed (placenameValidV names namespace_) (·.placename) name_ fun p =>
    validAt valid_ p.placenamevalidfrom p.placenamevalidto

/-- A listing reports a place. -/
def Reports {ρ : Type} (result : Option (List ρ)) (placeid : ρ → ℤ) (p : ℤ) : Prop :=
  ∃ rows, result = some rows ∧ ∃ row ∈ rows, placeid row = p

/-- The place is a point. -/
def PlaceTables.IsPoint (t : PlaceTables) (p : ℤ) : Prop :=
  ∃ pd ∈ t.placedefinition.rows, pd.placeid = p ∧ pd.placegeometrytype = .point

/-- The listings report exactly the place that `getPlaceId` finds; of points, that is. -/
structure ListingsAgree (t : PlaceTables) (name : String) (r : Timestamp) : Prop where
  definition : ∀ p, Reports (getPlaceDefinition mv namespace_ (some name) (some r)) (·.placeid) p ↔
    getPlaceId mv namespace_ name r = some p
  point : ∀ p, Reports (getPlacePoint mv namespace_ (some name) (some r)) (·.placeid) p ↔
    getPlaceId mv namespace_ name r = some p ∧ t.IsPoint p
  name : ∀ p, Reports (getPlaceName t.placename.rows namespace_ (some name) (some r)) (·.placeid) p ↔
    getPlaceId mv namespace_ name r = some p

end Listings

/-! ### What is reported -/

section Reported
variable {ρ : Type} {rows : List ρ} {placename : ρ → String} {placeid : ρ → ℤ} {test : ρ → Bool}
  {name : String} {p : ℤ}

/-- A name without the escape character raises for no row. -/
theorem listed_of_unescaped (hname : '\\' ∉ name.toList) : listed rows placename (some name) test =
    some (rows.filter fun row => like (placename row) (lower name) = some true && test row) := by
  have hlike := (like_of_unescaped (unescaped_lower hname)).1
  have hnone : ¬ (rows.any fun row => nameMatches (some name) (placename row) = none) = true := by
    rw [List.any_eq_true]
    rintro ⟨row, -, hrow⟩
    exact hlike (placename row) (of_decide_eq_true hrow)
  rw [listed, if_neg hnone]
  rfl

theorem reports_iff (hname : '\\' ∉ name.toList) :
    Reports (listed rows placename (some name) test) placeid p ↔
      ∃ row ∈ rows, like (placename row) (lower name) = some true ∧ test row ∧ placeid row = p := by
  unfold Reports
  rw [listed_of_unescaped hname]
  simp only [Option.some_inj, exists_eq_left', List.mem_filter, Bool.and_eq_true, decide_eq_true_eq, and_assoc]

end Reported

section Agree
variable {gis : Gis} {t : PlaceTables} {mv : List PlaceDefinitionV} {namespace_ : ℤ} {name : String}
  {r : Timestamp} {p : ℤ} {v : PlaceDefinitionV}

theorem validAt_iff {placenamevalidfrom placenamevalidto : Timestamp} :
    validAt (some r) placenamevalidfrom placenamevalidto ↔
      placenamevalidfrom ≤ r ∧ r ≤ placenamevalidto := by
  simp [validAt]

theorem reports_definition (hname : '\\' ∉ name.toList) :
    Reports (getPlaceDefinition mv namespace_ (some name) (some r)) (·.placeid) p ↔
      ∃ v ∈ mv, v.placenamespaceid = namespace_ ∧ like v.placename (lower name) = some true ∧
        (v.placenamevalidfrom ≤ r ∧ r ≤ v.placenamevalidto) ∧ v.placeid = p := by
  unfold getPlaceDefinition
  rw [reports_iff hname]
  simp only [List.mem_filter, decide_eq_true_eq, and_assoc, validAt_iff]

theorem reports_point (hname : '\\' ∉ name.toList) :
    Reports (getPlacePoint mv namespace_ (some name) (some r)) (·.placeid) p ↔
      ∃ v ∈ mv, v.placenamespaceid = namespace_ ∧ like v.placename (lower name) = some true ∧
        (v.placenamevalidfrom ≤ r ∧ r ≤ v.placenamevalidto) ∧ v.placegeometrytype = .point ∧
        v.placeid = p := by
  unfold getPlacePoint
  rw [reports_iff hname]
  simp only [List.mem_filter, Bool.and_eq_true, decide_eq_true_eq, and_assoc, validAt_iff]

theorem reports_name {names : List PlaceName} (hname : '\\' ∉ name.toList) :
    Reports (getPlaceName names namespace_ (some name) (some r)) (·.placeid) p ↔
      ∃ pn ∈ names, pn.placenamespaceid = namespace_ ∧ like pn.placename (lower name) = some true ∧
        (pn.valid.start ≤ r ∧ r ≤ pn.valid.stop) ∧ pn.placeid = p := by
  unfold getPlaceName placenameValidV
  rw [reports_iff hname]
  simp only [List.mem_map, List.mem_filter, decide_eq_true_eq]
  constructor
  · rintro ⟨_, ⟨pn, ⟨hpn, hns⟩, rfl⟩, hlike, hvalid, hid⟩
    exact ⟨pn, hpn, hns, hlike, validAt_iff.1 hvalid, hid⟩
  · rintro ⟨pn, hpn, hns, hlike, hvalid, hid⟩
    exact ⟨_, ⟨pn, ⟨hpn, hns⟩, rfl⟩, hlike, validAt_iff.2 hvalid, hid⟩

/-! ### What is found -/

/-- `getPlaceId` finds the place, for some order of the rows. -/
def PlaceTables.Finds (t : PlaceTables) (gis : Gis) (namespace_ : ℤ) (name : String) (r : Timestamp)
    (p : ℤ) : Prop :=
  ∃ mv, mv.Perm (t.placedefinitionV gis) ∧ getPlaceId mv namespace_ name r = some p

/-- A period of the name ends at the instant, for the place. -/
def PlaceTables.EndsAt (t : PlaceTables) (gis : Gis) (namespace_ : ℤ) (name : String) (r : Timestamp)
    (p : ℤ) : Prop :=
  ∃ v ∈ t.placedefinitionV gis, v.placenamespaceid = namespace_ ∧ v.placename = lower name ∧
    v.placenamevalidto = r ∧ v.placeid = p

theorem finds_iff : t.Finds gis namespace_ name r p ↔
    ∃ v ∈ t.placedefinitionV gis, v.placenamespaceid = namespace_ ∧ v.placename = lower name ∧
      (v.placenamevalidfrom ≤ r ∧ r < v.placenamevalidto) ∧ v.placeid = p := by
  unfold PlaceTables.Finds
  rw [exists_getPlaceId, ← stands_iff]
  simp only [standsFor_iff, and_assoc]

/-- The rows of a namespace that has no canonical names are those of the stored names. -/
theorem exists_named_iff (hns : namespace_ ≠ 0) {P : String → Timestamp → Timestamp → ℤ → Prop} :
    (∃ v ∈ t.placedefinitionV gis, v.placenamespaceid = namespace_ ∧
      P v.placename v.placenamevalidfrom v.placenamevalidto v.placeid) ↔
    ∃ pn ∈ t.placename.rows, ¬ t.Bare pn.placeid ∧ pn.placenamespaceid = namespace_ ∧
      P pn.placename pn.valid.start pn.valid.stop pn.placeid := by
  rw [exists_view_iff (P := fun ns placename from_ to_ placeid =>
    ns = namespace_ ∧ P placename from_ to_ placeid)]
  refine or_iff_left ?_
  rintro ⟨_, _, _, hzero, _⟩
  exact hns hzero.symm

/-- The row of a place has the type of the place. -/
theorem view_isPoint (hv : v ∈ t.placedefinitionV gis) :
    v.placegeometrytype = .point ↔ t.IsPoint v.placeid := by
  have hdefined : ∃ pd ∈ t.placedefinition.rows, pd.placeid = v.placeid ∧
      pd.placegeometrytype = v.placegeometrytype := by
    simp only [PlaceTables.placedefinitionV, placedefinitionV, List.mem_append, List.mem_flatMap,
      List.mem_filter, List.mem_map] at hv
    rcases hv with ((⟨pd, hpd, pg, -, pn, -, rfl⟩ | ⟨pd, ⟨hpd, -⟩, pn, -, rfl⟩) | ⟨pd, hpd, pg, -, rfl⟩) |
      ⟨pd, ⟨hpd, -⟩, rfl⟩
    all_goals exact ⟨pd, hpd, rfl, rfl⟩
  obtain ⟨pd, hpd, hid, htype⟩ := hdefined
  constructor
  · intro hpoint
    exact ⟨pd, hpd, hid, htype.trans hpoint⟩
  · rintro ⟨pd', hpd', hid', hpoint⟩
    rw [← htype, t.place_unique hpd hpd' (hid.trans hid'.symm), hpoint]

/-- A point that is listed is a place that is listed. -/
theorem reports_point_iff (hmv : mv.Perm (t.placedefinitionV gis)) (hname : '\\' ∉ name.toList) :
    Reports (getPlacePoint mv namespace_ (some name) (some r)) (·.placeid) p ↔
      Reports (getPlaceDefinition mv namespace_ (some name) (some r)) (·.placeid) p ∧ t.IsPoint p := by
  rw [reports_point hname, reports_definition hname]
  constructor
  · rintro ⟨v, hv, hns, hlike, hvalid, hpoint, rfl⟩
    exact ⟨⟨v, hv, hns, hlike, hvalid, rfl⟩, (view_isPoint (hmv.mem_iff.1 hv)).1 hpoint⟩
  · rintro ⟨⟨v, hv, hns, hlike, hvalid, rfl⟩, hpoint⟩
    exact ⟨v, hv, hns, hlike, hvalid, (view_isPoint (hmv.mem_iff.1 hv)).2 hpoint, rfl⟩

/-- Outside namespace 0 the listing of names reports what the listing of places does, of the places that
    have a geometry. -/
theorem reports_name_iff (hmv : mv.Perm (t.placedefinitionV gis)) (hname : '\\' ∉ name.toList)
    (hns : namespace_ ≠ 0) : Reports (getPlaceDefinition mv namespace_ (some name) (some r)) (·.placeid) p ↔
      Reports (getPlaceName t.placename.rows namespace_ (some name) (some r)) (·.placeid) p ∧ ¬ t.Bare p := by
  rw [reports_definition hname, reports_name hname]
  simp only [hmv.mem_iff]
  rw [exists_named_iff hns (P := fun placename from_ to_ placeid =>
    like placename (lower name) = some true ∧ (from_ ≤ r ∧ r ≤ to_) ∧ placeid = p)]
  constructor
  · rintro ⟨pn, hpn, hbare, hns, hlike, hvalid, rfl⟩
    exact ⟨⟨pn, hpn, hns, hlike, hvalid, rfl⟩, hbare⟩
  · rintro ⟨⟨pn, hpn, hns, hlike, hvalid, rfl⟩, hbare⟩
    exact ⟨pn, hpn, hbare, hns, hlike, hvalid, rfl⟩

/-- What is found is listed, as a name matches itself. -/
theorem reports_of_finds (hmv : mv.Perm (t.placedefinitionV gis)) (hname : '\\' ∉ name.toList)
    (h : t.Finds gis namespace_ name r p) :
    Reports (getPlaceDefinition mv namespace_ (some name) (some r)) (·.placeid) p := by
  obtain ⟨v, hv, hns, hplacename, ⟨hfrom, hto⟩, hid⟩ := finds_iff.1 h
  refine (reports_definition hname).2 ⟨v, hmv.mem_iff.2 hv, hns, ?_, ⟨hfrom, hto.le⟩, hid⟩
  rw [hplacename]
  exact (like_of_unescaped (unescaped_lower hname)).2

/-- A plain name is found for the places that are listed, but for those whose period ends. -/
theorem finds_of_reports (hmv : mv.Perm (t.placedefinitionV gis)) (hname : ∀ c ∈ name.toList, Plain c)
    (hends : ¬ t.EndsAt gis namespace_ name r p)
    (h : Reports (getPlaceDefinition mv namespace_ (some name) (some r)) (·.placeid) p) :
    t.Finds gis namespace_ name r p := by
  have hescape : '\\' ∉ name.toList := fun hmem => (hname _ hmem).2.2 rfl
  obtain ⟨v, hv, hns, hlike, ⟨hfrom, hto⟩, hid⟩ := (reports_definition hescape).1 h
  rw [like_plain (plain_lower hname), Option.some_inj, decide_eq_true_iff] at hlike
  have hv := hmv.mem_iff.1 hv
  have hne : r ≠ v.placenamevalidto := fun heq => hends ⟨v, hv, hns, hlike, heq.symm, hid⟩
  exact finds_iff.2 ⟨v, hv, hns, hlike, ⟨hfrom, lt_of_le_of_ne hto hne⟩, hid⟩

/-- Outside namespace 0, with disjoint periods, there is one place to be found. -/
theorem finds_iff_getPlaceId (hmv : mv.Perm (t.placedefinitionV gis)) (hns : namespace_ ≠ 0)
    (hd : DisjointRows t.placename.rows) :
    t.Finds gis namespace_ name r p ↔ getPlaceId mv namespace_ name r = some p := by
  have honly : ∀ {q q'}, t.Stands gis namespace_ (lower name) r q →
      t.Stands gis namespace_ (lower name) r q' → q = q' := by
    rintro q q' (⟨a, ha, hname, hcov, hid, -⟩ | ⟨hzero, -⟩) (⟨b, hb, hname', hcov', hid', -⟩ | ⟨hzero', -⟩)
    · have hsame := disjointRows_iff.1 hd a ha b hb
        ⟨hname.1.trans hname'.1.symm, hname.2.trans hname'.2.symm⟩ r hcov hcov'
      rw [← hid, ← hid', hsame]
    · exact absurd hzero' hns
    · exact absurd hzero hns
    · exact absurd hzero hns
  constructor
  · intro h
    have hstands := exists_getPlaceId.1 h
    cases hfound : getPlaceId mv namespace_ name r with
    | none =>
      obtain ⟨v, hv, hstandsFor, -⟩ := stands_iff.2 hstands
      have hnone := List.find?_eq_none.1 (Option.map_eq_none_iff.1 hfound) v (hmv.mem_iff.2 hv)
      exact absurd hstandsFor hnone
    | some q => rw [honly hstands (exists_getPlaceId.1 ⟨mv, hmv, hfound⟩)]
  · intro h
    exact ⟨mv, hmv, h⟩

/-- For every table of places, whatever the order of the rows of the view. A name without the escape
    character is listed for every place that it finds, among points and names too. A name without wildcards
    is listed for no other place, unless its period ends at the instant. And outside namespace 0, with
    disjoint periods, one place at most can be found. -/
theorem listings_agree (gis : Gis) (t : PlaceTables) (mv : List PlaceDefinitionV)
    (hmv : mv.Perm (t.placedefinitionV gis)) (namespace_ : ℤ) (name : String) (r : Timestamp) :
    ('\\' ∉ name.toList → ∀ p, t.Finds gis namespace_ name r p →
      Reports (getPlaceDefinition mv namespace_ (some name) (some r)) (·.placeid) p ∧
      (Reports (getPlacePoint mv namespace_ (some name) (some r)) (·.placeid) p ↔ t.IsPoint p) ∧
      (namespace_ ≠ 0 →
        Reports (getPlaceName t.placename.rows namespace_ (some name) (some r)) (·.placeid) p)) ∧
    ((∀ c ∈ name.toList, Plain c) → ∀ p, ¬ t.EndsAt gis namespace_ name r p →
      (Reports (getPlaceDefinition mv namespace_ (some name) (some r)) (·.placeid) p ↔
        t.Finds gis namespace_ name r p) ∧
      (Reports (getPlacePoint mv namespace_ (some name) (some r)) (·.placeid) p ↔
        t.Finds gis namespace_ name r p ∧ t.IsPoint p) ∧
      (namespace_ ≠ 0 → ¬ t.Bare p →
        (Reports (getPlaceName t.placename.rows namespace_ (some name) (some r)) (·.placeid) p ↔
          t.Finds gis namespace_ name r p))) ∧
    (namespace_ ≠ 0 → DisjointRows t.placename.rows → ∀ p,
      (t.Finds gis namespace_ name r p ↔ getPlaceId mv namespace_ name r = some p)) := by
  refine ⟨fun hname p hfinds => ?_, fun hname p hends => ?_, fun hns hd p => finds_iff_getPlaceId hmv hns hd⟩
  · have hlisted := reports_of_finds hmv hname hfinds
    refine ⟨hlisted, ?_, fun hns => ((reports_name_iff hmv hname hns).1 hlisted).1⟩
    rw [reports_point_iff hmv hname, and_iff_right hlisted]
  · have hescape : '\\' ∉ name.toList := fun hmem => (hname _ hmem).2.2 rfl
    have hsame : Reports (getPlaceDefinition mv namespace_ (some name) (some r)) (·.placeid) p ↔
        t.Finds gis namespace_ name r p :=
      ⟨finds_of_reports hmv hname hends, reports_of_finds hmv hescape⟩
    refine ⟨hsame, ?_, fun hns hbare => ?_⟩
    · rw [reports_point_iff hmv hescape, hsame]
    · rw [← hsame, reports_name_iff hmv hescape hns, and_iff_left hbare]

end Agree

/-! ### Names that are patterns -/

/-- Two points of namespace 1, where the name of the second is a pattern for that of the first, and a grid
    that an administrator has deleted. -/
def patternPlaces : PlaceTables := (Runs.run (PlaceDb.step plainGis)
  { noPlaces with tables := { noPlaces.tables with spatialRefSys := [⟨4030, "+proj=longlat"⟩] } }
  [.addPlacePoint (callerOf 1) "axb" "POINT(10 60)" (.at 0) .infinity,
    .addPlacePoint { callerOf 1 with nextval := 2 } "a_b" "POINT(11 60)" (.at 0) .infinity,
    .addPlaceRegularGrid { callerOf 1 with nextval := 3 } "grid" 2 2 1 1 0 0 "+proj=longlat",
    .deletePlaceRegularGrid fun _ => true]).tables

/-- A name without wildcards. -/
theorem listings_agree_plain : ¬ patternPlaces.EndsAt plainGis 1 "axb" (.at 20) 1 ∧
    (Reports (getPlaceDefinition (patternPlaces.placedefinitionV plainGis) 1 (some "axb") (some (.at 20)))
      (·.placeid) 1 ↔ patternPlaces.Finds plainGis 1 "axb" (.at 20) 1) := by
  have hends : ¬ patternPlaces.EndsAt plainGis 1 "axb" (.at 20) 1 := by
    unfold PlaceTables.EndsAt
    decide +kernel
  have hplain : ∀ c ∈ "axb".toList, Plain c := by simp [Plain]
  exact ⟨hends, ((listings_agree plainGis patternPlaces _ (List.Perm.refl _) 1 "axb" (.at 20)).2.1
    hplain 1 hends).1⟩

/-- The name of the second point lists the first one as well. The listing of names has no canonical names
    in namespace 0, and it has the name of the deleted grid. -/
theorem not_listingsAgree :
    ¬ ListingsAgree (patternPlaces.placedefinitionV plainGis) 1 patternPlaces "a_b" (.at 20) ∧
    ¬ ListingsAgree (patternPlaces.placedefinitionV plainGis) 0 patternPlaces "point(10 60)" (.at 20) ∧
    ¬ ListingsAgree (patternPlaces.placedefinitionV plainGis) 1 patternPlaces "grid" (.at 20) := by
  refine ⟨fun h => ?_, fun h => ?_, fun h => ?_⟩
  · have hlisted : Reports (getPlaceDefinition (patternPlaces.placedefinitionV plainGis) 1 (some "a_b")
        (some (.at 20))) (·.placeid) 1 :=
      (reports_definition (by decide)).2 (by decide +kernel)
    exact absurd ((h.definition 1).1 hlisted) (by decide +kernel)
  · obtain ⟨rows, hrows, row, hrow, -⟩ := (h.name 1).2 (by decide +kernel)
    have hnone : getPlaceName patternPlaces.placename.rows 0 (some "point(10 60)") (some (.at 20)) = some [] := by
      decide +kernel
    obtain rfl := Option.some.inj (hnone.symm.trans hrows)
    cases hrow
  · have hlisted : Reports (getPlaceName patternPlaces.placename.rows 1 (some "grid") (some (.at 20)))
        (·.placeid) 3 :=
      (reports_name (by decide)).2 (by decide +kernel)
    exact absurd ((h.name 3).1 hlisted) (by decide +kernel)

end Wdb.Place
