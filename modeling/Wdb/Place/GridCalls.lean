import Wdb.Place.Calls
import Wdb.Lib.Runs

/-! Runs of `wci.addPlaceRegularGrid`.

    The function looks a grid up in `placeregulargrid_mv`, comparing increments and starts after
    rounding to three decimals, and inserts it when it finds none. The materialized view gets a new
    grid only with the grid's first name, and the table refuses a grid that it has. So a grid is found
    again exactly when it was named and when its numbers survive the rounding; and it is taken for
    another grid when the rounding makes them equal. -/

namespace Wdb.Place
open SqlTypes Store Relational Periods

/-- A grid specification: counts, increments and starts as `real`s (`none` when one is out of range),
    and the projection without the blanks around it. -/
structure GridSpec where
  numX : ℤ
  numY : ℤ
  incX : Option ℚ
  incY : Option ℚ
  startX : Option ℚ
  startY : Option ℚ
  projection : String
  deriving DecidableEq

/-- A call of `wci.addPlaceRegularGrid`. -/
structure GridCall where
  c : Caller
  placeName : String
  numX : ℤ
  numY : ℤ
  incX : ℚ
  incY : ℚ
  startX : ℚ
  startY : ℚ
  projection : String

/-- The specification that a call asks for. -/
def GridCall.spec (call : GridCall) : GridSpec :=
  ⟨call.numX, call.numY, toReal call.incX, toReal call.incY, toReal call.startX, toReal call.startY,
    btrim call.projection⟩

/-- The specification of a stored grid. -/
def PlaceRegularGrid.spec (pg : PlaceRegularGrid) (srs : SpatialRefSys) : GridSpec :=
  ⟨pg.numberx, pg.numbery, some pg.incrementx, some pg.incrementy, some pg.startx, some pg.starty,
    btrim srs.proj4text⟩

/-- The specification in a row of `placeregulargrid_mv`. -/
def PlaceRegularGridV.spec (g : PlaceRegularGridV) : GridSpec :=
  ⟨g.numberx, g.numbery, some g.incrementx, some g.incrementy, some g.startx, some g.starty,
    g.projdefinition⟩

/-- A place stores a specification. -/
def PlaceTables.Stores (t : PlaceTables) (placeid : ℤ) (spec : GridSpec) : Prop :=
  ∃ pg ∈ t.placeregulargrid.rows, pg.placeid = placeid ∧
    ∃ srs ∈ t.spatialRefSys, srs.srid = pg.originalsrid ∧ pg.spec srs = spec

instance (t : PlaceTables) (placeid : ℤ) (spec : GridSpec) : Decidable (t.Stores placeid spec) :=
  inferInstanceAs (Decidable (∃ pg ∈ t.placeregulargrid.rows, pg.placeid = placeid ∧
    ∃ srs ∈ t.spatialRefSys, _))

section Runs
variable (gis : Gis)

/-- The place that the call returns and the state it leaves; `none` when it raises. -/
def GridCall.perform (call : GridCall) (db : PlaceDb) : Option (ℤ × PlaceDb) :=
  addPlaceRegularGrid gis call.c call.placeName call.numX call.numY call.incX call.incY call.startX
    call.startY call.projection db

/-- A call that raises leaves everything as it was. -/
def GridCall.step (db : PlaceDb) (call : GridCall) : PlaceDb :=
  ((call.perform gis db).map (·.2)).getD db

/-- The promise of the function over a run: a place that is returned stores the specification that was
    asked for; when a call with the specification of an earlier one is made, it returns the place of
    the earlier one and adds none; and different specifications get different places. -/
structure KeepsGridsApart (db : PlaceDb) (calls : List GridCall) : Prop where
  stores : ∀ pre call r, (pre ++ [call]) <+: calls →
    call.perform gis (Runs.run (GridCall.step gis) db pre) = some r →
    r.2.tables.Stores r.1 call.spec
  repeats : ∀ pre call r mid again, (pre ++ call :: mid ++ [again]) <+: calls →
    call.perform gis (Runs.run (GridCall.step gis) db pre) = some r → again.spec = call.spec →
    ∃ r', again.perform gis (Runs.run (GridCall.step gis) db (pre ++ call :: mid)) = some r' ∧
      r'.1 = r.1 ∧ r'.2.tables.placedefinition.rows =
        (Runs.run (GridCall.step gis) db (pre ++ call :: mid)).tables.placedefinition.rows
  apart : ∀ pre call r mid other r', (pre ++ call :: mid ++ [other]) <+: calls →
    call.perform gis (Runs.run (GridCall.step gis) db pre) = some r →
    other.perform gis (Runs.run (GridCall.step gis) db (pre ++ call :: mid)) = some r' →
    r'.1 = r.1 → other.spec = call.spec

/-! ### The condition on a call -/

/-- The comparison of the look-up. -/
def GridCall.looksUp (call : GridCall) (g : PlaceRegularGridV) : Bool :=
  g.numberx = call.numX && g.numbery = call.numY &&
  gis.realNumeric g.incrementx = gis.floatNumeric call.incX &&
  gis.realNumeric g.incrementy = gis.floatNumeric call.incY &&
  gis.realNumeric g.startx = gis.floatNumeric call.startX &&
  gis.realNumeric g.starty = gis.floatNumeric call.startY &&
  g.projdefinition = btrim call.projection

/-- A place can be given a name for all times: the name fits its column, the namespace is known, and no
    other place has the name from the beginning on. -/
def PlaceDb.Nameable (c : Caller) (placeName : String) (placeid : ℤ) (db : PlaceDb) : Prop :=
  c.namespace ∈ db.tables.namespaces ∧ ∃ stored, varchar 255 (lower placeName) = some stored ∧
    ∀ pn ∈ db.tables.placename.rows, pn.placenamespaceid = c.namespace → pn.placename = stored →
      pn.valid.start = .negInfinity → pn.placeid = placeid

/-- The condition on a call: the comparison finds exactly the rows with the specification; a place that
    stores it has a canonical row; and that place can be given the name. -/
structure GridCall.Agrees (db : PlaceDb) (call : GridCall) : Prop where
  looksUp : ∀ g ∈ db.placeregulargridMv, g.placenamespaceid = 0 →
    (call.looksUp gis g ↔ g.spec = call.spec)
  visible : ∀ placeid, db.tables.Stores placeid call.spec →
    ∃ g ∈ db.placeregulargridMv, g.placenamespaceid = 0 ∧ g.placeid = placeid
  nameable : ∀ placeid, db.tables.Stores placeid call.spec → call.c.namespace ≠ 0 →
    db.Nameable call.c call.placeName placeid

end Runs

/-! ### What holds in a run -/

/-- The grids as a run of calls leaves them: the materialized view has nothing that is not stored, a
    grid has the first spatial reference system with its projection, and a place with a grid has at
    most one name in a namespace, for all times. -/
structure PlaceDb.GridsInOrder (db : PlaceDb) : Prop where
  srids : (db.tables.spatialRefSys.map (·.srid)).Nodup
  sound : ∀ g ∈ db.placeregulargridMv, db.tables.Stores g.placeid g.spec
  first : ∀ pg ∈ db.tables.placeregulargrid.rows, ∃ srs,
    db.tables.spatialRefSys.find? (fun s => btrim s.proj4text = btrim srs.proj4text) = some srs ∧
      srs.srid = pg.originalsrid
  always : ∀ pg ∈ db.tables.placeregulargrid.rows, ∀ pn ∈ db.tables.placename.rows,
    pn.placeid = pg.placeid → pn.valid.start = .negInfinity
  once : ∀ pg ∈ db.tables.placeregulargrid.rows, ∀ pn ∈ db.tables.placename.rows,
    ∀ pn' ∈ db.tables.placename.rows, pn.placeid = pg.placeid → pn'.placeid = pg.placeid →
      pn.placenamespaceid = pn'.placenamespaceid → pn = pn'

section Stores
variable {gis : Gis} {db : PlaceDb} {t t' : PlaceTables} {placeid : ℤ} {spec spec' : GridSpec}

/-- What is stored stays stored while grids are only added. -/
theorem PlaceTables.Stores.mono (h : t.Stores placeid spec)
    (hgrids : ∀ pg ∈ t.placeregulargrid.rows, pg ∈ t'.placeregulargrid.rows)
    (hsrs : t'.spatialRefSys = t.spatialRefSys) : t'.Stores placeid spec := by
  obtain ⟨pg, hpg, hid, srs, hmem, hsrid, hspec⟩ := h
  exact ⟨pg, hgrids pg hpg, hid, srs, hsrs ▸ hmem, hsrid, hspec⟩

/-- A place stores one specification. -/
theorem PlaceTables.Stores.eq (hsrids : (t.spatialRefSys.map (·.srid)).Nodup)
    (h : t.Stores placeid spec) (h' : t.Stores placeid spec') : spec = spec' := by
  obtain ⟨pg, hpg, hid, srs, hmem, hsrid, rfl⟩ := h
  obtain ⟨pg', hpg', hid', srs', hmem', hsrid', rfl⟩ := h'
  obtain rfl := t.grid_unique hpg hpg' (hid.trans hid'.symm)
  rw [List.inj_on_of_nodup_map hsrids hmem hmem' (hsrid.trans hsrid'.symm)]

/-- A row of the view shows what its place stores. -/
theorem stores_of_mem_view {g : PlaceRegularGridV} (h : g ∈ t.placeregulargridV gis) :
    t.Stores g.placeid g.spec := by
  unfold PlaceTables.placeregulargridV placeregulargridV at h
  simp only [List.mem_append, List.mem_flatMap, List.mem_map, List.mem_filter,
    decide_eq_true_eq] at h
  rcases h with ⟨pd, _, pn, _, pg, ⟨hpg, hid⟩, srs, ⟨hsrs, hsrid⟩, pit, _, rfl⟩ |
    ⟨pd, _, pg, ⟨hpg, hid⟩, srs, ⟨hsrs, hsrid⟩, pit, _, rfl⟩
  · exact ⟨pg, hpg, hid.symm, srs, hsrs, hsrid, rfl⟩
  · exact ⟨pg, hpg, hid.symm, srs, hsrs, hsrid, rfl⟩

/-- A row of the materialized view after the triggers is an old one or one of the view. -/
theorem mem_fire {actions : List (Mirror.Action ℤ)} {g : PlaceRegularGridV}
    (h : g ∈ (db.fire gis t actions).placeregulargridMv) :
    g ∈ db.placeregulargridMv ∨ g ∈ t.placeregulargridV gis := by
  have hfibre : g ∈ Mirror.fibre PlaceRegularGridV.placeid g.placeid
      (db.fire gis t actions).placeregulargridMv :=
    List.mem_filter.2 ⟨h, decide_eq_true rfl⟩
  unfold PlaceDb.fire at hfibre
  rw [Mirror.fibre_replay] at hfibre
  split at hfibre
  · exact Or.inr (List.mem_of_mem_filter hfibre)
  · cases hfibre
  · exact Or.inl (List.mem_of_mem_filter hfibre)

/-- The triggers put nothing into the materialized view that is not stored. -/
theorem sound_fire {actions : List (Mirror.Action ℤ)}
    (hsound : ∀ g ∈ db.placeregulargridMv, db.tables.Stores g.placeid g.spec)
    (hgrids : ∀ pg ∈ db.tables.placeregulargrid.rows, pg ∈ t.placeregulargrid.rows)
    (hsrs : t.spatialRefSys = db.tables.spatialRefSys) :
    ∀ g ∈ (db.fire gis t actions).placeregulargridMv,
      (db.fire gis t actions).tables.Stores g.placeid g.spec := by
  intro g hg
  rcases mem_fire hg with hg | hg
  · exact (hsound g hg).mono hgrids hsrs
  · exact stores_of_mem_view hg

end Stores

/-! ### Names of grids -/

section Naming
variable {gis : Gis} {c : Caller} {placeName : String} {db : PlaceDb} {placeid : ℤ}
  {r : ℤ × PlaceDb}

/-- What naming a place leaves alone. -/
structure PlaceDb.OnlyNames (db db' : PlaceDb) : Prop where
  placedefinition : db'.tables.placedefinition.rows = db.tables.placedefinition.rows
  placeregulargrid : db'.tables.placeregulargrid.rows = db.tables.placeregulargrid.rows
  spatialRefSys : db'.tables.spatialRefSys = db.tables.spatialRefSys
  sound : (∀ g ∈ db.placeregulargridMv, db.tables.Stores g.placeid g.spec) →
    ∀ g ∈ db'.placeregulargridMv, db'.tables.Stores g.placeid g.spec

/-- A place has got its first name of the session's namespace, or names of it have been replaced. -/
def PlaceDb.Names (db : PlaceDb) (c : Caller) (placeid : ℤ) (db' : PlaceDb) : Prop :=
  (∃ pn : PlaceName, pn.placeid = placeid ∧ pn.placenamespaceid = c.namespace ∧
      pn.valid.start = .negInfinity ∧
      (∀ q ∈ db.tables.placename.rows, ¬ (q.placeid = placeid ∧ q.placenamespaceid = c.namespace)) ∧
      db'.tables.placename.rows = db.tables.placename.rows ++ [pn]) ∨
    ∃ f : PlaceName → PlaceName, (∀ pn ∈ db.tables.placename.rows, (f pn).placeid = pn.placeid ∧
        (f pn).placenamespaceid = pn.placenamespaceid ∧ (f pn).valid.start = pn.valid.start) ∧
      db'.tables.placename.rows = db.tables.placename.rows.map f

theorem PlaceDb.insertName_onlyNames
    (h : db.insertName gis c placeid placeName .negInfinity .infinity = some r)
    (hnone : ∀ q ∈ db.tables.placename.rows, ¬ (q.placeid = placeid ∧
      q.placenamespaceid = c.namespace)) :
    r.1 = placeid ∧ db.OnlyNames r.2 ∧ db.Names c placeid r.2 := by
  obtain ⟨hid, pn, hpn, hdb⟩ := PlaceDb.insertName_eq_some h
  obtain ⟨hplace, hns, _, hstart, _⟩ := placeNameRow_eq_some hpn
  obtain ⟨t, ht, hfire⟩ := Option.map_eq_some_iff.1 hdb
  obtain ⟨_, hl⟩ := PlaceTables.insertPlaceName_eq_some ht
  rw [← hfire]
  refine ⟨hid, ⟨hl.placedefinition, hl.placeregulargrid, hl.spatialRefSys, fun hsound => ?_⟩,
    Or.inl ⟨pn, hplace, hns, hstart, hnone, hl.placename⟩⟩
  refine sound_fire hsound (fun pg hpg => ?_) hl.spatialRefSys
  rw [hl.placeregulargrid]
  exact hpg

theorem PlaceDb.nameOrRename_onlyNames (h : db.nameOrRename gis c placeid placeName = some r) :
    r.1 = placeid ∧ db.OnlyNames r.2 ∧ db.Names c placeid r.2 := by
  unfold PlaceDb.nameOrRename at h
  dsimp only at h
  split at h
  · obtain ⟨db', hdb', rfl⟩ := Option.map_eq_some_iff.1 h
    obtain ⟨t, ht, rfl⟩ := Option.map_eq_some_iff.1 hdb'
    obtain ⟨hcheck, hl⟩ := PlaceTables.updatePlaceName_eq_some ht
    refine ⟨rfl, ⟨hl.placedefinition, hl.placeregulargrid, hl.spatialRefSys, fun hsound => ?_⟩,
      Or.inr ⟨_, fun pn hpn => ?_, hl.placename⟩⟩
    · refine sound_fire hsound (fun pg hpg => ?_) hl.spatialRefSys
      rw [hl.placeregulargrid]
      exact hpg
    · unfold Table.updateRow
      split
      · next hp =>
        obtain ⟨pn', hpn'⟩ := Option.isSome_iff_exists.1 (hcheck pn hpn hp)
        obtain ⟨hid, hns, _, hstart, _⟩ := placeNameRow_eq_some hpn'
        simp only [hpn', Option.getD_some]
        exact ⟨hid, hns, hstart⟩
      · exact ⟨rfl, rfl, rfl⟩
  · next hnone =>
    refine insertName_onlyNames h fun q hq hof => hnone ?_
    exact List.any_eq_true.2 ⟨q, hq, by simpa using hof⟩

/-- A name that fits its column makes a row for every period. -/
theorem placeNameRow_succeeds {stored placename : String} (h : varchar 255 placename = some stored)
    {from_ to_ : Timestamp} (hle : from_ ≤ to_) (now : Timestamp) (placeid placenamespaceid : ℤ) :
    ∃ pn, placeNameRow from_ to_ now placeid placenamespaceid placename = some pn := by
  unfold placeNameRow Period.between
  split
  · rw [dif_pos hle]
    exact ⟨_, rfl⟩
  · next hnone => rw [hnone] at h; cases h

/-- A statement on names succeeds when they refer to places and namespaces. -/
theorem PlaceTables.setNames_succeeds (t : PlaceTables) {pns : Table PlaceName sameStart}
    (hplace : ∀ pn ∈ pns.rows, ∃ pd ∈ t.placedefinition.rows, pd.placeid = pn.placeid)
    (hns : ∀ pn ∈ pns.rows, pn.placenamespaceid ∈ t.namespaces) :
    ∃ t', t.set t.placedefinition t.placeregulargrid pns t.referenced = some t' := by
  unfold PlaceTables.set
  rw [dif_pos ⟨t.references.placedefinition_placeindeterminatecode,
    t.references.placeregulargrid_placeid, hplace, hns⟩]
  exact ⟨_, rfl⟩

section Succeeds
variable {pg : PlaceRegularGrid} {stored : String}

/-- The row of `placename` is one of the place in the session's namespace. -/
def PlaceName.isOf (c : Caller) (placeid : ℤ) (pn : PlaceName) : Bool :=
  pn.placeid = placeid && pn.placenamespaceid = c.namespace

/-- The row with the new name; `none` when the name does not fit. -/
def PlaceName.renamed (c : Caller) (placeName : String) (pn : PlaceName) : Option PlaceName :=
  placeNameRow pn.valid.start pn.valid.stop c.now pn.placeid pn.placenamespaceid (lower placeName)

theorem PlaceName.isOf_iff {pn : PlaceName} :
    pn.isOf c placeid = true ↔ pn.placeid = placeid ∧ pn.placenamespaceid = c.namespace := by
  simp [isOf]

theorem PlaceName.renamed_eq (h : varchar 255 (lower placeName) = some stored) (pn : PlaceName) :
    ∃ pn', pn.renamed c placeName = some pn' ∧ pn'.placeid = pn.placeid ∧
      pn'.placenamespaceid = pn.placenamespaceid ∧ pn'.placename = stored ∧
      pn'.valid.start = pn.valid.start := by
  obtain ⟨pn', hpn'⟩ := placeNameRow_succeeds h pn.valid.le c.now pn.placeid pn.placenamespaceid
  obtain ⟨hid, hns, hnamed, hstart, _⟩ := placeNameRow_eq_some hpn'
  exact ⟨pn', hpn', hid, hns, Option.some_inj.1 (hnamed.symm.trans h), hstart⟩

/-- The row after the update. -/
theorem PlaceName.updateRow_renamed (h : varchar 255 (lower placeName) = some stored)
    (placeid : ℤ) (pn : PlaceName) :
    ∃ pn', Table.updateRow (PlaceName.isOf c placeid) (fun pn => (pn.renamed c placeName).getD pn) pn =
        pn' ∧ pn'.placeid = pn.placeid ∧ pn'.placenamespaceid = pn.placenamespaceid ∧
      pn'.valid.start = pn.valid.start ∧
      ((pn.isOf c placeid = true ∧ pn'.placename = stored) ∨ (pn.isOf c placeid = false ∧ pn' = pn)) := by
  unfold Table.updateRow
  cases hof : pn.isOf c placeid with
  | true =>
    obtain ⟨pn', hpn', hid, hns, hname, hstart⟩ := renamed_eq (c := c) h pn
    simp only [hpn', Option.getD_some, if_true]
    exact ⟨pn', rfl, hid, hns, hstart, Or.inl ⟨trivial, hname⟩⟩
  | false => exact ⟨pn, rfl, rfl, rfl, rfl, Or.inr ⟨rfl, rfl⟩⟩

/-- After the update no two rows of a name start at one time: of two rows one at most is of the place,
    and another place has not got the name. -/
theorem PlaceDb.renamed_unique (horder : db.GridsInOrder)
    (hpg : pg ∈ db.tables.placeregulargrid.rows)
    (hstored : varchar 255 (lower placeName) = some stored)
    (hfree : ∀ pn ∈ db.tables.placename.rows, pn.placenamespaceid = c.namespace →
      pn.placename = stored → pn.valid.start = .negInfinity → pn.placeid = pg.placeid) :
    (db.tables.placename.rows.map (Table.updateRow (PlaceName.isOf c pg.placeid)
      fun pn => (pn.renamed c placeName).getD pn)).Pairwise fun a b => ¬ sameStart a b := by
  have hclash : ∀ a ∈ db.tables.placename.rows, ∀ b ∈ db.tables.placename.rows, ∀ a' : PlaceName,
      a'.placenamespaceid = a.placenamespaceid → a'.valid.start = a.valid.start →
      a'.placename = stored → a.isOf c pg.placeid = true → b.isOf c pg.placeid = false →
      ¬ sameStart a' b := by
    rintro a ha b hb a' hns hstart hname hofa hofb ⟨⟨hsamens, hsamename⟩, hsamestart⟩
    obtain ⟨hplace, hnsa⟩ := PlaceName.isOf_iff.1 hofa
    have halways := horder.always pg hpg a ha hplace
    have hnsb := hsamens.symm.trans (hns.trans hnsa)
    have hbid := hfree b hb hnsb (hsamename.symm.trans hname)
      (hsamestart.symm.trans (hstart.trans halways))
    rw [PlaceName.isOf_iff.2 ⟨hbid, hnsb⟩] at hofb
    cases hofb
  rw [List.pairwise_map]
  refine db.tables.placename.unique.imp_of_mem fun {a b} ha hb hab => ?_
  obtain ⟨a', ha', _, hnsa, hstarta, hcasea⟩ :=
    PlaceName.updateRow_renamed (c := c) hstored pg.placeid a
  obtain ⟨b', hb', _, hnsb, hstartb, hcaseb⟩ :=
    PlaceName.updateRow_renamed (c := c) hstored pg.placeid b
  rw [ha', hb']
  rcases hcasea with ⟨hofa, hnamea⟩ | ⟨hofa, rfl⟩ <;> rcases hcaseb with ⟨hofb, hnameb⟩ | ⟨hofb, rfl⟩
  · obtain ⟨hida, hna⟩ := PlaceName.isOf_iff.1 hofa
    obtain ⟨hidb, hnb⟩ := PlaceName.isOf_iff.1 hofb
    obtain rfl := horder.once pg hpg a ha b hb hida hidb (hna.trans hnb.symm)
    exact absurd (sameStart_refl a) hab
  · exact hclash a ha _ hb a' hnsa hstarta hnamea hofa hofb
  · rintro ⟨hsame, hstart⟩
    exact hclash b hb _ ha b' hnsb hstartb hnameb hofb hofa ⟨hsame.symm, hstart.symm⟩
  · exact hab

variable (gis) in
/-- A place in order can be given a name that it is allowed. -/
theorem PlaceDb.nameOrRename_succeeds (horder : db.GridsInOrder)
    (hpg : pg ∈ db.tables.placeregulargrid.rows) (hname : db.Nameable c placeName pg.placeid) :
    ∃ r, db.nameOrRename gis c pg.placeid placeName = some r := by
  obtain ⟨hns, stored, hstored, hfree⟩ := hname
  have href := db.tables.references
  unfold PlaceDb.nameOrRename
  dsimp only
  change ∃ r, (if db.tables.placename.rows.any (PlaceName.isOf c pg.placeid) = true then
    (db.updatePlaceName gis (PlaceName.isOf c pg.placeid) (PlaceName.renamed c placeName)).map _
    else _) = some r
  by_cases hany : db.tables.placename.rows.any (PlaceName.isOf c pg.placeid) = true
  · have hunique := renamed_unique horder hpg hstored hfree
    have hcheck : ∀ a ∈ db.tables.placename.rows, a.isOf c pg.placeid = true →
        (a.renamed c placeName).isSome = true := by
      intro a _ _
      obtain ⟨a', ha', _⟩ := PlaceName.renamed_eq (c := c) hstored a
      rw [ha', Option.isSome_some]
    have hupdate : db.tables.placename.updateChecked (PlaceName.isOf c pg.placeid)
        (PlaceName.renamed c placeName) = some ⟨_, hunique⟩ := dif_pos ⟨hcheck, hunique⟩
    obtain ⟨t, ht⟩ : ∃ t, db.tables.set db.tables.placedefinition db.tables.placeregulargrid
        ⟨_, hunique⟩ db.tables.referenced = some t := by
      refine db.tables.setNames_succeeds (fun pn hpn => ?_) fun pn hpn => ?_
      · obtain ⟨a, ha, rfl⟩ := List.mem_map.1 hpn
        obtain ⟨a', ha', hid, _⟩ := PlaceName.updateRow_renamed (c := c) hstored pg.placeid a
        rw [ha', hid]
        exact href.placename_placeid a ha
      · obtain ⟨a, ha, rfl⟩ := List.mem_map.1 hpn
        obtain ⟨a', ha', _, hns', _⟩ := PlaceName.updateRow_renamed (c := c) hstored pg.placeid a
        rw [ha', hns']
        exact href.placename_placenamespaceid a ha
    unfold PlaceDb.updatePlaceName PlaceTables.updatePlaceName
    rw [if_pos hany, hupdate, Option.bind_some, ht]
    exact ⟨_, rfl⟩
  · obtain ⟨pn, hpn⟩ := placeNameRow_succeeds hstored
      (show Timestamp.negInfinity ≤ Timestamp.infinity by decide) c.now pg.placeid c.namespace
    obtain ⟨hid, hpnns, hnamed, hstart, _⟩ := placeNameRow_eq_some hpn
    have hname : pn.placename = stored := Option.some_inj.1 (hnamed.symm.trans hstored)
    obtain ⟨pns, hins, hrows⟩ : ∃ pns, db.tables.placename.insert pn = some pns ∧
        pns.rows = db.tables.placename.rows ++ [pn] := by
      refine Table.insert_of_noClash ?_
      rintro b hb ⟨⟨hsamens, hsamename⟩, hsamestart⟩
      have hbid := hfree b hb (hsamens.trans hpnns) (hsamename.trans hname)
        (hsamestart.trans hstart)
      exact hany (List.any_eq_true.2 ⟨b, hb, PlaceName.isOf_iff.2 ⟨hbid, hsamens.trans hpnns⟩⟩)
    obtain ⟨t, ht⟩ : ∃ t, db.tables.set db.tables.placedefinition db.tables.placeregulargrid pns
        db.tables.referenced = some t := by
      refine db.tables.setNames_succeeds ?_ ?_
      · rw [hrows]
        simp only [List.mem_append, List.mem_singleton]
        rintro q (hq | rfl)
        · exact href.placename_placeid q hq
        · rw [hid]
          exact href.placeregulargrid_placeid pg hpg
      · rw [hrows]
        simp only [List.mem_append, List.mem_singleton]
        rintro q (hq | rfl)
        · exact href.placename_placenamespaceid q hq
        · rw [hpnns]
          exact hns
    unfold PlaceDb.insertName PlaceDb.insertPlaceName PlaceTables.insertPlaceName
    rw [if_neg hany, hpn, Option.bind_some, hins, Option.bind_some, ht]
    exact ⟨_, rfl⟩

end Succeeds

end Naming

/-! ### One call -/

section Call
variable {gis : Gis} {db : PlaceDb} {call : GridCall} {r : ℤ × PlaceDb} {placeid : ℤ}

/-- Naming a grid leaves the grids in order. -/
theorem PlaceDb.GridsInOrder.named (horder : db.GridsInOrder) {c : Caller} {db' : PlaceDb}
    (honly : db.OnlyNames db') (hnames : db.Names c placeid db') : db'.GridsInOrder := by
  refine ⟨?_, honly.sound horder.sound, ?_, ?_, ?_⟩
  · rw [honly.spatialRefSys]
    exact horder.srids
  · rw [honly.placeregulargrid, honly.spatialRefSys]
    exact horder.first
  · rw [honly.placeregulargrid]
    intro pg hpg
    rcases hnames with ⟨new, _, _, hstart, _, hrows⟩ | ⟨f, hf, hrows⟩
    · rw [hrows]
      simp only [List.mem_append, List.mem_singleton]
      rintro pn (hpn | rfl) hid
      · exact horder.always pg hpg pn hpn hid
      · exact hstart
    · rw [hrows]
      rintro pn' hpn' hid
      obtain ⟨pn, hpn, rfl⟩ := List.mem_map.1 hpn'
      rw [(hf pn hpn).2.2]
      exact horder.always pg hpg pn hpn ((hf pn hpn).1.symm.trans hid)
  · rw [honly.placeregulargrid]
    intro pg hpg
    rcases hnames with ⟨new, hplace, hns, _, hnone, hrows⟩ | ⟨f, hf, hrows⟩
    · rw [hrows]
      simp only [List.mem_append, List.mem_singleton]
      rintro pn (hpn | rfl) pn' (hpn' | rfl) hid hid' hsame
      · exact horder.once pg hpg pn hpn pn' hpn' hid hid' hsame
      · exact absurd ⟨hid.trans (hid'.symm.trans hplace), hsame.trans hns⟩ (hnone pn hpn)
      · exact absurd ⟨hid'.trans (hid.symm.trans hplace), hsame.symm.trans hns⟩ (hnone pn' hpn')
      · rfl
    · rw [hrows]
      rintro _ hq _ hq' hid hid' hsame
      obtain ⟨pn, hpn, rfl⟩ := List.mem_map.1 hq
      obtain ⟨pn', hpn', rfl⟩ := List.mem_map.1 hq'
      rw [(hf pn hpn).2.1, (hf pn' hpn').2.1] at hsame
      rw [horder.once pg hpg pn hpn pn' hpn' ((hf pn hpn).1.symm.trans hid)
        ((hf pn' hpn').1.symm.trans hid') hsame]

/-- What a successful call did: it found a row of the materialized view, and has named its place; or it
    found none, and has inserted the grid. -/
theorem GridCall.perform_eq_some (h : call.perform gis db = some r) :
    (∃ g ∈ db.placeregulargridMv, g.placenamespaceid = 0 ∧ call.looksUp gis g = true ∧
        r.1 = g.placeid ∧ (r.2 = db ∨
          db.nameOrRename gis call.c g.placeid call.placeName = some r)) ∨
      ∃ pg : PlaceRegularGrid, ∃ srs db₁,
        db.tables.spatialRefSys.find? (fun s => btrim s.proj4text = btrim call.projection) =
          some srs ∧ srs.srid = pg.originalsrid ∧ pg.spec srs = call.spec ∧
        db.insertPlaceRegularGrid gis call.c.now pg = some db₁ ∧ r.1 = pg.placeid ∧
        (r.2 = db₁ ∨ db₁.insertName gis call.c pg.placeid call.placeName .negInfinity .infinity =
          some r) := by
  obtain ⟨srs, hsrs, h⟩ := Option.bind_eq_some_iff.1 h
  split at h
  · obtain ⟨incrementx, hincX, h⟩ := Option.bind_eq_some_iff.1 h
    obtain ⟨incrementy, hincY, h⟩ := Option.bind_eq_some_iff.1 h
    obtain ⟨startx, hstartX, h⟩ := Option.bind_eq_some_iff.1 h
    obtain ⟨starty, hstartY, h⟩ := Option.bind_eq_some_iff.1 h
    obtain ⟨db₁, hdb₁, h⟩ := Option.bind_eq_some_iff.1 h
    have htext : btrim srs.proj4text = btrim call.projection :=
      of_decide_eq_true (List.find?_some hsrs :)
    refine Or.inr ⟨_, srs, db₁, hsrs, rfl, ?_, hdb₁, ?_⟩
    · unfold PlaceRegularGrid.spec GridCall.spec
      rw [hincX, hincY, hstartX, hstartY, htext]
    · split at h
      · exact ⟨(PlaceDb.insertName_eq_some h).1, Or.inr h⟩
      · cases h
        exact ⟨rfl, Or.inl rfl⟩
  · next placeId hplace =>
    obtain ⟨g, hfind, hid⟩ := Option.map_eq_some_iff.1 hplace
    have hg := List.find?_some hfind
    rw [Bool.and_eq_true, decide_eq_true_eq] at hg
    subst hid
    refine Or.inl ⟨g, List.mem_of_find?_eq_some hfind, hg.2, hg.1, ?_⟩
    split at h
    · exact ⟨(PlaceDb.nameOrRename_onlyNames h).1, Or.inr h⟩
    · cases h
      exact ⟨rfl, Or.inl rfl⟩

/-- What a new grid leaves in order; its place has no names yet. -/
theorem PlaceDb.GridsInOrder.insertPlaceRegularGrid (horder : db.GridsInOrder) {now : Timestamp}
    {pg : PlaceRegularGrid} {srs : SpatialRefSys} {projection : String} {db' : PlaceDb}
    (h : db.insertPlaceRegularGrid gis now pg = some db')
    (hsrs : db.tables.spatialRefSys.find? (fun s => btrim s.proj4text = btrim projection) = some srs)
    (hsrid : srs.srid = pg.originalsrid) :
    db'.GridsInOrder ∧ (∀ pn ∈ db'.tables.placename.rows, pn.placeid ≠ pg.placeid) ∧
      (∀ g ∈ db.tables.placeregulargrid.rows, g ∈ db'.tables.placeregulargrid.rows) ∧
      pg ∈ db'.tables.placeregulargrid.rows ∧
      db'.tables.spatialRefSys = db.tables.spatialRefSys := by
  obtain ⟨t, ht, rfl⟩ := Option.map_eq_some_iff.1 h
  obtain ⟨pd, _, hnew, hl⟩ := PlaceTables.insertPlaceRegularGrid_eq_some ht
  have hgrids : ∀ g ∈ db.tables.placeregulargrid.rows, g ∈ t.placeregulargrid.rows := by
    rw [hl.placeregulargrid]
    exact fun g hg => List.mem_append_left _ hg
  have hnonames : ∀ pn ∈ db.tables.placename.rows, pn.placeid ≠ pg.placeid := by
    intro pn hpn hid
    obtain ⟨d, hd, hdid⟩ := db.tables.references.placename_placeid pn hpn
    exact hnew d hd (hdid.trans hid)
  have hmem : ∀ g, g ∈ t.placeregulargrid.rows ↔ g ∈ db.tables.placeregulargrid.rows ∨ g = pg := by
    rw [hl.placeregulargrid]
    simp
  have htext : btrim srs.proj4text = btrim projection :=
    of_decide_eq_true (List.find?_some hsrs :)
  refine ⟨⟨?_, sound_fire horder.sound hgrids hl.spatialRefSys, ?_, ?_, ?_⟩, ?_, hgrids,
    (hmem pg).2 (Or.inr rfl), hl.spatialRefSys⟩
  · change (t.spatialRefSys.map _).Nodup
    rw [hl.spatialRefSys]
    exact horder.srids
  · intro g hg
    change ∃ srs, t.spatialRefSys.find? _ = some srs ∧ _
    rw [hl.spatialRefSys]
    rcases (hmem g).1 hg with hg | rfl
    · exact horder.first g hg
    · exact ⟨srs, by rw [htext]; exact hsrs, hsrid⟩
  · intro g hg
    change ∀ pn ∈ t.placename.rows, _
    rw [hl.placename]
    rcases (hmem g).1 hg with hg | rfl
    · exact horder.always g hg
    · exact fun pn hpn hid => absurd hid (hnonames pn hpn)
  · intro g hg
    change ∀ pn ∈ t.placename.rows, ∀ pn' ∈ t.placename.rows, _
    rw [hl.placename]
    rcases (hmem g).1 hg with hg | rfl
    · exact horder.once g hg
    · exact fun pn hpn _ _ hid => absurd hid (hnonames pn hpn)
  · change ∀ pn ∈ t.placename.rows, _
    rw [hl.placename]
    exact hnonames

/-- A successful call leaves the grids in order and keeps what is stored; and it returns a place with
    the specification, when the look-up finds nothing else. -/
theorem GridCall.perform_stores (horder : db.GridsInOrder) (h : call.perform gis db = some r) :
    r.2.GridsInOrder ∧ (∀ id spec, db.tables.Stores id spec → r.2.tables.Stores id spec) ∧
      ((∀ g ∈ db.placeregulargridMv, g.placenamespaceid = 0 → call.looksUp gis g = true →
        g.spec = call.spec) → r.2.tables.Stores r.1 call.spec) := by
  rcases perform_eq_some h with ⟨g, hg, hns, hlook, hid, hr⟩ |
    ⟨pg, srs, db₁, hsrs, hsrid, hspec, hinsert, hid, hr⟩
  · have hstored := horder.sound g hg
    rcases hr with hr | hr
    · rw [hr, hid]
      exact ⟨horder, fun _ _ hs => hs, fun hfound => hfound g hg hns hlook ▸ hstored⟩
    · obtain ⟨_, honly, hnames⟩ := PlaceDb.nameOrRename_onlyNames hr
      have hmono : ∀ id spec, db.tables.Stores id spec → r.2.tables.Stores id spec :=
        fun _ _ hs => hs.mono (fun pg hpg => honly.placeregulargrid ▸ hpg) honly.spatialRefSys
      refine ⟨horder.named honly hnames, hmono, fun hfound => ?_⟩
      rw [hid, ← hfound g hg hns hlook]
      exact hmono _ _ hstored
  · obtain ⟨horder₁, hnonames, hgrids, hpg, hsrss⟩ := horder.insertPlaceRegularGrid hinsert hsrs hsrid
    have hstored : db₁.tables.Stores pg.placeid call.spec :=
      ⟨pg, hpg, rfl, srs, hsrss ▸ List.mem_of_find?_eq_some hsrs, hsrid, hspec⟩
    have hmono : ∀ id spec, db.tables.Stores id spec → db₁.tables.Stores id spec :=
      fun _ _ hs => hs.mono hgrids hsrss
    rcases hr with hr | hr
    · rw [hr, hid]
      exact ⟨horder₁, hmono, fun _ => hstored⟩
    · obtain ⟨_, honly, hnames⟩ := PlaceDb.insertName_onlyNames hr
        fun pn hpn hof => hnonames pn hpn hof.1
      have hmono₁ : ∀ id spec, db₁.tables.Stores id spec → r.2.tables.Stores id spec :=
        fun _ _ hs => hs.mono (fun pg hpg => honly.placeregulargrid ▸ hpg) honly.spatialRefSys
      refine ⟨horder₁.named honly hnames, fun id spec hs => hmono₁ _ _ (hmono id spec hs), fun _ => ?_⟩
      rw [hid]
      exact hmono₁ _ _ hstored

/-- Two places do not store one specification. -/
theorem PlaceDb.GridsInOrder.place_eq (horder : db.GridsInOrder) {id id' : ℤ} {spec : GridSpec}
    (h : db.tables.Stores id spec) (h' : db.tables.Stores id' spec) : id = id' := by
  obtain ⟨pg, hpg, rfl, srs, hsrs, hsrid, rfl⟩ := h
  obtain ⟨pg', hpg', rfl, srs', hsrs', hsrid', hspec⟩ := h'
  obtain ⟨first, hfirst, hfirstid⟩ := horder.first pg hpg
  obtain ⟨first', hfirst', hfirstid'⟩ := horder.first pg' hpg'
  have heq := List.inj_on_of_nodup_map horder.srids (List.mem_of_find?_eq_some hfirst) hsrs
    (hfirstid.trans hsrid.symm)
  have heq' := List.inj_on_of_nodup_map horder.srids (List.mem_of_find?_eq_some hfirst') hsrs'
    (hfirstid'.trans hsrid'.symm)
  subst heq heq'
  simp only [PlaceRegularGrid.spec, GridSpec.mk.injEq, Option.some_inj] at hspec
  obtain ⟨hnx, hny, hix, hiy, hsx, hsy, htext⟩ := hspec
  rw [htext, hfirst, Option.some_inj] at hfirst'
  have hclash : sameGrid pg pg' := by
    refine Or.inr ?_
    obtain ⟨i, nx, ny, ix, iy, sx, sy, s⟩ := pg
    obtain ⟨i', nx', ny', ix', iy', sx', sy', s'⟩ := pg'
    simp only at hnx hny hix hiy hsx hsy hfirstid hfirstid'
    rw [hnx, hny, hix, hiy, hsx, hsy, ← hfirstid, ← hfirstid', hfirst']
  have := db.tables.placeregulargrid.eq_of_clash
    (fun _ _ h => h.imp Eq.symm fun h => by rw [h]) hpg hpg' hclash
  rw [this]

/-- When the specification is stored, the call returns the place that stores it, and adds none. -/
theorem GridCall.perform_repeats (horder : db.GridsInOrder) (hagrees : call.Agrees gis db)
    (hstores : db.tables.Stores placeid call.spec) :
    ∃ r, call.perform gis db = some r ∧ r.1 = placeid ∧
      r.2.tables.placedefinition.rows = db.tables.placedefinition.rows := by
  -- the spatial reference system is found again
  obtain ⟨pg, hpg, hplace, srs, hsrs, hsrid, hspec⟩ := id hstores
  obtain ⟨srs', hsrs'⟩ : ∃ srs', db.tables.spatialRefSys.find?
      (fun s => btrim s.proj4text = btrim call.projection) = some srs' := by
    rw [← Option.isSome_iff_exists, List.find?_isSome]
    refine ⟨srs, hsrs, decide_eq_true ?_⟩
    exact congrArg GridSpec.projection hspec
  -- the look-up finds a row of the place
  obtain ⟨g, hg, hns, hgid⟩ := hagrees.visible placeid hstores
  have hgspec : g.spec = call.spec := by
    have := horder.sound g hg
    rw [hgid] at this
    exact this.eq horder.srids hstores
  obtain ⟨g', hfind⟩ : ∃ g', db.placeregulargridMv.find? (fun g =>
      call.looksUp gis g && g.placenamespaceid = 0) = some g' := by
    rw [← Option.isSome_iff_exists, List.find?_isSome]
    refine ⟨g, hg, ?_⟩
    rw [(hagrees.looksUp g hg hns).2 hgspec, hns]
    rfl
  have hg' := List.find?_some hfind
  rw [Bool.and_eq_true, decide_eq_true_eq] at hg'
  have hmem := List.mem_of_find?_eq_some hfind
  have hid : g'.placeid = placeid := by
    have hstores' := horder.sound g' hmem
    rw [(hagrees.looksUp g' hmem hg'.2).1 hg'.1] at hstores'
    exact horder.place_eq hstores' hstores
  have hperform : call.perform gis db = if call.c.namespace ≠ 0 then
      db.nameOrRename gis call.c placeid call.placeName else some (placeid, db) := by
    unfold perform addPlaceRegularGrid
    rw [hsrs', Option.bind_some]
    have hplaceOf : db.placeOfGrid gis call.numX call.numY call.incX call.incY call.startX
        call.startY call.projection = some placeid := by
      rw [← hid]
      exact congrArg (Option.map (·.placeid)) hfind
    rw [hplaceOf]
  rw [hperform]
  split
  · next hnonzero =>
    obtain ⟨r, hr⟩ := PlaceDb.nameOrRename_succeeds gis horder hpg
      (hplace.symm ▸ hagrees.nameable placeid hstores hnonzero)
    rw [hplace] at hr
    obtain ⟨hrid, honly, _⟩ := PlaceDb.nameOrRename_onlyNames hr
    exact ⟨r, hr, hrid, honly.placedefinition⟩
  · exact ⟨_, rfl, rfl, rfl⟩

end Call

/-! ### Runs -/

section KeepsApart
variable {gis : Gis} {db : PlaceDb} {call : GridCall} {r : ℤ × PlaceDb} {placeid : ℤ}
  {spec : GridSpec} {calls : List GridCall}

theorem GridCall.step_of_perform (h : call.perform gis db = some r) : call.step gis db = r.2 := by
  unfold GridCall.step
  rw [h]
  rfl

/-- A call leaves the grids in order and what is stored, whether it succeeds or raises. -/
theorem GridCall.step_keeps (call : GridCall) (horder : db.GridsInOrder) :
    (call.step gis db).GridsInOrder ∧
      ∀ id spec, db.tables.Stores id spec → (call.step gis db).tables.Stores id spec := by
  cases h : call.perform gis db with
  | none =>
    unfold GridCall.step
    rw [h]
    exact ⟨horder, fun _ _ hs => hs⟩
  | some r =>
    rw [GridCall.step_of_perform h]
    obtain ⟨horder', hmono, _⟩ := GridCall.perform_stores horder h
    exact ⟨horder', hmono⟩

variable (gis calls) in
/-- So does a run. -/
theorem run_inOrder (horder : db.GridsInOrder) :
    (Runs.run (GridCall.step gis) db calls).GridsInOrder :=
  Runs.inv_run_all (GridCall.step gis) PlaceDb.GridsInOrder
    (fun _ call h => (call.step_keeps h).1) calls db horder

theorem run_stores (horder : db.GridsInOrder) (h : db.tables.Stores placeid spec) :
    (Runs.run (GridCall.step gis) db calls).tables.Stores placeid spec :=
  (Runs.inv_run_all (GridCall.step gis)
    (fun db => db.GridsInOrder ∧ db.tables.Stores placeid spec)
    (fun _ call h => ⟨(call.step_keeps h.1).1, (call.step_keeps h.1).2 _ _ h.2⟩) calls db
    ⟨horder, h⟩).2

/-- What a call has stored is still there after any further calls. -/
theorem stores_later {pre : List GridCall} (mid : List GridCall) (horder : db.GridsInOrder)
    (h : call.perform gis (Runs.run (GridCall.step gis) db pre) = some r)
    (hs : r.2.tables.Stores placeid spec) :
    (Runs.run (GridCall.step gis) db (pre ++ call :: mid)).tables.Stores placeid spec := by
  rw [Runs.run_append, Runs.run_cons, GridCall.step_of_perform h]
  exact run_stores (GridCall.perform_stores (run_inOrder gis pre horder) h).1 hs

/-- A database without grids has them in order. -/
theorem gridsInOrder_of_noGrids (hsrids : (db.tables.spatialRefSys.map (·.srid)).Nodup)
    (hgrids : db.tables.placeregulargrid.rows = []) (hmv : db.placeregulargridMv = []) :
    db.GridsInOrder := by
  refine ⟨hsrids, ?_, ?_, ?_, ?_⟩
  · rw [hmv]
    exact fun _ h => nomatch h
  all_goals
    rw [hgrids]
    exact fun _ h => nomatch h

end KeepsApart

/-- A run of calls keeps the promise of `wci.addPlaceRegularGrid` when every call agrees with the state
    that it is made in. -/
theorem addPlaceRegularGrid_keepsApart (gis : Gis) (db : PlaceDb) (calls : List GridCall)
    (horder : db.GridsInOrder)
    (hagrees : Runs.Each (GridCall.step gis) (fun db call => call.Agrees gis db) db calls) :
    KeepsGridsApart gis db calls := by
  have hstores : ∀ pre call r, (pre ++ [call]) <+: calls →
      call.perform gis (Runs.run (GridCall.step gis) db pre) = some r →
      r.2.tables.Stores r.1 call.spec := fun pre call r hpre h =>
    (GridCall.perform_stores (run_inOrder gis pre horder) h).2.2 fun g hg hns hlook =>
      ((Runs.good_of_prefix _ hpre hagrees).looksUp g hg hns).1 hlook
  have hfirst : ∀ {pre : List GridCall} {call : GridCall} {mid : List GridCall} {last : GridCall},
      (pre ++ call :: mid ++ [last]) <+: calls → (pre ++ [call]) <+: calls := by
    intro pre call mid last hpre
    rw [List.append_assoc, List.cons_append] at hpre
    refine List.IsPrefix.trans ?_ hpre
    exact ⟨mid ++ [last], by simp⟩
  refine ⟨hstores, fun pre call r mid again hpre h hspec => ?_,
    fun pre call r mid other r' hpre h h' hid => ?_⟩
  · have hlater := stores_later mid horder h (hstores pre call r (hfirst hpre) h)
    rw [← hspec] at hlater
    exact GridCall.perform_repeats (run_inOrder gis _ horder) (Runs.good_of_prefix _ hpre hagrees) hlater
  · have hlater := stores_later mid horder h (hstores pre call r (hfirst hpre) h)
    have horder' := run_inOrder gis (pre ++ call :: mid) horder
    have hother := hstores _ other r' hpre h'
    rw [hid] at hother
    have hlater' := (GridCall.perform_stores horder' h').2.1 _ _ hlater
    exact hother.eq (GridCall.perform_stores horder' h').1.srids hlater'

/-- PostgreSQL's conversions to `numeric`: six significant digits of a `real`, fifteen of a double
    precision number. -/
def postgresGis : Gis :=
  { plainGis with
    realNumeric := fun q => roundNumeric 3 (significant 6 q)
    floatNumeric := fun q => roundNumeric 3 (significant 15 q) }

/-- A database without places, and one projection. -/
def oneProjection : PlaceDb :=
  { noPlaces with
    tables := { noPlaces.tables with spatialRefSys := [⟨4030, "+proj=longlat"⟩] } }

/-- A call for a grid of two by two points. -/
def gridCall (placenamespaceid nextval : ℤ) (placeName : String) (incX startX : ℚ) : GridCall :=
  ⟨{ callerOf placenamespaceid with nextval := nextval }, placeName, 2, 2, incX, 1, startX, 0,
    "+proj=longlat"⟩

theorem oneProjection_inOrder : oneProjection.GridsInOrder :=
  gridsInOrder_of_noGrids (by decide) rfl rfl

/-- A grid is added in namespace 1 and asked for again in namespace 0. -/
theorem addPlaceRegularGrid_twice :
    ((gridCall 0 2 "grid" 1 0).perform postgresGis (Runs.run (GridCall.step postgresGis) oneProjection
      [gridCall 1 1 "grid" 1 0])).map (·.1) = some 1 ∧
    KeepsGridsApart postgresGis oneProjection [gridCall 1 1 "grid" 1 0, gridCall 0 2 "grid" 1 0] := by
  refine ⟨by decide +kernel, addPlaceRegularGrid_keepsApart _ _ _ oneProjection_inOrder ⟨?_, ?_, trivial⟩⟩
  · exact ⟨fun _ h => (nomatch h), fun _ ⟨_, h, _⟩ => (nomatch h), fun _ ⟨_, h, _⟩ => (nomatch h)⟩
  · refine ⟨by decide +kernel, ?_, fun _ _ h => absurd rfl h⟩
    rintro _ ⟨pg, hpg, rfl, _⟩
    revert pg
    decide +kernel

/-- A call that succeeds after which the next one with its specification raises. -/
theorem not_keepsGridsApart_of_raises {gis : Gis} {db : PlaceDb} {call again : GridCall}
    (hspec : again.spec = call.spec) (h : (call.perform gis db).isSome = true)
    (hnone : (again.perform gis (call.step gis db)).isNone = true) :
    ¬ KeepsGridsApart gis db [call, again] := by
  intro hkeeps
  obtain ⟨r, hr⟩ := Option.isSome_iff_exists.1 h
  obtain ⟨r', hr', _⟩ := hkeeps.repeats [] call r [] again (List.prefix_refl _) hr hspec
  rw [Option.isNone_iff_eq_none] at hnone
  exact absurd (hr'.symm.trans hnone) (Option.some_ne_none r')

/-- Two calls that return one place for different specifications. -/
theorem not_keepsGridsApart_of_shared {gis : Gis} {db : PlaceDb} {call other : GridCall} {k : ℤ}
    (hspec : other.spec ≠ call.spec) (h : (call.perform gis db).map (·.1) = some k)
    (h' : (other.perform gis (call.step gis db)).map (·.1) = some k) :
    ¬ KeepsGridsApart gis db [call, other] := by
  intro hkeeps
  obtain ⟨r, hr, hk⟩ := Option.map_eq_some_iff.1 h
  obtain ⟨r', hr', hk'⟩ := Option.map_eq_some_iff.1 h'
  exact hspec (hkeeps.apart [] call r [] other r' (List.prefix_refl _) hr hr' (hk'.trans hk.symm))

/-- A grid that was added in namespace 0 is not found again, and the table refuses it; neither is one
    whose start has seven digits; and increments of 0.5 and 0.500244140625 are taken for the same. -/
theorem addPlaceRegularGrid_misses :
    ¬ KeepsGridsApart postgresGis oneProjection [gridCall 0 1 "grid" 1 0, gridCall 0 2 "grid" 1 0] ∧
    ¬ KeepsGridsApart postgresGis oneProjection
      [gridCall 1 1 "grid" 1 (49381 / 4), gridCall 1 2 "grid" 1 (49381 / 4)] ∧
    ¬ KeepsGridsApart postgresGis oneProjection
      [gridCall 1 1 "grid" (1 / 2) 0, gridCall 1 2 "other grid" (2049 / 4096) 0] :=
  ⟨not_keepsGridsApart_of_raises rfl (by decide +kernel) (by decide +kernel),
    not_keepsGridsApart_of_raises rfl (by decide +kernel) (by decide +kernel),
    not_keepsGridsApart_of_shared (k := 1) (by decide +kernel) (by decide +kernel)
      (by decide +kernel)⟩

end Wdb.Place
