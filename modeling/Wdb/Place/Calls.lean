import Wdb.Place.Statements

/-! The wci functions that write places (`wciMetaPlacePoint.in.sql`, `wciMetaPlace.in.sql`).

    A function returns the id of the place and the state it leaves, or raises (`none`), which undoes
    what it did. A `SELECT … INTO` takes the first row. Arguments are not null. -/

namespace Wdb.Place
open SqlTypes Store Relational Periods

/-- What a call is made with: its session, the clock of its transaction, and the value that
    `nextval('placedefinition_placeid_seq')` returns in it. -/
structure Caller where
  session : Session
  now : Timestamp
  today : Timestamp
  nextval : ℤ

/-- The namespace of the session (`namespace_`). -/
def Caller.namespace (c : Caller) : ℤ := c.session.placenamespaceid

/-! ### The rows of a name -/

section Rows
variable (placevalidfrom placevalidto now : Timestamp)

/-- A new row of `placename`: the name must fit its column, and the period its check. -/
def placeNameRow (placeid placenamespaceid : ℤ) (placename : String) : Option PlaceName :=
  match h : varchar 255 placename with
  | some stored => (Period.between placevalidfrom placevalidto).map fun valid =>
      ⟨placeid, placenamespaceid, stored, length_varchar h, valid, now⟩
  | none => none

/-- `placename = lower(placeName_) AND placenamespaceid = namespace_`. -/
def PlaceName.named (namespace_ : ℤ) (placeName : String) (pn : PlaceName) : Bool :=
  pn.placename = lower placeName && pn.placenamespaceid = namespace_

/-- The new period extends the bounds of the row. -/
def PlaceName.extended (pn : PlaceName) : Bool :=
  placevalidfrom ≤ pn.valid.start && pn.valid.stop ≤ placevalidto

/-- The new period is inside the bounds of the row. -/
def PlaceName.around (pn : PlaceName) : Bool :=
  pn.valid.start ≤ placevalidfrom && placevalidto ≤ pn.valid.stop

/-- The new period has the earlier bounds. -/
def PlaceName.early (pn : PlaceName) : Bool :=
  placevalidfrom ≤ pn.valid.start && placevalidto ≤ pn.valid.stop

/-- The new period has the later bounds. -/
def PlaceName.later (pn : PlaceName) : Bool :=
  pn.valid.start ≤ placevalidfrom && pn.valid.stop ≤ placevalidto

/-- The new period underlaps the row. -/
def PlaceName.underlapped (pn : PlaceName) : Bool :=
  pn.early placevalidfrom placevalidto && pn.valid.start ≤ placevalidto

/-- The new period overlaps the row. -/
def PlaceName.overlapped (pn : PlaceName) : Bool :=
  pn.later placevalidfrom placevalidto && placevalidfrom ≤ pn.valid.stop

/-- `SET placenamevalidfrom = …, placenamevalidto = …`, refused when the check fails. -/
def PlaceName.setValid (pn : PlaceName) : Option PlaceName :=
  (Period.between placevalidfrom placevalidto).map fun valid =>
    { pn with valid := valid, placenameupdatetime := now }

end Rows

/-! ### Points and polygons -/

section Calls
variable (gis : Gis) (c : Caller)

/-- The place of a geometry: `SELECT placeid FROM placedefinition_v WHERE st_equals(…) AND
    placenamespaceid = 0`. -/
def PlaceDb.placeOfGeometry (db : PlaceDb) (placeGeometry : String) : Option ℤ :=
  ((db.tables.placedefinitionV gis).find? fun v =>
    gis.stEquals v.placegeometry placeGeometry && v.placenamespaceid = 0).map (·.placeid)

/-- `INSERT INTO placename` of a name in the session's namespace. -/
def PlaceDb.insertName (placeId : ℤ) (placeName : String) (placevalidfrom placevalidto : Timestamp)
    (db : PlaceDb) : Option (ℤ × PlaceDb) :=
  (placeNameRow placevalidfrom placevalidto c.now placeId c.namespace (lower placeName)).bind
    fun pn => (db.insertPlaceName gis pn).map fun db' => (placeId, db')

/-- One branch of the update functions: when a row of the place meets a condition, the rows that do are
    updated and the function returns. -/
def PlaceDb.updateOr (placeId : ℤ) (p : PlaceName → Bool) (f : PlaceName → Option PlaceName)
    (otherwise : PlaceDb → Option (ℤ × PlaceDb)) (db : PlaceDb) : Option (ℤ × PlaceDb) :=
  if db.tables.placename.rows.any p then
    (db.updatePlaceName gis p f).map fun db' => (placeId, db')
  else otherwise db

/-- A branch that goes on. -/
def PlaceDb.updateIfAny (p : PlaceName → Bool) (f : PlaceName → Option PlaceName) (db : PlaceDb) :
    Option PlaceDb :=
  if db.tables.placename.rows.any p then db.updatePlaceName gis p f else some db

/-- The row gives the name to a place, in the session's namespace. -/
def PlaceName.ofPlace (placeId : ℤ) (placeName : String) (pn : PlaceName) : Bool :=
  pn.named c.namespace placeName && placeId = pn.placeid

/-- The branches of the update functions for the rows that give the name to the same place; `early` and
    `later` are their tests for a new period before and after the row. -/
def PlaceDb.updateSame (early later : PlaceName → Bool) (placeId : ℤ) (placeName : String)
    (placevalidfrom placevalidto : Timestamp) (otherwise : PlaceDb → Option (ℤ × PlaceDb))
    (db : PlaceDb) : Option (ℤ × PlaceDb) :=
  let same := PlaceName.ofPlace c placeId placeName
  (PlaceDb.updateOr gis placeId
      (fun pn => same pn && pn.extended placevalidfrom placevalidto)
      (fun pn => pn.setValid placevalidfrom placevalidto c.now) <|
    PlaceDb.updateOr gis placeId
      (fun pn => same pn && pn.around placevalidfrom placevalidto)
      (fun pn => pn.setValid placevalidfrom placevalidto c.now) <|
    PlaceDb.updateOr gis placeId (fun pn => same pn && early pn)
      (fun pn => pn.setValid placevalidfrom pn.valid.stop c.now) <|
    PlaceDb.updateOr gis placeId (fun pn => same pn && later pn)
      (fun pn => pn.setValid pn.valid.start placevalidto c.now) otherwise) db

/-- `wci.addPlacePoint`. -/
def addPlacePoint (placeName placeGeometry : String) (placevalidfrom placevalidto : Timestamp)
    (db : PlaceDb) : Option (ℤ × PlaceDb) :=
  if gis.geometryType placeGeometry ≠ "POINT" then none
  else match db.placeOfGeometry gis placeGeometry with
    | some _ => none
    | none =>
      (db.insertPlaceDefinition gis ⟨c.nextval, 1, .point, c.now, placeGeometry⟩).bind fun db =>
        if c.namespace ≠ 0 then
          db.insertName gis c c.nextval placeName placevalidfrom placevalidto
        else some (c.nextval, db)

/-- `wci.addPlacePoint` without a period. -/
def addPlacePointFromToday (placeName placeGeometry : String) (db : PlaceDb) :
    Option (ℤ × PlaceDb) :=
  addPlacePoint gis c placeName placeGeometry c.today .infinity db

/-- The row gives the name to another place, and overlaps with the new period. -/
def PlaceName.ofOther (placeId : ℤ) (placeName : String) (placevalidfrom placevalidto : Timestamp)
    (pn : PlaceName) : Bool :=
  pn.named c.namespace placeName && placeId ≠ pn.placeid &&
    ((pn.valid.start ≤ placevalidfrom && placevalidfrom < pn.valid.stop) ||
     (placevalidto ≤ pn.valid.stop && pn.valid.start < placevalidto) ||
     (placevalidfrom ≤ pn.valid.start && pn.valid.stop ≤ placevalidto))

/-- `wci.addOrUpdatePlacePoint`. -/
def addOrUpdatePlacePoint (placeName placeGeometry : String)
    (placevalidfrom placevalidto : Timestamp) (db : PlaceDb) : Option (ℤ × PlaceDb) :=
  if gis.geometryType placeGeometry ≠ "POINT" then none
  else match db.placeOfGeometry gis placeGeometry with
    | none =>
      (db.insertPlaceDefinition gis ⟨c.nextval, 1, .point, c.now, placeGeometry⟩).bind fun db =>
        if c.namespace ≠ 0 then
          -- same name, but overlapping values
          if db.tables.placename.rows.any
              (PlaceName.ofOther c c.nextval placeName placevalidfrom placevalidto) then none
          else db.insertName gis c c.nextval placeName placevalidfrom placevalidto
        else some (c.nextval, db)
    | some placeId =>
      if c.namespace ≠ 0 then
        db.updateSame gis c (fun pn => pn.underlapped placevalidfrom placevalidto)
          (fun pn => pn.overlapped placevalidfrom placevalidto) placeId placeName placevalidfrom
          placevalidto (PlaceDb.insertName gis c placeId placeName placevalidfrom placevalidto)
      else some (placeId, db)

/-- `wci.addPlacePolygon`. -/
def addPlacePolygon (_placeName placeGeometry : String) (db : PlaceDb) : Option (ℤ × PlaceDb) :=
  if gis.geometryType placeGeometry ≠ "POLYGON" then none
  else match db.placeOfGeometry gis placeGeometry with
    | some _ => none
    | none =>
      (db.insertPlaceDefinition gis ⟨c.nextval, 1, .polygon, c.now, placeGeometry⟩).bind fun db =>
        -- the function names a period that it has not got, so that this insert always fails
        if c.namespace ≠ 0 then none
        else some (c.nextval, db)

/-- What `addOrUpdatePlacePolygon` does to the rows that give the name to other places: none may
    contain the new period or be inside it; the others are cut, or prolonged, to its bounds. -/
def PlaceDb.splitOthers (placeId : ℤ) (placeName : String)
    (placevalidfrom placevalidto : Timestamp) (db : PlaceDb) : Option (ℤ × PlaceDb) :=
  let other := fun pn : PlaceName => pn.named c.namespace placeName && placeId ≠ pn.placeid
  if db.tables.placename.rows.any fun pn => other pn && pn.extended placevalidfrom placevalidto then
    none
  else if db.tables.placename.rows.any fun pn => other pn && pn.around placevalidfrom placevalidto then
    none
  else
    (db.updateIfAny gis (fun pn => other pn && pn.early placevalidfrom placevalidto) fun pn =>
        pn.setValid placevalidto pn.valid.stop c.now).bind fun db =>
      (db.updateIfAny gis (fun pn => other pn && pn.later placevalidfrom placevalidto) fun pn =>
          pn.setValid pn.valid.start placevalidfrom c.now).bind fun db =>
        db.insertName gis c placeId placeName placevalidfrom placevalidto

/-- `wci.addOrUpdatePlacePolygon`. -/
def addOrUpdatePlacePolygon (placeName placeGeometry : String)
    (placevalidfrom placevalidto : Timestamp) (db : PlaceDb) : Option (ℤ × PlaceDb) :=
  if gis.geometryType placeGeometry ≠ "POLYGON" then none
  else match db.placeOfGeometry gis placeGeometry with
    | none =>
      (db.insertPlaceDefinition gis ⟨c.nextval, 1, .polygon, c.now, placeGeometry⟩).bind fun db =>
        if c.namespace ≠ 0 then
          db.splitOthers gis c c.nextval placeName placevalidfrom placevalidto
        else some (c.nextval, db)
    | some placeId =>
      if c.namespace ≠ 0 then
        db.updateSame gis c (fun pn => pn.early placevalidfrom placevalidto)
          (fun pn => pn.later placevalidfrom placevalidto) placeId placeName placevalidfrom
          placevalidto (PlaceDb.splitOthers gis c placeId placeName placevalidfrom placevalidto)
      else some (placeId, db)

/-! ### Grids and names -/

/-- A place of the session's namespace gets one name for all times, or its names are replaced. -/
def PlaceDb.nameOrRename (placeId : ℤ) (placeName : String) (db : PlaceDb) :
    Option (ℤ × PlaceDb) :=
  let ofPlace := fun pn : PlaceName => pn.placeid = placeId && pn.placenamespaceid = c.namespace
  if db.tables.placename.rows.any ofPlace then
    (db.updatePlaceName gis ofPlace fun pn =>
        (placeNameRow pn.valid.start pn.valid.stop c.now pn.placeid pn.placenamespaceid
          (lower placeName))).map fun db' => (placeId, db')
  else db.insertName gis c placeId placeName .negInfinity .infinity

/-- The place of a grid, by its canonical row in `placeregulargrid_mv`. -/
def PlaceDb.placeOfGrid (numX numY : ℤ) (incX incY startX startY : ℚ) (projection : String)
    (db : PlaceDb) : Option ℤ :=
  (db.placeregulargridMv.find? fun g =>
    g.numberx = numX && g.numbery = numY &&
    gis.realNumeric g.incrementx = gis.floatNumeric incX &&
    gis.realNumeric g.incrementy = gis.floatNumeric incY &&
    gis.realNumeric g.startx = gis.floatNumeric startX &&
    gis.realNumeric g.starty = gis.floatNumeric startY &&
    g.projdefinition = btrim projection && g.placenamespaceid = 0).map (·.placeid)

/-- `wci.addPlaceRegularGrid`. -/
def addPlaceRegularGrid (placeName : String) (numX numY : ℤ) (incX incY startX startY : ℚ)
    (projection : String) (db : PlaceDb) : Option (ℤ × PlaceDb) :=
  (db.tables.spatialRefSys.find? fun srs => btrim srs.proj4text = btrim projection).bind fun srs =>
    match db.placeOfGrid gis numX numY incX incY startX startY projection with
    | none =>
      (toReal incX).bind fun incrementx => (toReal incY).bind fun incrementy =>
      (toReal startX).bind fun startx => (toReal startY).bind fun starty =>
        (db.insertPlaceRegularGrid gis c.now
            ⟨c.nextval, numX, numY, incrementx, incrementy, startx, starty, srs.srid⟩).bind
          fun db =>
            if c.namespace ≠ 0 then
              db.insertName gis c c.nextval placeName .negInfinity .infinity
            else some (c.nextval, db)
    | some placeId =>
      if c.namespace ≠ 0 then db.nameOrRename gis c placeId placeName
      else some (placeId, db)

/-- The place of a canonical name, in `placedefinition_mv`. -/
def PlaceDb.placeOfName (canonicalName : String) (db : PlaceDb) : Option ℤ :=
  (db.placedefinitionMv.find? fun v =>
    v.placename = lower canonicalName && v.placenamespaceid = 0).map (·.placeid)

/-- `wci.setPlaceName`. -/
def setPlaceName (canonicalName placeName : String) (db : PlaceDb) : Option (ℤ × PlaceDb) :=
  if c.namespace = 0 then none
  else
    (db.placeOfName canonicalName).bind fun placeId =>
      -- the variable `placeId_` is an `int`
      if placeId < -2147483648 ∨ 2147483647 < placeId then none
      else
        (db.deletePlaceName gis fun pn =>
            pn.placenamespaceid = c.namespace && pn.placeid = placeId).bind fun db =>
          db.insertName gis c placeId placeName .negInfinity .infinity

end Calls

/-! ### What a successful call did -/

section Specs
variable {gis : Gis} {c : Caller} {db db' : PlaceDb} {placeId : ℤ} {r : ℤ × PlaceDb}

theorem placeNameRow_eq_some {placevalidfrom placevalidto now : Timestamp}
    {placeid placenamespaceid : ℤ} {placename : String} {pn : PlaceName}
    (h : placeNameRow placevalidfrom placevalidto now placeid placenamespaceid placename = some pn) :
    pn.placeid = placeid ∧ pn.placenamespaceid = placenamespaceid ∧
      varchar 255 placename = some pn.placename ∧
      pn.valid.start = placevalidfrom ∧ pn.valid.stop = placevalidto := by
  unfold placeNameRow at h
  split at h
  · next stored hstored =>
    obtain ⟨valid, hvalid, rfl⟩ := Option.map_eq_some_iff.1 h
    exact ⟨rfl, rfl, hstored, Period.between_eq_some.1 hvalid⟩
  · cases h

theorem PlaceName.setValid_eq_some {placevalidfrom placevalidto now : Timestamp} {pn pn' : PlaceName}
    (h : pn.setValid placevalidfrom placevalidto now = some pn') :
    pn'.placeid = pn.placeid ∧ pn'.placenamespaceid = pn.placenamespaceid ∧
      pn'.placename = pn.placename ∧
      pn'.valid.start = placevalidfrom ∧ pn'.valid.stop = placevalidto := by
  obtain ⟨valid, hvalid, rfl⟩ := Option.map_eq_some_iff.1 h
  exact ⟨rfl, rfl, rfl, Period.between_eq_some.1 hvalid⟩

theorem PlaceDb.insertName_eq_some {placeName : String} {placevalidfrom placevalidto : Timestamp}
    (h : db.insertName gis c placeId placeName placevalidfrom placevalidto = some r) :
    r.1 = placeId ∧ ∃ pn, placeNameRow placevalidfrom placevalidto c.now placeId c.namespace
      (lower placeName) = some pn ∧ db.insertPlaceName gis pn = some r.2 := by
  obtain ⟨pn, hpn, h⟩ := Option.bind_eq_some_iff.1 h
  obtain ⟨db', hdb', rfl⟩ := Option.map_eq_some_iff.1 h
  exact ⟨rfl, pn, hpn, hdb'⟩

theorem PlaceDb.updateOr_eq_some {p : PlaceName → Bool} {f : PlaceName → Option PlaceName}
    {otherwise : PlaceDb → Option (ℤ × PlaceDb)} (h : db.updateOr gis placeId p f otherwise = some r) :
    ((∃ pn ∈ db.tables.placename.rows, p pn) ∧ r.1 = placeId ∧
        db.updatePlaceName gis p f = some r.2) ∨
      ((∀ pn ∈ db.tables.placename.rows, p pn = false) ∧ otherwise db = some r) := by
  unfold PlaceDb.updateOr at h
  split at h
  · next hany =>
    obtain ⟨db', hdb', rfl⟩ := Option.map_eq_some_iff.1 h
    exact Or.inl ⟨by simpa using hany, rfl, hdb'⟩
  · next hany => exact Or.inr ⟨by simpa using hany, h⟩

end Specs

/-- The operations on places: the wci functions, and the statements of an administrator. -/
inductive Operation where
  | addPlacePoint (c : Caller) (placeName placeGeometry : String)
      (placevalidfrom placevalidto : Timestamp)
  | addPlacePointFromToday (c : Caller) (placeName placeGeometry : String)
  | addOrUpdatePlacePoint (c : Caller) (placeName placeGeometry : String)
      (placevalidfrom placevalidto : Timestamp)
  | addPlacePolygon (c : Caller) (placeName placeGeometry : String)
  | addOrUpdatePlacePolygon (c : Caller) (placeName placeGeometry : String)
      (placevalidfrom placevalidto : Timestamp)
  | addPlaceRegularGrid (c : Caller) (placeName : String) (numX numY : ℤ)
      (incX incY startX startY : ℚ) (projection : String)
  | setPlaceName (c : Caller) (canonicalName placeName : String)
  | updatePlaceName (p : PlaceName → Bool) (f : PlaceName → Option PlaceName)
  | updatePlaceDefinition (p : PlaceDefinition → Bool)
      (f : PlaceDefinition → Option PlaceDefinition)
  | updatePlaceRegularGrid (p : PlaceRegularGrid → Bool)
      (f : PlaceRegularGrid → Option PlaceRegularGrid)
  | deletePlaceName (p : PlaceName → Bool)
  | deletePlaceDefinition (p : PlaceDefinition → Bool)
  | deletePlaceRegularGrid (p : PlaceRegularGrid → Bool)

/-- The state after an operation; `none` when it raises. -/
def Operation.perform (gis : Gis) (db : PlaceDb) : Operation → Option PlaceDb
  | .addPlacePoint c name g f t => (Place.addPlacePoint gis c name g f t db).map (·.2)
  | .addPlacePointFromToday c name g => (Place.addPlacePointFromToday gis c name g db).map (·.2)
  | .addOrUpdatePlacePoint c name g f t =>
    (Place.addOrUpdatePlacePoint gis c name g f t db).map (·.2)
  | .addPlacePolygon c name g => (Place.addPlacePolygon gis c name g db).map (·.2)
  | .addOrUpdatePlacePolygon c name g f t =>
    (Place.addOrUpdatePlacePolygon gis c name g f t db).map (·.2)
  | .addPlaceRegularGrid c name nx ny ix iy sx sy projection =>
    (Place.addPlaceRegularGrid gis c name nx ny ix iy sx sy projection db).map (·.2)
  | .setPlaceName c canonical name => (Place.setPlaceName gis c canonical name db).map (·.2)
  | .updatePlaceName p f => db.updatePlaceName gis p f
  | .updatePlaceDefinition p f => db.updatePlaceDefinition gis p f
  | .updatePlaceRegularGrid p f => db.updatePlaceRegularGrid gis p f
  | .deletePlaceName p => db.deletePlaceName gis p
  | .deletePlaceDefinition p => db.deletePlaceDefinition gis p
  | .deletePlaceRegularGrid p => db.deletePlaceRegularGrid gis p

/-- An operation that raises leaves everything as it was. -/
def PlaceDb.step (gis : Gis) (db : PlaceDb) (op : Operation) : PlaceDb :=
  (op.perform gis db).getD db

/-- PostGIS on texts: a geometry is equal to itself, and named by itself. -/
def plainGis : Gis where
  geometryType g := String.ofList (g.toList.takeWhile (· ≠ '('))
  stEquals g g' := g = g'
  stAstext := id
  fitsColumn _ := true
  getGeometry _ _ := some "POLYGON((0 0,0 1,1 1,1 0,0 0))"
  realText q := toString q.num
  realNumeric := id
  floatNumeric := id
  wdbSrid := 4030

/-- A caller of a place namespace, at instant 0. -/
def callerOf (placenamespaceid : ℤ) : Caller := ⟨⟨1, placenamespaceid, 1, ⟨0, []⟩⟩, .at 0, .at 0, 1⟩

/-- A database without places. -/
def noPlaces : PlaceDb where
  tables :=
    { placedefinition := .empty
      placeregulargrid := .empty
      placename := .empty
      spatialRefSys := []
      placeindeterminatetype := [(0, "any"), (1, "exact")]
      namespaces := [0, 1, 2]
      referenced := []
      references := by decide }
  placedefinitionMv := []
  placeregulargridMv := []

end Wdb.Place
