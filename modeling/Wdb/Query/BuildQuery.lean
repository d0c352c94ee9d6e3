import Wdb.Lib.MachineInt
import Wdb.Lib.Traverse
import Wdb.Query.Specifications
import Wdb.Read.Location

/-! `build_query`: the text of a query for the arguments of a call.

    Every argument adds what it asks for to a builder. The names of data providers and parameters have
    their quotes doubled; times, geometries and the names of places are put between quotes as they are.
    For the nearest points the builder is replaced: what it was becomes a table of a new query. -/

namespace Wdb.Query
open SqlText SqlTypes MachineInt Traverse Wdb.Read

/-- `WCI_SCHEMA`. -/
def wciSchema : String := "wci_int"

inductive DataSource where
  | floatTable | gridTable
  deriving DecidableEq

inductive OutputType where
  | outputFloat | outputGid
  deriving DecidableEq

/-- `WciReadParameterCollection`; an argument may be missing. -/
structure WciReadParameterCollection where
  dataProvider : Option (List String) := none
  location : Option String := none
  referenceTime : Option String := none
  validTime : Option String := none
  parameter : Option (List String) := none
  level : Option String := none
  dataVersion : Option (List ℤ) := none

/-- `quote`. -/
def quote (raw : String) : Text := quoted raw

/-- `lquote`. -/
def lquote (raw : String) : Text := quoted (lower raw)

/-! ### Data providers, parameters and levels -/

/-- The data providers with their groups, as a table. -/
def dataproviderTable (name : String) (names : List String) : Builder :=
  ({} : Builder).what (code "d.dataproviderid AS id")
    |>.from' (code (wciSchema ++ ".dataprovider_mv d"))
    |>.from' (code (wciSchema ++ ".dataprovider_mv source"))
    |>.where' (code "(source.dataprovidername = " ++ quote (lower name) ++
      names.flatMap (fun name => code " OR source.dataprovidername = " ++ quote (lower name)) ++ code ")")
    |>.where' (code "source.dataprovidernameleftset <= d.dataprovidernameleftset")
    |>.where' (code "source.dataprovidernamerightset >= d.dataprovidernamerightset")

def addDataProviderQuery (builder : Builder) : Option (List String) → Except Failure Builder
  | none => .ok builder
  | some [] => .ok (builder.where' (code "FALSE "))
  | some (name :: names) => do
    let builder ← builder.with' (dataproviderTable name names) "dataprovider"
    return builder.from' (code "dataprovider") |>.where' (code "v.dataproviderid IN (dataprovider.id)")

def prepParameter (parameter : String) : Except Failure Text :=
  if parameter = "" then .error (.raised "empty parameters are not allowed") else .ok (lquote parameter)

def addParameterQuery (builder : Builder) : Option (List String) → Except Failure Builder
  | none => .ok builder
  | some [] => .ok (builder.where' (code "FALSE"))
  | some (name :: names) => do
    let first ← prepParameter name
    let others ← names.mapM prepParameter
    return builder.where' (code "(valueparametername LIKE " ++ first ++
      others.flatMap (fun parameter => code " OR valueparametername LIKE " ++ parameter) ++ code ")")

theorem prepParameter_eq_ok {name : String} {t : Text} (h : prepParameter name = .ok t) : t = lquote name := by
  unfold prepParameter at h
  split at h
  · cases h
  · exact (Except.ok.inj h).symm

theorem addParameterQuery_cons {builder b : Builder} {name : String} {names : List String}
    (h : addParameterQuery builder (some (name :: names)) = .ok b) :
    b = builder.where' (code "(valueparametername LIKE " ++ quoted (lower name) ++
      (names.map lower).flatMap (fun v => code " OR valueparametername LIKE " ++ quoted v) ++ code ")") := by
  obtain ⟨first, hname, h⟩ := of_bind_eq_ok h
  obtain ⟨others, hnames, h⟩ := of_bind_eq_ok h
  obtain rfl := Except.ok.inj h
  rw [prepParameter_eq_ok hname, eq_map_of_mapM_eq_ok (fun _ _ => prepParameter_eq_ok) hnames, List.flatMap_map,
    List.flatMap_map]
  rfl

/-- What is asked of the bounds of a level. -/
def levelRange (lvl : LevelSpecification) : Text :=
  if lvl.indeterminate_ = "exact" then
    code " AND levelfrom = " ++ code (showFloat lvl.from_) ++ code " AND levelto = " ++ code (showFloat lvl.to_)
  else if lvl.indeterminate_ = "inside" then
    code " AND levelfrom >= " ++ code (showFloat lvl.from_) ++ code " AND levelto <= " ++ code (showFloat lvl.to_)
  else if lvl.indeterminate_ = "below" then code " AND levelfrom < " ++ code (showFloat lvl.from_)
  else if lvl.indeterminate_ = "above" then code " AND levelto > " ++ code (showFloat lvl.to_)
  else if lvl.indeterminate_ = "any" then []
  else bare lvl.indeterminate_

def addLevelQuery (builder : Builder) : Option String → Except Failure Builder
  | none => .ok builder
  | some levelSpec => do
    let lvl ← LevelSpecification.parse levelSpec
    return builder.where' (code "(" ++ code "levelparametername LIKE " ++ lquote lvl.parameter_ ++
      levelRange lvl ++ code ")")

/-! ### Times -/

/-- What is asked of a reference time. An unknown keyword is put into the query. -/
def referenceTime (ts : TimeSpecification) : Text :=
  let timeFrom := spliced ts.from_
  let timeTo :=
    if ts.durationInsteadOfTo_ then timeFrom ++ code "::timestamp with time zone+" ++ spliced ts.interval
    else spliced ts.to_
  if ts.indeterminate_ = "exact" then
    if timeFrom = timeTo then code "referencetime = " ++ timeFrom
    else code "referencetime = " ++ timeFrom ++ code " AND referencetime = " ++ timeTo
  else if ts.indeterminate_ = "inside" then
    code "referencetime >= " ++ timeFrom ++ code " AND referencetime <= " ++ timeTo
  else if ts.indeterminate_ = "contains" then
    code "referencetime = " ++ timeFrom ++ code " AND referencetime = " ++ timeTo
  else if ts.indeterminate_ = "before" then code "referencetime < " ++ timeFrom
  else if ts.indeterminate_ = "after" then code "referencetime > " ++ timeTo
  else if ts.indeterminate_ = "any" then code "TRUE"
  else bare ts.indeterminate_

def addReferenceTimeQuery (builder : Builder) : Option String → Except Failure Builder
  | none => .ok builder
  | some timeSpec => do
    let ts ← TimeSpecification.parse timeSpec
    return builder.where' (code "(" ++ referenceTime ts ++ code ") ")

def isSpecialValue (time : String) : Bool := time = "referencetime" || time = "NULL"

/-- `quote` of a valid time. -/
def quoteValidTime (validTime : String) : Text :=
  if isSpecialValue validTime then code validTime else spliced validTime

/-- What is asked of a valid time. -/
def validTime (ts : TimeSpecification) : Except Failure Text :=
  let timeFrom := quoteValidTime ts.from_
  let timeTo :=
    if ts.durationInsteadOfTo_ then timeFrom ++ code "::timestamp with time zone+" ++ spliced ts.interval
    else quoteValidTime ts.to_
  if ts.indeterminate_ = "exact" then
    .ok (code "validtimefrom = " ++ timeFrom ++ code " AND validtimeto = " ++ timeTo)
  else if ts.indeterminate_ = "inside" then
    .ok (code "validtimefrom >= " ++ timeFrom ++ code " AND validtimeto <= " ++ timeTo)
  else if ts.indeterminate_ = "contains" then
    .ok (code "validtimefrom <= " ++ timeFrom ++ code " AND validtimeto >= " ++ timeTo)
  else if ts.indeterminate_ = "before" then .ok (code "validtimefrom < " ++ timeFrom)
  else if ts.indeterminate_ = "after" then .ok (code "validtimeto > " ++ timeTo)
  else if ts.indeterminate_ = "any" then .ok (code "TRUE")
  else .error (.raised "Invalid time indeterminate code")

def addValidTimeQuery (builder : Builder) : Option String → Except Failure Builder
  | none => .ok builder
  | some timeSpec => do
    let ts ← TimeSpecification.parse timeSpec
    let q ← validTime ts
    return builder.where' (code "(" ++ q ++ code ")")

/-! ### Data versions -/

/-- `-n` of an `int`. -/
def negate (n : ℤ) : Except Failure ℤ := (int (-n)).elim (.error .undefined) .ok

/-- The versions that are asked for as they are. -/
def positiveVersions : List ℤ → Text
  | [] => []
  | n :: ns => code "dataversion IN (" ++ code (toString n) ++
    ns.flatMap (fun n => code ", " ++ code (toString n)) ++ code ") "

/-- The versions that are counted from the greatest one. -/
def negativeVersions : List ℤ → Text
  | [] => []
  | n :: ns => code "dataversion IN (" ++ code "(maxdataversion +1 " ++ code ("-" ++ toString n) ++ code ")" ++
    ns.flatMap (fun n => code ", (maxdataversion +1 " ++ code ("-" ++ toString n) ++ code ")") ++ code ") "

def addDataVersionQuery (builder : Builder) : Option (List ℤ) → Except Failure Builder
  | none => .ok builder
  | some [] => .ok (builder.where' (code "FALSE"))
  | some dataVersions => do
    let positiveVersion := dataVersions.filter fun n => ¬ n < 0
    let negativeVersion ← (dataVersions.filter fun n => n < 0).mapM negate
    return builder.where' (code "(" ++ positiveVersions positiveVersion ++
      (if positiveVersion ≠ [] ∧ negativeVersion ≠ [] then code "OR " else []) ++
      negativeVersions negativeVersion ++ code ") ")

/-! ### Locations -/

/-- The geometry of a value is that of a location, or near it. -/
def exactGeometry (loc : Location) : Text :=
  let near := code ("st_dwithin( st_transform( v.placegeometry, v.originalsrid ), " ++
      "st_transform( st_geomfromtext( ") ++ spliced loc.geometry ++ code ", 4030), v.originalsrid ), 1 )"
  match loc.geomType with
  | .point => code "equals( st_geomfromtext(" ++ spliced loc.geometry ++ code ", 4030 ), v.placegeometry )"
  | .polygon => near
  | .mpolygon => near
  | .unknown => []

/-- The geometries of a name, as a table. -/
def geometriesTable (placeName : String) : Builder :=
  ({} : Builder).what (code "placegeometry AS geometry_for_name")
    |>.what (code "placenamevalidfrom")
    |>.what (code "placenamevalidto")
    |>.from' (code (wciSchema ++ ".placedefinition_mv p"))
    |>.from' (code (wciSchema ++ ".getSessionData() s"))
    |>.where' (code "p.placenamespaceid = s.placenamespaceid")
    |>.where' (code "placename = " ++ spliced placeName)

def addToReturnExactFloatQuery (loc : Location) (builder : Builder) : Except Failure Builder := do
  let builder := if loc.hasGeometry then builder.where' (code "(" ++ exactGeometry loc ++ code ")") else builder
  if loc.hasPlaceName then
    let builder ← builder.with' (geometriesTable loc.placeName) "geometries"
    return builder.from' (code "geometries g")
      |>.where' (code "g.geometry_for_name && v.placegeometry")
      |>.where' (code "_ST_Intersects(g.geometry_for_name, v.placegeometry)")
      |>.where' (code "referencetime >= g.placenamevalidfrom")
      |>.where' (code "referencetime < g.placenamevalidto")
  else return builder

/-- The geometries of a name, for the nearest points. -/
def wantedLocation (placeName : String) : Builder :=
  ({} : Builder).from' (code "wci_int.placedefinition_mv p")
    |>.from' (code "wci_int.getsessiondata() s")
    |>.what (code "placegeometry")
    |>.what (code "placenamevalidfrom")
    |>.what (code "placenamevalidto")
    |>.where' (code "s.placenamespaceid=p.placenamespaceid")
    |>.where' (code "placename=" ++ spliced placeName)

/-- A new query on what the old one selects. The select list is added to the builder that is replaced. -/
def addToReturnSurroundFloatQuery (loc : Location) (builder : Builder) : Except Failure Builder := do
  let originalQuery := builder.what (code "placeid") |>.what (code "placegeometry")
  let builder ← ({} : Builder).with' originalQuery "floatvalue"
  let builder := builder.from' (code "floatvalue v")
  if loc.hasGeometry then
    return builder.where' (code ("placeid = (SELECT placeid FROM floatvalue v " ++
        "ORDER BY v.placegeometry <-> st_geomfromtext(") ++ spliced loc.geometry ++ code ", 4030) LIMIT " ++
      code (toString loc.interpolationParameter) ++ code ")")
  else
    let builder ← builder.with' (wantedLocation loc.placeName) "wanted_location"
    return builder.from' (code "wanted_location l")
      |>.where' (code "v.referencetime >= l.placenamevalidfrom")
      |>.where' (code "v.referencetime < l.placenamevalidto")
      |>.where' (code ("placeid in (SELECT placeid FROM floatvalue v " ++
          "ORDER BY v.placegeometry <-> l.placegeometry LIMIT ") ++
        code (toString loc.interpolationParameter) ++ code ")")

def addToReturnNearestFloatQuery (loc : Location) (builder : Builder) : Except Failure Builder :=
  addToReturnSurroundFloatQuery loc builder

def addToReturnBilinearFloatQuery (builder : Builder) : Builder := builder.where' (code "FALSE")

/-- The case of a bilinear interpolation falls through to the default. -/
def addFloatTableQuery (loc : Location) (builder : Builder) : Except Failure Builder :=
  match loc.interpolationType with
  | .exact => addToReturnExactFloatQuery loc builder
  | .nearest => addToReturnNearestFloatQuery loc builder
  | .surround => addToReturnSurroundFloatQuery loc builder
  | .bilinear => .ok ((addToReturnBilinearFloatQuery builder).where' (code "FALSE"))

def queryReturnGrid (loc : Location) : Text :=
  if loc.hasGeometry then
    match loc.interpolationType with
    | .exact => code "( equals ( st_geomfromtext( " ++ spliced loc.geometry ++
      code ", 4030 ), v.placegeometry ) )"
    | _ => code "st_dwithin( st_transform( st_geomfromtext( " ++ spliced loc.geometry ++
      code ", 4030), v.originalsrid ), st_transform( v.placegeometry, v.originalsrid ), 1 )"
  else
    code ("placeid = (SELECT placeid FROM " ++ wciSchema ++ ".placename_v p, " ++ wciSchema ++
        ".getSessionData() s WHERE p.placenamespaceid = s.placenamespaceid AND placename = ") ++
      spliced loc.placeName ++ code ")"

def addGridTableQuery (loc : Location) (builder : Builder) : Builder := builder.where' (queryReturnGrid loc)

def addLocationQuery (builder : Builder) (location : Option String) (sourceTable : DataSource)
    (output : OutputType) : Except Failure Builder :=
  match location with
  | none => .ok builder
  | some location =>
    match Location.parseWithSpirit_ location with
    | .error what => .error (.raised what)
    | .ok loc =>
      match sourceTable, output with
      | .floatTable, _ => addFloatTableQuery loc builder
      | .gridTable, .outputGid => .ok (addGridTableQuery loc builder)
      | .gridTable, .outputFloat => .ok builder

/-! ### The query -/

/-- Text of the program that can stand in a clause. -/
structure FixedText where
  text : String
  closed : spans 0 [.code text] 0
  ne : (Part.code text).tokens ≠ []

def build_query (parameters : WciReadParameterCollection) (dataSource : DataSource) (output : OutputType)
    (selectWhat : FixedText) (ordering groupby : Option FixedText) : Except Failure Text := do
  let builder := match dataSource with
    | .floatTable => ({} : Builder).from' (code (wciSchema ++ ".floatvalue_v v"))
    | .gridTable => ({} : Builder).from' (code (wciSchema ++ ".gridvalue_v v"))
  let builder := builder.what (code selectWhat.text)
  let builder ← addDataProviderQuery builder parameters.dataProvider
  let builder ← addReferenceTimeQuery builder parameters.referenceTime
  let builder ← addValidTimeQuery builder parameters.validTime
  let builder ← addParameterQuery builder parameters.parameter
  let builder ← addLevelQuery builder parameters.level
  let builder ← addDataVersionQuery builder parameters.dataVersion
  let builder ← addLocationQuery builder parameters.location dataSource output
  let builder := ordering.elim builder fun ordering => builder.orderBy (code ordering.text)
  let builder := groupby.elim builder fun groupby => builder.groupBy (code groupby.text)
  builder.str

def build_placeNameQuery (placeName : String) : Text :=
  code ("SELECT st_astext(placegeometry) FROM " ++ wciSchema ++ ".placedefinition_mv p, " ++ wciSchema ++
    ".getSessionData() s WHERE p.placenamespaceid = s.placenamespaceid AND placename ILIKE ") ++
    spliced placeName

end Wdb.Query
