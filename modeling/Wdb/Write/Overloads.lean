import Wdb.Blob.Statements
import Wdb.Place.Tables
import Wdb.Write.ParameterType

/-! The overloads of `wci.write`.

    Every overload looks up the data provider, the place and the two parameters, determines the data
    version, and inserts a row into a value view. The forms that take the bytes of a grid verify their
    number first and write a file at the end. Any step may raise, and then the call has no effect. -/

namespace Wdb.Write
open Relational SqlTypes Store Blob

/-- What the overloads read besides the value tables. -/
structure Environment where
  cat : Catalog
  session : Session
  user : String
  /-- The column `dataprovidertype` of `dataprovider_mv`. -/
  dataprovidertype : ℤ → String
  placeregulargridV : List Place.PlaceRegularGridV

/-- The arguments that all forms have, `none` being `NULL`. -/
structure Arguments where
  placename : Option String
  referencetime : Option ℤ
  validfrom : Option ℤ
  validto : Option ℤ
  valueparameter : Option String
  levelparameter : Option String
  levelfrom : Option ℚ
  levelto : Option ℚ
  deriving DecidableEq

/-- The value of an `integer`; `none` is `integer out of range`. -/
def integer (n : ℤ) : Option ℤ := if -2 ^ 31 ≤ n ∧ n < 2 ^ 31 then some n else none

/-! ### Look-ups -/

section Lookups
variable (env : Environment)

/-- `wcidataproviderid`: the data provider of the user, in whatever namespace. -/
def wcidataproviderid : Option ℤ :=
  (env.cat.dataproviderMv.find? fun dp =>
    dp.dataprovidername = env.user ∧ env.dataprovidertype dp.dataproviderid = "wci user").map
      (·.dataproviderid)

/-- `idFromDataProvider`: the data provider of the name in the session's namespace. -/
def idFromDataProvider (providerName : Option String) : Option ℤ :=
  (env.cat.dataproviderMv.find? fun dp => some dp.dataprovidername = providerName ∧
    dp.dataprovidernamespaceid = env.session.dataprovidernamespaceid).map (·.dataproviderid)

/-- `getPlaceId`. -/
def getPlaceId (name_ : Option String) (at_time : Option ℤ) : Option ℤ := do
  let name_ ← name_
  let at_time ← at_time
  (env.cat.placedefinitionMv.find? fun p =>
    p.placenamespaceid = env.session.placenamespaceid ∧ p.placename = lower name_ ∧
    p.placenamevalidfrom.le at_time ∧ p.placenamevalidto.gt at_time).map (·.placeid)

/-- `getValueParameterId` and `getLevelParameterId`. -/
def getParameterId (parameter : Option String) : Option ℤ :=
  (env.cat.parameterMv.find? fun p => some p.parametername = parameter ∧
    p.parameternamespaceid = env.session.parameternamespaceid).map (·.parameterid)

/-- `normalizeParameter` and `normalizeLevelParameter`, which are strict. -/
def normalize (type : String → Option String) : Option String → Option (Option String)
  | none => some none
  | some parameter => (type parameter).map some

/-- `verifyBlobSize`. A `NULL` size differs from nothing. -/
def verifyBlobSize (value : Option (List UInt8)) (placename_ : Option String) : Option Unit :=
  match env.placeregulargridV.find? fun g => some g.placename = placename_ ∧
      g.placenamespaceid = env.session.placenamespaceid with
  | none => some ()
  | some g => do
    let specSize ← integer (g.numberx * g.numbery)
    match value with
    | none => some ()
    | some value => if toReal ((value.length : ℚ) / 4) = some (specSize : ℚ) then some () else none

/-- The key of the row that is inserted, for a data provider and a place; every part of it has to be
    there, for no column may be `NULL`. -/
def Arguments.key (a : Arguments) (dataproviderid placeid : ℤ) : Option Key := do
  let valueparameterid ← getParameterId env (← normalize valueParameterType a.valueparameter)
  let levelparameterid ← getParameterId env (← normalize levelParameterType a.levelparameter)
  let levelfrom ← a.levelfrom
  let levelto ← a.levelto
  let referencetime ← a.referencetime
  let validtimefrom ← a.validfrom
  let validtimeto ← a.validto
  return ⟨⟨dataproviderid, placeid, 0, valueparameterid, levelparameterid, levelfrom, levelto, 0⟩,
    referencetime, validtimefrom, validtimeto⟩

end Lookups

/-! ### The data version -/

/-- The row of a view is of the key, whatever its indeterminate codes. -/
def sameColumns (k v : Key) : Bool :=
  v.dataproviderid = k.dataproviderid && v.referencetime = k.referencetime && v.placeid = k.placeid &&
    v.valueparameterid = k.valueparameterid && v.levelparameterid = k.levelparameterid &&
    v.levelfrom = k.levelfrom && v.levelto = k.levelto &&
    v.validtimefrom = k.validtimefrom && v.validtimeto = k.validtimeto

/-- `SELECT max(dataversion) INTO currentVersion_`. -/
def currentVersion {β : Type} (view : List (ValueV β)) (k : Key) : Option ℤ :=
  ((view.filter fun v => sameColumns k v.toKey).map (·.dataversion)).max?

/-- The version after the current one. -/
def nextVersion : Option ℤ → Option ℤ
  | none => some 0
  | some currentVersion_ => integer (currentVersion_ + 1)

/-- The version given, unless it is `NULL` or negative. -/
def determineVersion (current : Option ℤ) : Option ℤ → Option ℤ
  | none => nextVersion current
  | some currentVersion_ => if currentVersion_ < 0 then nextVersion current else some currentVersion_

/-! ### The forms for grids -/

section Forms
variable (env : Environment) (s : State)

/-- The grid form with limited specification. -/
def gridLimited (data : Option (List UInt8)) (a : Arguments) (now : ℤ) : Option State := do
  let myDataProviderId_ ← wcidataproviderid env
  let placeid_ ← getPlaceId env a.placename a.referencetime
  let k ← a.key env myDataProviderId_ placeid_
  verifyBlobSize env data a.placename
  let currentVersion_ ← nextVersion (currentVersion (gridvalueV env.cat env.session s.db) k)
  step env.cat s (.write k currentVersion_ 0 (← data) now)

/-- The grid form with all parameters specified. -/
def gridAll (data : Option (List UInt8)) (dataproviderName_ : Option String) (a : Arguments)
    (dataVersion_ setConfidenceCode_ : Option ℤ) (now : ℤ) : Option State := do
  let dataProviderId_ ← idFromDataProvider env dataproviderName_
  let placeid_ ← getPlaceId env a.placename a.referencetime
  let k ← a.key env dataProviderId_ placeid_
  verifyBlobSize env data a.placename
  let currentVersion_ ← determineVersion (currentVersion (gridvalueV env.cat env.session s.db) k)
    dataVersion_
  step env.cat s (.write k currentVersion_ (setConfidenceCode_.getD 0) (← data) now)

/-- The instants that the declarations of the form with a grid id may name: its parameters. -/
def Arguments.instants (a : Arguments) : List (String × Option ℤ) :=
  [("referencetime_", a.referencetime), ("validfrom_", a.validfrom), ("validto_", a.validto)]

/-- The grid form with a grid id. The declaration of `placeid_` names `referencetime`; an expression
    with a name that is no parameter raises. -/
def gridIdAll (gridId_ : Option ℤ) (dataproviderName_ : Option String) (a : Arguments)
    (dataVersion_ setConfidenceCode_ : Option ℤ) (now : ℤ) : Option State := do
  let dataProviderId_ ← idFromDataProvider env dataproviderName_
  let placeid_ ← getPlaceId env a.placename (← a.instants.lookup "referencetime")
  let k ← a.key env dataProviderId_ placeid_
  let currentVersion_ ← determineVersion (currentVersion (gridvalueV env.cat env.session s.db) k)
    dataVersion_
  step env.cat s (.writeGid k currentVersion_ (setConfidenceCode_.getD 0) (← gridId_) now)

/-- The form with a `wci.returnGid`: its `value`, `dataProviderName` and `dataVersion`, and the fields
    that the other forms have as arguments. -/
def gridReturnGid (value : Option ℤ) (dataProviderName : Option String) (what : Arguments)
    (dataVersion : Option ℤ) (now : ℤ) : Option State := do
  let dataProviderId_ ← idFromDataProvider env dataProviderName
  let placeid_ ← getPlaceId env what.placename what.referencetime
  let k ← what.key env dataProviderId_ placeid_
  let currentVersion_ ← determineVersion (currentVersion (gridvalueV env.cat env.session s.db) k)
    dataVersion
  step env.cat s (.writeGid k currentVersion_ 0 (← value) now)

/-- `reserve_file_id`, `write_file` and then the form with a grid id. -/
def reserveAndWrite (data : Option (List UInt8)) (dataproviderName_ : Option String) (a : Arguments)
    (dataVersion_ setConfidenceCode_ : Option ℤ) (now : ℤ) : Option State := do
  let gridId := s.fileIdSeq
  let fileBlob ← s.fileBlob.insert ⟨gridId, true⟩
  let written : State :=
    { s with
      fileBlob := fileBlob
      fileIdSeq := s.fileIdSeq + 1
      directory := applyAll s.directory (writeFile gridId (← data) now) }
  gridIdAll env written (some gridId) dataproviderName_ a dataVersion_ setConfidenceCode_ now

/-! ### The forms for floats -/

/-- The state with other value tables. -/
def withDb (db : Db) : State := { s with db := db }

/-- The float form with limited specification. -/
def floatLimited (value_ : Option ℚ) (a : Arguments) (now : ℤ) : Option State := do
  let myDataProviderId_ ← wcidataproviderid env
  let placeid_ ← getPlaceId env a.placename a.referencetime
  let k ← a.key env myDataProviderId_ placeid_
  let currentVersion_ ← nextVersion (currentVersion (floatvalueV env.cat env.session s.db) k)
  return withDb s (← writeFloat env.cat s.db env.session k currentVersion_ 0 (← value_) now)

/-- The float form with all parameters specified. -/
def floatAll (value_ : Option ℚ) (dataproviderName_ : Option String) (a : Arguments)
    (dataVersion_ setConfidenceCode_ : Option ℤ) (now : ℤ) : Option State := do
  let dataProviderId_ ← idFromDataProvider env dataproviderName_
  let placeid_ ← getPlaceId env a.placename a.referencetime
  let k ← a.key env dataProviderId_ placeid_
  let currentVersion_ ← determineVersion (currentVersion (floatvalueV env.cat env.session s.db) k)
    dataVersion_
  return withDb s (← writeFloat env.cat s.db env.session k currentVersion_
    (setConfidenceCode_.getD 0) (← value_) now)

end Forms

end Wdb.Write
