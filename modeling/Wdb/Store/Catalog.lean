import Wdb.Session

/-! The keys of stored values, and the catalog that gives them names.

    Grid and float values share the columns of a `Series`; with the instants they make a `Key`. The
    views `gridvalue_v` and `floatvalue_v` join a value with the materialized views of the data
    provider, place and parameter names, once for every name the session's namespaces know. The
    materialized views are refreshed by triggers outside this model, so that they hold any rows. -/

namespace Wdb.Store

/-- The columns that identify what is measured, shared by `gridvalue` and `floatvaluegroup`. -/
structure Series where
  dataproviderid : ℤ
  placeid : ℤ
  validtimeindeterminatecode : ℤ
  valueparameterid : ℤ
  levelparameterid : ℤ
  levelfrom : ℚ
  levelto : ℚ
  levelindeterminatecode : ℤ
  deriving DecidableEq

/-- The key of a value: its series and its instants. -/
structure Key extends Series where
  referencetime : ℤ
  validtimefrom : ℤ
  validtimeto : ℤ
  deriving DecidableEq

/-- A row of `dataprovider_mv`. -/
structure DataProviderMv where
  dataproviderid : ℤ
  dataprovidernamespaceid : ℤ
  dataprovidername : String
  dataprovidernameleftset : ℤ
  dataprovidernamerightset : ℤ
  deriving DecidableEq

/-- A `timestamptz` that may be infinite. -/
inductive Timestamp where
  | negInfinity | at (t : ℤ) | infinity
  deriving DecidableEq

/-- `b <= t`. -/
def Timestamp.le : Timestamp → ℤ → Bool
  | .negInfinity, _ => true
  | .at b, t => b ≤ t
  | .infinity, _ => false

/-- `b > t`. -/
def Timestamp.gt : Timestamp → ℤ → Bool
  | .negInfinity, _ => false
  | .at b, t => b > t
  | .infinity, _ => true

/-- `b <= c`. -/
def Timestamp.leq : Timestamp → Timestamp → Bool
  | .negInfinity, _ => true
  | _, .infinity => true
  | .at b, .at c => b ≤ c
  | _, _ => false

instance : LinearOrder Timestamp where
  le b c := b.leq c
  le_refl b := by cases b <;> simp [Timestamp.leq]
  le_trans a b c hab hbc := by
    cases a <;> cases b <;> cases c <;> simp_all [Timestamp.leq]
    exact hab.trans hbc
  le_antisymm a b hab hba := by
    cases a <;> cases b <;> simp_all [Timestamp.leq]
    exact le_antisymm hab hba
  le_total a b := by
    cases a <;> cases b <;> simp [Timestamp.leq, le_total]
  toDecidableLE b c := inferInstanceAs (Decidable (b.leq c = true))

@[simp] theorem Timestamp.le_iff (b : Timestamp) (t : ℤ) : b.le t = true ↔ b ≤ .at t := by
  change b.le t = true ↔ b.leq (.at t) = true
  cases b <;> simp [Timestamp.le, Timestamp.leq]

@[simp] theorem Timestamp.gt_iff (b : Timestamp) (t : ℤ) : b.gt t = true ↔ .at t < b := by
  rw [← not_le]
  change b.gt t = true ↔ ¬ b.leq (.at t) = true
  cases b <;> simp [Timestamp.gt, Timestamp.leq]

/-- A row of `placedefinition_mv`. A geometry is its text. -/
structure PlaceDefinitionMv where
  placeid : ℤ
  placenamespaceid : ℤ
  placename : String
  placenamevalidfrom : Timestamp
  placenamevalidto : Timestamp
  placegeometry : String
  originalsrid : ℤ
  deriving DecidableEq

/-- A row of `parameter_mv`. -/
structure ParameterMv where
  parameterid : ℤ
  parameternamespaceid : ℤ
  parametername : String
  unitname : String
  deriving DecidableEq

/-- A row of `placename_v`. -/
structure PlaceNameV where
  placeid : ℤ
  placenamespaceid : ℤ
  placename : String
  deriving DecidableEq

/-- The PostGIS predicates that location queries use: `equals` of a WKT text and a geometry, and
    `st_dwithin` of the two, within one unit of the spatial reference system. -/
structure PostGis where
  equals : String → String → Bool
  stDwithin : String → String → ℤ → Bool

/-- The catalog: name views, PostGIS, and the ids that the foreign keys of the value tables refer
    to. -/
structure Catalog where
  dataproviderMv : List DataProviderMv
  placedefinitionMv : List PlaceDefinitionMv
  parameterMv : List ParameterMv
  placenameV : List PlaceNameV
  postgis : PostGis
  dataprovider : List ℤ
  placedefinition : List ℤ
  timeindeterminatetype : List ℤ
  parameter : List ℤ
  levelindeterminatetype : List ℤ
  qualityconfidencecode : List ℤ

/-- The foreign keys of a series. -/
def Catalog.refers (cat : Catalog) (s : Series) : Prop :=
  s.dataproviderid ∈ cat.dataprovider ∧ s.placeid ∈ cat.placedefinition ∧
  s.validtimeindeterminatecode ∈ cat.timeindeterminatetype ∧
  s.valueparameterid ∈ cat.parameter ∧ s.levelparameterid ∈ cat.parameter ∧
  s.levelindeterminatecode ∈ cat.levelindeterminatetype

instance (cat : Catalog) (s : Series) : Decidable (cat.refers s) :=
  inferInstanceAs (Decidable (_ ∧ _))

/-- The rows of the name views that one row of a value view is joined from. -/
structure Names where
  dp : DataProviderMv
  pl : PlaceDefinitionMv
  vp : ParameterMv
  lp : ParameterMv
  deriving DecidableEq

/-- The join of `gridvalue_v` and `floatvalue_v`: every combination of names that the namespaces of
    the session give to a series at a reference time. -/
def Catalog.names (cat : Catalog) (session : Session) (s : Series) (referencetime : ℤ) :
    List Names :=
  (cat.dataproviderMv.filter fun dp =>
      dp.dataprovidernamespaceid = session.dataprovidernamespaceid ∧
      s.dataproviderid = dp.dataproviderid).flatMap fun dp =>
    (cat.placedefinitionMv.filter fun pl =>
        pl.placenamespaceid = session.placenamespaceid ∧ s.placeid = pl.placeid ∧
        pl.placenamevalidfrom.le referencetime ∧
        pl.placenamevalidto.gt referencetime).flatMap fun pl =>
      (cat.parameterMv.filter fun vp =>
          vp.parameternamespaceid = session.parameternamespaceid ∧
          s.valueparameterid = vp.parameterid).flatMap fun vp =>
        (cat.parameterMv.filter fun lp =>
            lp.parameternamespaceid = session.parameternamespaceid ∧
            s.levelparameterid = lp.parameterid).map fun lp =>
          ⟨dp, pl, vp, lp⟩

/-- No session has names for a series at a reference time. -/
def Catalog.Unnamed (cat : Catalog) (s : Series) (referencetime : ℤ) : Prop :=
  ∀ session, cat.names session s referencetime = []

/-- A catalog with one name for everything in namespace 1. -/
def oneName : Catalog where
  dataproviderMv := [⟨1, 1, "provider", 1, 2⟩]
  placedefinitionMv := [⟨1, 1, "place", .negInfinity, .infinity, "POINT(10 60)", 4030⟩]
  parameterMv := [⟨1, 1, "air temperature", "K"⟩]
  placenameV := [⟨1, 1, "place"⟩]
  postgis := ⟨fun _ _ => false, fun _ _ _ => false⟩
  dataprovider := [1]
  placedefinition := [1]
  timeindeterminatetype := [0]
  parameter := [1]
  levelindeterminatetype := [0]
  qualityconfidencecode := [0]

/-- The session of namespace 1, in UTC. -/
def oneSession : Session := ⟨1, 1, 1, ⟨0, []⟩⟩

end Wdb.Store
