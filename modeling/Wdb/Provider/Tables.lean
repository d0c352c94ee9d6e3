import Wdb.Lib.Table
import Wdb.Lib.NestedSet
import Wdb.Lib.SqlTypes
import Wdb.Session

/-! Data providers: tables, the view `dataprovider_v`, and the calls that change them.

    A data provider has one name per namespace, and the names of a namespace carry a nested-set
    encoding (`dataprovidernameleftset`, `dataprovidernamerightset`) of the provider groups. The
    calls are `wci.addDataProvider`, `wci.addDataProviderToGroup` and `wci.setDataProviderName`. A
    call either returns the new tables or raises (`none`), which undoes everything but `nextval`.
    The column `dataprovidernamevalidto` is left out: it is always `infinity` and nothing reads it. -/

namespace Wdb.Provider
open Relational SqlTypes NestedSet

/-- A row of `dataprovider`. -/
structure DataProvider where
  dataproviderid : ℤ
  dataprovidertype : String
  spatialdomaindelivery : String
  dataproviderlife : ℤ
  dataproviderstoretime : ℤ
  deriving DecidableEq

/-- A row of `dataprovidername`. -/
structure DataProviderName where
  dataproviderid : ℤ
  dataprovidernamespaceid : ℤ
  dataprovidername : String
  dataprovidernamevalidfrom : ℤ
  dataprovidernameleftset : ℤ
  dataprovidernamerightset : ℤ
  deriving DecidableEq

/-- A row of `dataprovidercomment`. -/
structure DataProviderComment where
  dataproviderid : ℤ
  dataprovidercomment : String
  dataprovidercommentstoretime : ℤ
  deriving DecidableEq

/-- `dataprovider_pkey`. -/
def DataProvider.clash (a b : DataProvider) : Prop := a.dataproviderid = b.dataproviderid

/-- `dataprovidername_pkey` and `dataprovidername_skey`. -/
def DataProviderName.clash (a b : DataProviderName) : Prop :=
  (a.dataproviderid = b.dataproviderid ∧ a.dataprovidernamespaceid = b.dataprovidernamespaceid) ∨
  (a.dataprovidernamespaceid = b.dataprovidernamespaceid ∧
    a.dataprovidername = b.dataprovidername ∧
    a.dataprovidernamevalidfrom = b.dataprovidernamevalidfrom)

/-- `dataprovidercomment_pkey`. -/
def DataProviderComment.clash (a b : DataProviderComment) : Prop :=
  a.dataproviderid = b.dataproviderid ∧
    a.dataprovidercommentstoretime = b.dataprovidercommentstoretime

instance : DecidableRel DataProvider.clash := fun _ _ => inferInstanceAs (Decidable (_ = _))
instance : DecidableRel DataProviderName.clash := fun _ _ => inferInstanceAs (Decidable (_ ∨ _))
instance : DecidableRel DataProviderComment.clash := fun _ _ => inferInstanceAs (Decidable (_ ∧ _))

/-- The nested-set interval of a name. -/
def DataProviderName.span (n : DataProviderName) : Span :=
  ⟨n.dataprovidernameleftset, n.dataprovidernamerightset⟩

/-- The provider tables, the sequence behind `dataproviderid`, and the registered namespaces. -/
structure Db where
  dataprovider : Table DataProvider DataProvider.clash
  dataprovidername : Table DataProviderName DataProviderName.clash
  dataprovidercomment : Table DataProviderComment DataProviderComment.clash
  dataproviderSeq : ℤ
  namespaces : List ℤ

/-- No providers yet. -/
def Db.empty (namespaces : List ℤ) : Db := ⟨.empty, .empty, .empty, 1, namespaces⟩

/-- A row of `dataprovider_v`. -/
structure DataProviderV where
  dataproviderid : ℤ
  dataprovidertype : String
  spatialdomaindelivery : String
  dataprovidernamespaceid : ℤ
  dataprovidername : String
  dataprovidernameleftset : ℤ
  dataprovidernamerightset : ℤ
  dataproviderstoretime : ℤ
  dataprovidercomment : String
  deriving DecidableEq

/-- The comment is the newest of its provider. -/
def Db.newestComment (db : Db) (c : DataProviderComment) : Prop :=
  ∀ d ∈ db.dataprovidercomment.rows, d.dataproviderid = c.dataproviderid →
    d.dataprovidercommentstoretime ≤ c.dataprovidercommentstoretime

instance (db : Db) (c : DataProviderComment) : Decidable (db.newestComment c) :=
  inferInstanceAs (Decidable (∀ d ∈ _, _))

/-- The view `dataprovider_v`: every name with its provider and the newest comment. -/
def dataproviderV (db : Db) : List DataProviderV :=
  db.dataprovider.rows.flatMap fun dp =>
    (db.dataprovidername.rows.filter fun dn => dp.dataproviderid = dn.dataproviderid).flatMap fun dn =>
      (db.dataprovidercomment.rows.filter fun dc =>
        dp.dataproviderid = dc.dataproviderid ∧ db.newestComment dc).map fun dc =>
          { dataproviderid := dp.dataproviderid
            dataprovidertype := dp.dataprovidertype
            spatialdomaindelivery := dp.spatialdomaindelivery
            dataprovidernamespaceid := dn.dataprovidernamespaceid
            dataprovidername := dn.dataprovidername
            dataprovidernameleftset := dn.dataprovidernameleftset
            dataprovidernamerightset := dn.dataprovidernamerightset
            dataproviderstoretime := dp.dataproviderstoretime
            dataprovidercomment := dc.dataprovidercomment }

/-- `SELECT … INTO … FROM dataprovider_v` by name and namespace: the first row found. -/
def findDataProvider (db : Db) (name : String) (ns : ℤ) : Option DataProviderV :=
  (dataproviderV db).find? fun v =>
    v.dataprovidername = lower name ∧ v.dataprovidernamespaceid = ns

/-- The `CHECK` constraints of `dataprovider`. -/
def dataproviderCheck (dataprovidertype spatialdomaindelivery : String) : Bool :=
  dataprovidertype ∈ ["aeroplane", "computer system", "data provider group",
    "named observation site", "organization", "person", "ship", "wci user"] &&
  spatialdomaindelivery ∈ ["any", "grid", "point"]

/-- `INSERT INTO dataprovider`. -/
def insertDataProvider (db : Db) (p : DataProvider) : Option Db :=
  if dataproviderCheck p.dataprovidertype p.spatialdomaindelivery then
    (db.dataprovider.insert p).map fun t => { db with dataprovider := t }
  else none

/-- `INSERT INTO dataprovidercomment`: the provider must exist. -/
def insertComment (db : Db) (dpid : ℤ) (comment : String) (now : ℤ) : Option Db :=
  if ∃ p ∈ db.dataprovider.rows, p.dataproviderid = dpid then
    (varchar 255 comment).bind fun c =>
      (db.dataprovidercomment.insert ⟨dpid, c, now⟩).map fun t => { db with dataprovidercomment := t }
  else none

/-- `INSERT INTO dataprovidername`: provider and namespace must exist. -/
def insertName (db : Db) (dpid ns : ℤ) (name : String) (today left right : ℤ) : Option Db :=
  if (∃ p ∈ db.dataprovider.rows, p.dataproviderid = dpid) ∧ ns ∈ db.namespaces then
    (varchar 255 name).bind fun n =>
      (db.dataprovidername.insert ⟨dpid, ns, n, today, left, right⟩).map fun t =>
        { db with dataprovidername := t }
  else none

/-- `UPDATE dataprovidername SET f WHERE p`, for bounds only. -/
def updateName (db : Db) (p : DataProviderName → Bool) (l r : DataProviderName → ℤ) : Db :=
  { db with
    dataprovidername := db.dataprovidername.update p
      (fun n => { n with dataprovidernameleftset := l n, dataprovidernamerightset := r n })
      (fun _ _ h => h) (fun _ _ h => h) }

/-- `wci.addDataProvider`. The name is looked up as given and stored without surrounding blanks. -/
def addDataProvider (db : Db) (session : Session) (now today : ℤ)
    (dataProviderName_ dataProviderType_ domainDelivery_ : String) (lifeCycle_ : ℤ)
    (dataProviderComment_ : String) : Option Db :=
  match findDataProvider db dataProviderName_ session.dataprovidernamespaceid with
  | none =>
    let dpid := db.dataproviderSeq
    (insertDataProvider { db with dataproviderSeq := dpid + 1 }
      ⟨dpid, lower dataProviderType_, lower domainDelivery_, lifeCycle_, now⟩).bind fun db₁ =>
    (insertComment db₁ dpid dataProviderComment_ now).bind fun db₂ =>
      -- the greatest right bound of all namespaces, 0 when there is none
      let gpid := ((dataproviderV db₂).map (·.dataprovidernamerightset)).max?.getD 0
      insertName db₂ dpid session.dataprovidernamespaceid (lower (btrim dataProviderName_)) today
        (gpid + 1) (gpid + 2)
  | some v =>
    if dataproviderCheck (lower dataProviderType_) (lower domainDelivery_) then
      let db₁ := { db with
        dataprovider := db.dataprovider.update (fun p => p.dataproviderid = v.dataproviderid)
          (fun p => { p with
            dataprovidertype := lower dataProviderType_
            spatialdomaindelivery := lower domainDelivery_
            dataproviderlife := lifeCycle_
            dataproviderstoretime := now })
          (fun _ _ h => h) (fun _ _ h => h) }
      insertComment db₁ v.dataproviderid dataProviderComment_ now
    else none

/-- The four `UPDATE` statements of `wci.addDataProviderToGroup`, for the provider `dpid` and the
    group `gpid` whose right bound was read as `gprgt`. The first has no condition on the namespace
    and moves the left bound of every row that ends to the right of `gprgt`. -/
def moveToGroup (db : Db) (ns dpid gpid gprgt : ℤ) : Db :=
  let db₁ := updateName db (fun n => gprgt < n.dataprovidernamerightset)
    (fun n => n.dataprovidernameleftset + 2) (fun n => n.dataprovidernamerightset + 2)
  let db₂ := updateName db₁ (fun n => n.dataprovidernamespaceid = ns ∧ n.dataproviderid = gpid)
    (fun n => n.dataprovidernameleftset) (fun n => n.dataprovidernamerightset + 2)
  let db₃ := updateName db₂ (fun n => n.dataprovidernamespaceid = ns ∧ n.dataproviderid = dpid)
    (fun _ => gprgt) (fun n => n.dataprovidernamerightset)
  updateName db₃ (fun n => n.dataprovidernamespaceid = ns ∧ n.dataproviderid = dpid)
    (fun n => n.dataprovidernameleftset) (fun _ => gprgt + 1)

/-- `wci.addDataProviderToGroup`. -/
def addDataProviderToGroup (db : Db) (session : Session)
    (dataProviderName_ dataProviderGroup_ : String) : Option Db :=
  (findDataProvider db dataProviderName_ session.dataprovidernamespaceid).bind fun d =>
  (findDataProvider db dataProviderGroup_ session.dataprovidernamespaceid).map fun g =>
    moveToGroup db session.dataprovidernamespaceid d.dataproviderid g.dataproviderid
      g.dataprovidernamerightset

/-- `wci.setDataProviderName`. The id passes through an `int` variable; the greatest right bound of
    an empty namespace is `NULL`, which the columns refuse. -/
def setDataProviderName (db : Db) (session : Session) (today : ℤ) (fromNameSpaceId_ : ℤ)
    (fromName_ dataProviderName_ : String) : Option Db :=
  let ns := session.dataprovidernamespaceid
  (findDataProvider db fromName_ fromNameSpaceId_).bind fun v =>
    if -2 ^ 31 ≤ v.dataproviderid ∧ v.dataproviderid < 2 ^ 31 then
      let db₁ := { db with
        dataprovidername := db.dataprovidername.delete fun n =>
          n.dataprovidernamespaceid = ns ∧ n.dataproviderid = v.dataproviderid }
      (((dataproviderV db₁).filter fun w => w.dataprovidernamespaceid = ns).map
        (·.dataprovidernamerightset)).max?.bind fun gpid =>
          insertName db₁ v.dataproviderid ns (lower dataProviderName_) today (gpid + 1) (gpid + 2)
    else none

/-- `wci.getdataprovidersingroup`: the names within the interval of the names asked for, ordered by
    `dataproviderid`. -/
def getDataProvidersInGroup (db : Db) (session : Session) (dataprovidername : String) :
    List String :=
  let ns := session.dataprovidernamespaceid
  let rows := (db.dataprovidername.rows.filter fun pb =>
    pb.dataprovidernamespaceid = ns ∧ pb.dataprovidername = dataprovidername).flatMap fun pb =>
      db.dataprovidername.rows.filter fun p =>
        p.dataprovidernamespaceid = ns ∧
          p.dataprovidernameleftset ≥ pb.dataprovidernameleftset ∧
          p.dataprovidernamerightset ≤ pb.dataprovidernamerightset
  (rows.mergeSort fun p q => p.dataproviderid ≤ q.dataproviderid).map (·.dataprovidername)

/-- A call, with the namespaces of its session and the clock of its transaction. -/
inductive Call where
  | addDataProvider (session : Session) (now today : ℤ) (name type domain : String) (life : ℤ)
      (comment : String)
  | addDataProviderToGroup (session : Session) (name group : String)
  | setDataProviderName (session : Session) (today fromNamespace : ℤ) (fromName name : String)

/-- The tables after a call that succeeds. -/
def exec (db : Db) : Call → Option Db
  | .addDataProvider session now today name type domain life comment =>
    addDataProvider db session now today name type domain life comment
  | .addDataProviderToGroup session name group => addDataProviderToGroup db session name group
  | .setDataProviderName session today fromNamespace fromName name =>
    setDataProviderName db session today fromNamespace fromName name

/-- The tables after a call that raises: only an id drawn by `nextval` is lost. -/
def failed (db : Db) : Call → Db
  | .addDataProvider session _ _ name _ _ _ _ =>
    match findDataProvider db name session.dataprovidernamespaceid with
    | none => { db with dataproviderSeq := db.dataproviderSeq + 1 }
    | some _ => db
  | _ => db

/-- The tables after a call. -/
def step (db : Db) (c : Call) : Db := (exec db c).getD (failed db c)

end Wdb.Provider
