import Wdb.Blob.Files
import Wdb.Lib.Runs
import Wdb.Store.Remove
import Wdb.Store.Write

/-! The statements that write and delete grids, and the transactions that are made of them.

    A statement changes rows and files. The rows belong to the transaction; the files change at once,
    one after the other. Deleting the last grid value of a file makes its row inactive
    (`deleteObsoleteGrids`), and `vacuum_file_blob` removes the files of inactive rows. -/

namespace Wdb.Blob
open Relational Runs Store

/-- What a transaction can undo. -/
structure Tables where
  db : Db
  fileBlob : Table FileBlob FileBlob.clash
  fileIdSeq : ℤ

/-- The tables and the storage directory. -/
structure State extends Tables where
  directory : Directory

/-- `read_file` in a state. -/
def State.readFile (s : State) (id : ℤ) : Option (List UInt8) :=
  Blob.readFile s.fileBlob s.directory id

/-- The statements of grid writes, removals and cleaning. A `DELETE` selects rows by what the tables
    hold, and raises when the selection does. -/
inductive Statement where
  | write (k : Key) (dataversion confidencecode : ℤ) (data : List UInt8) (now : ℤ)
  | writeGid (k : Key) (dataversion confidencecode value now : ℤ)
  | deleteGridvalue (p : Db → Option (GridValue → Bool))
  | deleteFloatvalueitem (p : Db → Option (FloatValueItem → Bool))
  | vacuumFileBlob
  | removeUnreferencedFiles (time : ℤ → ℤ)

/-- `drop_file`. -/
def dropFile (fileBlob : Table FileBlob FileBlob.clash) (id : ℤ) : Table FileBlob FileBlob.clash :=
  fileBlob.update (fun r => r.fileId = id) (fun r => { r with active := false })
    (fun _ _ h => h) (fun _ _ h => h)

/-- `deleteObsoleteGrids`, for one deleted row, when the `DELETE` has left the rows of `db`. -/
def deleteObsoleteGrids (db : Db) (fileBlob : Table FileBlob FileBlob.clash) (old : GridValue) :
    Table FileBlob FileBlob.clash :=
  if db.gridvalue.rows.countP (fun v => v.value = old.value) = 0 then dropFile fileBlob old.value
  else fileBlob

section Step
variable (cat : Catalog)

/-- What a statement does to the rows; `none` when it raises. The overloads of `wci.write` that take
    the bytes reserve an id, insert the grid value, and write the file. -/
def Statement.tables (t : Tables) : Statement → Option Tables
  | .write k dataversion confidencecode _ now =>
    let dataId := t.fileIdSeq
    (writeGrid cat t.db k dataversion confidencecode dataId now).bind fun db =>
    (t.fileBlob.insert ⟨dataId, true⟩).map fun fileBlob =>
      { db := db, fileBlob := fileBlob, fileIdSeq := t.fileIdSeq + 1 }
  | .writeGid k dataversion confidencecode value now =>
    (writeGrid cat t.db k dataversion confidencecode value now).map fun db => { t with db := db }
  | .deleteGridvalue p => (p t.db).map fun p =>
    let (db, _) := deleteGrids t.db p
    { t with
      db := db
      fileBlob := (t.db.gridvalue.rows.filter p).foldl (deleteObsoleteGrids db) t.fileBlob }
  | .deleteFloatvalueitem p => (p t.db).map fun p => { t with db := (deleteItems t.db p).1 }
  | .vacuumFileBlob => some { t with fileBlob := t.fileBlob.delete fun r => ¬ r.active }
  | .removeUnreferencedFiles _ => some t

/-- What a statement does to the files. One that raises has not come to them. -/
def Statement.files (s : State) : Statement → List FileStep
  | .write k dataversion confidencecode data now =>
    match (Statement.write k dataversion confidencecode data now).tables cat s.toTables with
    | some _ => writeFile s.fileIdSeq data now
    | none => []
  | .vacuumFileBlob =>
    (s.fileBlob.rows.filter fun r => ¬ r.active).map fun entry => .remove entry.fileId
  | .removeUnreferencedFiles time =>
    (Blob.removeUnreferencedFiles (s.fileBlob.rows.map (·.fileId)) time s.directory).1
  | _ => []

/-- A statement. -/
def step (s : State) (st : Statement) : Option State :=
  (st.tables cat s.toTables).map fun t =>
    { toTables := t, directory := applyAll s.directory (st.files cat s) }

end Step

/-! ### Programs -/

/-- A call makes statements that depend on the tables it is made in. -/
abbrev Call := Db → List Statement

/-- `wci.remove`. `floats` is what its second read, `wci.read(…, NULL::wci.returnfloat)`, returns. -/
def remove (cat : Catalog) (session : Session) (p : ReadParameters) (location : Arg Location)
    (floats : Db → Option (List (ValueV ℚ))) : Call := fun _ =>
  [.deleteGridvalue fun db => (readGid cat session db p location).map fun q v =>
      decide (v.valueid ∈ q.map (·.valueid)),
    .deleteFloatvalueitem fun db => (floats db).map fun q v =>
      q.any fun r => v.valuegroupid = r.valueid ∧ v.referencetime = r.referencetime]

/-- `cleanupdb`: the cleaning functions in their order, and the final cleanup, in one transaction. -/
def cleanupdb (strategies : List Call) (time : ℤ → ℤ) : List Call :=
  strategies ++ [fun _ => [.vacuumFileBlob], fun _ => [.removeUnreferencedFiles time]]

/-- The statements of a list of calls. -/
def statements (cat : Catalog) : State → List Call → List Statement
  | _, [] => []
  | s, call :: calls =>
    let sts := call s.db
    sts ++ match exec (step cat) s sts with
      | some s' => statements cat s' calls
      | none => []

/-- Without a location, the two statements do what `wci.remove` does. -/
theorem exec_remove (cat : Catalog) (session : Session) (points : ValueV ℤ → Option (List ℚ))
    (p : ReadParameters) (s : State) :
    (exec (step cat) s (remove cat session p .null (readFloat cat session points p) s.db)).map
      (·.db) = (Store.remove cat session points p s.db).map Prod.fst := by
  unfold remove Store.remove removeGrids
  cases hgs : readGid cat session s.db p .null with
  | none => simp [exec, step, Statement.tables, hgs]
  | some gs =>
    simp only [exec, step, Statement.tables, hgs, Option.map_some, Option.bind_some]
    cases readFloat cat session points p
        (deleteGrids s.db fun v => v.valueid ∈ gs.map (·.valueid)).1 with
    | none => rfl
    | some fs => rfl

end Wdb.Blob
