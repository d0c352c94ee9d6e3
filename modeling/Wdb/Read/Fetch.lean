import Wdb.Place.GridCalls
import Wdb.Place.Sync
import Wdb.Write.Agree

/-! `wci.fetch` in the states that place functions and writes lead to.

    The function takes the place of the first row that `gridvalue_v` shows for the blob, and wants
    exactly one row of it in `placeregulargrid_mv`, which has one for every name and period of a place.
    Besides the tables, a state records what was written to each file; nothing reads the record. -/

namespace Wdb.Fetch
open SqlTypes Store Blob Place

/-! ### The states -/

/-- What the calls do not change: PostGIS, the catalog but for its places, and the types of the data
    providers. -/
structure Server where
  gis : Gis
  cat : Catalog
  dataprovidertype : ℤ → String

/-- Places, values and files. `written` has the bytes that were written to a file id. -/
structure World where
  places : PlaceDb
  blobs : Blob.State
  written : List (ℤ × List UInt8)

/-- The columns of `placedefinition_mv` that the views of values join with. -/
def placeColumns (v : PlaceDefinitionV) : PlaceDefinitionMv :=
  ⟨v.placeid, v.placenamespaceid, v.placename, v.placenamevalidfrom, v.placenamevalidto,
    v.placegeometry, v.originalsrid⟩

section World
variable (server : Server) (w : World)

/-- The catalog, with the places of the state. -/
def World.catalog : Catalog :=
  { server.cat with
    placedefinitionMv := w.places.placedefinitionMv.map placeColumns
    placenameV := w.places.tables.placename.rows.map fun pn =>
      ⟨pn.placeid, pn.placenamespaceid, pn.placename⟩
    placedefinition := w.places.tables.placedefinition.rows.map (·.placeid) }

/-- What a write of a user finds in a session. -/
def World.environment (session : Session) (user : String) : Write.Environment where
  cat := w.catalog server
  session := session
  user := user
  dataprovidertype := server.dataprovidertype
  placeregulargridV := w.places.tables.placeregulargridV server.gis

end World

/-- The wci functions on places. -/
def IsFunction : Operation → Prop
  | .addPlacePoint .. | .addPlacePointFromToday .. | .addOrUpdatePlacePoint .. | .addPlacePolygon ..
  | .addOrUpdatePlacePolygon .. | .addPlaceRegularGrid .. | .setPlaceName .. => True
  | _ => False

/-- The calls: place functions, and the overloads of `wci.write`. -/
inductive Call where
  | place (op : Operation) (isFunction : IsFunction op)
  | gridLimited (session : Session) (user : String) (data : Option (List UInt8))
      (a : Write.Arguments) (now : ℤ)
  | gridAll (session : Session) (user : String) (data : Option (List UInt8))
      (dataproviderName_ : Option String) (a : Write.Arguments)
      (dataVersion_ setConfidenceCode_ : Option ℤ) (now : ℤ)
  | gridIdAll (session : Session) (user : String) (gridId_ : Option ℤ)
      (dataproviderName_ : Option String) (a : Write.Arguments)
      (dataVersion_ setConfidenceCode_ : Option ℤ) (now : ℤ)
  | gridReturnGid (session : Session) (user : String) (value : Option ℤ)
      (dataProviderName : Option String) (what : Write.Arguments) (dataVersion : Option ℤ) (now : ℤ)
  | floatLimited (session : Session) (user : String) (value_ : Option ℚ) (a : Write.Arguments)
      (now : ℤ)
  | floatAll (session : Session) (user : String) (value_ : Option ℚ)
      (dataproviderName_ : Option String) (a : Write.Arguments)
      (dataVersion_ setConfidenceCode_ : Option ℤ) (now : ℤ)

section Step
variable (server : Server) (w : World)

/-- The state after the tables and files of the values have changed. -/
def World.withBlobs (blobs : Blob.State) : World := { w with blobs := blobs }

/-- The state after the bytes were written to the file id that was reserved. -/
def World.wrote (data : Option (List UInt8)) (blobs : Blob.State) : World :=
  { w with blobs := blobs, written := w.written ++ [(w.blobs.fileIdSeq, data.getD [])] }

/-- The state after a call; `none` when it raises. -/
def Call.perform : Call → Option World
  | .place op _ => (op.perform server.gis w.places).map fun places => { w with places := places }
  | .gridLimited session user data a now =>
    (Write.gridLimited (w.environment server session user) w.blobs data a now).map (w.wrote data)
  | .gridAll session user data name a dataVersion_ setConfidenceCode_ now =>
    (Write.gridAll (w.environment server session user) w.blobs data name a dataVersion_
      setConfidenceCode_ now).map (w.wrote data)
  | .gridIdAll session user gridId_ name a dataVersion_ setConfidenceCode_ now =>
    (Write.gridIdAll (w.environment server session user) w.blobs gridId_ name a dataVersion_
      setConfidenceCode_ now).map w.withBlobs
  | .gridReturnGid session user value name what dataVersion now =>
    (Write.gridReturnGid (w.environment server session user) w.blobs value name what dataVersion
      now).map w.withBlobs
  | .floatLimited session user value_ a now =>
    (Write.floatLimited (w.environment server session user) w.blobs value_ a now).map w.withBlobs
  | .floatAll session user value_ name a dataVersion_ setConfidenceCode_ now =>
    (Write.floatAll (w.environment server session user) w.blobs value_ name a dataVersion_
      setConfidenceCode_ now).map w.withBlobs

/-- A call that raises leaves everything as it was. -/
def World.step (call : Call) : World := (call.perform server w).getD w

end Step

/-- Places, and no values or files yet. -/
def World.start (places : PlaceDb) : World := ⟨places, ⟨⟨Db.empty, .empty, 1⟩, .empty⟩, []⟩

/-! ### The function -/

/-- The cast of an `integer` to `real`, which does not fail. -/
def castReal (n : ℤ) : ℚ := (toReal n).getD 0

/-- `wci.grid`. -/
structure Grid where
  grid : List UInt8
  numberX : ℚ
  numberY : ℚ
  incrementX : ℚ
  incrementY : ℚ
  startX : ℚ
  startY : ℚ
  projDefinition : String
  deriving DecidableEq

/-- The object that is returned, with what `placeinfo_` holds. -/
def packed (grid : List UInt8) (placeinfo_ : PlaceRegularGridV) : Grid where
  grid := grid
  numberX := castReal placeinfo_.numberx
  numberY := castReal placeinfo_.numbery
  incrementX := placeinfo_.incrementx
  incrementY := placeinfo_.incrementy
  startX := placeinfo_.startx
  startY := placeinfo_.starty
  projDefinition := placeinfo_.projdefinition

section Fetch
variable (server : Server) (w : World) (session : Session)

/-- `SELECT placeid INTO placeid_`: the place of the first row that is shown for a blob. -/
def placeOf (gridid : ℤ) : Option ℤ :=
  ((gridvalueV (w.catalog server) session w.blobs.db).find? fun v => v.value = gridid).map (·.placeid)

/-- The rows of a place in `placeregulargrid_mv`, in the session's namespace. -/
def placeInfo (placeid_ : Option ℤ) : List PlaceRegularGridV :=
  w.places.placeregulargridMv.filter fun p =>
    some p.placeid = placeid_ ∧ p.placenamespaceid = session.placenamespaceid

/-- `wci.fetch`; `INTO STRICT` raises unless there is one row. -/
def fetch (gridid : ℤ) : Option Grid :=
  match placeInfo w session (placeOf server w session gridid) with
  | [placeinfo_] => (w.blobs.readFile gridid).map fun grid => packed grid placeinfo_
  | _ => none

/-- What is returned has the bytes, and the numbers and the projection of the specification. -/
structure Grid.Holds (g : Grid) (bytes : List UInt8) (spec : GridSpec) : Prop where
  grid : g.grid = bytes
  numberX : g.numberX = spec.numX
  numberY : g.numberY = spec.numY
  incrementX : some g.incrementX = spec.incX
  incrementY : some g.incrementY = spec.incY
  startX : some g.startX = spec.startX
  startY : some g.startY = spec.startY
  projDefinition : g.projDefinition = spec.projection

/-- Fetching the blob of a row succeeds, and returns the bytes that were written for it and the
    specification of the row's place. -/
def Fetches (v : ValueV ℤ) : Prop :=
  ∃ g bytes spec, fetch server w session v.value = some g ∧ (v.value, bytes) ∈ w.written ∧
    w.places.tables.Stores v.placeid spec ∧ g.Holds bytes spec

/-- Every row that a read returns in some session can be fetched. -/
def FetchesAll : Prop :=
  ∀ session p location rows, readGid (w.catalog server) session w.blobs.db p location = some rows →
    ∀ v ∈ rows, Fetches server w session v

/-- The condition: bytes were written for the blob; and the place of the first row that is shown for it
    has one row in the materialized view, for one name and period, with the numbers of the row's place,
    which `real` can hold. -/
structure Fetchable (v : ValueV ℤ) : Prop where
  written : ∃ bytes, (v.value, bytes) ∈ w.written
  one : ∃ placeinfo_ spec, placeInfo w session (placeOf server w session v.value) = [placeinfo_] ∧
    w.places.tables.Stores v.placeid spec ∧ (packed [] placeinfo_).Holds [] spec

/-- Every row that a read returns in some session meets the condition. -/
def AllFetchable : Prop :=
  ∀ session p location rows, readGid (w.catalog server) session w.blobs.db p location = some rows →
    ∀ v ∈ rows, Fetchable server w session v

end Fetch

/-! ### Files -/

section Files
variable {server : Server} {w : World} {s s' : Blob.State} {id : ℤ} {bytes : List UInt8}

/-- The record says what can be read. -/
def World.Recorded (w : World) : Prop :=
  ∀ id bytes, (id, bytes) ∈ w.written ↔ w.blobs.readFile id = some bytes

/-- A write of bytes adds its own file, under an id that no file had. -/
theorem readFile_written {k : Key} {v c now : ℤ} (h : Write.Written s s' k v c bytes now) :
    s.readFile s.fileIdSeq = none ∧ s'.readFile s.fileIdSeq = some bytes ∧
      ∀ id, id ≠ s.fileIdSeq → s'.readFile id = s.readFile id := by
  have hnew : ∀ r ∈ s.fileBlob.rows, r.fileId ≠ s.fileIdSeq := by
    have hunique := s'.fileBlob.unique
    rw [h.fileBlob, List.pairwise_append] at hunique
    intro r hr
    exact hunique.2.2 r hr _ (List.mem_singleton.2 rfl)
  have hmem : ∀ f, f ∈ s'.directory.rows ↔
      f ∈ s.directory.rows ∧ f.id ≠ s.fileIdSeq ∨ f = ⟨s.fileIdSeq, bytes, now⟩ := by
    intro f
    rw [h.directory]
    refine mem_create.trans (or_congr_left ?_)
    exact (and_congr_left' mem_remove).trans (by rw [and_assoc, and_self])
  refine ⟨?_, ?_, fun id hid => Option.ext fun data => ?_⟩
  · refine Option.eq_none_iff_forall_ne_some.2 fun data hdata => ?_
    exact hnew _ (readFile_eq_some.1 hdata).1 rfl
  · refine readFile_eq_some.2 ⟨?_, _, (hmem _).2 (Or.inr rfl), rfl, rfl⟩
    rw [h.fileBlob]
    exact List.mem_append_right _ (List.mem_singleton.2 rfl)
  · refine readFile_eq_some.trans (Iff.trans ?_ readFile_eq_some.symm)
    rw [h.fileBlob, List.mem_append, List.mem_singleton]
    refine and_congr (or_iff_left fun hrow => hid (congrArg FileBlob.fileId hrow)) ?_
    refine exists_congr fun f => ?_
    rw [hmem]
    constructor
    · rintro ⟨⟨hf, _⟩ | rfl, hfid, hdata⟩
      · exact ⟨hf, hfid, hdata⟩
      · exact absurd hfid.symm hid
    · rintro ⟨hf, hfid, hdata⟩
      exact ⟨Or.inl ⟨hf, hfid ▸ hid⟩, hfid, hdata⟩

theorem World.Recorded.wrote (h : w.Recorded) {data : Option (List UInt8)} {k : Key} {v c now : ℤ}
    (hw : Write.Written w.blobs s' k v c (data.getD []) now) : (w.wrote data s').Recorded := by
  obtain ⟨hnone, hnew, hold⟩ := readFile_written hw
  intro id bytes
  change (id, bytes) ∈ w.written ++ [(w.blobs.fileIdSeq, data.getD [])] ↔ s'.readFile id = some bytes
  rw [List.mem_append, List.mem_singleton, Prod.mk.injEq, h id bytes]
  by_cases hid : id = w.blobs.fileIdSeq
  · rw [hid, hnone, hnew]
    simp [eq_comm]
  · rw [hold id hid]
    simp [hid]

/-- A state with the same files and the same record. -/
theorem World.Recorded.withBlobs (h : w.Recorded) (hfileBlob : s'.fileBlob = w.blobs.fileBlob)
    (hdirectory : s'.directory = w.blobs.directory) : (w.withBlobs s').Recorded := by
  intro id bytes
  have hread : s'.readFile id = w.blobs.readFile id := by
    unfold Blob.State.readFile
    rw [hfileBlob, hdirectory]
  exact (h id bytes).trans (by rw [← hread]; rfl)

/-- The forms with bytes record what they write. -/
theorem World.Recorded.gridWith (h : w.Recorded) {env : Write.Environment} {provider : Option ℤ}
    {data : Option (List UInt8)} {a : Write.Arguments} {dataVersion_ setConfidenceCode_ : Option ℤ}
    {now : ℤ} (hs : Write.gridWith env w.blobs provider data a dataVersion_ setConfidenceCode_ now =
      some s') : (w.wrote data s').Recorded := by
  rcases Write.gridWith_cases env w.blobs provider data a dataVersion_ setConfidenceCode_ with
    ⟨_, hnone⟩ | ⟨_, k, v, bytes, _, rfl, hsome⟩
  · rw [hnone] at hs
    cases hs
  · obtain ⟨s'', hs'', hwritten⟩ := hsome now
    obtain rfl : s'' = s' := Option.some_inj.1 (hs''.symm.trans hs)
    exact h.wrote hwritten

/-- The form with a row writes no file. -/
theorem gridReturnGid_files {env : Write.Environment} {value : Option ℤ} {name : Option String}
    {what : Write.Arguments} {dataVersion : Option ℤ} {now : ℤ}
    (h : Write.gridReturnGid env s value name what dataVersion now = some s') :
    s'.fileBlob = s.fileBlob ∧ s'.directory = s.directory := by
  simp only [Write.gridReturnGid, Option.bind_eq_bind, Option.bind_eq_some_iff] at h
  obtain ⟨_, _, _, _, _, _, _, _, _, _, h⟩ := h
  obtain ⟨t, ht, rfl⟩ := Option.map_eq_some_iff.1 h
  obtain ⟨db, _, rfl⟩ := Option.map_eq_some_iff.1 ht
  exact ⟨rfl, rfl⟩

/-- Nor do the forms for floats. -/
theorem floatWith_files {env : Write.Environment} {provider : Option ℤ} {value_ : Option ℚ}
    {a : Write.Arguments} {dataVersion_ setConfidenceCode_ : Option ℤ} {now : ℤ}
    (h : Write.floatWith env s provider value_ a dataVersion_ setConfidenceCode_ now = some s') :
    s'.fileBlob = s.fileBlob ∧ s'.directory = s.directory := by
  simp only [Write.floatWith, Option.bind_eq_bind, Option.bind_eq_some_iff] at h
  obtain ⟨_, _, _, _, _, _, db, _, h⟩ := h
  cases h
  exact ⟨rfl, rfl⟩

/-- Every call keeps the record right. -/
theorem recorded_step (server : Server) (w : World) (call : Call) (h : w.Recorded) :
    (w.step server call).Recorded := by
  unfold World.step
  cases hcall : call.perform server w with
  | none => exact h
  | some w' =>
    rw [Option.getD_some]
    cases call with
    | place op isFunction =>
      obtain ⟨places, _, rfl⟩ := Option.map_eq_some_iff.1 hcall
      exact h
    | gridLimited session user data a now =>
      obtain ⟨s', hs', rfl⟩ := Option.map_eq_some_iff.1 hcall
      rw [Write.gridLimited_eq] at hs'
      exact h.gridWith hs'
    | gridAll session user data name a dataVersion_ setConfidenceCode_ now =>
      obtain ⟨s', hs', rfl⟩ := Option.map_eq_some_iff.1 hcall
      rw [Write.gridAll_eq] at hs'
      exact h.gridWith hs'
    | gridIdAll session user gridId_ name a dataVersion_ setConfidenceCode_ now =>
      obtain ⟨s', hs', rfl⟩ := Option.map_eq_some_iff.1 hcall
      rw [Write.gridIdAll_eq_none] at hs'
      cases hs'
    | gridReturnGid session user value name what dataVersion now =>
      obtain ⟨s', hs', rfl⟩ := Option.map_eq_some_iff.1 hcall
      exact h.withBlobs (gridReturnGid_files hs').1 (gridReturnGid_files hs').2
    | floatLimited session user value_ a now =>
      obtain ⟨s', hs', rfl⟩ := Option.map_eq_some_iff.1 hcall
      rw [Write.floatLimited_eq] at hs'
      exact h.withBlobs (floatWith_files hs').1 (floatWith_files hs').2
    | floatAll session user value_ name a dataVersion_ setConfidenceCode_ now =>
      obtain ⟨s', hs', rfl⟩ := Option.map_eq_some_iff.1 hcall
      rw [Write.floatAll_eq] at hs'
      exact h.withBlobs (floatWith_files hs').1 (floatWith_files hs').2

theorem recorded_start (places : PlaceDb) : (World.start places).Recorded := by
  intro id bytes
  refine iff_of_false (fun h => nomatch h) fun h => ?_
  exact nomatch (readFile_eq_some.1 h).1

end Files

/-! ### What is fetched -/

section Fetched
variable {server : Server} {w : World} {session : Session} {v : ValueV ℤ}

/-- When the record is right, fetching a row works exactly when it can. -/
theorem fetches_iff (h : w.Recorded) :
    Fetches server w session v ↔ Fetchable server w session v := by
  constructor
  · rintro ⟨g, bytes, spec, hfetch, hwritten, hstores, hholds⟩
    unfold fetch at hfetch
    split at hfetch
    · next placeinfo_ hone =>
      obtain ⟨grid, _, rfl⟩ := Option.map_eq_some_iff.1 hfetch
      exact ⟨⟨bytes, hwritten⟩, placeinfo_, spec, hone, hstores, { hholds with grid := rfl }⟩
    · cases hfetch
  · rintro ⟨⟨bytes, hwritten⟩, placeinfo_, spec, hone, hstores, hholds⟩
    refine ⟨packed bytes placeinfo_, bytes, spec, ?_, hwritten, hstores, { hholds with grid := rfl }⟩
    unfold fetch
    rw [hone]
    simp only
    rw [(h _ _).1 hwritten]
    rfl

/-- In sync, the function has a choice of as many rows as the grid has names and periods in the
    session's namespace. -/
theorem length_placeInfo (hs : w.places.InSync server.gis) {pd : PlaceDefinition} {pg : PlaceRegularGrid}
    {srs : SpatialRefSys} {pit : ℤ × String} (hpd : pd ∈ w.places.tables.placedefinition.rows)
    (hpg : pg ∈ w.places.tables.placeregulargrid.rows) (hplace : pg.placeid = pd.placeid)
    (hsrs : (w.places.tables.spatialRefSys.filter fun srs => srs.srid = pg.originalsrid) = [srs])
    (hpit : (w.places.tables.placeindeterminatetype.filter fun pit =>
      pit.1 = pd.placeindeterminatecode) = [pit])
    (hns : session.placenamespaceid ≠ 0) :
    (placeInfo w session (some pd.placeid)).length =
      w.places.tables.placename.rows.countP fun pn =>
        pn.placeid = pd.placeid ∧ pn.placenamespaceid = session.placenamespaceid := by
  have hfibre : placeInfo w session (some pd.placeid) =
      (Mirror.fibre PlaceRegularGridV.placeid pd.placeid w.places.placeregulargridMv).filter
        fun p => p.placenamespaceid = session.placenamespaceid := by
    simp [placeInfo, Mirror.fibre, List.filter_filter, Bool.and_comm]
  have hgrid : Mirror.fibre PlaceRegularGrid.placeid pd.placeid w.places.tables.placeregulargrid.rows =
      [pg] := by
    have hrefl : ∀ a : PlaceRegularGrid, sameGrid a a := fun _ => Or.inl rfl
    refine Relational.Table.filter_eq_singleton
      (w.places.tables.placeregulargrid.nodup hrefl) hpg (by simpa using hplace) ?_
    intro b hb hk
    exact w.places.tables.grid_unique hb hpg ((of_decide_eq_true hk).trans hplace.symm)
  have hcanonical : [pg.row pd srs pit.2 0 (gridName server.gis pg)].filter
      (fun p => p.placenamespaceid = session.placenamespaceid) = [] := by
    simp [PlaceRegularGrid.row, Ne.symm hns]
  have hperm := (Mirror.perm_iff_fibres PlaceRegularGridV.placeid).1 hs.placeregulargrid pd.placeid
  rw [hfibre, (hperm.filter _).length_eq, PlaceTables.placeregulargridV, fibre_placeregulargridV,
    fibre_eq_singleton w.places.tables hpd, hgrid]
  simp only [placeregulargridV, List.flatMap_singleton, hplace, decide_true, List.filter_cons_of_pos,
    List.filter_nil, hsrs, hpit, List.map_singleton]
  rw [← List.map_eq_flatMap, List.filter_append, hcanonical, List.append_nil, List.filter_map,
    List.length_map, filter_fibre rfl, List.filter_filter, List.countP_eq_length_filter]
  refine congrArg List.length (List.filter_congr fun pn _ => ?_)
  simp [PlaceRegularGrid.row, eq_comm, Bool.and_comm]

end Fetched

/-- A server with one data provider and one parameter. -/
def oneProvider : Server := ⟨postgresGis, oneName, fun _ => "wci user"⟩

/-- A value of a grid of two by two points, and its bytes. -/
def gridValue : Write.Arguments :=
  ⟨some "grid", some 0, some 0, some 0, some "air temperature", some "air temperature", some 0, some 0⟩

/-- The grid is added and written to. -/
def writtenGrid : List Call :=
  [.place (.addPlaceRegularGrid (callerOf 1) "grid" 2 2 1 1 0 0 "+proj=longlat") trivial,
    .gridAll oneSession "wdb" (some (List.replicate 16 0)) (some "provider") gridValue none none 0]

/-- Its outline gets a name besides. -/
def namedTwice : List Call :=
  writtenGrid ++ [.place (.addOrUpdatePlacePolygon (callerOf 1) "outline"
    "POLYGON((0 0,0 1,1 1,1 0,0 0))" (.at 0) .infinity) trivial]

/-- A session that sees values, none of which can be fetched. -/
theorem not_fetchesAll {server : Server} {w : World} (session : Session)
    (hsome : (gridvalueV (w.catalog server) session w.blobs.db).isEmpty = false)
    (hnone : ∀ v ∈ gridvalueV (w.catalog server) session w.blobs.db,
      (fetch server w session v.value).isNone) : ¬ FetchesAll server w := by
  intro hall
  obtain ⟨v, hv⟩ := List.isEmpty_eq_false_iff_exists_mem.1 hsome
  obtain ⟨g, _, _, hfetch, _⟩ := hall session {} .null _ buildQuery_all v hv
  have hno := hnone v hv
  rw [hfetch] at hno
  cases hno

end Wdb.Fetch
