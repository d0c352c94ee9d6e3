import Wdb.Lib.Runs
import Wdb.Read.GridPoints

/-! Several `wci.read(…, returnfloat)` calls in one backend.

    The caches of `GeometryCache` belong to the process. The first request of every call purges them and
    destroys the geometries in them, while the points of a grid tuple that another call is in the middle
    of refer to them. A geometry handle is a number that is never given out again. Each call has its own
    tuples; a request that raises is left out, and one that reads through a null pointer or a destroyed
    geometry ends its call. -/

namespace Wdb.Handles
open Store Read

/-- `GEOSGeom`. -/
abbrev GEOSGeom := ℕ

/-- The geometries that are allocated, and the three caches. The keys of the last two are clones that
    nothing else refers to. -/
structure Memory where
  heap : GEOSGeom → Option LonLat
  next : GEOSGeom
  lonLatToGeom : List ((PlaceSpecification × ℤ × ℤ) × GEOSGeom)
  geomToLonLat : List ((PlaceSpecification × LonLat) × LonLat)
  geomToWkt : List (LonLat × String)

/-- A geometry to read at: a point, or an area with the nodes of each grid that are in it. -/
inductive Location where
  | point (ll : LonLat)
  | area (gridPointsInPolygon : PlaceSpecification → List (ℤ × ℤ))

/-- What a call has found: its tuples, and where it reads in grids. -/
structure Query where
  floatTuples : List (ValueV ℚ)
  gridTuples : List (ValueV ℤ)
  locationString : Option String
  location : Option Location
  interpolation : InterpolationType
  interpolationParameter : ℤ

/-- What a backend works with: the projections, the text of a geometry, the specifications, the files. -/
structure Environment where
  projections : Projections
  geomToWKT : LonLat → String
  specification : ℤ → Option PlaceSpecification
  readFloatFromFile : ℤ → ℤ → Option ℚ

/-- `struct GridPointData`. -/
structure PointData where
  value : Option ℚ
  location : GEOSGeom

/-- The state of a call between two requests, as `Read.ReadStore` has it. -/
structure ReadStore where
  returningFromGridTable : Bool
  floatTuples : List (ValueV ℚ)
  gridTuples : List (ValueV ℤ)
  pointData : Option (CommonValues × List PointData)

/-- What a request does. -/
inductive Outcome (σ : Type) where
  | next (row : ReturnFloat) (store : σ)
  | done
  | nullPointer
  | destroyed

/-! ### The caches -/

/-- `purgeAllCaches`: the geometries in the first cache are destroyed with it. -/
def Memory.purgeAllCaches (m : Memory) : Memory where
  heap h := if h ∈ m.lonLatToGeom.map (·.2) then none else m.heap h
  next := m.next
  lonLatToGeom := []
  geomToLonLat := []
  geomToWkt := []

/-- `GEOSGeom_createPoint` or `GEOSGeom_clone`. -/
def Memory.create (m : Memory) (ll : LonLat) : GEOSGeom × Memory :=
  (m.next, { m with heap := Function.update m.heap m.next (some ll), next := m.next + 1 })

/-- What the caches and readers compare of a specification. -/
def key (ps : PlaceSpecification) : PlaceSpecification := { ps with srid := 0 }

section Environment
variable (env : Environment) (m : Memory)

/-- `BaseDataReader::getGeometry`. -/
def getGeometry (ps : PlaceSpecification) (x y : ℤ) : GEOSGeom × Memory :=
  match m.lonLatToGeom.lookup (key ps, x, y) with
  | some h => (h, m)
  | none =>
    let (h, m) := m.create (wdbTransform env.projections x y ps)
    (h, { m with lonLatToGeom := ((key ps, x, y), h) :: m.lonLatToGeom })

/-- `BaseDataReader::getExactIndex`. -/
def getExactIndex (ps : PlaceSpecification) (location : LonLat) : LonLat × Memory :=
  match m.geomToLonLat.lookup (key ps, location) with
  | some index => (index, m)
  | none =>
    let index := rTransform env.projections location ps
    (index, { m with geomToLonLat := ((key ps, location), index) :: m.geomToLonLat })

/-- The text of a geometry in `getNextRowFromGridTable`; `none` when it is destroyed. -/
def getWkt (h : GEOSGeom) : Option (String × Memory) :=
  (m.heap h).map fun ll => match m.geomToWkt.lookup ll with
    | some wkt => (wkt, m)
    | none => (env.geomToWKT ll, { m with geomToWkt := (ll, env.geomToWKT ll) :: m.geomToWkt })

/-- The points of nodes, each with the geometry of its place. -/
def withGeometry (ps : PlaceSpecification) : List GridPoint → Memory → List PointData × Memory
  | [], m => ([], m)
  | node :: nodes, m =>
    let (h, m) := getGeometry env m ps node.x node.y
    let (points, m) := withGeometry ps nodes m
    (⟨node.value, h⟩ :: points, m)

/-! ### A request -/

variable (q : Query)

/-- `readPoints`. -/
def readPoints (ps : PlaceSpecification) (dataid : ℤ) : List PointData × Memory :=
  match q.location with
  | none => ([], m)
  | some (.area nodes) =>
    withGeometry env ps ((nodes ps).filterMap fun n => readPoint ps (env.readFloatFromFile dataid) n.1 n.2) m
  | some (.point location) =>
    let (index, m) := getExactIndex env m ps location
    match singlePointRead ps (env.readFloatFromFile dataid) q.interpolation q.interpolationParameter
        index with
    | .points nodes => withGeometry env ps nodes m
    | .bilinear surroundingPoints value =>
      let (_, m) := withGeometry env ps surroundingPoints m
      match value with
      | none => ([], m)
      | some value =>
        let (h, m) := m.create location
        ([⟨value, h⟩], m)

def getValues (t : ValueV ℤ) : Option (List PointData × Memory) :=
  (env.specification t.placeid).map fun ps => readPoints env m q ps t.value

/-- The loop of `getNextRowFromGridTable`. -/
def nextPoint : Memory → List (ValueV ℤ) → CommonValues → List PointData → Outcome ReadStore × Memory
  | m, tuples, values, p :: points => match getWkt env m p.location with
    | some (wkt, m) =>
      (.next (pointRow values ⟨p.value, some wkt⟩) ⟨true, [], tuples, some (values, points)⟩, m)
    | none => (.destroyed, m)
  | m, [], _, [] => (.done, m)
  | m, t :: tuples, _, [] => match getValues env m q t with
    | none => (.nullPointer, m)
    | some (points, m) => nextPoint m tuples (getCommonValues q.locationString 1 t) points

def getNextRowFromGridTable (store : ReadStore) : Outcome ReadStore × Memory :=
  match store.pointData with
  | none => match store.gridTuples with
    | [] => (.done, m)
    | t :: tuples => match getValues env m q t with
      | none => (.done, m)
      | some (points, m) => nextPoint env q m tuples (getCommonValues q.locationString 1 t) points
  | some (values, points) => nextPoint env q m store.gridTuples values points

/-- `wciReadFloat`, after the first request has set up the store. -/
def wciReadFloat (store : ReadStore) : Outcome ReadStore × Memory :=
  if store.returningFromGridTable then getNextRowFromGridTable env m q store
  else match store.floatTuples with
    | t :: floatTuples => (.next (floatRow t) { store with floatTuples := floatTuples }, m)
    | [] => getNextRowFromGridTable env m q { store with returningFromGridTable := true }

end Environment

/-! ### Several calls -/

/-- How far a call has come. -/
inductive Progress (σ : Type) where
  | unopened
  | reading (store : σ)
  | ended

/-- What a request gives; nothing when the call has ended. -/
inductive Response where
  | row (row : ReturnFloat)
  | done
  | nullPointer
  | destroyed
  | nothing
  deriving DecidableEq

def Outcome.response {σ : Type} : Outcome σ → Response
  | .next row _ => .row row
  | .done => .done
  | .nullPointer => .nullPointer
  | .destroyed => .destroyed

def Outcome.progress {σ : Type} : Outcome σ → Progress σ
  | .next _ store => .reading store
  | _ => .ended

section Calls
variable {ι : Type} [DecidableEq ι] (env : Environment) (q : ι → Query)

/-- A backend with its calls. -/
structure Backend (ι : Type) where
  memory : Memory
  calls : ι → Progress ReadStore

/-- A backend that has opened none of the calls. -/
def Backend.start (m : Memory) : Backend ι := ⟨m, fun _ => .unopened⟩

/-- A request of a call; the first one purges the caches. -/
def Backend.request (b : Backend ι) (t : ι) : Response × Backend ι :=
  match b.calls t with
  | .ended => (.nothing, b)
  | .unopened =>
    let (o, m) := wciReadFloat env b.memory.purgeAllCaches (q t)
      ⟨false, (q t).floatTuples, (q t).gridTuples, none⟩
    (o.response, ⟨m, Function.update b.calls t o.progress⟩)
  | .reading store =>
    let (o, m) := wciReadFloat env b.memory (q t) store
    (o.response, ⟨m, Function.update b.calls t o.progress⟩)

/-- The responses to a list of requests, each with its call. -/
def Backend.responses : Backend ι → List ι → List (ι × Response)
  | _, [] => []
  | b, t :: l => (t, (b.request env q t).1) :: responses (b.request env q t).2 l

/-- Each call is given what it is given without the others, and no row of a destroyed geometry is asked
    for. -/
structure Independent (m : Memory) (l : List ι) : Prop where
  alone : ∀ t, (Backend.responses env q (.start m) l).filter (·.1 = t) =
    Backend.responses env q (.start m) (l.filter (· = t))
  intact : ∀ r ∈ Backend.responses env q (.start m) l, r.2 ≠ .destroyed

end Calls

/-! ### The same without handles -/

section Pure
variable (env : Environment) (q : Query)

/-- A node with the text of its place. -/
def nodeData (ps : PlaceSpecification) (node : GridPoint) : GridPointData :=
  ⟨node.value, some (env.geomToWKT (wdbTransform env.projections node.x node.y ps))⟩

/-- The points that `readPoints` gives, with their texts. -/
def pointsOf (ps : PlaceSpecification) (dataid : ℤ) : List GridPointData :=
  match q.location with
  | none => []
  | some (.area nodes) => ((nodes ps).filterMap fun n =>
      readPoint ps (env.readFloatFromFile dataid) n.1 n.2).map (nodeData env ps)
  | some (.point location) =>
    match singlePointRead ps (env.readFloatFromFile dataid) q.interpolation q.interpolationParameter
        (rTransform env.projections location ps) with
    | .points nodes => nodes.map (nodeData env ps)
    | .bilinear _ value => value.toList.map fun value => ⟨value, some (env.geomToWKT location)⟩

def outcomeOf : Call → Outcome Read.ReadStore
  | .next row store => .next row store
  | .done => .done
  | .crash => .nullPointer

/-- What a request of a call does when the call is alone; nothing when it has ended. -/
def Query.next : Progress Read.ReadStore → Option (Outcome Read.ReadStore)
  | .unopened => some (outcomeOf (Read.wciReadFloat q.locationString env.specification (pointsOf env q)
      (Read.start q.floatTuples q.gridTuples)))
  | .reading store => some (outcomeOf (Read.wciReadFloat q.locationString env.specification
      (pointsOf env q) store))
  | .ended => none

/-- Whether a call is in the middle of a grid tuple. -/
def Pending : Progress Read.ReadStore → Bool
  | .reading ⟨_, _, _, some (_, _ :: _)⟩ => true
  | _ => false

end Pure

/-- How far every call has come, and whether another call has made its first request since the call's
    last request. -/
structure Schedule (ι : Type) where
  calls : ι → Progress Read.ReadStore
  purged : ι → Bool

section Schedule
variable {ι : Type} [DecidableEq ι] (env : Environment) (q : ι → Query)

def Schedule.start : Schedule ι := ⟨fun _ => .unopened, fun _ => false⟩

/-- What the request of a call gives when the call is alone. -/
def Schedule.response (s : Schedule ι) (t : ι) : Response :=
  (((q t).next env (s.calls t)).map Outcome.response).getD .nothing

def Schedule.step (s : Schedule ι) (t : ι) : Schedule ι where
  calls := Function.update s.calls t ((((q t).next env (s.calls t)).map Outcome.progress).getD .ended)
  purged u := u ≠ t && match s.calls t with
    | .unopened => true
    | _ => s.purged u

/-- A call that is in the middle of a grid tuple asks for a row only when no other call has made its first
    request since the last row. -/
def Schedule.Safe (s : Schedule ι) (t : ι) : Prop := s.purged t = false ∨ Pending (s.calls t) = false

/-- The responses that a list of requests gives when every call is alone. -/
def Schedule.responses : Schedule ι → List ι → List (ι × Response)
  | _, [] => []
  | s, t :: l => (t, s.response env q t) :: responses (s.step env q t) l

end Schedule

/-! ### Handles in memory -/

section Memory
variable {env : Environment} {m m' m'' : Memory}

/-- What the caches hold is right, and what is not allocated yet is not there. -/
structure Memory.Sound (env : Environment) (m : Memory) : Prop where
  geom : ∀ e ∈ m.lonLatToGeom, m.heap e.2 = some (wdbTransform env.projections e.1.2.1 e.1.2.2 e.1.1)
  lonLat : ∀ e ∈ m.geomToLonLat, e.2 = rTransform env.projections e.1.2 e.1.1
  wkt : ∀ e ∈ m.geomToWkt, e.2 = env.geomToWKT e.1
  fresh : ∀ h, m.next ≤ h → m.heap h = none

/-- Memory in which nothing has been destroyed, and no handle reused. -/
structure Extends (m m' : Memory) : Prop where
  heap : ∀ h, h < m.next → m'.heap h = m.heap h
  next : m.next ≤ m'.next
  cached : ∀ e ∈ m.lonLatToGeom, e ∈ m'.lonLatToGeom

theorem Extends.refl (m : Memory) : Extends m m := ⟨fun _ _ => rfl, le_rfl, fun _ h => h⟩

theorem Extends.trans (h : Extends m m') (h' : Extends m' m'') : Extends m m'' :=
  ⟨fun k hk => (h'.heap k (hk.trans_le h.next)).trans (h.heap k hk), h.next.trans h'.next,
    fun e he => h'.cached e (h.cached e he)⟩

/-- An allocated handle is below the next one. -/
theorem Memory.Sound.lt (hm : m.Sound env) {h : GEOSGeom} {ll : LonLat} (hh : m.heap h = some ll) :
    h < m.next := by
  by_contra hle
  rw [hm.fresh h (not_lt.1 hle)] at hh
  cases hh

/-- A cache that is not purged keeps what is in it. -/
theorem Memory.Sound.extend_cache (hm : m.Sound env) {lonLat : List ((PlaceSpecification × LonLat) × LonLat)}
    {wkt : List (LonLat × String)} (hlonLat : ∀ e ∈ lonLat, e.2 = rTransform env.projections e.1.2 e.1.1)
    (hwkt : ∀ e ∈ wkt, e.2 = env.geomToWKT e.1) :
    Memory.Sound env { m with geomToLonLat := lonLat, geomToWkt := wkt } ∧
      Extends m { m with geomToLonLat := lonLat, geomToWkt := wkt } :=
  ⟨⟨hm.geom, hlonLat, hwkt, hm.fresh⟩, fun _ _ => rfl, le_rfl, fun _ h => h⟩

theorem mem_of_lookup {α β : Type} [BEq α] [LawfulBEq α] {a : α} {b : β} {l : List (α × β)}
    (h : l.lookup a = some b) : (a, b) ∈ l := by
  induction l with
  | nil => cases h
  | cons e l ih =>
    rw [List.lookup_cons] at h
    split at h
    next heq =>
      obtain rfl : b = e.2 := (Option.some_inj.1 h).symm
      rw [eq_of_beq heq]
      exact List.mem_cons_self
    next => exact List.mem_cons_of_mem _ (ih h)

/-- A new geometry. -/
theorem Memory.Sound.create (hm : m.Sound env) (ll : LonLat) :
    (m.create ll).2.Sound env ∧ Extends m (m.create ll).2 ∧
      (m.create ll).2.heap (m.create ll).1 = some ll := by
  have hold : ∀ h, h < m.next → (m.create ll).2.heap h = m.heap h := fun h hh =>
    Function.update_of_ne hh.ne _ _
  refine ⟨⟨fun e he => ?_, hm.lonLat, hm.wkt, fun h hh => ?_⟩, ⟨hold, Nat.le_succ _, fun _ h => h⟩,
    Function.update_self ..⟩
  · rw [hold e.2 (hm.lt (hm.geom e he))]
    exact hm.geom e he
  · have hlt : m.next < h := hh
    exact (Function.update_of_ne hlt.ne' _ _).trans (hm.fresh h hlt.le)

/-- The geometry of a node is allocated, has its place, and is in the cache. -/
theorem Memory.Sound.getGeometry (hm : m.Sound env) (ps : PlaceSpecification) (x y : ℤ) :
    (getGeometry env m ps x y).2.Sound env ∧ Extends m (getGeometry env m ps x y).2 ∧
      (getGeometry env m ps x y).2.heap (getGeometry env m ps x y).1 =
        some (wdbTransform env.projections x y ps) ∧
      ((key ps, x, y), (getGeometry env m ps x y).1) ∈ (getGeometry env m ps x y).2.lonLatToGeom := by
  unfold Handles.getGeometry
  cases hfind : m.lonLatToGeom.lookup (key ps, x, y) with
  | some h =>
    have hmem := mem_of_lookup hfind
    exact ⟨hm, Extends.refl m, hm.geom _ hmem, hmem⟩
  | none =>
    obtain ⟨hsound, hext, hheap⟩ := hm.create (wdbTransform env.projections x y ps)
    refine ⟨⟨?_, hsound.lonLat, hsound.wkt, hsound.fresh⟩,
      ⟨hext.heap, hext.next, fun e he => List.mem_cons_of_mem _ (hext.cached e he)⟩, hheap,
      List.mem_cons_self⟩
    rintro e (_ | ⟨_, he⟩)
    · exact hheap
    · exact hsound.geom e he

theorem Memory.Sound.getExactIndex (hm : m.Sound env) (ps : PlaceSpecification) (location : LonLat) :
    (getExactIndex env m ps location).1 = rTransform env.projections location ps ∧
      (getExactIndex env m ps location).2.Sound env ∧ Extends m (getExactIndex env m ps location).2 := by
  unfold Handles.getExactIndex
  cases hfind : m.geomToLonLat.lookup (key ps, location) with
  | some index =>
    exact ⟨hm.lonLat ((key ps, location), index) (mem_of_lookup hfind), hm, Extends.refl m⟩
  | none =>
    refine ⟨rfl, hm.extend_cache ?_ hm.wkt⟩
    rintro e (_ | ⟨_, he⟩)
    · rfl
    · exact hm.lonLat e he

theorem Memory.Sound.getWkt (hm : m.Sound env) {h : GEOSGeom} {ll : LonLat} (hh : m.heap h = some ll) :
    ∃ m', getWkt env m h = some (env.geomToWKT ll, m') ∧ m'.Sound env ∧ Extends m m' := by
  unfold Handles.getWkt
  rw [hh, Option.map_some]
  cases hfind : m.geomToWkt.lookup ll with
  | some wkt =>
    rw [show wkt = env.geomToWKT ll from hm.wkt _ (mem_of_lookup hfind)]
    exact ⟨m, rfl, hm, Extends.refl m⟩
  | none =>
    refine ⟨_, rfl, hm.extend_cache hm.lonLat ?_⟩
    rintro e (_ | ⟨_, he⟩)
    · rfl
    · exact hm.wkt e he

end Memory

/-! ### One request -/

section Simulation
variable {env : Environment} {m m' : Memory} {q : Query}

/-- A point whose geometry is there, with its text. -/
structure Alive (env : Environment) (m : Memory) (p : PointData) (g : GridPointData) : Prop where
  value : p.value = g.value
  location : ∃ ll, m.heap p.location = some ll ∧ g.location = some (env.geomToWKT ll)

/-- A point whose geometry is that of a cache. -/
def Cached (m : Memory) (p : PointData) : Prop := ∃ k, (k, p.location) ∈ m.lonLatToGeom

theorem Alive.mono {p : PointData} {g : GridPointData} (h : Alive env m p g) (hm : m.Sound env)
    (hext : Extends m m') : Alive env m' p g := by
  obtain ⟨hvalue, ll, hheap, hlocation⟩ := h
  exact ⟨hvalue, ll, (hext.heap _ (hm.lt hheap)).trans hheap, hlocation⟩

theorem Cached.mono {p : PointData} (h : Cached m p) (hext : Extends m m') : Cached m' p :=
  h.imp fun _ hk => hext.cached _ hk

/-- The points that are taken in a memory, as they are with their texts; all but perhaps the first have
    geometries of the cache. -/
structure Takes (env : Environment) (m : Memory) (r : List PointData × Memory)
    (points : List GridPointData) : Prop where
  sound : r.2.Sound env
  ext : Extends m r.2
  alive : List.Forall₂ (Alive env r.2) r.1 points
  cached : ∀ p ∈ r.1.tail, Cached r.2 p

theorem withGeometry_cached (hm : m.Sound env) (ps : PlaceSpecification) (nodes : List GridPoint) :
    Takes env m (withGeometry env ps nodes m) (nodes.map (nodeData env ps)) ∧
      ∀ p ∈ (withGeometry env ps nodes m).1, Cached (withGeometry env ps nodes m).2 p := by
  induction nodes generalizing m with
  | nil => exact ⟨⟨hm, Extends.refl m, .nil, fun _ h => nomatch h⟩, fun _ h => nomatch h⟩
  | cons node nodes ih =>
    obtain ⟨hsound, hext, hheap, hmem⟩ := hm.getGeometry ps node.x node.y
    obtain ⟨⟨hsound', hext', halive, -⟩, hcached⟩ := ih hsound
    have hfirst : Alive env (getGeometry env m ps node.x node.y).2
        ⟨node.value, (getGeometry env m ps node.x node.y).1⟩ (nodeData env ps node) :=
      ⟨rfl, _, hheap, rfl⟩
    refine ⟨⟨hsound', hext.trans hext', .cons (hfirst.mono hsound hext') halive, hcached⟩, ?_⟩
    rintro p (_ | ⟨_, hp⟩)
    · exact Cached.mono ⟨_, hmem⟩ hext'
    · exact hcached p hp

theorem readPoints_takes (hm : m.Sound env) (ps : PlaceSpecification) (dataid : ℤ) :
    Takes env m (readPoints env m q ps dataid) (pointsOf env q ps dataid) := by
  unfold readPoints pointsOf
  cases q.location with
  | none => exact ⟨hm, Extends.refl m, .nil, fun _ h => nomatch h⟩
  | some location =>
    cases location with
    | area nodes => exact (withGeometry_cached hm ps _).1
    | point location =>
      obtain ⟨hindex, hsound, hext⟩ := hm.getExactIndex ps location
      dsimp only
      rw [hindex]
      cases singlePointRead ps (env.readFloatFromFile dataid) q.interpolation q.interpolationParameter
          (rTransform env.projections location ps) with
      | points nodes =>
        obtain ⟨htakes, -⟩ := withGeometry_cached hsound ps nodes
        exact { htakes with ext := hext.trans htakes.ext }
      | bilinear surroundingPoints value =>
        obtain ⟨hsurrounding, -⟩ := withGeometry_cached hsound ps surroundingPoints
        cases value with
        | none =>
          exact ⟨hsurrounding.sound, hext.trans hsurrounding.ext, .nil, fun _ h => nomatch h⟩
        | some value =>
          obtain ⟨hsound', hext', hheap⟩ := hsurrounding.sound.create location
          exact ⟨hsound', (hext.trans hsurrounding.ext).trans hext', .cons ⟨rfl, _, hheap, rfl⟩ .nil,
            fun _ h => nomatch h⟩

/-- A state of a call that has all its geometries, and the state with their texts. -/
inductive StoreMatches (env : Environment) (m : Memory) : ReadStore → Read.ReadStore → Prop
  | before (mode : Bool) (floatTuples : List (ValueV ℚ)) (gridTuples : List (ValueV ℤ)) :
    StoreMatches env m ⟨mode, floatTuples, gridTuples, none⟩ ⟨mode, floatTuples, gridTuples, none⟩
  | inTuple {gridTuples : List (ValueV ℤ)} {values : CommonValues} {points : List PointData}
      {datas : List GridPointData} (alive : List.Forall₂ (Alive env m) points datas)
      (cached : ∀ p ∈ points, Cached m p) :
    StoreMatches env m ⟨true, [], gridTuples, some (values, points)⟩
      ⟨true, [], gridTuples, some (values, datas)⟩

inductive OutcomeMatches (env : Environment) (m : Memory) :
    Outcome ReadStore → Outcome Read.ReadStore → Prop
  | next {row : ReturnFloat} {s : ReadStore} {s' : Read.ReadStore} (h : StoreMatches env m s s') :
    OutcomeMatches env m (.next row s) (.next row s')
  | done : OutcomeMatches env m .done .done
  | nullPointer : OutcomeMatches env m .nullPointer .nullPointer

/-- What a request does to the memory, and that its outcome is that of the call without handles. -/
structure Does (env : Environment) (m : Memory) (r : Outcome ReadStore × Memory)
    (o : Outcome Read.ReadStore) : Prop where
  sound : r.2.Sound env
  ext : Extends m r.2
  outcome : OutcomeMatches env r.2 r.1 o

theorem nextPoint_does (tuples : List (ValueV ℤ)) (values : CommonValues) (points : List PointData)
    (datas : List GridPointData) (hm : m.Sound env) (halive : List.Forall₂ (Alive env m) points datas)
    (hcached : ∀ p ∈ points.tail, Cached m p) :
    Does env m (nextPoint env q m tuples values points) (outcomeOf
      (Read.nextPoint q.locationString env.specification (pointsOf env q) tuples values datas)) := by
  induction tuples generalizing m values points datas with
  | nil =>
    cases halive with
    | nil => exact ⟨hm, Extends.refl m, .done⟩
    | @cons p g points datas hp hps =>
      obtain ⟨hvalue, ll, hheap, hlocation⟩ := hp
      obtain ⟨m', hwkt, hsound, hext⟩ := hm.getWkt hheap
      simp only [nextPoint, hwkt, Read.nextPoint, outcomeOf]
      rw [hvalue, ← hlocation]
      exact ⟨hsound, hext, .next (.inTuple (hps.imp fun _ _ h => h.mono hm hext)
        fun p hp => (hcached p hp).mono hext)⟩
  | cons t tuples ih =>
    cases halive with
    | nil =>
      simp only [nextPoint, Read.nextPoint, getValues, Read.getValues]
      cases env.specification t.placeid with
      | none => exact ⟨hm, Extends.refl m, .nullPointer⟩
      | some ps =>
        have htakes : Takes env m (readPoints env m q ps t.value) (pointsOf env q ps t.value) :=
          readPoints_takes hm ps t.value
        have hdoes := ih (getCommonValues q.locationString 1 t) _ _ htakes.sound htakes.alive htakes.cached
        exact { hdoes with ext := htakes.ext.trans hdoes.ext }
    | @cons p g points datas hp hps =>
      obtain ⟨hvalue, ll, hheap, hlocation⟩ := hp
      obtain ⟨m', hwkt, hsound, hext⟩ := hm.getWkt hheap
      simp only [nextPoint, hwkt, Read.nextPoint, outcomeOf]
      rw [hvalue, ← hlocation]
      exact ⟨hsound, hext, .next (.inTuple (hps.imp fun _ _ h => h.mono hm hext)
        fun p hp => (hcached p hp).mono hext)⟩

theorem getNextRowFromGridTable_does {s : ReadStore} {s' : Read.ReadStore} (hm : m.Sound env)
    (h : StoreMatches env m s s') : Does env m (getNextRowFromGridTable env m q s) (outcomeOf
      (Read.getNextRowFromGridTable q.locationString env.specification (pointsOf env q) s')) := by
  cases h with
  | before mode floatTuples gridTuples =>
    cases gridTuples with
    | nil => exact ⟨hm, Extends.refl m, .done⟩
    | cons t tuples =>
      simp only [getNextRowFromGridTable, Read.getNextRowFromGridTable, getValues, Read.getValues]
      cases env.specification t.placeid with
      | none => exact ⟨hm, Extends.refl m, .done⟩
      | some ps =>
        have htakes : Takes env m (readPoints env m q ps t.value) (pointsOf env q ps t.value) :=
          readPoints_takes hm ps t.value
        have hdoes := nextPoint_does (q := q) tuples (getCommonValues q.locationString 1 t) _ _
          htakes.sound htakes.alive htakes.cached
        exact { hdoes with ext := htakes.ext.trans hdoes.ext }
  | inTuple halive hcached =>
    exact nextPoint_does _ _ _ _ hm halive fun p hp => hcached p (List.mem_of_mem_tail hp)

/-- A request of a call that has its geometries does what it does without handles. -/
theorem wciReadFloat_does {s : ReadStore} {s' : Read.ReadStore} (hm : m.Sound env)
    (h : StoreMatches env m s s') : Does env m (wciReadFloat env m q s) (outcomeOf
      (Read.wciReadFloat q.locationString env.specification (pointsOf env q) s')) := by
  cases h with
  | inTuple halive hcached => exact getNextRowFromGridTable_does hm (.inTuple halive hcached)
  | before mode floatTuples gridTuples =>
    cases mode with
    | true => exact getNextRowFromGridTable_does hm (.before true floatTuples gridTuples)
    | false =>
      cases floatTuples with
      | nil => exact getNextRowFromGridTable_does hm (.before true [] gridTuples)
      | cons t floatTuples => exact ⟨hm, Extends.refl m, .next (.before false floatTuples gridTuples)⟩

end Simulation

/-! ### The requests of several calls -/

section Backend
variable {ι : Type} [DecidableEq ι] {env : Environment} {q : ι → Query} {m m' : Memory}

/-- How a call stands in memory: as without handles, or in the middle of a grid tuple whose geometries have
    been destroyed since its last request. -/
inductive Matches (env : Environment) (m : Memory) : Progress ReadStore → Progress Read.ReadStore →
    Bool → Prop
  | unopened (purged : Bool) : Matches env m .unopened .unopened purged
  | ended (purged : Bool) : Matches env m .ended .ended purged
  | reading {s : ReadStore} {s' : Read.ReadStore} {purged : Bool} (h : StoreMatches env m s s')
      (hpurged : purged = true → Pending (.reading s') = false) :
    Matches env m (.reading s) (.reading s') purged
  | lost {gridTuples : List (ValueV ℤ)} {values : CommonValues} {p : PointData} {points : List PointData}
      {s' : Read.ReadStore} (hpending : Pending (.reading s') = true) (hheap : m.heap p.location = none)
      (hlt : p.location < m.next) :
    Matches env m (.reading ⟨true, [], gridTuples, some (values, p :: points)⟩) (.reading s') true

theorem StoreMatches.mono {s : ReadStore} {s' : Read.ReadStore} (h : StoreMatches env m s s')
    (hm : m.Sound env) (hext : Extends m m') : StoreMatches env m' s s' := by
  cases h with
  | before mode floatTuples gridTuples => exact .before mode floatTuples gridTuples
  | inTuple halive hcached =>
    exact .inTuple (halive.imp fun _ _ h => h.mono hm hext) fun p hp => (hcached p hp).mono hext

theorem Matches.mono {p : Progress ReadStore} {p' : Progress Read.ReadStore} {purged : Bool}
    (h : Matches env m p p' purged) (hm : m.Sound env) (hext : Extends m m') :
    Matches env m' p p' purged := by
  cases h with
  | unopened purged => exact .unopened purged
  | ended purged => exact .ended purged
  | reading h hpurged => exact .reading (h.mono hm hext) hpurged
  | lost hpending hheap hlt =>
    exact .lost hpending ((hext.heap _ hlt).trans hheap) (hlt.trans_le hext.next)

theorem Memory.Sound.purge (hm : m.Sound env) : m.purgeAllCaches.Sound env := by
  refine ⟨fun _ h => (nomatch h), fun _ h => (nomatch h), fun _ h => (nomatch h), fun h hh => ?_⟩
  simp only [Memory.purgeAllCaches]
  split
  · rfl
  · exact hm.fresh h hh

theorem heap_purge_of_cached {p : PointData} (h : Cached m p) :
    m.purgeAllCaches.heap p.location = none := by
  obtain ⟨k, hk⟩ := h
  have hmem : p.location ∈ m.lonLatToGeom.map (·.2) := List.mem_map.2 ⟨_, hk, rfl⟩
  simp only [Memory.purgeAllCaches, hmem, if_true]

/-- A purge destroys the geometries of every call that is in the middle of a grid tuple. -/
theorem Matches.purge {p : Progress ReadStore} {p' : Progress Read.ReadStore} {purged : Bool}
    (h : Matches env m p p' purged) (hm : m.Sound env) :
    Matches env m.purgeAllCaches p p' true := by
  cases h with
  | unopened => exact .unopened true
  | ended => exact .ended true
  | reading h _ =>
    cases h with
    | before mode floatTuples gridTuples => exact .reading (.before mode floatTuples gridTuples) fun _ => rfl
    | inTuple halive hcached =>
      cases halive with
      | nil => exact .reading (.inTuple .nil fun _ h => nomatch h) fun _ => rfl
      | @cons p g points datas hp hps =>
        obtain ⟨-, ll, hheap, -⟩ := hp
        exact .lost rfl (heap_purge_of_cached (hcached p List.mem_cons_self)) (hm.lt hheap)
  | lost hpending hheap hlt =>
    refine .lost hpending ?_ hlt
    simp only [Memory.purgeAllCaches]
    split
    · rfl
    · exact hheap

/-- How the calls stand in a backend. -/
structure Stands (env : Environment) (b : Backend ι) (s : Schedule ι) : Prop where
  sound : b.memory.Sound env
  calls : ∀ t, Matches env b.memory (b.calls t) (s.calls t) (s.purged t)

theorem OutcomeMatches.response {o : Outcome ReadStore} {o' : Outcome Read.ReadStore}
    (h : OutcomeMatches env m o o') : o.response = o'.response := by
  cases h <;> rfl

theorem OutcomeMatches.progress {o : Outcome ReadStore} {o' : Outcome Read.ReadStore}
    (h : OutcomeMatches env m o o') : Matches env m o.progress o'.progress false := by
  cases h with
  | next h => exact .reading h fun h => nomatch h
  | done => exact .ended false
  | nullPointer => exact .ended false

/-- The calls after a request that does what it does without handles. -/
theorem stands_of_does {b : Backend ι} {s : Schedule ι} {t : ι} {r : Outcome ReadStore × Memory}
    {o : Outcome Read.ReadStore} (hnext : (q t).next env (s.calls t) = some o)
    (hdoes : Does env m r o) (hm : m.Sound env)
    (hothers : ∀ u, u ≠ t → Matches env m (b.calls u) (s.calls u) ((s.step env q t).purged u)) :
    Stands env ⟨r.2, Function.update b.calls t r.1.progress⟩ (s.step env q t) := by
  refine ⟨hdoes.sound, fun u => ?_⟩
  by_cases hu : u = t
  · subst hu
    have hpurged : (s.step env q u).purged u = false := by simp [Schedule.step]
    have hcalls : (s.step env q u).calls u = o.progress := by simp [Schedule.step, hnext]
    rw [hpurged, hcalls]
    dsimp only
    rw [Function.update_self]
    exact hdoes.outcome.progress
  · have hcalls : (s.step env q t).calls u = s.calls u := Function.update_of_ne hu _ _
    rw [hcalls]
    dsimp only
    rw [Function.update_of_ne hu]
    exact (hothers u hu).mono hm hdoes.ext

/-- A safe request is answered as if the call were alone. -/
theorem request_of_safe {b : Backend ι} {s : Schedule ι} {t : ι} (hb : Stands env b s)
    (hsafe : s.Safe t) : (b.request env q t).1 = s.response env q t ∧
      Stands env (b.request env q t).2 (s.step env q t) := by
  have ht := hb.calls t
  unfold Backend.request Schedule.response
  generalize hp : b.calls t = p at ht
  generalize hp' : s.calls t = p' at ht
  generalize hpurged : s.purged t = purged at ht
  cases ht with
  | ended =>
    refine ⟨rfl, hb.sound, fun u => ?_⟩
    have hcalls : (s.step env q t).calls u = s.calls u := by
      by_cases hu : u = t
      · subst hu
        simp [Schedule.step, Query.next, hp']
      · exact Function.update_of_ne hu _ _
    rw [hcalls]
    by_cases hu : u = t
    · subst hu
      rw [hp, hp']
      exact .ended _
    · have hsame : (s.step env q t).purged u = s.purged u := by simp [Schedule.step, hu, hp']
      rw [hsame]
      exact hb.calls u
  | unopened =>
    have hdoes : Does env b.memory.purgeAllCaches (wciReadFloat env b.memory.purgeAllCaches (q t)
        ⟨false, (q t).floatTuples, (q t).gridTuples, none⟩) _ :=
      wciReadFloat_does hb.sound.purge (.before false _ _)
    refine ⟨hdoes.outcome.response, stands_of_does (by rw [hp']; rfl) hdoes hb.sound.purge fun u hu => ?_⟩
    have htrue : (s.step env q t).purged u = true := by simp [Schedule.step, hu, hp']
    rw [htrue]
    exact (hb.calls u).purge hb.sound
  | reading h hpending =>
    have hdoes := wciReadFloat_does (q := q t) hb.sound h
    refine ⟨hdoes.outcome.response, stands_of_does (by rw [hp']; rfl) hdoes hb.sound fun u hu => ?_⟩
    have hsame : (s.step env q t).purged u = s.purged u := by simp [Schedule.step, hu, hp']
    rw [hsame]
    exact hb.calls u
  | lost hpending =>
    rcases hsafe with h | h
    · rw [h] at hpurged
      cases hpurged
    · rw [hp', hpending] at h
      cases h

/-- A call whose next point has lost its geometry. -/
theorem wciReadFloat_destroyed {q : Query} {gridTuples : List (ValueV ℤ)} {values : CommonValues}
    {p : PointData} {points : List PointData} (h : m.heap p.location = none) :
    (wciReadFloat env m q ⟨true, [], gridTuples, some (values, p :: points)⟩).1 = .destroyed := by
  have hwkt : getWkt env m p.location = none := by rw [getWkt, h, Option.map_none]
  cases gridTuples <;> simp [wciReadFloat, getNextRowFromGridTable, nextPoint, hwkt]

/-- A request that is not safe asks for a destroyed geometry. -/
theorem request_of_not_safe {b : Backend ι} {s : Schedule ι} {t : ι} (hb : Stands env b s)
    (hsafe : ¬ s.Safe t) : (b.request env q t).1 = .destroyed := by
  obtain ⟨hpurged, hpending⟩ := not_or.1 hsafe
  have ht := hb.calls t
  unfold Backend.request
  generalize b.calls t = p at ht
  generalize s.calls t = p' at ht hpending
  generalize s.purged t = purged at ht hpurged
  cases ht with
  | unopened => exact absurd rfl hpending
  | ended => exact absurd rfl hpending
  | reading h hno => exact absurd (hno (by simpa using hpurged)) hpending
  | lost _ hheap _ => exact congrArg Outcome.response (wciReadFloat_destroyed hheap)

omit [DecidableEq ι] in
/-- A call that is alone is never given a row of a destroyed geometry. -/
theorem response_ne_destroyed (s : Schedule ι) (t : ι) : s.response env q t ≠ .destroyed := by
  have hcall : ∀ c : Call, (outcomeOf c).response ≠ .destroyed := by
    intro c
    cases c <;> exact fun h => nomatch h
  unfold Schedule.response
  cases s.calls t with
  | unopened => exact hcall _
  | reading store => exact hcall _
  | ended => exact fun h => nomatch h

/-- The responses are those of calls that are alone exactly when every request is safe. -/
theorem responses_eq_iff (l : List ι) {b : Backend ι} {s : Schedule ι} (hb : Stands env b s) :
    b.responses env q l = s.responses env q l ↔
      Runs.Each (Schedule.step env q) Schedule.Safe s l := by
  induction l generalizing b s with
  | nil => exact iff_of_true rfl trivial
  | cons t l ih =>
    rw [Backend.responses, Schedule.responses, Runs.Each, List.cons.injEq, Prod.mk.injEq]
    by_cases hsafe : s.Safe t
    · obtain ⟨hresponse, hnext⟩ := request_of_safe (q := q) hb hsafe
      rw [ih hnext]
      exact ⟨fun h => ⟨hsafe, h.2⟩, fun h => ⟨⟨rfl, hresponse⟩, h.2⟩⟩
    · refine iff_of_false (fun h => ?_) fun h => hsafe h.1
      exact response_ne_destroyed s t (h.1.2.symm.trans (request_of_not_safe hb hsafe))

/-! ### Calls that are alone -/

section Alone
variable {s s' : Schedule ι} {t : ι}

/-- What a call is given depends on how far it has come only. -/
theorem responses_filter (l : List ι) (h : s.calls t = s'.calls t) :
    (s.responses env q l).filter (·.1 = t) = s'.responses env q (l.filter (· = t)) := by
  induction l generalizing s s' with
  | nil => rfl
  | cons u l ih =>
    by_cases hu : u = t
    · subst hu
      have hstep : (s.step env q u).calls u = (s'.step env q u).calls u := by simp [Schedule.step, h]
      rw [Schedule.responses, List.filter_cons_of_pos (by simp), List.filter_cons_of_pos (by simp),
        Schedule.responses, ih hstep, Schedule.response, Schedule.response, h]
    · have hstep : (s.step env q u).calls t = s'.calls t :=
        (Function.update_of_ne (Ne.symm hu) _ _).trans h
      rw [Schedule.responses, List.filter_cons_of_neg (by simpa using hu),
        List.filter_cons_of_neg (by simpa using hu), ih hstep]

/-- Requests of one call are safe. -/
theorem safe_alone (l : List ι) (hl : ∀ u ∈ l, u = t) (h : s.purged t = false) :
    Runs.Each (Schedule.step env q) Schedule.Safe s l := by
  induction l generalizing s with
  | nil => trivial
  | cons u l ih =>
    obtain rfl : u = t := hl u List.mem_cons_self
    refine ⟨Or.inl h, ih (fun v hv => hl v (List.mem_cons_of_mem _ hv)) ?_⟩
    simp [Schedule.step]

end Alone

/-- Lists of pairs in the same order of their keys that have the same pairs of every key. -/
theorem eq_of_filter_eq {α : Type} {r r' : List (ι × α)} (hkeys : r.map (·.1) = r'.map (·.1))
    (h : ∀ t, r.filter (·.1 = t) = r'.filter (·.1 = t)) : r = r' := by
  induction r generalizing r' with
  | nil => exact (List.map_eq_nil_iff.1 hkeys.symm).symm
  | cons a r ih =>
    obtain _ | ⟨a', r'⟩ := r'
    · cases hkeys
    obtain ⟨hkey, hrest⟩ := List.cons.inj hkeys
    have ha := h a.1
    rw [List.filter_cons_of_pos (by simp), List.filter_cons_of_pos (by simp [hkey])] at ha
    obtain ⟨rfl, -⟩ := List.cons.inj ha
    rw [ih hrest fun t => ?_]
    have ht := h t
    by_cases hat : a.1 = t
    · rw [List.filter_cons_of_pos (by simpa using hat), List.filter_cons_of_pos (by simpa using hat)] at ht
      exact (List.cons.inj ht).2
    · rwa [List.filter_cons_of_neg (by simpa using hat),
        List.filter_cons_of_neg (by simpa using hat)] at ht

theorem map_responses (l : List ι) (b : Backend ι) : (b.responses env q l).map (·.1) = l := by
  induction l generalizing b with
  | nil => rfl
  | cons t l ih => rw [Backend.responses, List.map_cons, ih]

theorem map_schedule_responses (l : List ι) (s : Schedule ι) :
    (s.responses env q l).map (·.1) = l := by
  induction l generalizing s with
  | nil => rfl
  | cons t l ih => rw [Schedule.responses, List.map_cons, ih]

theorem schedule_responses_ne_destroyed (l : List ι) (s : Schedule ι) :
    ∀ r ∈ s.responses env q l, r.2 ≠ .destroyed := by
  induction l generalizing s with
  | nil => exact fun _ h => nomatch h
  | cons t l ih =>
    rintro r (_ | ⟨_, hr⟩)
    · exact response_ne_destroyed s t
    · exact ih _ r hr

end Backend

/-- A grid of two nodes, read by nearest node and by area. -/
def twoNodes : Environment where
  projections := .longlat
  geomToWKT _ := "POINT"
  specification _ := some ⟨10, 60, 2, 1, 1, 1, 4030, "+proj=longlat"⟩
  readFloatFromFile _ pos := some pos

/-- Two reads of an area with both nodes. -/
def areaQueries : Bool → Query := fun _ =>
  ⟨[], [gridTuple 1], none, some (.area fun _ => [(0, 0), (1, 0)]), .exact, 1⟩

/-- Memory with nothing in it. -/
def emptyMemory : Memory := ⟨fun _ => none, 0, [], [], []⟩

theorem emptyMemory_sound : emptyMemory.Sound twoNodes :=
  ⟨fun _ h => (nomatch h), fun _ h => (nomatch h), fun _ h => (nomatch h), fun _ _ => rfl⟩

end Wdb.Handles
