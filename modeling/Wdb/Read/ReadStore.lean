import Wdb.Place.Paths
import Wdb.Read.WciReadFloat
import Wdb.Lib.Runs
import Wdb.Lib.ReadThrough

/-! The caches of `wci.read(…, returnfloat)` that live as long as the backend.

    `geometryFromLocation` (`ReadStore.cpp`) keeps the geometry of each place name, whatever the
    namespace, and `getPlaceSpecification` (`getPlaceSpecification.c`) the specification of each grid.
    Neither `wci.end` nor a change of the tables clears them. A read is compared with one that asks the
    tables. -/

namespace Wdb.Read
open Place ReadThrough

/-! ### Without caches -/

/-- What a backend sees: the tables as they are, and the place namespace of its session. -/
structure World where
  db : PlaceDb
  session : Option ℤ

/-- `getPlaceSpecificationFromDatabase`: the first row for the place in `placeregulargrid_mv`. -/
def World.getPlaceSpecificationFromDatabase (w : World) (placeid : ℤ) : Option PlaceSpecification :=
  (w.db.placeregulargridMv.find? fun g => g.placeid = placeid).map fun g =>
    ⟨g.startx, g.starty, g.numberx, g.numbery, g.incrementx, g.incrementy, g.originalsrid,
      g.projdefinition⟩

/-- The geometry of a name in a namespace, if there is one; `none` when the query raises. -/
def World.geometry (gis : Gis) (w : World) (namespace_ : ℤ) (placeName : String) :
    Option (Option String) :=
  getNamedGeometryAsWKT w.db.placedefinitionMv namespace_ gis placeName

/-- The specifications for the tuples of a read, up to the first grid that has none. -/
def World.specifications (w : World) : List ℤ → List PlaceSpecification
  | [] => []
  | placeid :: placeids => match w.getPlaceSpecificationFromDatabase placeid with
    | some ps => ps :: w.specifications placeids
    | none => []

/-- The location and the specifications that the tables give a read; `none` when it raises. -/
def World.read (gis : Gis) (w : World) (placeName : String) (placeids : List ℤ) :
    Option (Option String × List PlaceSpecification) :=
  w.session.bind fun namespace_ =>
    (w.geometry gis namespace_ placeName).map fun location => (location, w.specifications placeids)

/-- What happens in a backend, and to the tables that it sees. A read has a place name, and the grids of
    the tuples that it finds. -/
inductive Event where
  | wciBegin (placenamespaceid : ℤ)
  | wciEnd
  | change (db : PlaceDb)
  | wciRead (placeName : String) (placeids : List ℤ)

/-- `wci.begin` may be called again; `wci.end` raises without a session. -/
def World.step (w : World) : Event → World
  | .wciBegin placenamespaceid => { w with session := some placenamespaceid }
  | .wciEnd => { w with session := none }
  | .change db => { w with db := db }
  | .wciRead _ _ => w

/-! ### With caches -/

/-- A backend with its static caches; an empty entry of `locationNames` is as none. -/
structure Backend where
  world : World
  locationNames : String → Option String
  psList : ℤ → Option PlaceSpecification

/-- A backend that has read nothing. -/
def Backend.start (w : World) : Backend := ⟨w, fun _ => none, fun _ => none⟩

/-- `geometryFromLocation`; the location is missing after `NoSuchGeometryName`, and the result when the
    query raises. -/
def Backend.geometryFromLocation (gis : Gis) (b : Backend) (namespace_ : ℤ) (locationName : String) :
    Option (Option String × Backend) :=
  match b.locationNames locationName with
  | some location => some (some location, b)
  | none => (b.world.geometry gis namespace_ locationName).map fun geo =>
      (geo, { b with
        locationNames := Function.update b.locationNames locationName (geo.filter (· ≠ "")) })

/-- `getPlaceSpecification`. -/
def Backend.getPlaceSpecification (b : Backend) (placeid : ℤ) :
    Option PlaceSpecification × Backend :=
  match b.psList placeid with
  | some ps => (some ps, b)
  | none => match b.world.getPlaceSpecificationFromDatabase placeid with
    | some ps => (some ps, { b with psList := Function.update b.psList placeid (some ps) })
    | none => (none, b)

/-- The specifications for the tuples of a read (`getNextSetOfValues`). -/
def Backend.specifications (b : Backend) : List ℤ → List PlaceSpecification × Backend
  | [] => ([], b)
  | placeid :: placeids => match b.getPlaceSpecification placeid with
    | (some ps, b') => (ps :: (b'.specifications placeids).1, (b'.specifications placeids).2)
    | (none, b') => ([], b')

/-- A read: the location (`setReadStoreGeometry`) and the specifications that it works with. -/
def Backend.read (gis : Gis) (b : Backend) (placeName : String) (placeids : List ℤ) :
    Option ((Option String × List PlaceSpecification) × Backend) :=
  b.world.session.bind fun namespace_ =>
    (b.geometryFromLocation gis namespace_ placeName).map fun (location, b') =>
      ((location, (b'.specifications placeids).1), (b'.specifications placeids).2)

def Backend.step (gis : Gis) (b : Backend) : Event → Backend
  | .wciRead placeName placeids => ((b.read gis placeName placeids).map (·.2)).getD b
  | e => { b with world := b.world.step e }

/-- A read works with what the tables say. -/
def Backend.Current (gis : Gis) (b : Backend) : Event → Prop
  | .wciRead placeName placeids =>
    (b.read gis placeName placeids).map (·.1) = b.world.read gis placeName placeids
  | _ => True

instance (gis : Gis) (b : Backend) : ∀ e : Event, Decidable (b.Current gis e)
  | .wciRead _ _ => inferInstanceAs (Decidable (_ = _))
  | .wciBegin _ | .wciEnd | .change _ => isTrue trivial

/-! ### What the tables say to the look-ups of a run -/

/-- The look-up of a grid. -/
def World.grid (w : World) (placeid : ℤ) : Lookup ℤ PlaceSpecification :=
  ⟨placeid, w.getPlaceSpecificationFromDatabase placeid⟩

/-- The look-ups of grids, up to the first one without a specification. -/
def World.reached (w : World) : List ℤ → List (Lookup ℤ PlaceSpecification)
  | [] => []
  | placeid :: placeids =>
    w.grid placeid :: if (w.grid placeid).source.isSome then w.reached placeids else []

/-- The look-up of a name. -/
def World.names (gis : Gis) (w : World) : Event → List (Lookup String String)
  | .wciRead placeName _ => w.session.elim [] fun namespace_ =>
      [⟨placeName, (w.geometry gis namespace_ placeName).join⟩]
  | _ => []

/-- The look-ups of grids in a read that does not raise. -/
def World.grids (gis : Gis) (w : World) : Event → List (Lookup ℤ PlaceSpecification)
  | .wciRead placeName placeids => w.session.elim [] fun namespace_ =>
      (w.geometry gis namespace_ placeName).elim [] fun _ => w.reached placeids
  | _ => []

/-- The look-ups of a run. -/
def World.lookups {α : Type} (f : World → Event → List α) : World → List Event → List α
  | _, [] => []
  | w, e :: events => f w e ++ lookups f (w.step e) events

/-- A geometry is kept when its text is not empty. -/
def keepName (location : String) : Bool := location ≠ ""

/-- A specification is kept always. -/
def keepGrid (_ : PlaceSpecification) : Bool := true

section Caches
variable {gis : Gis}

/-- One look-up of a grid is one of the cache. -/
theorem Backend.getPlaceSpecification_eq (b : Backend) (placeid : ℤ) :
    b.getPlaceSpecification placeid = (serve b.psList (b.world.grid placeid),
      { b with psList := store keepGrid b.psList (b.world.grid placeid) }) := by
  unfold Backend.getPlaceSpecification serve store World.grid
  cases hm : b.psList placeid with
  | some ps => simp
  | none =>
    cases b.world.getPlaceSpecificationFromDatabase placeid with
    | some ps => simp [keepGrid, Option.filter]
    | none =>
      have hsame : Function.update b.psList placeid none = b.psList := hm ▸ Function.update_eq_self ..
      simp [hsame]

/-- The specifications are those of the tables exactly when the cache is transparent. -/
theorem Backend.specifications_eq (b : Backend) (placeids : List ℤ) :
    ((b.specifications placeids).1 = b.world.specifications placeids ↔
      Transparent keepGrid b.psList (b.world.reached placeids)) ∧
    (Transparent keepGrid b.psList (b.world.reached placeids) →
      (b.specifications placeids).2 = { b with
        psList := (b.world.reached placeids).foldl (store keepGrid) b.psList }) := by
  induction placeids generalizing b with
  | nil => simp [Backend.specifications, World.specifications, World.reached, Transparent]
  | cons placeid placeids ih =>
    have hgrid : b.world.getPlaceSpecificationFromDatabase placeid = (b.world.grid placeid).source := rfl
    rw [Backend.specifications, World.specifications, World.reached, b.getPlaceSpecification_eq, hgrid]
    obtain ⟨hspecs, hstate⟩ :=
      ih { b with psList := store keepGrid b.psList (b.world.grid placeid) }
    cases hserve : serve b.psList (b.world.grid placeid) with
    | none =>
      have hsource : (b.world.grid placeid).source = none := by
        unfold serve at hserve
        exact (Option.or_eq_none_iff.1 hserve).2
      simp [hsource, Transparent, hserve]
    | some ps =>
      cases hsource : (b.world.grid placeid).source with
      | none => simp [Transparent, hserve, hsource]
      | some ps' =>
        simp only [Option.isSome_some, if_true, List.cons.injEq, Transparent, hserve, hsource,
          Option.some_inj, List.foldl_cons]
        exact ⟨and_congr Iff.rfl hspecs, fun h => hstate h.2⟩

/-- The state that transparent caches are in after an event. -/
def Backend.next (gis : Gis) (b : Backend) (e : Event) : Backend where
  world := b.world.step e
  locationNames := (b.world.names gis e).foldl (store keepName) b.locationNames
  psList := (b.world.grids gis e).foldl (store keepGrid) b.psList

/-- A read works with what the tables say exactly when both caches are transparent in it. -/
theorem Backend.current_iff (b : Backend) (e : Event) :
    (b.Current gis e ↔ Transparent keepName b.locationNames (b.world.names gis e) ∧
      Transparent keepGrid b.psList (b.world.grids gis e)) ∧
    (b.Current gis e → b.step gis e = b.next gis e) := by
  cases e with
  | wciBegin | wciEnd | change =>
    exact ⟨iff_of_true trivial ⟨trivial, trivial⟩, fun _ => rfl⟩
  | wciRead placeName placeids =>
    unfold Backend.Current Backend.step Backend.next Backend.read World.read World.names World.grids
    cases hsession : b.world.session with
    | none => simp [Transparent, World.step]
    | some namespace_ =>
      simp only [Option.bind_some, Option.elim_some, Backend.geometryFromLocation]
      cases hcache : b.locationNames placeName with
      | some location =>
        obtain ⟨hspecs, hstate⟩ := b.specifications_eq placeids
        cases hgeo : b.world.geometry gis namespace_ placeName with
        | none => simp [Transparent, serve, hcache]
        | some geo =>
          simp only [Option.map_some, Option.some_inj, Prod.mk.injEq, Option.join_some,
            Option.elim_some, Transparent, and_true, serve, hcache, Option.some_or, List.foldl_cons,
            List.foldl_nil, store, Option.isNone_some, Bool.false_eq_true, if_false, Option.getD_some]
          exact ⟨and_congr Iff.rfl hspecs, fun h => hstate (hspecs.1 h.2)⟩
      | none =>
        cases hgeo : b.world.geometry gis namespace_ placeName with
        | none =>
          have hsame : Function.update b.locationNames placeName none = b.locationNames :=
            hcache ▸ Function.update_eq_self ..
          simp [Transparent, serve, store, hcache, hsame, World.step]
        | some geo =>
          let names := Function.update b.locationNames placeName (geo.filter (· ≠ ""))
          obtain ⟨hspecs, hstate⟩ :=
            Backend.specifications_eq { b with locationNames := names } placeids
          simp only [Option.map_some, Option.some_inj, Prod.mk.injEq, Option.join_some,
            Option.elim_some, Transparent, and_true, serve, hcache, Option.none_or, List.foldl_cons,
            List.foldl_nil, store, Option.isNone_none, if_true, Option.getD_some, true_and]
          exact ⟨hspecs, fun h => hstate (hspecs.1 h)⟩

/-- In every run of a backend: each read works with the geometry and the specifications that the tables
    hold, exactly when each name, in whatever namespace, and each grid is found as it was when it was
    found before. -/
theorem reads_current_iff (gis : Gis) (w : World) (events : List Event) :
    Runs.Each (Backend.step gis) (fun b e => b.Current gis e) (Backend.start w) events ↔
      (World.lookups (World.names gis) w events).Pairwise (Agrees keepName) ∧
      (World.lookups (World.grids gis) w events).Pairwise (Agrees keepGrid) := by
  have hrun : ∀ (events : List Event) (b : Backend),
      Runs.Each (Backend.step gis) (fun b e => b.Current gis e) b events ↔
        Transparent keepName b.locationNames (World.lookups (World.names gis) b.world events) ∧
        Transparent keepGrid b.psList (World.lookups (World.grids gis) b.world events) := by
    intro events
    induction events with
    | nil => exact fun b => iff_of_true trivial ⟨trivial, trivial⟩
    | cons e events ih =>
      intro b
      obtain ⟨hcurrent, hnext⟩ := @Backend.current_iff gis b e
      rw [Runs.Each, World.lookups, World.lookups, transparent_append, transparent_append]
      constructor
      · rintro ⟨he, hevents⟩
        obtain ⟨hnames, hgrids⟩ := hcurrent.1 he
        rw [hnext he, ih] at hevents
        exact ⟨⟨hnames, hevents.1⟩, hgrids, hevents.2⟩
      · rintro ⟨⟨hnames, hevents⟩, hgrids, hevents'⟩
        have he := hcurrent.2 ⟨hnames, hgrids⟩
        refine ⟨he, ?_⟩
        rw [hnext he, ih]
        exact ⟨hevents, hevents'⟩
  rw [← transparent_iff, ← transparent_iff]
  exact hrun events (Backend.start w)

/-- A name in two namespaces: the second session reads at the place of the first. -/
theorem reads_stale : ¬ Runs.Each (Backend.step plainGis) (fun b e => b.Current plainGis e)
    (Backend.start ⟨Runs.run (PlaceDb.step plainGis) noPlaces
      [.addPlacePoint (callerOf 1) "place" "POINT(10 60)" (.at 0) .infinity,
        .addPlacePoint { callerOf 2 with nextval := 2 } "place" "POINT(11 60)" (.at 0) .infinity],
      none⟩)
    [.wciBegin 1, .wciRead "place" [], .wciEnd, .wciBegin 2, .wciRead "place" []] := by
  decide

end Caches

end Wdb.Read
