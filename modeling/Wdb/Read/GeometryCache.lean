import Wdb.Lib.OrderedMap

/-! The comparison of geometries, and the caches that are ordered by it.

    `GEOSGeomCmp` compares sizes, then all x, then all y. It asks the first geometry for both sizes, so
    that geometries of different sizes are compared coordinate by coordinate, beyond the end of the
    second one when that is shorter. -/

namespace Wdb.Geometry
open OrderedMap

/-! ### The comparison -/

/-- The coordinates of a geometry, or `NULL`. -/
abbrev GEOSGeom (α : Type*) := Option (List (α × α))

section Comparison
variable {α : Type*} [LinearOrder α]

/-- A loop over one of the coordinates, until they differ. There is no result where a sequence has no
    coordinate of the number that is asked for. -/
def compareCoordinates (get : α × α → α) (a b : List (α × α)) : List ℕ → Option (Option Bool)
  | [] => some none
  | i :: is =>
    (a[i]?.map get).bind fun valA => (b[i]?.map get).bind fun valB =>
    if valA ≠ valB then some (some (decide (valA < valB))) else compareCoordinates get a b is

/-- `GEOSGeomCmp`. -/
def geosGeomCmp : GEOSGeom α → GEOSGeom α → Option Bool
  | none, gb => some gb.isSome
  | some _, none => some false
  | some a, some b =>
    let sizeA := a.length
    -- `GEOSCoordSeq_getSize(a, & sizeB)`
    let sizeB := a.length
    if sizeA ≠ sizeB then some (decide (sizeA < sizeB))
    else (compareCoordinates Prod.fst a b (List.range sizeA)).bind fun x =>
      match x with
      | some before => some before
      | none => (compareCoordinates Prod.snd a b (List.range sizeA)).map fun y => y.getD false

end Comparison

/-! ### The caches -/

/-- What a cache is found by. -/
structure PlaceSpecification (α : Type*) where
  startX_ : α
  startY_ : α
  xNumber_ : ℕ
  yNumber_ : ℕ
  xIncrement_ : α
  yIncrement_ : α
  projDefinition_ : String
  deriving DecidableEq

/-- `GeometryCache`: a map for each place specification, and one for all. -/
structure GeometryCache (α : Type*) where
  geomToLonLat : PlaceSpecification α → List (GEOSGeom α × (α × α))
  geomToWkt : List (GEOSGeom α × String)

inductive CacheCall (α : Type*) where
  | setLonLat (ps : PlaceSpecification α) (geometryToInsert : GEOSGeom α) (lon lat : α)
  | setWkt (geometry : GEOSGeom α) (wkt : String)
  | clear

namespace GeometryCache
variable {α : Type*}

def empty : GeometryCache α := ⟨fun _ => [], []⟩

variable [LinearOrder α]

/-- A call; there is no result when a comparison reads beyond the end of a sequence. -/
def step (c : GeometryCache α) : CacheCall α → Option (GeometryCache α)
  | .setLonLat ps g lon lat => (assign geosGeomCmp g (lon, lat) (c.geomToLonLat ps)).map fun m =>
    { c with geomToLonLat := Function.update c.geomToLonLat ps m }
  | .setWkt g wkt => (assign geosGeomCmp g wkt c.geomToWkt).map fun m => { c with geomToWkt := m }
  | .clear => some empty

def getLonLat (c : GeometryCache α) (ps : PlaceSpecification α) (geom : GEOSGeom α) :
    Option (Option (α × α)) := find geosGeomCmp geom (c.geomToLonLat ps)

def getWkt (c : GeometryCache α) (geometry : GEOSGeom α) : Option (Option String) :=
  find geosGeomCmp geometry c.geomToWkt

end GeometryCache

/-- What the caches are for: functions of the geometries. -/
structure Entries (α : Type*) where
  lonLat : PlaceSpecification α → GEOSGeom α → Option (α × α)
  wkt : GEOSGeom α → Option String

section Calls
variable {α : Type*} [LinearOrder α]

def Entries.step (e : Entries α) : CacheCall α → Entries α
  | .setLonLat ps g lon lat =>
    { e with lonLat := Function.update e.lonLat ps (Function.update (e.lonLat ps) g (some (lon, lat))) }
  | .setWkt g wkt => { e with wkt := Function.update e.wkt g (some wkt) }
  | .clear => ⟨fun _ _ => none, fun _ => none⟩

/-- The entries after calls, from none. -/
def entriesAfter (calls : List (CacheCall α)) : Entries α :=
  calls.foldl Entries.step ⟨fun _ _ => none, fun _ => none⟩

/-- The geometry of a call is one of a set. -/
def CacheCall.In (S : Set (GEOSGeom α)) : CacheCall α → Prop
  | .setLonLat _ g _ _ => g ∈ S
  | .setWkt g _ => g ∈ S
  | .clear => True

/-- The caches after calls give each geometry its own entry. -/
def OwnEntries (S : Set (GEOSGeom α)) (calls : List (CacheCall α)) : Prop :=
  ∃ c, calls.foldlM GeometryCache.step GeometryCache.empty = some c ∧ ∀ g ∈ S,
    (∀ ps, c.getLonLat ps g = some ((entriesAfter calls).lonLat ps g)) ∧
    c.getWkt g = some ((entriesAfter calls).wkt g)

/-- On a set of geometries the comparison stays within the sequences, is a strict weak order whose
    equivalence is equality, and the caches keep the geometries apart. -/
structure Compares (S : Set (GEOSGeom α)) : Prop where
  within : ∀ a ∈ S, ∀ b ∈ S, geosGeomCmp a b ≠ none
  irrefl : ∀ a ∈ S, geosGeomCmp a a = some false
  trans : ∀ a ∈ S, ∀ b ∈ S, ∀ c ∈ S, geosGeomCmp a b = some true → geosGeomCmp b c = some true →
    geosGeomCmp a c = some true
  equiv_trans : ∀ a ∈ S, ∀ b ∈ S, ∀ c ∈ S,
    geosGeomCmp a b = some false → geosGeomCmp b a = some false →
    geosGeomCmp b c = some false → geosGeomCmp c b = some false →
    geosGeomCmp a c = some false ∧ geosGeomCmp c a = some false
  equiv_iff : ∀ a ∈ S, ∀ b ∈ S, geosGeomCmp a b = some false ∧ geosGeomCmp b a = some false ↔ a = b
  caches : ∀ calls : List (CacheCall α), (∀ call ∈ calls, call.In S) → OwnEntries S calls

end Calls

/-! ### The order -/

section Order
variable {α : Type*} [LinearOrder α] {S : Set (GEOSGeom α)} {a b : GEOSGeom α}

/-- The place of a geometry: `NULL` first, then by x and by y. -/
def position (g : GEOSGeom α) : WithBot (List α ×ₗ List α) :=
  g.map fun l => toLex (l.map Prod.fst, l.map Prod.snd)

/-- The second sequence ends within the first, with the same x. -/
def Overruns : GEOSGeom α → GEOSGeom α → Prop
  | some a, some b => b.map Prod.fst <+: a.map Prod.fst ∧ b.length < a.length
  | _, _ => False

/-- The loop over the values of a coordinate. -/
def firstDifference : List α → List α → Option (Option Bool)
  | [], _ => some none
  | _ :: _, [] => none
  | x :: xs, y :: ys => if x ≠ y then some (some (decide (x < y))) else firstDifference xs ys

theorem compareCoordinates_eq (get : α × α → α) (a b : List (α × α)) (i n : ℕ)
    (h : i + n = a.length) :
    compareCoordinates get a b (List.range' i n) =
      firstDifference ((a.drop i).map get) ((b.drop i).map get) := by
  induction n generalizing i with
  | zero =>
    simp [List.drop_eq_nil_of_le (show a.length ≤ i by omega), compareCoordinates, firstDifference]
  | succ n ih =>
    have hi : i < a.length := by omega
    rw [List.range'_succ, compareCoordinates, List.drop_eq_getElem_cons hi, List.getElem?_eq_getElem hi,
      ih (i + 1) (by omega)]
    rcases Nat.lt_or_ge i b.length with hb | hb
    · rw [List.drop_eq_getElem_cons hb, List.getElem?_eq_getElem hb, List.map_cons, List.map_cons]
      rfl
    · rw [List.drop_eq_nil_of_le hb, List.getElem?_eq_none hb, List.map_cons]
      rfl

theorem compareCoordinates_range (get : α × α → α) (a b : List (α × α)) :
    compareCoordinates get a b (List.range a.length) = firstDifference (a.map get) (b.map get) := by
  rw [List.range_eq_range', compareCoordinates_eq get a b 0 _ (Nat.zero_add _), List.drop_zero,
    List.drop_zero]

theorem firstDifference_eq_none {xs ys : List α} :
    firstDifference xs ys = none ↔ ys <+: xs ∧ ys.length < xs.length := by
  induction xs generalizing ys with
  | nil => simp [firstDifference]
  | cons x xs ih =>
    cases ys with
    | nil => simp [firstDifference]
    | cons y ys =>
      rw [firstDifference, List.cons_prefix_cons]
      by_cases h : x = y
      · simp [h, ih]
      · simp [h, Ne.symm h]

/-- Within the sequences, the loop finds the order of the values, unless one is the start of the other. -/
theorem firstDifference_eq {xs ys : List α} (h : firstDifference xs ys ≠ none) :
    xs <+: ys ∧ firstDifference xs ys = some none ∨
      ¬ xs <+: ys ∧ firstDifference xs ys = some (some (decide (xs < ys))) := by
  induction xs generalizing ys with
  | nil => simp [firstDifference]
  | cons x xs ih =>
    cases ys with
    | nil => exact absurd rfl h
    | cons y ys =>
      rw [firstDifference] at h
      rw [firstDifference, List.cons_prefix_cons]
      by_cases hxy : x = y
      · subst hxy
        have h : firstDifference xs ys ≠ none := by simpa using h
        simpa using ih h
      · exact Or.inr ⟨fun h => hxy h.1, by simp [hxy, List.cons_lt_cons_iff]⟩

theorem geosGeomCmp_some (a b : List (α × α)) : geosGeomCmp (some a) (some b) =
    (firstDifference (a.map Prod.fst) (b.map Prod.fst)).bind fun x =>
      match x with
      | some before => some before
      | none => (firstDifference (a.map Prod.snd) (b.map Prod.snd)).map fun y => y.getD false := by
  rw [← compareCoordinates_range, ← compareCoordinates_range]
  exact if_neg (by simp)

/-- The comparison reads beyond the end of the second sequence when it overruns it, and only then. -/
theorem geosGeomCmp_eq_none : geosGeomCmp a b = none ↔ Overruns a b := by
  cases a with
  | none => simp [geosGeomCmp, Overruns]
  | some a =>
    cases b with
    | none => simp [geosGeomCmp, Overruns]
    | some b =>
      have hx := @firstDifference_eq_none _ _ (a.map Prod.fst) (b.map Prod.fst)
      have hy := @firstDifference_eq_none _ _ (a.map Prod.snd) (b.map Prod.snd)
      simp only [List.length_map] at hx hy
      rw [geosGeomCmp_some, Overruns, ← hx]
      constructor
      · intro h
        by_contra hnone
        rcases firstDifference_eq hnone with ⟨hpre, heq⟩ | ⟨-, heq⟩
        · have hle := hpre.length_le
          simp only [List.length_map] at hle
          simp only [heq, Option.bind_some, Option.map_eq_none_iff, hy] at h
          exact absurd h.2 hle.not_gt
        · simp [heq] at h
      · intro h
        simp [h]

omit [LinearOrder α] in
theorem position_some (a : List (α × α)) :
    position (some a) = (toLex (a.map Prod.fst, a.map Prod.snd) : List α ×ₗ List α) := rfl

omit [LinearOrder α] in
theorem position_none : position (none : GEOSGeom α) = ⊥ := rfl

/-- Where neither overruns the other, the comparison is that of the positions. -/
theorem geosGeomCmp_eq (hab : ¬ Overruns a b) (hba : ¬ Overruns b a) :
    geosGeomCmp a b = some (decide (position a < position b)) := by
  cases a with
  | none =>
    cases b with
    | none => simp [geosGeomCmp]
    | some b => simp [geosGeomCmp, position_some, position_none]
  | some a =>
    cases b with
    | none => simp [geosGeomCmp, position_some, position_none]
    | some b =>
      have hx : firstDifference (a.map Prod.fst) (b.map Prod.fst) ≠ none := fun h =>
        hab (geosGeomCmp_eq_none.1 (by rw [geosGeomCmp_some, h]; rfl))
      simp only [geosGeomCmp_some, position_some, WithBot.coe_lt_coe, Prod.Lex.toLex_lt_toLex]
      rcases firstDifference_eq hx with ⟨hpre, heq⟩ | ⟨hpre, heq⟩
      · have hlen : a.length = b.length := by
          have hle := hpre.length_le
          simp only [List.length_map] at hle
          exact hle.antisymm (not_lt.1 fun hlt => hba ⟨hpre, hlt⟩)
        have hfst : a.map Prod.fst = b.map Prod.fst := hpre.eq_of_length (by simpa using hlen)
        have hy : firstDifference (a.map Prod.snd) (b.map Prod.snd) ≠ none :=
          mt firstDifference_eq_none.1 (by simp [hlen])
        rcases firstDifference_eq hy with ⟨hpre', heq'⟩ | ⟨-, heq'⟩
        · have hsnd : a.map Prod.snd = b.map Prod.snd := hpre'.eq_of_length (by simpa using hlen)
          simp only [heq, heq', Option.bind_some, Option.map_some, Option.getD_none]
          simp [hfst, hsnd]
        · simp only [heq, heq', Option.bind_some, Option.map_some, Option.getD_some]
          simp [hfst]
      · have hfst : a.map Prod.fst ≠ b.map Prod.fst := fun h => hpre (h ▸ List.prefix_rfl)
        simp [heq, hfst]

omit [LinearOrder α] in
theorem position_injective : Function.Injective (position : GEOSGeom α → _) := by
  refine Option.map_injective fun a b h => ?_
  obtain ⟨hfst, hsnd⟩ := Prod.mk.inj (toLex_inj.1 h)
  rw [← List.zip_unzip a, ← List.zip_unzip b, List.unzip_fst, List.unzip_fst, List.unzip_snd,
    List.unzip_snd, hfst, hsnd]

/-! ### The caches against the entries -/

/-- The maps are those of the entries. -/
structure Keeps (S : Set (GEOSGeom α)) (c : GeometryCache α) (e : Entries α) : Prop where
  lonLat : ∀ ps, Represents position S (c.geomToLonLat ps) (e.lonLat ps)
  wkt : Represents position S c.geomToWkt e.wkt

theorem keeps_empty : Keeps S GeometryCache.empty ⟨fun _ _ => none, fun _ => none⟩ :=
  ⟨fun _ => represents_nil, represents_nil⟩

/-- A call keeps the maps those of the entries. -/
theorem Keeps.step {c : GeometryCache α} {e : Entries α} (ho : Orders geosGeomCmp position S)
    (h : Keeps S c e) {call : CacheCall α} (hcall : call.In S) :
    ∃ c', c.step call = some c' ∧ Keeps S c' (e.step call) := by
  cases call with
  | setLonLat ps g lon lat =>
    obtain ⟨m, hassign, hm⟩ := ho.assign_represents (v := (lon, lat)) (h.lonLat ps) hcall
    refine ⟨{ c with geomToLonLat := Function.update c.geomToLonLat ps m },
      by rw [GeometryCache.step, hassign, Option.map_some], fun ps' => ?_, h.wkt⟩
    rcases eq_or_ne ps' ps with rfl | hne
    · simpa [Entries.step] using hm
    · simpa [Entries.step, hne] using h.lonLat ps'
  | setWkt g wkt =>
    obtain ⟨m, hassign, hm⟩ := ho.assign_represents (v := wkt) h.wkt hcall
    exact ⟨{ c with geomToWkt := m }, by rw [GeometryCache.step, hassign, Option.map_some], h.lonLat, hm⟩
  | clear => exact ⟨_, rfl, keeps_empty⟩

theorem Keeps.run {c : GeometryCache α} {e : Entries α} (ho : Orders geosGeomCmp position S)
    (h : Keeps S c e) {calls : List (CacheCall α)} (hcalls : ∀ call ∈ calls, call.In S) :
    ∃ c', calls.foldlM GeometryCache.step c = some c' ∧ Keeps S c' (calls.foldl Entries.step e) := by
  induction calls generalizing c e with
  | nil => exact ⟨c, rfl, h⟩
  | cons call calls ih =>
    obtain ⟨c', hstep, hc'⟩ := h.step ho (hcalls call List.mem_cons_self)
    obtain ⟨c'', hrun, hc''⟩ := ih hc' fun call hcall => hcalls call (List.mem_cons_of_mem _ hcall)
    exact ⟨c'', by rw [List.foldlM_cons, hstep]; exact hrun, hc''⟩

end Order

/-- The comparison is a strict weak order, and the caches keep geometries apart, on a set of geometries
    in which none begins with all the x of a shorter one. -/
theorem compares_iff {α : Type*} [LinearOrder α] (S : Set (GEOSGeom α)) : Compares S ↔
    ∀ a b, some a ∈ S → some b ∈ S → b.map Prod.fst <+: a.map Prod.fst → b.length = a.length := by
  constructor
  · intro h a b ha hb hpre
    by_contra hne
    have hle := hpre.length_le
    simp only [List.length_map] at hle
    exact h.within _ ha _ hb (geosGeomCmp_eq_none.2 ⟨hpre, lt_of_le_of_ne hle hne⟩)
  · intro h
    have hno : ∀ a ∈ S, ∀ b ∈ S, ¬ Overruns a b := by
      rintro (_ | a) ha (_ | b) hb hover
      any_goals exact hover
      exact hover.2.ne (h a b ha hb hover.1)
    have ho : Orders geosGeomCmp position S :=
      ⟨fun a ha b hb => geosGeomCmp_eq (hno a ha b hb) (hno b hb a ha), position_injective.injOn⟩
    refine ⟨fun a ha b hb => mt geosGeomCmp_eq_none.1 (hno a ha b hb), ?_, ?_, ?_, ?_, ?_⟩
    · intro a ha
      simp [ho.lt_eq a ha a ha]
    · intro a ha b hb c hc hab hbc
      simp only [ho.lt_eq _ ha _ hb, ho.lt_eq _ hb _ hc, ho.lt_eq _ ha _ hc, Option.some_inj,
        decide_eq_true_eq] at hab hbc ⊢
      exact hab.trans hbc
    · intro a ha b hb c hc hab hba hbc hcb
      simp only [ho.lt_eq _ ha _ hb, ho.lt_eq _ hb _ ha, ho.lt_eq _ hb _ hc, ho.lt_eq _ hc _ hb,
        ho.lt_eq _ ha _ hc, ho.lt_eq _ hc _ ha, Option.some_inj, decide_eq_false_iff_not, not_lt] at *
      exact ⟨hbc.trans hab, hba.trans hcb⟩
    · intro a ha b hb
      simp only [ho.lt_eq _ ha _ hb, ho.lt_eq _ hb _ ha, Option.some_inj, decide_eq_false_iff_not, not_lt]
      refine ⟨fun h => position_injective (le_antisymm h.2 h.1), ?_⟩
      rintro rfl
      exact ⟨le_rfl, le_rfl⟩
    · intro calls hcalls
      obtain ⟨c, hrun, hc⟩ := keeps_empty.run ho hcalls
      exact ⟨c, hrun, fun g hg => ⟨fun ps => ho.find_represents (hc.lonLat ps) hg,
        ho.find_represents hc.wkt hg⟩⟩

/-- A line and its first point: the line is read where the point has ended. -/
theorem not_compares : ¬ Compares (Set.univ : Set (GEOSGeom ℤ)) := by
  intro h
  exact h.within (some [(0, 0), (1, 0)]) trivial (some [(0, 0)]) trivial (by decide)

end Wdb.Geometry
