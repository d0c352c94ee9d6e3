import Wdb.Lib.Nearest
import Wdb.Read.Location

/-! Reading the places around a location from the float table.

    The query so far becomes a table of its own, `floatvalue`. Around a geometry, the place has to equal
    the place of one of the first rows in order of distance, a subquery that may return one row. Around a
    named place it has to be among the places of the first rows, for each geometry of the name that is
    valid at the row's reference time. Rows are counted, not places. -/

namespace Wdb.Read
open Store Nearest

/-- `ORDER BY`: rows in the order of a key, those with the same key in any order. -/
structure OrderBy (α : Type) where
  sort : (α → ℚ) → List α → List α
  perm : ∀ key rows, (sort key rows).Perm rows
  sorted : ∀ key rows, (sort key rows).Pairwise fun v w => key v ≤ key w

/-- Rows of a key that are equal stay as they are. -/
def OrderBy.stable (α : Type) : OrderBy α where
  sort := fun key => List.insertionSort fun v w => key v ≤ key w
  perm := fun _ rows => List.perm_insertionSort _ rows
  sorted := fun key rows =>
    have : Std.Total fun v w => key v ≤ key w := ⟨fun v w => le_total (key v) (key w)⟩
    have : IsTrans α fun v w => key v ≤ key w := ⟨fun _ _ _ => le_trans⟩
    List.pairwise_insertionSort _ rows

/-- A row of `wanted_location`. -/
structure WantedLocation (γ : Type) where
  placegeometry : γ
  placenamevalidfrom : ℤ
  placenamevalidto : ℤ
  deriving DecidableEq

section Query
variable {γ : Type} (order : OrderBy (ValueV ℚ)) (placegeometry : ℤ → γ) (distance : γ → γ → ℚ)
  (floatvalue : List (ValueV ℚ)) (interpolationParameter : ℤ)

/-- `SELECT placeid FROM floatvalue v ORDER BY v.placegeometry <-> … LIMIT …`. -/
def nearestRows (wanted : γ) : List (ValueV ℚ) :=
  (order.sort (fun v => distance (placegeometry v.placeid) wanted) floatvalue).take
    interpolationParameter.toNat

/-- A name is defined so at the reference time of a row. -/
def WantedLocation.validAt (l : WantedLocation γ) (v : ValueV ℚ) : Prop :=
  v.referencetime ≥ l.placenamevalidfrom ∧ v.referencetime < l.placenamevalidto

instance (l : WantedLocation γ) (v : ValueV ℚ) : Decidable (l.validAt v) :=
  inferInstanceAs (Decidable (_ ∧ _))

/-- The query of `addToReturnSurroundFloatQuery` for a geometry; `none` when it raises. A subquery without
    rows is `NULL`, which no place equals. -/
def surroundGeometry (geometry : γ) : Option (List (ValueV ℚ)) :=
  if interpolationParameter < 0 then none
  else
    match nearestRows order placegeometry distance floatvalue interpolationParameter geometry with
    | [] => some []
    | [nearest] => some (floatvalue.filter fun v => v.placeid = nearest.placeid)
    | _ :: _ :: _ => none

/-- The query for a named place: its rows are rows of both tables. -/
def surroundName (wantedLocation : List (WantedLocation γ)) :
    Option (List (ValueV ℚ × WantedLocation γ)) :=
  if interpolationParameter < 0 then none
  else some ((floatvalue.product wantedLocation).filter fun x => x.2.validAt x.1 ∧
    x.1.placeid ∈ (nearestRows order placegeometry distance floatvalue interpolationParameter
      x.2.placegeometry).map (·.placeid))

/-- The `n` nearest places of the rows. -/
def NearestPlaces (wanted : γ) : Finset ℤ → Prop :=
  Selection (fun placeid => distance (placegeometry placeid) wanted) interpolationParameter.toNat
    (things (·.placeid) floatvalue)

/-- The places of the first rows. -/
def firstPlaces (wanted : γ) : Finset ℤ :=
  things (·.placeid) (nearestRows order placegeometry distance floatvalue interpolationParameter wanted)

/-- The rows that come before those of a place, in order of distance. -/
def rowsBefore (wanted : γ) (placeid : ℤ) : List (ValueV ℚ) :=
  (order.sort (fun v => distance (placegeometry v.placeid) wanted) floatvalue).takeWhile fun v =>
    v.placeid ≠ placeid

/-- The places no farther than a place that have fewer than `n` rows before theirs, or no row that counts for
    the geometry. -/
def placesNoFarther (l : WantedLocation γ) (placeid : ℤ) : Finset ℤ :=
  (things (·.placeid) floatvalue).filter fun p =>
    distance (placegeometry p) l.placegeometry ≤ distance (placegeometry placeid) l.placegeometry ∧
      ((rowsBefore order placegeometry distance floatvalue l.placegeometry p).length < interpolationParameter ∨
        ∀ w ∈ floatvalue, l.validAt w → w.placeid ≠ p)

/-- What should be returned around a geometry: the rows of the nearest places. -/
def AroundGeometry (geometry : γ) : Prop :=
  ∃ s, NearestPlaces placegeometry distance floatvalue interpolationParameter geometry s ∧
    surroundGeometry order placegeometry distance floatvalue interpolationParameter geometry =
      some (floatvalue.filter fun v => v.placeid ∈ s)

/-- What should be returned around a named place: for each of its geometries, the rows of the places that
    are nearest to it, at reference times for which it is the place's. -/
def AroundName (wantedLocation : List (WantedLocation γ)) : Prop :=
  ∃ s : WantedLocation γ → Finset ℤ,
    (∀ l ∈ wantedLocation,
      NearestPlaces placegeometry distance floatvalue interpolationParameter l.placegeometry (s l)) ∧
    surroundName order placegeometry distance floatvalue interpolationParameter wantedLocation =
      some ((floatvalue.product wantedLocation).filter fun x => x.2.validAt x.1 ∧ x.1.placeid ∈ s x.2)

end Query

section Lemmas
variable {γ : Type} (order : OrderBy (ValueV ℚ)) (placegeometry : ℤ → γ) (distance : γ → γ → ℚ)
  (floatvalue : List (ValueV ℚ)) (n : ℤ)

/-- The places of the first rows are closed, but there may be fewer than `n`. -/
theorem closed_firstPlaces (wanted : γ) :
    Closed (fun placeid => distance (placegeometry placeid) wanted) (things (·.placeid) floatvalue)
      (firstPlaces order placegeometry distance floatvalue n wanted) ∧
    (firstPlaces order placegeometry distance floatvalue n wanted).card ≤
      min n.toNat (things (·.placeid) floatvalue).card := by
  have hperm := order.perm (fun v => distance (placegeometry v.placeid) wanted) floatvalue
  have hsame : things (·.placeid) (order.sort (fun v => distance (placegeometry v.placeid) wanted)
      floatvalue) = things (·.placeid) floatvalue := by
    ext p
    simp only [mem_things, hperm.mem_iff]
  have hsorted := order.sorted (fun v => distance (placegeometry v.placeid) wanted) floatvalue
  rw [← hsame]
  exact ⟨@closed_take _ _ _ _ (fun placeid => distance (placegeometry placeid) wanted) _
    (fun v : ValueV ℚ => v.placeid) _ hsorted n.toNat, card_take_le _ _⟩

theorem length_nearestRows (wanted : γ) :
    (nearestRows order placegeometry distance floatvalue n wanted).length =
      min n.toNat floatvalue.length := by
  rw [nearestRows, List.length_take, (order.perm _ _).length_eq]

variable {order placegeometry distance floatvalue n}

theorem mem_firstPlaces {wanted : γ} {placeid : ℤ} :
    placeid ∈ firstPlaces order placegeometry distance floatvalue n wanted ↔
      placeid ∈ (nearestRows order placegeometry distance floatvalue n wanted).map (·.placeid) := by
  simp [firstPlaces, things]

/-- The subquery for a geometry must not have two rows. -/
theorem aroundGeometry_iff (hn : 1 ≤ n) (geometry : γ) :
    AroundGeometry order placegeometry distance floatvalue n geometry ↔
      n = 1 ∨ floatvalue.length ≤ 1 := by
  have hlength := length_nearestRows order placegeometry distance floatvalue n geometry
  obtain ⟨hclosed, hcard⟩ := closed_firstPlaces order placegeometry distance floatvalue n geometry
  have hfirst : firstPlaces order placegeometry distance floatvalue n geometry =
    things (·.placeid) (nearestRows order placegeometry distance floatvalue n geometry) := rfl
  unfold AroundGeometry surroundGeometry
  rw [if_neg (by omega)]
  match hrows : nearestRows order placegeometry distance floatvalue n geometry with
  | [] =>
    rw [hrows, List.length_nil] at hlength
    have hnil : floatvalue = [] := List.length_eq_zero_iff.1 (by omega)
    subst hnil
    exact iff_of_true ⟨∅, ⟨⟨Finset.empty_subset _, by simp⟩, by simp [things]⟩, rfl⟩ (Or.inr (by simp))
  | [nearest] =>
    rw [hrows, List.length_singleton] at hlength
    have hone : n = 1 ∨ floatvalue.length ≤ 1 := by omega
    have hplace : firstPlaces order placegeometry distance floatvalue n geometry = {nearest.placeid} := by
      rw [hfirst, hrows]
      rfl
    refine iff_of_true ⟨{nearest.placeid}, ⟨hplace ▸ hclosed, ?_⟩, by simp⟩ hone
    have hall : (things (·.placeid) floatvalue).card ≤ floatvalue.length := by
      simpa [things] using List.toFinset_card_le (floatvalue.map (·.placeid))
    rw [hplace, Finset.card_singleton] at hcard
    rw [Finset.card_singleton]
    omega
  | _ :: _ :: _ =>
    rw [hrows, List.length_cons, List.length_cons] at hlength
    refine iff_of_false ?_ (by omega)
    rintro ⟨_, _, h⟩
    cases h

/-- A place is that of one of the first rows when fewer than `n` rows come before its own. -/
theorem mem_firstPlaces_iff {wanted : γ} {v : ValueV ℚ} (hv : v ∈ floatvalue) :
    v.placeid ∈ firstPlaces order placegeometry distance floatvalue n wanted ↔
      (rowsBefore order placegeometry distance floatvalue wanted v.placeid).length < n := by
  have hperm := order.perm (fun v => distance (placegeometry v.placeid) wanted) floatvalue
  rw [firstPlaces, nearestRows, mem_things_take_iff ⟨v, hperm.mem_iff.2 hv, rfl⟩, Int.lt_toNat, rowsBefore]

/-- The rows around a named place are those of the nearest places when every row that counts for a geometry
    is found, or lost behind `n` places that are found or do not count. -/
theorem aroundName_iff (hn : 1 ≤ n) (wantedLocation : List (WantedLocation γ)) :
    AroundName order placegeometry distance floatvalue n wantedLocation ↔
      ∀ l ∈ wantedLocation, ∀ v ∈ floatvalue, l.validAt v →
        (rowsBefore order placegeometry distance floatvalue l.placegeometry v.placeid).length < n ∨
        n ≤ (placesNoFarther order placegeometry distance floatvalue n l v.placeid).card := by
  have hselect : ∀ l : WantedLocation γ,
      (∃ s, NearestPlaces placegeometry distance floatvalue n l.placegeometry s ∧
        ∀ p ∈ things (·.placeid) floatvalue, (∃ v ∈ floatvalue, l.validAt v ∧ v.placeid = p) →
          (p ∈ s ↔ p ∈ firstPlaces order placegeometry distance floatvalue n l.placegeometry)) ↔
      ∀ v ∈ floatvalue, l.validAt v →
        (rowsBefore order placegeometry distance floatvalue l.placegeometry v.placeid).length < n ∨
        n ≤ (placesNoFarther order placegeometry distance floatvalue n l v.placeid).card := by
    intro l
    obtain ⟨hclosed, hcard⟩ :=
      closed_firstPlaces order placegeometry distance floatvalue n l.placegeometry
    have hplaces : ∀ p, ((things (·.placeid) floatvalue).filter fun q =>
        distance (placegeometry q) l.placegeometry ≤ distance (placegeometry p) l.placegeometry ∧
          (q ∈ firstPlaces order placegeometry distance floatvalue n l.placegeometry ∨
            ¬ ∃ v ∈ floatvalue, l.validAt v ∧ v.placeid = q)) =
        placesNoFarther order placegeometry distance floatvalue n l p := by
      intro p
      refine Finset.filter_congr fun q hq => and_congr_right fun _ => ?_
      obtain ⟨w, hw, rfl⟩ := mem_things.1 hq
      rw [mem_firstPlaces_iff hw]
      push Not
      rfl
    refine (hclosed.completes_iff hcard).trans ?_
    simp only [hplaces]
    constructor
    · intro h v hv hvalid
      have hv' := h v.placeid (mem_things.2 ⟨v, hv, rfl⟩) ⟨v, hv, hvalid, rfl⟩
      rw [mem_firstPlaces_iff hv] at hv'
      exact hv'.imp_right fun hle => by omega
    · rintro h p - ⟨v, hv, hvalid, rfl⟩
      rw [mem_firstPlaces_iff hv]
      exact (h v hv hvalid).imp_right fun hle => by omega
  refine Iff.trans ?_ (forall₂_congr fun l _ => hselect l)
  unfold AroundName surroundName
  rw [if_neg (by omega)]
  simp only [← mem_firstPlaces, Option.some.injEq]
  constructor
  · rintro ⟨s, hs, hrows⟩ l hl
    refine ⟨s l, hs l hl, ?_⟩
    rintro p - ⟨v, hv, hvalid, rfl⟩
    have hpair : (v, l) ∈ floatvalue.product wantedLocation := List.mem_product.2 ⟨hv, hl⟩
    have hmem := congrArg ((v, l) ∈ ·) hrows
    simpa [hpair, hvalid, eq_comm] using hmem
  · intro h
    choose! s hs hagree using h
    refine ⟨s, hs, List.filter_congr fun x hx => ?_⟩
    obtain ⟨v, l⟩ := x
    obtain ⟨hv, hl⟩ := List.mem_product.1 hx
    refine decide_eq_decide.2 (and_congr_right fun hvalid => ?_)
    exact (hagree l hl v.placeid (mem_things.2 ⟨v, hv, rfl⟩) ⟨v, hv, hvalid, rfl⟩).symm

end Lemmas

/-- For all rows, every order in which rows of the same distance may come, and every `n`: around a geometry
    the rows of the `n` nearest places are returned exactly when `n` is 1 or there is at most one row;
    around a named place, exactly when for each of its geometries every row that counts for it is of a place
    with fewer than `n` rows before its own in order of distance, or has `n` places no farther that are such or
    have no row that counts. `nearest` has `n = 1`. -/
theorem surroundFloat_iff {γ : Type} (order : OrderBy (ValueV ℚ)) (placegeometry : ℤ → γ)
    (distance : γ → γ → ℚ) (floatvalue : List (ValueV ℚ)) (n : ℤ) (hn : 1 ≤ n) :
    (∀ geometry, AroundGeometry order placegeometry distance floatvalue n geometry ↔
      n = 1 ∨ floatvalue.length ≤ 1) ∧
    (∀ wantedLocation, AroundName order placegeometry distance floatvalue n wantedLocation ↔
      ∀ l ∈ wantedLocation, ∀ v ∈ floatvalue, l.validAt v →
        (rowsBefore order placegeometry distance floatvalue l.placegeometry v.placeid).length < n ∨
        n ≤ (placesNoFarther order placegeometry distance floatvalue n l v.placeid).card) ∧
    ∀ location loc, Location.parseWithSpirit_ location = .ok loc → loc.interpolationType = .nearest →
      loc.interpolationParameter = 1 :=
  ⟨aroundGeometry_iff hn, aroundName_iff hn, fun _ _ => Location.parameter_of_nearest⟩

/-- A row of a place, with names. -/
def floatTuple (placeid valueid : ℤ) : ValueV ℚ where
  toKey := (gridTuple placeid).toKey
  value := 1
  names := (gridTuple placeid).names
  dataversion := 0
  maxdataversion := 0
  confidencecode := 0
  valuestoretime := 0
  valueid := valueid

/-- The nearest of two places, each on the line at its number. -/
theorem surroundFloat_iff_nearest :
    AroundGeometry (.stable _) (fun p => (p : ℚ)) (fun a b => |a - b|) [floatTuple 2 1, floatTuple 1 2] 1 0 :=
  ((surroundFloat_iff (.stable _) (fun p => (p : ℚ)) (fun a b => |a - b|)
    [floatTuple 2 1, floatTuple 1 2] 1 le_rfl).1 0).2 (Or.inl rfl)

/-- The two nearest of two places, one with two rows: around a geometry the subquery has two rows, and
    around a named place both are of the same place. -/
theorem surroundFloat_two :
    surroundGeometry (.stable _) (fun p => (p : ℚ)) (fun a b => |a - b|)
        [floatTuple 1 1, floatTuple 1 2, floatTuple 2 3] 2 0 = none ∧
      ¬ AroundGeometry (.stable _) (fun p => (p : ℚ)) (fun a b => |a - b|)
        [floatTuple 1 1, floatTuple 1 2, floatTuple 2 3] 2 0 ∧
      ¬ AroundName (.stable _) (fun p => (p : ℚ)) (fun a b => |a - b|)
        [floatTuple 1 1, floatTuple 1 2, floatTuple 2 3] 2 [⟨0, 0, 1⟩] := by
  have hgeometry : ¬ AroundGeometry (.stable _) (fun p => (p : ℚ)) (fun a b => |a - b|)
      [floatTuple 1 1, floatTuple 1 2, floatTuple 2 3] 2 0 := by
    rw [aroundGeometry_iff (by decide)]
    decide
  refine ⟨by decide +kernel, hgeometry, fun h => ?_⟩
  have hname := (aroundName_iff (by decide) _).1 h ⟨0, 0, 1⟩ (List.mem_singleton.2 rfl)
  -- a row of place 2 has two rows before it, and nothing but place 1 is found
  exact absurd (hname (floatTuple 2 3) (by simp) (by decide)) (by decide +kernel)

end Wdb.Read
