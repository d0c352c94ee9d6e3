import Wdb.Lib.SinglePrecision
import Wdb.Place.Paths
import Wdb.Write.Overloads

/-! Whether `verifyBlobSize` finds the size of the grid that is written to.

    The name is looked up as it is spelled and at any time, in the view of grids, where `getPlaceId` looks
    for it in lower case and at the reference time. What is not found is not checked, and the number of
    values is held in a `real`. -/

namespace Wdb.Write
open SqlTypes Place Store

/-- A grid has so many points, which an `integer` can count. -/
def Points (numberx numbery : ℤ) (n : ℕ) : Prop := integer (numberx * numbery) = some (n : ℤ)

instance (numberx numbery : ℤ) (n : ℕ) : Decidable (Points numberx numbery n) :=
  inferInstanceAs (Decidable (_ = _))

/-- The place is a regular grid of so many points. -/
def GridOf (t : PlaceTables) (placeid : ℤ) (n : ℕ) : Prop :=
  ∃ pg ∈ t.placeregulargrid.rows, pg.placeid = placeid ∧ Points pg.numberx pg.numbery n

/-- The row is of a name as it is spelled. -/
def Spelled (env : Environment) (placename_ : String) (g : PlaceRegularGridV) : Prop :=
  g.placename = placename_ ∧ g.placenamespaceid = env.session.placenamespaceid

/-- Whatever the order of the rows: the check passes exactly for as many values as the grid has points. -/
def ChecksSize (gis : Gis) (t : PlaceTables) (env : Environment) (placename_ : String) (r : Timestamp) :
    Prop :=
  ∀ mv gv, mv.Perm (t.placedefinitionV gis) → gv.Perm (t.placeregulargridV gis) →
    ∀ placeid, Place.getPlaceId mv env.session.placenamespaceid placename_ r = some placeid →
    ∀ data : List UInt8,
      verifyBlobSize { env with placeregulargridV := gv } (some data) (some placename_) = some () ↔
        ∃ n, GridOf t placeid n ∧ data.length = 4 * n

/-- A row has the size of a place, and a size that a `real` tells from all others; or neither the place
    nor the row has a size that a blob can have. -/
def SizesAgree (t : PlaceTables) (placeid : ℤ) (g : PlaceRegularGridV) : Prop :=
  (∃ n < 2 ^ 22, GridOf t placeid n ∧ Points g.numberx g.numbery n) ∨
    (∀ n, ¬ GridOf t placeid n) ∧ ∀ n : ℕ, Points g.numberx g.numbery n → toReal n ≠ some (n : ℚ)

section Check
variable {gis : Gis} {t : PlaceTables} {env : Environment} {placename_ : String} {r : Timestamp}
  {placeid : ℤ} {g : PlaceRegularGridV} {n m : ℕ}

theorem GridOf.unique (h : GridOf t placeid n) (h' : GridOf t placeid m) : n = m := by
  obtain ⟨pg, hpg, hid, hn⟩ := h
  obtain ⟨pg', hpg', hid', hm⟩ := h'
  obtain rfl := t.grid_unique hpg hpg' (hid.trans hid'.symm)
  have heq := Option.some.inj (hn.symm.trans hm)
  exact_mod_cast heq

/-- A blob passes the check against a row. -/
def Passes (g : PlaceRegularGridV) (length : ℕ) : Prop :=
  ∃ specSize, integer (g.numberx * g.numbery) = some specSize ∧
    toReal ((length : ℚ) / 4) = some (specSize : ℚ)

/-- The size that is compared with is one that a blob can have, and that the cast keeps. -/
theorem Passes.points {length : ℕ} (h : Passes g length) :
    ∃ n : ℕ, Points g.numberx g.numbery n ∧ toReal n = some (n : ℚ) ∧
      toReal ((length : ℚ) / 4) = some (n : ℚ) := by
  obtain ⟨specSize, hsize, hreal⟩ := h
  have hnonneg : (0 : ℚ) ≤ specSize := toReal_nonneg (by positivity) hreal
  have hnat : ((specSize.toNat : ℕ) : ℤ) = specSize := Int.toNat_of_nonneg (by exact_mod_cast hnonneg)
  have hcast : ((specSize.toNat : ℕ) : ℚ) = specSize := by exact_mod_cast hnat
  refine ⟨specSize.toNat, by rw [Points, hnat, hsize], ?_, by rw [hreal, hcast]⟩
  rw [hcast, toReal_idem hreal]

theorem passes_of_toReal {length : ℕ} (hn : Points g.numberx g.numbery n)
    (h : toReal ((length : ℚ) / 4) = some (n : ℚ)) : Passes g length :=
  ⟨n, hn, by rw [h, Int.cast_natCast]⟩

theorem four_mul_div (n : ℕ) : ((4 * n : ℕ) : ℚ) / 4 = n := by
  push_cast
  ring

/-- Below 2²² a blob passes exactly when it has four bytes for each point. -/
theorem passes_iff_of_small (hn : Points g.numberx g.numbery n) (hsmall : n < 2 ^ 22) {length : ℕ} :
    Passes g length ↔ length = 4 * n := by
  constructor
  · intro h
    obtain ⟨m, hm, _, hreal⟩ := h.points
    have hmn : m = n := by
      have heq := Option.some.inj (hm.symm.trans hn)
      exact_mod_cast heq
    rw [hmn] at hreal
    have hlength : length < 2 ^ 24 := by
      by_contra hge
      have hle : (2 : ℚ) ^ (22 : ℤ) ≤ (length : ℚ) / 4 := by
        have : (2 ^ 24 : ℚ) ≤ length := by exact_mod_cast not_lt.1 hge
        rw [le_div_iff₀ (by norm_num)]
        norm_num
        linarith
      have hbelow := le_toReal (by norm_num) hle hreal
      have hlt : (n : ℚ) < 2 ^ 22 := by exact_mod_cast hsmall
      norm_num at hbelow
      linarith
    have heq := Option.some.inj ((toReal_quarter hlength).symm.trans hreal)
    rw [div_eq_iff (by norm_num)] at heq
    have : (length : ℚ) = ((4 * n : ℕ) : ℚ) := by
      push_cast
      linarith
    exact_mod_cast this
  · rintro rfl
    refine passes_of_toReal hn ?_
    rw [toReal_quarter (by omega), four_mul_div]

/-- A row checks the size of a place for all blobs when their sizes agree. -/
theorem passes_iff : (∀ length, Passes g length ↔ ∃ n, GridOf t placeid n ∧ length = 4 * n) ↔
    SizesAgree t placeid g := by
  constructor
  · intro h
    by_cases hgrid : ∃ n, GridOf t placeid n
    · obtain ⟨n, hn⟩ := hgrid
      have honly : ∀ length, Passes g length ↔ length = 4 * n := fun length => by
        rw [h]
        exact ⟨fun ⟨m, hm, heq⟩ => hm.unique hn ▸ heq, fun heq => ⟨n, hn, heq⟩⟩
      obtain ⟨m, hm, hkeep, hreal⟩ := ((honly (4 * n)).2 rfl).points
      -- the size of the row passes itself, so that it is the size of the place
      have hmn : m = n := by
        have hself := (honly (4 * m)).1 (passes_of_toReal hm (by rw [four_mul_div, hkeep]))
        omega
      subst hmn
      refine Or.inl ⟨m, not_le.1 fun hge => ?_, hn, hm⟩
      have hquarter : (((4 * m + 1 : ℕ) : ℚ)) / 4 = m + 1 / 4 := by
        push_cast
        ring
      have hmore := (honly (4 * m + 1)).1
        (passes_of_toReal hm (by rw [hquarter, toReal_add_quarter hge hkeep]))
      omega
    · refine Or.inr ⟨fun n hn => hgrid ⟨n, hn⟩, fun n hn hkeep => ?_⟩
      obtain ⟨m, hm, _⟩ := (h (4 * n)).1 (passes_of_toReal hn (by rw [four_mul_div, hkeep]))
      exact hgrid ⟨m, hm⟩
  · rintro (⟨n, hsmall, hn, hpoints⟩ | ⟨hno, hnever⟩) length
    · rw [passes_iff_of_small hpoints hsmall]
      exact ⟨fun heq => ⟨n, hn, heq⟩, fun ⟨m, hm, heq⟩ => hm.unique hn ▸ heq⟩
    · refine iff_of_false (fun h => ?_) fun ⟨n, hn, _⟩ => hno n hn
      obtain ⟨m, hm, hkeep, _⟩ := h.points
      exact hnever m hm hkeep

instance : Decidable (Spelled env placename_ g) := inferInstanceAs (Decidable (_ ∧ _))

/-- The check is against the first row of the name, if there is one. -/
theorem verifyBlobSize_eq_some {gv : List PlaceRegularGridV} {data : List UInt8} :
    verifyBlobSize { env with placeregulargridV := gv } (some data) (some placename_) = some () ↔
      ∀ g, gv.find? (fun g => Spelled env placename_ g) = some g → Passes g data.length := by
  have hspelled : (fun g : PlaceRegularGridV => decide (some g.placename = some placename_ ∧
      g.placenamespaceid = env.session.placenamespaceid)) = fun g => decide (Spelled env placename_ g) :=
    funext fun g => decide_eq_decide.2 (and_congr_left' (Option.some.injEq _ _).to_iff)
  unfold verifyBlobSize Passes
  dsimp only
  rw [hspelled]
  cases hfind : gv.find? (fun g => Spelled env placename_ g) with
  | none => simp
  | some g =>
    cases hsize : integer (g.numberx * g.numbery) with
    | none => simp [hsize]
    | some specSize => simp [hsize]

/-- For every table of places, every name and every reference time: the check is right for all blobs
    exactly when some row of the view of grids has the name as it is spelled, and every such row has the
    size of the place that the name resolves to, which is less than 2²² points. -/
theorem checksSize_iff (gis : Gis) (t : PlaceTables) (env : Environment) (placename_ : String)
    (r : Timestamp) : ChecksSize gis t env placename_ r ↔
      ∀ placeid, t.Stands gis env.session.placenamespaceid (lower placename_) r placeid →
        (∃ g ∈ t.placeregulargridV gis, Spelled env placename_ g) ∧
        ∀ g ∈ t.placeregulargridV gis, Spelled env placename_ g → SizesAgree t placeid g := by
  constructor
  · intro h placeid hstands
    obtain ⟨mv, hmv, hplace⟩ := exists_getPlaceId.2 hstands
    refine ⟨by_contra fun hno => ?_, fun g hg hspelled => passes_iff.1 fun length => ?_⟩
    · -- what is not found is not checked: one byte passes
      have hone := (h mv _ hmv (List.Perm.refl _) placeid hplace [0]).1
        (verifyBlobSize_eq_some.2 fun g hg => absurd ⟨g, List.mem_of_find?_eq_some hg,
          of_decide_eq_true (List.find?_some (p := fun g => Spelled env placename_ g) hg)⟩ hno)
      obtain ⟨n, _, hlength⟩ := hone
      rw [List.length_singleton] at hlength
      omega
    · have hcheck := h mv _ hmv (List.perm_cons_erase hg).symm placeid hplace (List.replicate length 0)
      rw [verifyBlobSize_eq_some, List.find?_cons_of_pos (p := fun g => Spelled env placename_ g)
        (decide_eq_true hspelled), List.length_replicate] at hcheck
      rw [← hcheck]
      exact ⟨fun hpasses g' hg' => Option.some.inj hg' ▸ hpasses, fun hall => hall g rfl⟩
  · intro h mv gv hmv hgv placeid hplace data
    obtain ⟨⟨g, hg, hspelled⟩, hsizes⟩ := h placeid (exists_getPlaceId.1 ⟨mv, hmv, hplace⟩)
    cases hfind : gv.find? (fun g => Spelled env placename_ g) with
    | none =>
      exact absurd (decide_eq_true hspelled) (List.find?_eq_none.1 hfind g (hgv.mem_iff.2 hg))
    | some g' =>
      have hmem := hgv.mem_iff.1 (List.mem_of_find?_eq_some hfind)
      have hspelled' := of_decide_eq_true (List.find?_some (p := fun g => Spelled env placename_ g) hfind)
      have hsize := passes_iff.2 (hsizes g' hmem hspelled') data.length
      rw [verifyBlobSize_eq_some, hfind, ← hsize]
      exact ⟨fun hall => hall g' rfl, fun hpasses g'' hg'' => Option.some.inj hg'' ▸ hpasses⟩

end Check

/-! ### A name in capitals -/

/-- A database with a grid of two by two points, named in namespace 1. -/
def twoByTwo : PlaceTables where
  placedefinition := ⟨[⟨1, 0, .grid, .at 0, "POLYGON((0 0,0 1,1 1,1 0,0 0))"⟩], List.pairwise_singleton _ _⟩
  placeregulargrid := ⟨[⟨1, 2, 2, 1, 1, 0, 0, 4030⟩], List.pairwise_singleton _ _⟩
  placename := ⟨[⟨1, 1, "grid", by decide, ⟨.at 0, .infinity, by decide⟩, .at 0⟩], List.pairwise_singleton _ _⟩
  spatialRefSys := [⟨4030, "+proj=longlat"⟩]
  placeindeterminatetype := [(0, "any")]
  namespaces := [0, 1]
  referenced := []
  references := by decide

/-- A writer to the grid. -/
def gridWriter : Environment where
  cat := oneName
  session := oneSession
  user := "wdb"
  dataprovidertype _ := "wci user"
  placeregulargridV := twoByTwo.placeregulargridV plainGis

/-- With a capital the name resolves to the grid, and one byte passes for its four points. -/
theorem not_checksSize_capital : DisjointRows twoByTwo.placename.rows ∧
    Place.getPlaceId (twoByTwo.placedefinitionV plainGis) 1 "Grid" (.at 0) = some 1 ∧
    verifyBlobSize gridWriter (some [0]) (some "Grid") = some () ∧
    ¬ ChecksSize plainGis twoByTwo gridWriter "Grid" (.at 0) := by
  refine ⟨by decide, by decide, by decide, fun h => ?_⟩
  obtain ⟨n, _, hlength⟩ := (h _ _ (List.Perm.refl _) (List.Perm.refl _) 1 (by decide) [0]).1 (by decide)
  rw [List.length_singleton] at hlength
  omega

end Wdb.Write
