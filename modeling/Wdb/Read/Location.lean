import Wdb.Lib.Spirit
import Wdb.Read.Surround

/-! Locations: an interpolation, and a geometry or the name of a place.

    The interpolation is a word in any case, and `surround` may have a number in brackets. What is
    assigned while the text is parsed stays assigned when the parser goes back. A text that looks like a
    geometry is not taken for a name. -/

namespace Wdb.Read
open Spirit

inductive GeomType where
  | unknown | point | polygon | mpolygon
  deriving DecidableEq

/-- `Location`, with its defaults. -/
structure Location where
  interpolation : String := ""
  interpolationType : InterpolationType := .exact
  interpolationParameter : ℤ := 1
  geometry : String := ""
  placeName : String := ""
  geomType : GeomType := .unknown
  deriving DecidableEq

namespace Location

def hasGeometry (loc : Location) : Bool := loc.geometry ≠ ""

def hasPlaceName (loc : Location) : Bool := loc.placeName ≠ ""

/-! ### The grammar -/

/-- A number in brackets after `surround`. It is assigned before the closing bracket is looked for. -/
def surroundParameter (loc : Location) (s : List Char) : Location × List Char :=
  match (ch '(' s).bind Spirit.int with
  | some (n, t) =>
    let loc := { loc with interpolationParameter := n }
    ((ch ')' t).elim (loc, s) fun rest => (loc, rest))
  | none => (loc, s)

/-- The interpolation, if there is one. -/
def interpolationRule (loc : Location) (s : List Char) : Location × List Char :=
  match strLower "exact" s with
  | some rest => ({ loc with interpolationType := .exact }, rest)
  | none =>
    match strLower "nearest" s with
    | some rest => ({ loc with interpolationType := .nearest }, rest)
    | none =>
      match strLower "surround" s with
      | some rest =>
        let (loc, rest) := surroundParameter loc rest
        ({ loc with interpolationType := .surround }, rest)
      | none =>
        match strLower "bilinear" s with
        | some rest => ({ loc with interpolationType := .bilinear }, rest)
        | none => (loc, s)

/-- Corners: two numbers each, with commas between them. -/
def corners : Rec := real >=> real >=> star (ch ',' >=> real >=> real)

def ring : Rec := ch '(' >=> corners >=> ch ')'

/-- An outer ring and any inner ones. -/
def rings : Rec := ch '(' >=> ring >=> star (ch ',' >=> ring) >=> ch ')'

def pointRule : Rec := str "POINT" >=> ch '(' >=> real >=> real >=> ch ')'

def polygonRule : Rec := str "POLYGON" >=> rings

def multipolygonRule : Rec := str "MULTIPOLYGON" >=> ch '(' >=> rings >=> star (ch ',' >=> rings) >=> ch ')'

/-- The type of a geometry, and what is left after it. -/
def geometryType (s : List Char) : Option (GeomType × List Char) :=
  match pointRule s with
  | some rest => some (.point, rest)
  | none =>
    match polygonRule s with
    | some rest => some (.polygon, rest)
    | none => (multipolygonRule s).map fun rest => (.mpolygon, rest)

def geometryRule (loc : Location) (s : List Char) : Option (Location × List Char) :=
  (geometryType s).map fun x =>
    ({ loc with geomType := x.1, geometry := String.ofList (matched s x.2) }, x.2)

def anyChars : Rec := plus (char fun _ => true)

/-- What is meant for a geometry. -/
def geometryLike : Rec :=
  star (char fun c => c.isLower || c = '(' || c = ')') >=>
    alts [str "POINT", str "POLYGON", str "MULTIPOINT", str "MULTIPOLYGON"] >=> star (char fun _ => true)

/-- A name: everything that is left. -/
def nameRule (loc : Location) (s : List Char) : Option (Location × List Char) :=
  (diff anyChars geometryLike s).map fun rest =>
    ({ loc with placeName := String.ofList (matched s rest) }, rest)

/-- The grammar, to the end of the text. -/
def rule (s : List Char) : Option Location :=
  let x := interpolationRule {} s
  let loc := { x.1 with interpolation := String.ofList (matched s x.2) }
  ((geometryRule loc x.2).or (nameRule loc x.2)).bind fun y => if skip y.2 = [] then some y.1 else none

/-- `Location::parseWithSpirit_`, or the reason why there is no location. -/
def parseWithSpirit_ (location : String) : Except String Location :=
  match rule location.toList with
  | none => .error ("Invalid place specification: " ++ location)
  | some loc =>
    .ok { loc with
      interpolation := loc.interpolation.toLower
      placeName := loc.placeName.toLower }

example : (parseWithSpirit_ " Surround( 4 ) foo Bar").toOption.map (·.placeName) = some "foo bar" := by
  decide +kernel

/-! ### What the rules assign -/

/-- The number in brackets after `surround` at the start of a text. -/
def surroundNumber (s : List Char) : Option ℤ :=
  ((strLower "surround" >=> ch '(') s).bind fun rest => (Spirit.int rest).map (·.1)

/-- Only one of two words can stand at the start of a text when their first letters differ. -/
theorem strLower_unique {v w : String} {c d : Char} (hv : v.toList.head? = some c)
    (hw : w.toList.head? = some d) (hne : c ≠ d) {s rest : List Char} (h : strLower v s = some rest) :
    strLower w s = none := by
  unfold strLower at h ⊢
  obtain ⟨v', hv'⟩ := List.head?_eq_some_iff.1 hv
  obtain ⟨w', hw'⟩ := List.head?_eq_some_iff.1 hw
  rw [hv'] at h
  rw [hw']
  cases hs : skip s with
  | nil => rfl
  | cons a t =>
    rw [hs, afterWord] at h
    split at h
    · next ha => rw [afterWord, if_neg (by rw [ha]; exact hne)]
    · cases h

theorem surroundParameter_eq (loc : Location) (s : List Char) :
    (surroundParameter loc s).1.interpolationParameter =
      (((ch '(' s).bind Spirit.int).map (·.1)).getD loc.interpolationParameter := by
  unfold surroundParameter
  cases (ch '(' s).bind Spirit.int with
  | none => rfl
  | some x =>
    obtain ⟨n, t⟩ := x
    cases h : ch ')' t <;> simp [h]

/-- The parameter of an interpolation is the number in brackets, also when the bracket is not closed. -/
theorem interpolationRule_parameter (loc : Location) (s : List Char) :
    (interpolationRule loc s).1.interpolationParameter =
      (surroundNumber s).getD loc.interpolationParameter := by
  have hnumber : surroundNumber s = (strLower "surround" s).bind fun rest =>
      ((ch '(' rest).bind Spirit.int).map (·.1) := by
    unfold surroundNumber
    cases h : strLower "surround" s with
    | none => simp [Bind.kleisliRight, h]
    | some rest => simp [Bind.kleisliRight, h, Option.map_bind]
  rw [hnumber, interpolationRule]
  cases hexact : strLower "exact" s with
  | some rest =>
    have hno : strLower "surround" s = none := strLower_unique rfl rfl (by decide : 'e' ≠ 's') hexact
    rw [hno]
    rfl
  | none =>
    cases hnearest : strLower "nearest" s with
    | some rest =>
      have hno : strLower "surround" s = none := strLower_unique rfl rfl (by decide : 'n' ≠ 's') hnearest
      rw [hno]
      rfl
    | none =>
      cases hsurround : strLower "surround" s with
      | some rest => exact surroundParameter_eq loc rest
      | none => cases strLower "bilinear" s <;> rfl

/-- An interpolation says nothing of the place. -/
theorem interpolationRule_place (loc : Location) (s : List Char) :
    (interpolationRule loc s).1.geometry = loc.geometry ∧
      (interpolationRule loc s).1.placeName = loc.placeName := by
  have hparameter (rest : List Char) : (surroundParameter loc rest).1.geometry = loc.geometry ∧
      (surroundParameter loc rest).1.placeName = loc.placeName := by
    unfold surroundParameter
    cases (ch '(' rest).bind Spirit.int with
    | none => exact ⟨rfl, rfl⟩
    | some x => cases hclose : ch ')' x.2 <;> simp [hclose]
  unfold interpolationRule
  split
  · exact ⟨rfl, rfl⟩
  split
  · exact ⟨rfl, rfl⟩
  split
  · exact hparameter _
  split <;> exact ⟨rfl, rfl⟩

/-- Only `surround` has a number. -/
theorem surroundNumber_of_nearest {loc : Location} {s : List Char}
    (h : (interpolationRule loc s).1.interpolationType = .nearest) : surroundNumber s = none := by
  have hnone : strLower "surround" s = none := by
    unfold interpolationRule at h
    cases hexact : strLower "exact" s with
    | some rest => exact strLower_unique rfl rfl (by decide : 'e' ≠ 's') hexact
    | none =>
      cases hnearest : strLower "nearest" s with
      | some rest => exact strLower_unique rfl rfl (by decide : 'n' ≠ 's') hnearest
      | none =>
        cases hsurround : strLower "surround" s with
        | none => rfl
        | some rest => simp [hexact, hnearest, hsurround] at h
  simp [surroundNumber, Bind.kleisliRight, hnone]

/-- What the rules for the place leave as it is. -/
theorem rule_interpolation {s : List Char} {loc : Location} (h : rule s = some loc) :
    loc.interpolationType = (interpolationRule {} s).1.interpolationType ∧
      loc.interpolationParameter = (interpolationRule {} s).1.interpolationParameter := by
  obtain ⟨⟨place, rest⟩, hplace, hloc⟩ := Option.bind_eq_some_iff.1 h
  have hkept : place.interpolationType = (interpolationRule {} s).1.interpolationType ∧
      place.interpolationParameter = (interpolationRule {} s).1.interpolationParameter := by
    rcases Option.or_eq_some_iff.1 hplace with hgeometry | ⟨_, hname⟩
    · obtain ⟨x, _, hx⟩ := Option.map_eq_some_iff.1 hgeometry
      rw [Prod.mk.injEq] at hx
      rw [← hx.1]
      exact ⟨rfl, rfl⟩
    · obtain ⟨x, _, hx⟩ := Option.map_eq_some_iff.1 hname
      rw [Prod.mk.injEq] at hx
      rw [← hx.1]
      exact ⟨rfl, rfl⟩
  split at hloc
  · obtain rfl := Option.some.inj hloc
    exact hkept
  · cases hloc

/-- A location is what the rules have assigned. -/
theorem parseWithSpirit_rule {location : String} {loc : Location}
    (h : parseWithSpirit_ location = .ok loc) : ∃ loc', rule location.toList = some loc' ∧
      loc = { loc' with
        interpolation := loc'.interpolation.toLower
        placeName := loc'.placeName.toLower } := by
  unfold parseWithSpirit_ at h
  cases hrule : rule location.toList with
  | none =>
    rw [hrule] at h
    cases h
  | some loc' =>
    rw [hrule] at h
    exact ⟨loc', rfl, (Except.ok.inj h).symm⟩

theorem parseWithSpirit_parameter {location : String} {loc : Location}
    (h : parseWithSpirit_ location = .ok loc) :
    loc.interpolationParameter = (surroundNumber location.toList).getD 1 := by
  obtain ⟨loc', hrule, rfl⟩ := parseWithSpirit_rule h
  exact (rule_interpolation hrule).2.trans (interpolationRule_parameter {} _)

/-- `nearest` has the parameter 1. -/
theorem parameter_of_nearest {location : String} {loc : Location}
    (h : parseWithSpirit_ location = .ok loc) (hnearest : loc.interpolationType = .nearest) :
    loc.interpolationParameter = 1 := by
  rw [parseWithSpirit_parameter h]
  obtain ⟨loc', hrule, rfl⟩ := parseWithSpirit_rule h
  rw [surroundNumber_of_nearest ((rule_interpolation hrule).1 ▸ hnearest)]
  rfl

end Location

/-! ### The windows around a location -/

/-- The parameter is positive, and around every index in a grid whose values are in a file, the integers
    and the buffer that `readSurround_` runs with are in range. -/
structure SurroundSafe (n : ℤ) : Prop where
  one_le : 1 ≤ n
  defined : ∀ (ps : PlaceSpecification) (readFloatFromFile : ℤ → Option ℚ) (exactX exactY : ℚ),
    4 * (ps.xNumber * ps.yNumber) < 2 ^ 31 → 0 ≤ exactX ∧ exactX ≤ ps.xNumber - 1 →
    0 ≤ exactY ∧ exactY ≤ ps.yNumber - 1 →
    ∃ out, surround ps readFloatFromFile exactX exactY n = some out

theorem surround_size {ps : PlaceSpecification} {readFloatFromFile : ℤ → Option ℚ} {exactX exactY : ℚ}
    {n : ℤ} {out : List GridPoint} (h : surround ps readFloatFromFile exactX exactY n = some out) :
    n * 2 * (n * 2) < 2 ^ 31 := by
  obtain ⟨cx, _, h⟩ := Option.bind_eq_some_iff.1 h
  obtain ⟨cy, _, h⟩ := Option.bind_eq_some_iff.1 h
  obtain ⟨side, hside, h⟩ := Option.bind_eq_some_iff.1 h
  obtain ⟨sizeRet, hsize, _⟩ := Option.bind_eq_some_iff.1 h
  obtain ⟨rfl, _⟩ := MachineInt.of_int_eq_some hside
  exact (MachineInt.of_int_eq_some hsize).2.2

/-- The size of the buffer is the narrowest limit. -/
theorem surroundSafe_iff (n : ℤ) : SurroundSafe n ↔ 1 ≤ n ∧ n ≤ 23170 := by
  constructor
  · intro h
    refine ⟨h.one_le, ?_⟩
    obtain ⟨out, hout⟩ := h.defined ⟨0, 0, 1, 1, 1, 1, 4030, ""⟩ (fun _ => none) 0 0 (by norm_num)
      (by norm_num) (by norm_num)
    have hsize := surround_size hout
    by_contra hgt
    nlinarith
  · rintro ⟨hone, hle⟩
    refine ⟨hone, fun ps readFloatFromFile exactX exactY hstored hx hy => ?_⟩
    have hsize : 4 * n ^ 2 < 2 ^ 31 := by nlinarith
    have hx₀ : 0 ≤ ⌊exactX⌋ := Int.floor_nonneg.2 hx.1
    have hy₀ : 0 ≤ ⌊exactY⌋ := Int.floor_nonneg.2 hy.1
    have hx₁ : ⌊exactX⌋ ≤ ps.xNumber - 1 := by
      have hle := (Int.floor_le exactX).trans hx.2
      exact_mod_cast hle
    have hy₁ : ⌊exactY⌋ ≤ ps.yNumber - 1 := by
      have hle := (Int.floor_le exactY).trans hy.2
      exact_mod_cast hle
    have hxNumber : ps.xNumber ≤ ps.xNumber * ps.yNumber := by nlinarith
    have hyNumber : ps.yNumber ≤ ps.xNumber * ps.yNumber := by nlinarith
    rcases surround_cases ps readFloatFromFile exactX exactY hone hsize with ⟨_, _, hsome⟩ | ⟨hnot, _⟩
    · exact ⟨_, hsome⟩
    · exact absurd ⟨⟨by omega, by omega⟩, by omega, by omega⟩ hnot

/-- For every text that is a location: what `readSurround_` runs with is in range exactly when a number in
    brackets after `surround` at its start, if there is one, is from 1 to 23170. -/
theorem location_surroundSafe_iff {location : String} {loc : Location}
    (h : Location.parseWithSpirit_ location = .ok loc) :
    SurroundSafe loc.interpolationParameter ↔
      ∀ n, Location.surroundNumber location.toList = some n → 1 ≤ n ∧ n ≤ 23170 := by
  rw [Location.parseWithSpirit_parameter h, surroundSafe_iff]
  cases Location.surroundNumber location.toList with
  | none => simp
  | some n => simp

/-- A surrounding of four by four nodes. -/
theorem location_surroundSafe_two : SurroundSafe 2 :=
  have h : Location.parseWithSpirit_ "surround(2) POINT(1 2)" = .ok ⟨"surround(2)", .surround, 2,
      "POINT(1 2)", "", .point⟩ := by decide +kernel
  (location_surroundSafe_iff h).2 fun n hn => by
    have hnumber : Location.surroundNumber "surround(2) POINT(1 2)".toList = some 2 := by decide +kernel
    rw [hnumber] at hn
    obtain rfl := Option.some.inj hn
    decide

/-- The grammar takes zero, negative numbers, and numbers whose buffer has no `int` for its size. -/
theorem location_not_surroundSafe :
    (Location.parseWithSpirit_ "surround(0) POINT(1 2)" = .ok ⟨"surround(0)", .surround, 0, "POINT(1 2)",
        "", .point⟩ ∧ ¬ SurroundSafe 0) ∧
      Location.parseWithSpirit_ "surround(50000) POINT(1 2)" = .ok ⟨"surround(50000)", .surround, 50000,
        "POINT(1 2)", "", .point⟩ ∧ ¬ SurroundSafe 50000 := by
  refine ⟨⟨by decide +kernel, fun h => ?_⟩, by decide +kernel, fun h => ?_⟩ <;>
  · rw [surroundSafe_iff] at h
    omega

end Wdb.Read
