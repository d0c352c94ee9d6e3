import Wdb.Lib.Runs
import Wdb.Lib.SqlTypes
import Wdb.Lib.Table

/-! `wci.addUnit`: what it leaves in the tables of units and their conversions.

    A unit is a base unit or has a row that converts it to one. Whether a conversion is inserted or updated is
    decided by whether there is one of any unit, and the row of a unit that becomes a base unit is left. -/

namespace Wdb.Parameter
open Relational SqlTypes Runs

/-! ### The tables -/

/-- `varchar(n)`. -/
abbrev Varchar (n : ℕ) : Type := {s : String // s.toList.length ≤ n}

/-- What a column of this type is assigned; `none` is the error for a text that is too long, or `NULL`. -/
def assign (n : ℕ) (s : Option String) : Option (Varchar n) := do
  let s ← s
  match h : varchar n s with
  | some t => some ⟨t, length_varchar h⟩
  | none => none

inductive UnitType where
  | base | derived
  deriving DecidableEq

/-- A row of `unit`. -/
structure UnitRow where
  unitname : Varchar 80
  unittype : UnitType
  description : Varchar 255
  deriving DecidableEq

/-- A row of `baseunitconversion`. -/
structure Conversion where
  unitname : Varchar 80
  baseunitname : Varchar 80
  baseunitconversioncoefficient : ℚ
  baseunitconversionterm : ℚ
  deriving DecidableEq

/-- `unit_pkey`. -/
def UnitRow.clash (a b : UnitRow) : Prop := a.unitname = b.unitname

/-- `baseunitconversion_pkey`. -/
def Conversion.clash (a b : Conversion) : Prop := a.unitname = b.unitname

instance : DecidableRel UnitRow.clash := fun _ _ => inferInstanceAs (Decidable (_ = _))
instance : DecidableRel Conversion.clash := fun _ _ => inferInstanceAs (Decidable (_ = _))

/-- The tables. A conversion is one of a unit. -/
structure Units where
  unit : Table UnitRow UnitRow.clash
  baseunitconversion : Table Conversion Conversion.clash
  references : ∀ c ∈ baseunitconversion.rows, ∃ u ∈ unit.rows, u.unitname = c.unitname

def Units.empty : Units := ⟨.empty, .empty, by simp⟩

/-! ### The call -/

/-- The arguments of `wci.addUnit`; `none` is `NULL`. -/
structure AddUnit where
  unitname_ : Option String
  description_ : Option String
  baseunitname_ : Option String
  baseunitconversioncoefficient_ : Option ℚ
  baseunitconversionterm_ : Option ℚ
  deriving DecidableEq

/-- `unitname_ = baseunitname_` is true. -/
def AddUnit.isBase (a : AddUnit) : Bool := a.unitname_.isSome && a.unitname_ = a.baseunitname_

def AddUnit.unittype (a : AddUnit) : UnitType := if a.isBase then .base else .derived

/-- A row of the unit that is named. -/
def AddUnit.names (a : AddUnit) (unitname : Varchar 80) : Bool := a.unitname_ = some unitname.1

/-- The row that is inserted into `baseunitconversion`. -/
def AddUnit.conversion (a : AddUnit) : Option Conversion := do
  let unitname ← assign 80 a.unitname_
  let baseunitname ← assign 80 a.baseunitname_
  let coefficient ← a.baseunitconversioncoefficient_
  let term ← a.baseunitconversionterm_
  return ⟨unitname, baseunitname, coefficient, term⟩

/-- `INSERT INTO baseunitconversion`. -/
def Units.insertConversion (s : Units) (a : AddUnit) : Option Units := do
  let c ← a.conversion
  if h : ∃ u ∈ s.unit.rows, u.unitname = c.unitname then
    match ht : s.baseunitconversion.insert c with
    | none => none
    | some t => some ⟨s.unit, t, by
        rw [(Table.insert_eq_some ht).2]
        intro d hd
        rcases List.mem_append.1 hd with hd | hd
        · exact s.references d hd
        · rw [List.mem_singleton.1 hd]
          exact h⟩
  else none

/-- `UPDATE baseunitconversion`, when there is a row of the unit. -/
def AddUnit.convert (a : AddUnit) (c : Conversion) : Option Conversion := do
  let baseunitname ← assign 80 a.baseunitname_
  let coefficient ← a.baseunitconversioncoefficient_
  let term ← a.baseunitconversionterm_
  return { c with
    baseunitname := baseunitname
    baseunitconversioncoefficient := coefficient
    baseunitconversionterm := term }

theorem AddUnit.convert_unitname {a : AddUnit} {c c' : Conversion} (h : a.convert c = some c') :
    c'.unitname = c.unitname := by
  simp only [AddUnit.convert, Option.bind_eq_bind, Option.bind_eq_some_iff, Option.pure_def,
    Option.some.injEq] at h
  obtain ⟨_, _, _, _, _, _, rfl⟩ := h
  rfl

/-- A row after the update. -/
def AddUnit.converted (a : AddUnit) (c : Conversion) : Conversion :=
  Table.updateRow (fun c => a.names c.unitname) (fun c => (a.convert c).getD c) c

@[simp] theorem AddUnit.converted_unitname (a : AddUnit) (c : Conversion) :
    (a.converted c).unitname = c.unitname := by
  have hconvert : ((a.convert c).getD c).unitname = c.unitname := by
    cases h : a.convert c with
    | none => rfl
    | some c' => exact a.convert_unitname h
  unfold AddUnit.converted Table.updateRow
  split
  · exact hconvert
  · rfl

def Units.updateConversion (s : Units) (a : AddUnit) : Option Units :=
  match ht : s.baseunitconversion.updateChecked (fun c => a.names c.unitname) a.convert with
  | none => none
  | some t => some ⟨s.unit, t, by
      rw [(Table.updateChecked_eq_some ht).2]
      intro d hd
      obtain ⟨c, hc, rfl⟩ := List.mem_map.1 hd
      exact a.converted_unitname c ▸ s.references c hc⟩

/-- `INSERT INTO unit`. -/
def Units.insertUnit (s : Units) (a : AddUnit) : Option Units := do
  let unitname ← assign 80 a.unitname_
  let description ← assign 255 a.description_
  match ht : s.unit.insert ⟨unitname, a.unittype, description⟩ with
  | none => none
  | some t => some ⟨t, s.baseunitconversion, by
      rw [(Table.insert_eq_some ht).2]
      intro c hc
      obtain ⟨u, hu, hname⟩ := s.references c hc
      exact ⟨u, List.mem_append_left _ hu, hname⟩⟩

/-- A row of `unit` after the update. -/
def AddUnit.describe (a : AddUnit) (description : Varchar 255) (u : UnitRow) : UnitRow :=
  { u with unittype := a.unittype, description }

/-- `UPDATE unit`, when there is a row of the unit. -/
def Units.updateUnit (s : Units) (a : AddUnit) : Option Units := do
  let description ← assign 255 a.description_
  return ⟨s.unit.update (fun u => a.names u.unitname) (a.describe description) (fun _ _ h => h) (fun _ _ h => h),
    s.baseunitconversion, by
      intro c hc
      obtain ⟨u, hu, hname⟩ := s.references c hc
      refine ⟨_, List.mem_map_of_mem hu, ?_⟩
      unfold Table.updateRow
      split
      · exact hname
      · exact hname⟩

/-- `wci.addUnit`; `none` is an error. -/
def addUnit (s : Units) (a : AddUnit) : Option Units :=
  if s.unit.rows.any (fun u => a.names u.unitname) then do
    let s ← s.updateUnit a
    if a.unittype = .derived then
      if s.baseunitconversion.rows.isEmpty then s.insertConversion a
      else s.updateConversion a
    else some s
  else do
    let s ← s.insertUnit a
    if a.unittype = .derived then s.insertConversion a else some s

example : ((addUnit .empty ⟨some "m", some "metre", some "m", none, none⟩).bind fun s =>
    addUnit s ⟨some "km", some "kilometre", some "m", some 1000, some 0⟩).map
      (fun s => (s.unit.rows.map (·.unittype), s.baseunitconversion.rows.map (·.baseunitconversioncoefficient))) =
    some ([.base, .derived], [1000]) := by
  decide +kernel

/-! ### What a call is for -/

/-- What a call leaves. -/
structure After (s s' : Units) (a : AddUnit) : Prop where
  /-- The unit is there with its description and its type. -/
  unit : ∃ u ∈ s'.unit.rows, a.names u.unitname ∧ a.description_ = some u.description.1 ∧
    (u.unittype = .base ↔ a.unitname_ = a.baseunitname_)
  /-- It has its conversion, and no other, or none. -/
  conversion : ∀ c, (c ∈ s'.baseunitconversion.rows ∧ a.names c.unitname) → a.unitname_ ≠ a.baseunitname_ ∧
    a.baseunitname_ = some c.baseunitname.1 ∧
    a.baseunitconversioncoefficient_ = some c.baseunitconversioncoefficient ∧
    a.baseunitconversionterm_ = some c.baseunitconversionterm
  converted : a.unitname_ ≠ a.baseunitname_ → ∃ c ∈ s'.baseunitconversion.rows, a.names c.unitname
  /-- The rows of the other units are as they were. -/
  others : ∀ u, ¬ a.names u.unitname → (u ∈ s'.unit.rows ↔ u ∈ s.unit.rows)
  otherConversions : ∀ c, ¬ a.names c.unitname →
    (c ∈ s'.baseunitconversion.rows ↔ c ∈ s.baseunitconversion.rows)

/-- A call that has succeeded has left what it is for. -/
def Right (s : Units) (a : AddUnit) : Prop := ∀ s', addUnit s a = some s' → After s s' a

/-- A text that is not cut. -/
def Fits (n : ℕ) (s : Option String) : Prop := ∀ t ∈ s, t.toList.length ≤ n

/-- A call with texts that fit their columns, for a unit that is new, or stays what it is, or is the first
    that has a conversion. -/
structure Careful (s : Units) (a : AddUnit) : Prop where
  unitname : Fits 80 a.unitname_
  description : Fits 255 a.description_
  baseunitname : a.unitname_ ≠ a.baseunitname_ → Fits 80 a.baseunitname_
  kind : (∃ u ∈ s.unit.rows, a.names u.unitname) →
    if a.unitname_ = a.baseunitname_ then ∀ c ∈ s.baseunitconversion.rows, ¬ a.names c.unitname
    else s.baseunitconversion.rows = [] ∨ ∃ c ∈ s.baseunitconversion.rows, a.names c.unitname

/-! ### What a call does -/

section Step
variable {s s' : Units} {a : AddUnit}

/-- There is a row of the unit that is named. -/
def Units.Known (s : Units) (a : AddUnit) : Prop := ∃ u ∈ s.unit.rows, a.names u.unitname

theorem known_iff : s.unit.rows.any (fun u => a.names u.unitname) = true ↔ s.Known a := by
  simp [Units.Known]

theorem Units.insertConversion_eq_some (h : s.insertConversion a = some s') : s'.unit = s.unit ∧
    ∃ c, a.conversion = some c ∧ s'.baseunitconversion.rows = s.baseunitconversion.rows ++ [c] := by
  simp only [Units.insertConversion, Option.bind_eq_bind, Option.bind_eq_some_iff] at h
  obtain ⟨c, hc, h⟩ := h
  split at h
  · split at h
    · cases h
    · next t ht =>
      obtain rfl := Option.some.inj h
      exact ⟨rfl, c, hc, (Table.insert_eq_some ht).2⟩
  · cases h

theorem Units.updateConversion_eq_some (h : s.updateConversion a = some s') : s'.unit = s.unit ∧
    (∀ c ∈ s.baseunitconversion.rows, a.names c.unitname → (a.convert c).isSome) ∧
      s'.baseunitconversion.rows = s.baseunitconversion.rows.map a.converted := by
  unfold Units.updateConversion at h
  split at h
  · cases h
  · next t ht =>
    obtain rfl := Option.some.inj h
    exact ⟨rfl, Table.updateChecked_eq_some ht⟩

theorem Units.insertUnit_eq_some (h : s.insertUnit a = some s') :
    s'.baseunitconversion = s.baseunitconversion ∧ ∃ unitname description,
      assign 80 a.unitname_ = some unitname ∧ assign 255 a.description_ = some description ∧
        s'.unit.rows = s.unit.rows ++ [⟨unitname, a.unittype, description⟩] := by
  simp only [Units.insertUnit, Option.bind_eq_bind, Option.bind_eq_some_iff] at h
  obtain ⟨unitname, hunitname, description, hdescription, h⟩ := h
  split at h
  · cases h
  · next t ht =>
    obtain rfl := Option.some.inj h
    exact ⟨rfl, unitname, description, hunitname, hdescription, (Table.insert_eq_some ht).2⟩

theorem Units.updateUnit_eq_some (h : s.updateUnit a = some s') :
    s'.baseunitconversion = s.baseunitconversion ∧ ∃ description, assign 255 a.description_ = some description ∧
      s'.unit.rows = s.unit.rows.map (Table.updateRow (fun u => a.names u.unitname) (a.describe description)) := by
  simp only [Units.updateUnit, Option.bind_eq_bind, Option.bind_eq_some_iff, Option.pure_def,
    Option.some.injEq] at h
  obtain ⟨description, hdescription, rfl⟩ := h
  exact ⟨rfl, description, hdescription, rfl⟩

/-- What a successful call did to the units. -/
theorem addUnit_unit (h : addUnit s a = some s') : ∃ description, assign 255 a.description_ = some description ∧
    ((s.Known a ∧ s'.unit.rows =
        s.unit.rows.map (Table.updateRow (fun u => a.names u.unitname) (a.describe description))) ∨
      (¬ s.Known a ∧ ∃ unitname, assign 80 a.unitname_ = some unitname ∧
        s'.unit.rows = s.unit.rows ++ [⟨unitname, a.unittype, description⟩])) := by
  unfold addUnit at h
  split at h
  · next hknown =>
    obtain ⟨s₁, h₁, h⟩ := Option.bind_eq_some_iff.1 h
    obtain ⟨-, description, hdescription, hrows⟩ := Units.updateUnit_eq_some h₁
    refine ⟨description, hdescription, Or.inl ⟨known_iff.1 hknown, ?_⟩⟩
    rw [← hrows]
    split at h
    · split at h
      · rw [(Units.insertConversion_eq_some h).1]
      · rw [(Units.updateConversion_eq_some h).1]
    · rw [Option.some.inj h]
  · next hnew =>
    obtain ⟨s₁, h₁, h⟩ := Option.bind_eq_some_iff.1 h
    obtain ⟨-, unitname, description, hunitname, hdescription, hrows⟩ := Units.insertUnit_eq_some h₁
    refine ⟨description, hdescription, Or.inr ⟨fun hknown => hnew (known_iff.2 hknown), unitname, hunitname, ?_⟩⟩
    rw [← hrows]
    split at h
    · rw [(Units.insertConversion_eq_some h).1]
    · rw [Option.some.inj h]

/-- What a successful call did to the conversions. -/
inductive Converts (s s' : Units) (a : AddUnit) : Prop where
  | kept (hbase : a.unittype = .base) (h : s'.baseunitconversion = s.baseunitconversion)
  | inserted (hderived : a.unittype = .derived) (hwhen : s.Known a → s.baseunitconversion.rows = [])
    (c : Conversion) (hc : a.conversion = some c)
    (h : s'.baseunitconversion.rows = s.baseunitconversion.rows ++ [c])
  | updated (hderived : a.unittype = .derived) (hknown : s.Known a) (hne : s.baseunitconversion.rows ≠ [])
    (hsome : ∀ c ∈ s.baseunitconversion.rows, a.names c.unitname → (a.convert c).isSome)
    (h : s'.baseunitconversion.rows = s.baseunitconversion.rows.map a.converted)

theorem addUnit_conversion (h : addUnit s a = some s') : Converts s s' a := by
  have hbase : a.unittype ≠ .derived → a.unittype = .base := by
    intro hne
    cases ht : a.unittype with
    | base => rfl
    | derived => exact absurd ht hne
  unfold addUnit at h
  split at h
  · next hknown =>
    obtain ⟨s₁, h₁, h⟩ := Option.bind_eq_some_iff.1 h
    obtain ⟨hconv, -⟩ := Units.updateUnit_eq_some h₁
    split at h
    · next hderived =>
      split at h
      · next hempty =>
        obtain ⟨-, c, hc, hrows⟩ := Units.insertConversion_eq_some h
        rw [hconv] at hrows hempty
        exact .inserted hderived (fun _ => List.isEmpty_iff.1 hempty) c hc hrows
      · next hne =>
        obtain ⟨-, hsome, hrows⟩ := Units.updateConversion_eq_some h
        rw [hconv] at hsome hrows hne
        exact .updated hderived (known_iff.1 hknown) (fun hnil => hne (by rw [hnil]; rfl)) hsome hrows
    · next hne =>
      obtain rfl := Option.some.inj h
      exact .kept (hbase hne) hconv
  · next hnew =>
    obtain ⟨s₁, h₁, h⟩ := Option.bind_eq_some_iff.1 h
    obtain ⟨hconv, -⟩ := Units.insertUnit_eq_some h₁
    split at h
    · next hderived =>
      obtain ⟨-, c, hc, hrows⟩ := Units.insertConversion_eq_some h
      rw [hconv] at hrows
      exact .inserted hderived (fun hknown => absurd (known_iff.2 hknown) hnew) c hc hrows
    · next hne =>
      obtain rfl := Option.some.inj h
      exact .kept (hbase hne) hconv

/-- A conversion is one of a unit that is known. -/
theorem Units.known_of_conversion {c : Conversion} (hc : c ∈ s.baseunitconversion.rows)
    (hname : a.names c.unitname) : s.Known a := by
  obtain ⟨u, hu, heq⟩ := s.references c hc
  exact ⟨u, hu, heq ▸ hname⟩

/-- A text that fits is assigned as it is. -/
theorem assign_eq_some {n : ℕ} {t : Option String} {v : Varchar n} (h : assign n t = some v) :
    Fits n t ↔ t = some v.1 := by
  simp only [assign, Option.bind_eq_bind, Option.bind_eq_some_iff] at h
  obtain ⟨u, rfl, h⟩ := h
  split at h
  · next w hw =>
    obtain rfl := Option.some.inj h
    constructor
    · intro hfits
      exact (varchar_of_length_le (hfits u rfl)).symm.trans hw
    · intro hu t ht
      rw [Option.some.inj (ht.symm.trans hu)]
      exact length_varchar hw
  · cases h

theorem fits_of_eq_some {n : ℕ} {t : Option String} {v : Varchar n} (h : t = some v.1) : Fits n t := by
  rintro u rfl
  rw [Option.some.inj h]
  exact v.2

theorem AddUnit.unittype_iff (h : a.unitname_.isSome) : a.unittype = .base ↔ a.unitname_ = a.baseunitname_ := by
  simp [AddUnit.unittype, AddUnit.isBase, h]

/-- A successful call has named a unit. -/
theorem isSome_unitname (h : addUnit s a = some s') : a.unitname_.isSome := by
  obtain ⟨description, -, ⟨⟨u, -, hname⟩, -⟩ | ⟨-, unitname, hunitname, -⟩⟩ := addUnit_unit h
  · rw [of_decide_eq_true hname]
    rfl
  · simp only [assign, Option.bind_eq_bind, Option.bind_eq_some_iff] at hunitname
    obtain ⟨t, ht, -⟩ := hunitname
    rw [ht]
    rfl

theorem conversion_eq_some {c : Conversion} (h : a.conversion = some c) :
    assign 80 a.unitname_ = some c.unitname ∧ assign 80 a.baseunitname_ = some c.baseunitname ∧
      a.baseunitconversioncoefficient_ = some c.baseunitconversioncoefficient ∧
      a.baseunitconversionterm_ = some c.baseunitconversionterm := by
  simp only [AddUnit.conversion, Option.bind_eq_bind, Option.bind_eq_some_iff, Option.pure_def,
    Option.some.injEq] at h
  obtain ⟨unitname, hunitname, baseunitname, hbaseunitname, coefficient, hcoefficient, term, hterm, rfl⟩ := h
  exact ⟨hunitname, hbaseunitname, hcoefficient, hterm⟩

theorem converted_of_names {c : Conversion} (hname : a.names c.unitname) (hsome : (a.convert c).isSome) :
    assign 80 a.baseunitname_ = some (a.converted c).baseunitname ∧
      a.baseunitconversioncoefficient_ = some (a.converted c).baseunitconversioncoefficient ∧
      a.baseunitconversionterm_ = some (a.converted c).baseunitconversionterm := by
  obtain ⟨c', hc'⟩ := Option.isSome_iff_exists.1 hsome
  have hconverted : a.converted c = c' := by
    rw [AddUnit.converted, Table.updateRow, if_pos hname, hc', Option.getD_some]
  rw [hconverted]
  simp only [AddUnit.convert, Option.bind_eq_bind, Option.bind_eq_some_iff, Option.pure_def,
    Option.some.injEq] at hc'
  obtain ⟨baseunitname, hbaseunitname, coefficient, hcoefficient, term, hterm, rfl⟩ := hc'
  exact ⟨hbaseunitname, hcoefficient, hterm⟩

theorem converted_of_not_names {c : Conversion} (hname : ¬ a.names c.unitname) : a.converted c = c := by
  rw [AddUnit.converted, Table.updateRow, if_neg hname]

/-! ### What a call leaves -/

theorem After.careful (hcall : addUnit s a = some s') (h : After s s' a) : Careful s a := by
  have hunittype := AddUnit.unittype_iff (isSome_unitname hcall)
  obtain ⟨u, -, hname, hdescription, -⟩ := h.unit
  refine ⟨fits_of_eq_some (of_decide_eq_true hname), fits_of_eq_some hdescription, fun hne => ?_, fun hknown => ?_⟩
  · obtain ⟨c, hc, hcname⟩ := h.converted hne
    exact fits_of_eq_some (h.conversion c ⟨hc, hcname⟩).2.1
  · split
    · next heq =>
      intro c hc hcname
      cases addUnit_conversion hcall with
      | kept hbase hrows => exact (h.conversion c ⟨hrows ▸ hc, hcname⟩).1 heq
      | inserted hderived => simp [hunittype.2 heq] at hderived
      | updated hderived => simp [hunittype.2 heq] at hderived
    · next hne =>
      cases addUnit_conversion hcall with
      | kept hbase => exact absurd (hunittype.1 hbase) hne
      | inserted hderived hwhen => exact Or.inl (hwhen hknown)
      | updated hderived hknown hnonempty hsome hrows =>
        obtain ⟨c, hc, hcname⟩ := h.converted hne
        rw [hrows] at hc
        obtain ⟨c₀, hc₀, rfl⟩ := List.mem_map.1 hc
        exact Or.inr ⟨c₀, hc₀, by simpa using hcname⟩

/-- The units after a careful call. -/
theorem Careful.units (h : Careful s a) (hcall : addUnit s a = some s') :
    (∃ u ∈ s'.unit.rows, a.names u.unitname ∧ a.description_ = some u.description.1 ∧
      (u.unittype = .base ↔ a.unitname_ = a.baseunitname_)) ∧
      ∀ u, ¬ a.names u.unitname → (u ∈ s'.unit.rows ↔ u ∈ s.unit.rows) := by
  have hunittype := AddUnit.unittype_iff (isSome_unitname hcall)
  obtain ⟨description, hdescription, hrows⟩ := addUnit_unit hcall
  have hdescription' := (assign_eq_some hdescription).1 h.description
  rcases hrows with ⟨⟨u, hu, hname⟩, hrows⟩ | ⟨-, unitname, hunitname, hrows⟩
  · rw [hrows]
    refine ⟨⟨a.describe description u, ?_, hname, hdescription', hunittype⟩, fun v hv => ?_⟩
    · refine List.mem_map.2 ⟨u, hu, ?_⟩
      rw [Table.updateRow, if_pos hname]
    · rw [List.mem_map]
      constructor
      · rintro ⟨w, hw, rfl⟩
        unfold Table.updateRow at hv ⊢
        split at hv
        · next hwname => exact absurd hwname hv
        · next hwname => rwa [if_neg hwname]
      · intro hmem
        refine ⟨v, hmem, ?_⟩
        rw [Table.updateRow, if_neg hv]
  · have hname := (assign_eq_some hunitname).1 h.unitname
    rw [hrows]
    refine ⟨⟨_, List.mem_append_right _ (List.mem_singleton_self _), decide_eq_true hname, hdescription',
      hunittype⟩, fun v hv => ?_⟩
    rw [List.mem_append, List.mem_singleton]
    refine ⟨fun hmem => hmem.resolve_right ?_, Or.inl⟩
    rintro rfl
    exact hv (decide_eq_true hname)

theorem Careful.after (h : Careful s a) (hcall : addUnit s a = some s') : After s s' a := by
  have hunittype := AddUnit.unittype_iff (isSome_unitname hcall)
  have hne : a.unittype = .derived → a.unitname_ ≠ a.baseunitname_ := by
    intro hderived heq
    simp [hunittype.2 heq] at hderived
  obtain ⟨hunit, hothers⟩ := h.units hcall
  cases addUnit_conversion hcall with
  | kept hbase hrows =>
    have heq := hunittype.1 hbase
    refine ⟨hunit, ?_, fun hne => absurd heq hne, hothers, fun c _ => by rw [hrows]⟩
    rintro c ⟨hc, hname⟩
    rw [hrows] at hc
    have hkind := h.kind (Units.known_of_conversion hc hname)
    rw [if_pos heq] at hkind
    exact absurd hname (hkind c hc)
  | inserted hderived hwhen c hc hrows =>
    obtain ⟨hunitname, hbaseunitname, hcoefficient, hterm⟩ := conversion_eq_some hc
    have hname := (assign_eq_some hunitname).1 h.unitname
    have hbasename := (assign_eq_some hbaseunitname).1 (h.baseunitname (hne hderived))
    refine ⟨hunit, ?_, fun _ => ⟨c, ?_, decide_eq_true hname⟩, hothers, fun d hd => ?_⟩
    · rintro d ⟨hd, hdname⟩
      rw [hrows, List.mem_append, List.mem_singleton] at hd
      rcases hd with hd | rfl
      · rw [hwhen (Units.known_of_conversion hd hdname)] at hd
        cases hd
      · exact ⟨hne hderived, hbasename, hcoefficient, hterm⟩
    · rw [hrows]
      exact List.mem_append_right _ (List.mem_singleton_self c)
    · rw [hrows, List.mem_append, List.mem_singleton]
      refine ⟨fun hmem => hmem.resolve_right ?_, Or.inl⟩
      rintro rfl
      exact hd (decide_eq_true hname)
  | updated hderived hknown hnonempty hsome hrows =>
    have hkind := h.kind hknown
    rw [if_neg (hne hderived)] at hkind
    refine ⟨hunit, ?_, fun _ => ?_, hothers, fun d hd => ?_⟩
    · rintro d ⟨hd, hdname⟩
      rw [hrows] at hd
      obtain ⟨c, hc, rfl⟩ := List.mem_map.1 hd
      rw [AddUnit.converted_unitname] at hdname
      obtain ⟨hbaseunitname, hcoefficient, hterm⟩ := converted_of_names hdname (hsome c hc hdname)
      exact ⟨hne hderived, (assign_eq_some hbaseunitname).1 (h.baseunitname (hne hderived)), hcoefficient, hterm⟩
    · obtain ⟨c, hc, hname⟩ := hkind.resolve_left hnonempty
      rw [hrows]
      exact ⟨_, List.mem_map_of_mem hc, by rwa [AddUnit.converted_unitname]⟩
    · rw [hrows, List.mem_map]
      constructor
      · rintro ⟨c, hc, rfl⟩
        rw [AddUnit.converted_unitname] at hd
        rwa [converted_of_not_names hd]
      · exact fun hmem => ⟨d, hmem, converted_of_not_names hd⟩

theorem right_iff : Right s a ↔ ((addUnit s a).isSome → Careful s a) := by
  constructor
  · intro h hsome
    obtain ⟨s', hs'⟩ := Option.isSome_iff_exists.1 hsome
    exact (h s' hs').careful hs'
  · intro h s' hs'
    exact (h (Option.isSome_iff_exists.2 ⟨s', hs'⟩)).after hs'

end Step

/-! ### Runs -/

/-- A call that fails leaves the tables as they are. -/
def call (s : Units) (a : AddUnit) : Units := (addUnit s a).getD s

/-- In a run every successful call leaves what it is for exactly when all of them are careful. -/
theorem addUnits_iff (s : Units) (calls : List AddUnit) : Each call Right s calls ↔
    Each call (fun s a => (addUnit s a).isSome → Careful s a) s calls :=
  each_iff_each call (fun _ => True) (fun _ _ _ => right_iff) (fun _ _ _ _ => trivial) calls s trivial

/-- A derived unit that becomes a base unit keeps its conversion. -/
theorem not_addUnits_km : ¬ Each call Right .empty
    [⟨some "km", some "kilometre", some "m", some 1000, some 0⟩,
      ⟨some "km", some "kilometre", some "km", some 1, some 0⟩] := by
  rintro ⟨-, h, -⟩
  have hrows : (addUnit (call .empty ⟨some "km", some "kilometre", some "m", some 1000, some 0⟩)
      ⟨some "km", some "kilometre", some "km", some 1, some 0⟩).map (fun s => s.baseunitconversion.rows) =
        some [⟨⟨"km", by decide⟩, ⟨"m", by decide⟩, 1000, 0⟩] := by
    decide +kernel
  obtain ⟨s', hs', hconversion⟩ := Option.map_eq_some_iff.1 hrows
  refine ((h s' hs').conversion ⟨⟨"km", by decide⟩, ⟨"m", by decide⟩, 1000, 0⟩ ⟨?_, by decide⟩).1 rfl
  rw [hconversion]
  exact List.mem_singleton_self _

end Wdb.Parameter
