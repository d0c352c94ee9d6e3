import Wdb.Lib.Versioned
import Wdb.Store.Tables

/-! The keys, versions and greatest versions of the stored values.

    A grid value carries its key. A float value is an item with its group, and its key has the instants
    that the intervals of the group denote. -/

namespace Wdb.Store
open Relational Versioned

/-- The instants and series that an item and its group stand for. -/
def floatKey (x : FloatValueItem × FloatValueGroup) : Key :=
  { toSeries := x.2.toSeries
    referencetime := x.1.referencetime
    validtimefrom := x.1.referencetime + x.2.validtimefrom.span
    validtimeto := x.1.referencetime + x.2.validtimeto.span }

/-- The float items with their groups. -/
def Db.floats (db : Db) : List (FloatValueItem × FloatValueGroup) :=
  db.floatvalueitem.rows.flatMap fun i =>
    (db.floatvaluegroup.rows.filter fun g => i.valuegroupid = g.valuegroupid).map fun g => (i, g)

theorem mem_floats {db : Db} {x : FloatValueItem × FloatValueGroup} :
    x ∈ db.floats ↔ x.1 ∈ db.floatvalueitem.rows ∧ x.2 ∈ db.floatvaluegroup.rows ∧
      x.1.valuegroupid = x.2.valuegroupid := by
  unfold Db.floats
  simp only [List.mem_flatMap, List.mem_map, List.mem_filter, decide_eq_true_eq]
  constructor
  · rintro ⟨i, hi, g, ⟨hg, hid⟩, rfl⟩
    exact ⟨hi, hg, hid⟩
  · rintro ⟨hi, hg, hid⟩
    exact ⟨x.1, hi, x.2, ⟨hg, hid⟩, rfl⟩

/-- Two float values have one key when their groups are of one series and valid time and their
    reference times are equal. -/
theorem floatKey_eq_iff {x y : FloatValueItem × FloatValueGroup} :
    floatKey x = floatKey y ↔ x.2.sameValid y.2 ∧ x.1.referencetime = y.1.referencetime := by
  unfold floatKey FloatValueGroup.sameValid
  simp only [Key.mk.injEq]
  constructor
  · rintro ⟨hs, hr, hf, ht⟩
    rw [hr] at hf ht
    exact ⟨⟨hs, by omega, by omega⟩, hr⟩
  · rintro ⟨⟨hs, hf, ht⟩, hr⟩
    exact ⟨hs, hr, by omega, by omega⟩

/-- `maxdataversion` is right in every row of `gridvalue`. -/
def Db.GridMax (db : Db) : Prop :=
  MaxCorrect GridValue.toKey GridValue.dataversion GridValue.maxdataversion db.gridvalue.rows

/-- `maxdataversion` is right in every row of `floatvalueitem`. -/
def Db.FloatMax (db : Db) : Prop :=
  MaxCorrect floatKey (·.2.dataversion) (·.1.maxdataversion) db.floats

instance (db : Db) : Decidable db.GridMax := inferInstanceAs (Decidable (MaxCorrect _ _ _ _))
instance (db : Db) : Decidable db.FloatMax := inferInstanceAs (Decidable (MaxCorrect _ _ _ _))

end Wdb.Store
