import Wdb.Lib.Grouping
import Wdb.Store.Remove

/-! `wci.browse`: what is stored, by data provider, place, reference time, valid time, value parameter or
    level parameter.

    Every variant builds a grouped query on the grid view and one on the float view, with the filters of
    a read, and joins them with `UNION ALL`. A value that both tables have is returned twice, each time
    with what one of the tables knows about it. -/

namespace Wdb.Browse
open Wdb.Store Grouping

/-- The columns of a value view but the value itself. -/
def columns {β : Type} (v : ValueV β) : ValueV Unit := { v with value := () }

/-! ### The select lists -/

/-- `dataprovidername, min(referencetime), max(referencetime)`, grouped by the name. -/
def browseDataProvider : SelectList (ValueV Unit) String ℤ where
  key v := v.names.dp.dataprovidername
  low v := v.referencetime
  high v := v.referencetime

/-- `placename, min(referencetime), max(referencetime)`, grouped by the name. -/
def browsePlace : SelectList (ValueV Unit) String ℤ where
  key v := v.names.pl.placename
  low v := v.referencetime
  high v := v.referencetime

/-- `referencetime`, grouped by itself. -/
def browseReferenceTime : SelectList (ValueV Unit) ℤ Unit where
  key v := v.referencetime
  low _ := ()
  high _ := ()

/-- `validtimefrom, validtimeto`, grouped by both. -/
def browseValidTime : SelectList (ValueV Unit) (ℤ × ℤ) Unit where
  key v := (v.validtimefrom, v.validtimeto)
  low _ := ()
  high _ := ()

/-- `valueparametername, valueunitname`, grouped by both. -/
def browseValueParameter : SelectList (ValueV Unit) (String × String) Unit where
  key v := (v.names.vp.parametername, v.names.vp.unitname)
  low _ := ()
  high _ := ()

/-- `levelparametername, levelunitname, min(levelfrom), max(levelto)`, grouped by the names. -/
def browseLevelParameter : SelectList (ValueV Unit) (String × String) ℚ where
  key v := (v.names.lp.parametername, v.names.lp.unitname)
  low v := v.levelfrom
  high v := v.levelto

/-! ### The function -/

section Browse
variable (cat : Catalog) (session : Session) {κ ρ : Type} [DecidableEq κ] [LinearOrder ρ]

/-- `RETURN NEXT` for every row: `count(*)` is a `bigint`, `numberoftuples` an `integer`. -/
def returnNext (rows : List (Group κ ρ)) : Option (List (Group κ ρ)) :=
  if rows.all fun g => g.count < 2 ^ 31 then some rows else none

/-- `wci.browse` without a location: `none` when it raises. -/
def browse (what : SelectList (ValueV Unit) κ ρ) (p : ReadParameters) (db : Db) :
    Option (List (Group κ ρ)) :=
  (readGid cat session db p .null).bind fun gs =>
  (readFloatTable cat session db p).bind fun fs =>
  returnNext (what.groupBy (gs.map columns) ++ what.groupBy (fs.map columns))

/-- The promise of `wci.browse`: it summarises the rows of both tables, and raises when the filters
    do. -/
def BrowsesExactly (what : SelectList (ValueV Unit) κ ρ) (p : ReadParameters) (db : Db) : Prop :=
  match readGid cat session db p .null, readFloatTable cat session db p with
  | some gs, some fs => ∃ rows, browse cat session what p db = some rows ∧
      what.Summarises (gs.map columns ++ fs.map columns) rows
  | _, _ => browse cat session what p db = none

/-- No two rows, one of either table, agree on the grouping columns, and no value has more rows than an
    `integer` can count. -/
def Apart (what : SelectList (ValueV Unit) κ ρ) (p : ReadParameters) (db : Db) : Prop :=
  ∀ gs fs, readGid cat session db p .null = some gs → readFloatTable cat session db p = some fs →
    (∀ g ∈ gs, ∀ f ∈ fs, what.key (columns g) ≠ what.key (columns f)) ∧
    ∀ v ∈ gs.map columns ++ fs.map columns,
      (what.members (gs.map columns ++ fs.map columns) (what.key v)).length < 2 ^ 31

variable {cat session} {what : SelectList (ValueV Unit) κ ρ}

/-- In a summary every row fits an `integer` when the counts of all values do. -/
theorem returnNext_iff {all : List (ValueV Unit)} {rows : List (Group κ ρ)}
    (h : what.Summarises all rows) :
    returnNext rows = some rows ↔ ∀ v ∈ all, (what.members all (what.key v)).length < 2 ^ 31 := by
  have hall : returnNext rows = some rows ↔ ∀ g ∈ rows, g.count < 2 ^ 31 := by
    simp [returnNext]
  rw [hall]
  constructor
  · intro hcount v hv
    obtain ⟨g, hg, hk⟩ := List.mem_map.1 (h.all v hv)
    rw [← hk, ← (h.describes g hg).count]
    exact hcount g hg
  · intro hcount g hg
    have hd := h.describes g hg
    obtain ⟨v, hv, _⟩ := hd.low_mem
    obtain ⟨hv, hk⟩ := SelectList.mem_members.1 hv
    rw [hd.count, ← hk]
    exact hcount v hv

omit [DecidableEq κ] [LinearOrder ρ] in
theorem returnNext_eq {rows rows' : List (Group κ ρ)} (h : returnNext rows = some rows') :
    rows' = rows := by
  unfold returnNext at h
  split at h
  · exact (Option.some_inj.1 h).symm
  · cases h

theorem browsesExactly_iff (what : SelectList (ValueV Unit) κ ρ) (p : ReadParameters) (db : Db) :
    BrowsesExactly cat session what p db ↔ Apart cat session what p db := by
  unfold BrowsesExactly Apart browse
  cases hgs : readGid cat session db p .null with
  | none => exact iff_of_true rfl fun _ _ h => nomatch h
  | some gs =>
    cases hfs : readFloatTable cat session db p with
    | none => exact iff_of_true rfl fun _ _ _ h => nomatch h
    | some fs =>
      have hkeys : (∀ g ∈ gs, ∀ f ∈ fs, what.key (columns g) ≠ what.key (columns f)) ↔
          what.Summarises (gs.map columns ++ fs.map columns)
            (what.groupBy (gs.map columns) ++ what.groupBy (fs.map columns)) := by
        rw [SelectList.unionAll_iff]
        simp
      simp only [Option.bind_some]
      constructor
      · rintro ⟨rows, hrows, hsum⟩ gs' fs' hgs' hfs'
        obtain rfl := Option.some_inj.1 hgs'
        obtain rfl := Option.some_inj.1 hfs'
        obtain rfl := returnNext_eq hrows
        exact ⟨hkeys.2 hsum, (returnNext_iff hsum).1 hrows⟩
      · intro h
        obtain ⟨hapart, hcount⟩ := h gs fs rfl rfl
        have hsum := hkeys.1 hapart
        exact ⟨_, (returnNext_iff hsum).2 hcount, hsum⟩

end Browse

/-- One grid value and one float value of the same series and times. -/
def gridAndFloat : Db where
  gridvalue := oneGrid
  gridvalueSeq := 2
  floatvaluegroup := oneFloat.floatvaluegroup
  floatvaluegroupSeq := oneFloat.floatvaluegroupSeq
  floatvalueitem := oneFloat.floatvalueitem
  valueid_drawn := oneGrid_drawn
  valuegroupid_drawn := oneFloat.valuegroupid_drawn
  valuegroupid_refers := oneFloat.valuegroupid_refers

/-- A grid value and a float value that agree on the grouping columns are browsed twice. -/
theorem not_browsesExactly {κ ρ : Type} [DecidableEq κ] [LinearOrder ρ] {cat : Catalog}
    {session : Session} {what : SelectList (ValueV Unit) κ ρ} {db : Db}
    (h : ∃ g ∈ gridvalueV cat session db, ∃ f ∈ floatvalueV cat session db,
      what.key (columns g) = what.key (columns f)) :
    ¬ BrowsesExactly cat session what {} db := by
  rw [browsesExactly_iff]
  intro hapart
  obtain ⟨g, hg, f, hf, hkey⟩ := h
  exact (hapart _ _ buildQuery_all buildQuery_all).1 g hg f hf hkey

end Wdb.Browse
