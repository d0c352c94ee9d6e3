import Wdb.Read.Browse
import Wdb.Store.DataProviderQuery
import Wdb.Store.Versions

/-! `clean.clean_referencetimes`: delete the values that have outlived their data provider's lifetime.

    For every data provider name that `wci.browse` returns the function looks up a lifetime and calls
    `wci.remove` with the name and the reference times before `now` minus that lifetime. A name stands
    for the provider and everything in its group, so that a value is measured by the lifetime of every
    provider around its own. -/

namespace Wdb.Store
open Browse Relational

/-- `clean.referencetime_lifetime`. The default entry has no name; `UNIQUE` tells `NULL`s apart. -/
abbrev ReferencetimeLifetime (I : Type) : Type :=
  Table (Option String × I) fun a b => a.1 = b.1 ∧ a.1 ≠ none

/-- There is a default entry. -/
def ReferencetimeLifetime.HasDefault {I : Type} (table : ReferencetimeLifetime I) : Prop :=
  ∃ r ∈ table.rows, r.1 = none

/-- The look-up of a lifetime: the provider's own entry, and the default when it has none, since
    `NULL`s are ordered last. -/
def ReferencetimeLifetime.lifetime {I : Type} (table : ReferencetimeLifetime I)
    (dataprovider : String) : Option I :=
  ((table.rows.find? fun r => r.1 = some dataprovider).or
    (table.rows.find? fun r => r.1 = none)).map Prod.snd

section Clean
variable {I : Type} (nowMinus : I → ℤ) (table : ReferencetimeLifetime I) (cat : Catalog)
  (session : Session) (points : ValueV ℤ → Option (List ℚ))

/-- The arguments of the removal in the loop: the name, and `before` the instant that is a lifetime
    ago. -/
def outlived (dataprovider : String) (oldest_lifetime : I) : ReadParameters where
  dataProvider := .value [dataprovider]
  referenceTime := .value ⟨.before, nowMinus oldest_lifetime, nowMinus oldest_lifetime⟩

/-- The loop over the data provider names; `none` when it raises. -/
def removeOutlived : List String → Db → Option Db
  | [], db => some db
  | dataprovider :: rest, db =>
    (table.lifetime dataprovider).bind fun oldest_lifetime =>
    (remove cat session points (outlived nowMinus dataprovider oldest_lifetime) db).bind fun r =>
    removeOutlived rest r.1

/-- The data provider names that `wci.browse` returns. -/
def browsedNames (db : Db) : Option (List String) :=
  (browse cat session browseDataProvider {} db).map fun rows => rows.map (·.key)

/-- `clean.clean_referencetimes`; `nowMinus` is `now() - lifetime` in the session's time zone. -/
def cleanReferencetimes (db : Db) : Option Db :=
  (browsedNames cat session db).bind fun names =>
    removeOutlived nowMinus table cat session points names db

/-- A name of the session's namespace for a data provider. -/
def OwnName (dataproviderid : ℤ) (name : String) : Prop :=
  ∃ d ∈ cat.dataproviderMv, d.dataprovidernamespaceid = session.dataprovidernamespaceid ∧
    d.dataproviderid = dataproviderid ∧ d.dataprovidername = name

/-- An instant is more than a name's lifetime ago. -/
def Outlived (name : String) (referencetime : ℤ) : Prop :=
  ∀ oldest_lifetime, table.lifetime name = some oldest_lifetime →
    referencetime < nowMinus oldest_lifetime

/-- Every value that is gone had outlived its own provider's lifetime. -/
structure RespectsLifetimes (db db' : Db) : Prop where
  grids : ∀ v ∈ db.gridvalue.rows, v ∉ db'.gridvalue.rows →
    ∀ name, OwnName cat session v.dataproviderid name → Outlived nowMinus table name v.referencetime
  floats : ∀ x ∈ db.floats, x ∉ db'.floats →
    ∀ name, OwnName cat session x.2.dataproviderid name →
      Outlived nowMinus table name x.1.referencetime

instance (dataproviderid : ℤ) (name : String) :
    Decidable (OwnName cat session dataproviderid name) :=
  inferInstanceAs (Decidable (∃ d ∈ cat.dataproviderMv, _))

/-- A value that has outlived a name around its provider has outlived its provider's own. -/
def Measured (names : List String) (dataproviderid referencetime : ℤ) : Prop :=
  ∀ name ∈ names, dataproviderid ∈ dataproviderIds cat [name] →
    Outlived nowMinus table name referencetime →
    ∀ own, OwnName cat session dataproviderid own → Outlived nowMinus table own referencetime

/-- Every stored value that the session has names for is measured so. -/
structure AllMeasured (names : List String) (db : Db) : Prop where
  grids : ∀ v ∈ db.gridvalue.rows, cat.names session v.toSeries v.referencetime ≠ [] →
    Measured nowMinus table cat session names v.dataproviderid v.referencetime
  floats : ∀ x ∈ db.floats, cat.names session x.2.toSeries x.1.referencetime ≠ [] →
    Measured nowMinus table cat session names x.2.dataproviderid x.1.referencetime

/-- The removal for a name deletes the values of a series at an instant. -/
def Removed (name : String) (s : Series) (referencetime : ℤ) : Prop :=
  cat.names session s referencetime ≠ [] ∧ s.dataproviderid ∈ dataproviderIds cat [name] ∧
    Outlived nowMinus table name referencetime

end Clean

/-! ### One removal -/

section Remove
variable {I : Type} {nowMinus : I → ℤ} {table : ReferencetimeLifetime I} {cat : Catalog}
  {session : Session} {points : ValueV ℤ → Option (List ℚ)} {name : String} {lifetime : I} {db : Db}

variable (nowMinus cat name lifetime) in
/-- The rows that a removal reads. -/
theorem buildQuery_outlived {β : Type} (view : List (ValueV β)) :
    ∃ rows, buildQuery cat (outlived nowMinus name lifetime) (some fun _ => true) view = some rows ∧
      ∀ v, v ∈ rows ↔ v ∈ view ∧ v.dataproviderid ∈ dataproviderIds cat [name] ∧
        v.referencetime < nowMinus lifetime := by
  refine ⟨_, if_pos fun _ _ => ⟨rfl, rfl, rfl⟩, fun v => ?_⟩
  simp only [List.mem_flatMap, List.mem_replicate, List.mem_filter]
  constructor
  · rintro ⟨w, ⟨hw, hmatch⟩, hcount, rfl⟩
    refine ⟨hw, List.count_pos_iff.1 (Nat.pos_of_ne_zero hcount), ?_⟩
    simpa using hmatch
  · rintro ⟨hv, hid, hbefore⟩
    refine ⟨v, ⟨hv, ?_⟩, (List.count_pos_iff.2 hid).ne', rfl⟩
    simpa using hbefore

theorem removed_iff (hlifetime : table.lifetime name = some lifetime) {s : Series}
    {referencetime : ℤ} : Removed nowMinus table cat session name s referencetime ↔
      cat.names session s referencetime ≠ [] ∧ s.dataproviderid ∈ dataproviderIds cat [name] ∧
        referencetime < nowMinus lifetime := by
  simp [Removed, Outlived, hlifetime]

variable (nowMinus cat session points db) in
/-- A removal deletes the values it is said to, and returns. -/
theorem remove_outlived (hlifetime : table.lifetime name = some lifetime) :
    ∃ r, remove cat session points (outlived nowMinus name lifetime) db = some r ∧
      (∀ v, v ∈ r.1.gridvalue.rows ↔ v ∈ db.gridvalue.rows ∧
        ¬ Removed nowMinus table cat session name v.toSeries v.referencetime) ∧
      ∀ x, x ∈ r.1.floats ↔ x ∈ db.floats ∧
        ¬ Removed nowMinus table cat session name x.2.toSeries x.1.referencetime := by
  obtain ⟨gs, hgs, hgmem⟩ := buildQuery_outlived nowMinus cat name lifetime (gridvalueV cat session db)
  obtain ⟨fs, hfs, hfmem⟩ := buildQuery_outlived nowMinus cat name lifetime (floatvalueV cat session db)
  obtain ⟨db', hdel, hremove⟩ := remove_eq points
    (show readGid cat session db (outlived nowMinus name lifetime) .null = some gs from hgs)
    (show readFloatTable cat session db (outlived nowMinus name lifetime) = some fs from hfs)
  refine ⟨_, hremove, fun v => ?_, fun x => ?_⟩
  · rw [hdel.grids, List.mem_filter, decide_eq_true_eq, removed_iff hlifetime]
    refine and_congr_right fun hv => not_congr ?_
    rw [List.mem_map]
    constructor
    · rintro ⟨w, hw, hid⟩
      obtain ⟨hw, hprovider, hbefore⟩ := (hgmem w).1 hw
      obtain ⟨a, ha, hshown⟩ := mem_gridvalueV.1 hw
      obtain ⟨hkey, hvid, _, _, hnames⟩ := shown_grid hshown
      obtain rfl := grid_eq ha hv (hvid.symm.trans hid)
      rw [hkey] at hprovider hbefore
      exact ⟨List.ne_nil_of_mem hnames, hprovider, hbefore⟩
    · rintro ⟨hnames, hprovider, hbefore⟩
      obtain ⟨n, hn⟩ := List.exists_mem_of_ne_nil _ hnames
      refine ⟨_, (hgmem _).2 ⟨mem_gridvalueV.2 ⟨v, hv, List.mem_map.2 ⟨n, hn, rfl⟩⟩, ?_⟩, rfl⟩
      exact ⟨hprovider, hbefore⟩
  · rw [mem_floats, mem_floats, hdel.items, hdel.groups, List.mem_filter, decide_eq_true_eq,
      removed_iff hlifetime, and_assoc, and_assoc, and_assoc]
    refine and_congr_right fun hi => ?_
    rw [and_comm, and_assoc]
    refine and_congr_right fun hg => and_congr_right fun hid => not_congr ?_
    constructor
    · rintro ⟨w, hw, hwid, href⟩
      obtain ⟨hw, hprovider, hbefore⟩ := (hfmem w).1 hw
      obtain ⟨j, _, h, hh, _, hshown⟩ := mem_floatvalueV.1 hw
      obtain ⟨hseries, hwref, _, _, hvid, _, _, hnames⟩ := shown_item hshown
      have hgh : x.2 = h := group_eq hg hh (by rw [← hid, hwid, hvid])
      rw [hseries, ← hgh] at hprovider
      rw [← href] at hbefore
      rw [← hgh, ← hwref, ← href] at hnames
      exact ⟨List.ne_nil_of_mem hnames, hprovider, hbefore⟩
    · rintro ⟨hnames, hprovider, hbefore⟩
      obtain ⟨n, hn⟩ := List.exists_mem_of_ne_nil _ hnames
      exact ⟨_, (hfmem _).2 ⟨mem_floatvalueV.2 ⟨x.1, hi, x.2, hg, hid, List.mem_map.2 ⟨n, hn, rfl⟩⟩,
        hprovider, hbefore⟩, hid, rfl⟩

end Remove

/-! ### The loop -/

section Loop
variable {I : Type} {nowMinus : I → ℤ} {table : ReferencetimeLifetime I} {cat : Catalog}
  {session : Session} {points : ValueV ℤ → Option (List ℚ)}

/-- A provider's own entry is its lifetime. -/
theorem lifetime_specific {name : String} {lifetime : I} (h : (some name, lifetime) ∈ table.rows) :
    table.lifetime name = some lifetime := by
  unfold ReferencetimeLifetime.lifetime
  cases hfind : table.rows.find? fun r => r.1 = some name with
  | none => exact absurd (List.find?_eq_none.1 hfind _ h) (by simp)
  | some r =>
    have hr : r.1 = some name := of_decide_eq_true (List.find?_some hfind :)
    have heq : r = (some name, lifetime) :=
      table.eq_of_clash (fun _ _ h => ⟨h.1.symm, h.1 ▸ h.2⟩) (List.mem_of_find?_eq_some hfind) h
        ⟨hr, by rw [hr]; exact Option.some_ne_none _⟩
    rw [heq]
    rfl

/-- With a default entry every name has a lifetime. -/
theorem exists_lifetime (h : table.HasDefault) (name : String) :
    ∃ lifetime, table.lifetime name = some lifetime := by
  obtain ⟨r, hr, hnull⟩ := h
  unfold ReferencetimeLifetime.lifetime
  cases hspecific : table.rows.find? fun r => r.1 = some name with
  | some r => exact ⟨r.2, rfl⟩
  | none =>
    cases hdefault : table.rows.find? fun r => r.1 = none with
    | some r => exact ⟨r.2, rfl⟩
    | none => exact absurd (List.find?_eq_none.1 hdefault r hr) (by simpa using hnull)

variable (nowMinus cat session points) in
/-- The loop deletes what one of its removals deletes. -/
theorem removeOutlived_eq (hdefault : table.HasDefault) (names : List String) (db : Db) :
    ∃ db', removeOutlived nowMinus table cat session points names db = some db' ∧
      (∀ v, v ∈ db'.gridvalue.rows ↔ v ∈ db.gridvalue.rows ∧
        ∀ name ∈ names, ¬ Removed nowMinus table cat session name v.toSeries v.referencetime) ∧
      ∀ x, x ∈ db'.floats ↔ x ∈ db.floats ∧
        ∀ name ∈ names, ¬ Removed nowMinus table cat session name x.2.toSeries
          x.1.referencetime := by
  induction names generalizing db with
  | nil => exact ⟨db, rfl, by simp, by simp⟩
  | cons name names ih =>
    obtain ⟨lifetime, hlifetime⟩ := exists_lifetime hdefault name
    obtain ⟨r, hremove, hgrids, hfloats⟩ := remove_outlived nowMinus cat session points
      db hlifetime
    obtain ⟨db', hloop, hgrids', hfloats'⟩ := ih r.1
    refine ⟨db', ?_, fun v => ?_, fun x => ?_⟩
    · unfold removeOutlived
      rw [hlifetime, Option.bind_some, hremove, Option.bind_some, hloop]
    · rw [hgrids', hgrids, List.forall_mem_cons, and_assoc]
    · rw [hfloats', hfloats, List.forall_mem_cons, and_assoc]

/-- A value that some removal deletes has outlived its own lifetime exactly when it is measured so. -/
theorem measured_iff {names : List String} {s : Series} {referencetime : ℤ} :
    ((¬ ∀ name ∈ names, ¬ Removed nowMinus table cat session name s referencetime) →
      ∀ own, OwnName cat session s.dataproviderid own → Outlived nowMinus table own referencetime) ↔
    (cat.names session s referencetime ≠ [] →
      Measured nowMinus table cat session names s.dataproviderid referencetime) := by
  constructor
  · intro h hnames name hname hprovider hold
    exact h fun hkept => hkept name hname ⟨hnames, hprovider, hold⟩
  · intro h hremoved
    push Not at hremoved
    obtain ⟨name, hname, hnames, hprovider, hold⟩ := hremoved
    exact h hnames name hname hprovider hold

end Loop

/-- `clean_referencetimes` deletes only what has outlived its own provider's lifetime, exactly when no
    provider around a value's own, with a value of its own, has outlived the value first. -/
theorem cleanReferencetimes_respects_iff {I : Type} (nowMinus : I → ℤ)
    (table : ReferencetimeLifetime I) (cat : Catalog) (session : Session)
    (points : ValueV ℤ → Option (List ℚ)) (db : Db) (hdefault : table.HasDefault) :
    (browsedNames cat session db = none →
      cleanReferencetimes nowMinus table cat session points db = none) ∧
    ∀ names, browsedNames cat session db = some names →
      ∃ db', cleanReferencetimes nowMinus table cat session points db = some db' ∧
        (RespectsLifetimes nowMinus table cat session db db' ↔
          AllMeasured nowMinus table cat session names db) := by
  refine ⟨fun hnone => by unfold cleanReferencetimes; rw [hnone]; rfl, fun names hnames => ?_⟩
  obtain ⟨db', hloop, hgrids, hfloats⟩ := removeOutlived_eq nowMinus cat session points
    hdefault names db
  refine ⟨db', by unfold cleanReferencetimes; rw [hnames, Option.bind_some, hloop], ?_⟩
  constructor
  · rintro ⟨hg, hf⟩
    refine ⟨fun v hv => measured_iff.1 fun hgone => hg v hv ?_, fun x hx => measured_iff.1
      fun hgone => hf x hx ?_⟩
    · rw [hgrids]
      exact fun h => hgone h.2
    · rw [hfloats]
      exact fun h => hgone h.2
  · rintro ⟨hg, hf⟩
    refine ⟨fun v hv hgone => measured_iff.2 (hg v hv) fun hkept => hgone ((hgrids v).2 ⟨hv, hkept⟩),
      fun x hx hgone => measured_iff.2 (hf x hx) fun hkept => hgone ((hfloats x).2 ⟨hx, hkept⟩)⟩

/-- A day's lifetime of a group, and a default of a thousand days. -/
def groupForADay : ReferencetimeLifetime ℤ := ⟨[(some "group", 1), (none, 1000)], by decide⟩

/-- A value of the provider and a value of its group, both five days old. -/
def fiveDaysOld : Db where
  gridvalue := .empty
  gridvalueSeq := 1
  floatvaluegroup := ⟨[⟨⟨1, 1, 0, 1, 1, 0, 0, 0⟩, 1, ⟨0, 0⟩, ⟨0, 0⟩, 0⟩,
    ⟨⟨2, 1, 0, 1, 1, 0, 0, 0⟩, 2, ⟨0, 0⟩, ⟨0, 0⟩, 0⟩], by decide⟩
  floatvaluegroupSeq := 3
  floatvalueitem := ⟨[⟨1, -5, 0, 0, 0, 0⟩, ⟨2, -5, 0, 0, 0, 0⟩], by decide⟩
  valueid_drawn := Db.empty.valueid_drawn
  valuegroupid_drawn := by decide
  valuegroupid_refers := by decide

theorem browsedNames_fiveDaysOld :
    browsedNames grouped oneSession fiveDaysOld = some ["provider", "group"] := by decide

/-- The value of the provider, which may live a thousand days, is deleted with the group's. -/
theorem cleanReferencetimes_loses : groupForADay.HasDefault ∧
    ∃ db', cleanReferencetimes (fun days => -days) groupForADay grouped oneSession (fun _ => none)
        fiveDaysOld = some db' ∧
      ¬ RespectsLifetimes (fun days => -days) groupForADay grouped oneSession fiveDaysOld db' := by
  have hdefault : groupForADay.HasDefault := ⟨(none, 1000), by decide, rfl⟩
  obtain ⟨db', hloop, _, hfloats⟩ := removeOutlived_eq (fun days => -days) grouped oneSession
    (fun _ => none) hdefault ["provider", "group"] fiveDaysOld
  refine ⟨hdefault, db', ?_, fun h => ?_⟩
  · unfold cleanReferencetimes
    rw [browsedNames_fiveDaysOld, Option.bind_some, hloop]
  · have hlifetime : groupForADay.lifetime "group" = some 1 := by decide
    have hprovider : groupForADay.lifetime "provider" = some 1000 := by decide
    have hgone := h.floats (⟨1, -5, 0, 0, 0, 0⟩, ⟨⟨1, 1, 0, 1, 1, 0, 0, 0⟩, 1, ⟨0, 0⟩, ⟨0, 0⟩, 0⟩)
      (by decide) (fun hmem => ((hfloats _).1 hmem).2 "group" (by decide)
        ((removed_iff hlifetime).2 (by decide)))
      "provider" (by decide) 1000 hprovider
    exact absurd hgone (by decide)

/-- With the default for everything the group's value and the provider's are measured alike. -/
theorem cleanReferencetimes_respects_default :
    ∃ db', cleanReferencetimes (fun days => -days) ⟨[(none, 1)], List.pairwise_singleton _ _⟩ grouped
        oneSession (fun _ => none) fiveDaysOld = some db' ∧
      RespectsLifetimes (fun days => -days) ⟨[(none, 1)], List.pairwise_singleton _ _⟩ grouped
        oneSession fiveDaysOld db' := by
  obtain ⟨db', hclean, hiff⟩ := (cleanReferencetimes_respects_iff (fun days => -days)
    ⟨[(none, 1)], List.pairwise_singleton _ _⟩ grouped oneSession (fun _ => none) fiveDaysOld
    ⟨(none, 1), List.mem_singleton_self _, rfl⟩).2 _ browsedNames_fiveDaysOld
  refine ⟨db', hclean, hiff.2 ⟨?_, fun _ _ _ _ _ _ hold _ _ => hold⟩⟩
  exact fun _ hv => nomatch hv

end Wdb.Store
