import Wdb.Store.Write

/-! What a float write does to the list of float items with their groups.

    A write that the constraints accept finds or makes the group of its key and version, appends one
    item, and sets the maximum in the items of the key when the version is positive. -/

namespace Wdb.Store
open Relational SqlTime SqlTypes Versioned

/-- The group holds the valid times of the key. -/
def FloatValueGroup.ofKey (g : FloatValueGroup) (k : Key) : Prop := g.sameValid (newGroup k 0 0)

instance (g : FloatValueGroup) (k : Key) : Decidable (g.ofKey k) :=
  inferInstanceAs (Decidable (FloatValueGroup.sameValid _ _))

/-- The constraints of the float tables refuse the write: a foreign key has no referent, the value is
    no `real`, or the key and version are stored already. -/
def FloatRefused (cat : Catalog) (db : Db) (k : Key) (dataversion confidencecode : ℤ) (value : ℚ) :
    Prop :=
  (¬ cat.refers k.toSeries ∧
    ¬ ∃ g ∈ db.floatvaluegroup.rows, g.ofKey k ∧ g.dataversion = dataversion) ∨
  confidencecode ∉ cat.qualityconfidencecode ∨ toReal value = none ∨
  ∃ x ∈ db.floats, floatKey x = k ∧ x.2.dataversion = dataversion

instance (cat : Catalog) (db : Db) (k : Key) (dataversion confidencecode : ℤ) (value : ℚ) :
    Decidable (FloatRefused cat db k dataversion confidencecode value) :=
  inferInstanceAs (Decidable (_ ∨ _))

/-- The group of a key and version: the one that is there, or else the one that is made. -/
def groupOf (db : Db) (k : Key) (dataversion : ℤ) : FloatValueGroup :=
  (db.floatvaluegroup.rows.find? fun g => g.ofKey k ∧ g.dataversion = dataversion).getD
    (newGroup k dataversion db.floatvaluegroupSeq)

/-- The groups when that of a key and version is among them. -/
def groupsWith (db : Db) (k : Key) (dataversion : ℤ) : List FloatValueGroup :=
  if ∃ g ∈ db.floatvaluegroup.rows, g.ofKey k ∧ g.dataversion = dataversion then
    db.floatvaluegroup.rows
  else db.floatvaluegroup.rows ++ [groupOf db k dataversion]

/-- The item that is stored for a key and version. -/
def storedItem (db : Db) (k : Key) (dataversion confidencecode : ℤ) (value : ℚ) (now : ℤ) :
    FloatValueItem :=
  { valuegroupid := (groupOf db k dataversion).valuegroupid
    referencetime := k.referencetime
    maxdataversion := dataversion
    confidencecode := confidencecode
    value := value
    valuestoretime := now }

/-- An item was stored in the group `g` for the key. -/
structure Stored (db db' : Db) (k : Key) (dataversion : ℤ) (i : FloatValueItem)
    (g : FloatValueGroup) : Prop where
  floats : db'.floats = db.floats ++ [(i, g)]
  ofKey : g.ofKey k
  version : g.dataversion = dataversion
  group : g ∈ db.floatvaluegroup.rows ∨ g = newGroup k dataversion db.floatvaluegroupSeq
  groups : ∀ h ∈ db'.floatvaluegroup.rows, h ∈ db.floatvaluegroup.rows ∨ h = g
  grids : db'.gridvalue = db.gridvalue

/-! ### Keys -/

/-- A float value has a key when its group has and the reference times agree. -/
theorem floatKey_eq_key {x : FloatValueItem × FloatValueGroup} {k : Key} :
    floatKey x = k ↔ x.2.ofKey k ∧ x.1.referencetime = k.referencetime := by
  obtain ⟨s, r, f, t⟩ := k
  unfold floatKey FloatValueGroup.ofKey FloatValueGroup.sameValid newGroup
  simp only [Key.mk.injEq, span_timestampMi]
  constructor
  · rintro ⟨hs, hr, hf, ht⟩
    exact ⟨⟨hs, by omega, by omega⟩, hr⟩
  · rintro ⟨⟨hs, hf, ht⟩, hr⟩
    exact ⟨hs, hr, by omega, by omega⟩

theorem FloatValueGroup.ofKey_of_same {g h : FloatValueGroup} {k : Key} (hh : h.ofKey k) :
    g.sameValid h ↔ g.ofKey k :=
  ⟨fun hg => sameValid_trans hg hh, fun hg => sameValid_trans hg (sameValid_symm hh)⟩

section Statements
variable {cat : Catalog} {db : Db} {k : Key}

/-- The items that the last statement updates are those of the key. -/
theorem ofKey_iff {x : FloatValueItem × FloatValueGroup} (hx : x ∈ db.floats) :
    ofKey db k x.1 = true ↔ floatKey x = k := by
  obtain ⟨hi, hg, hid⟩ := mem_floats.1 hx
  unfold ofKey
  rw [decide_eq_true_eq, floatKey_eq_key, and_comm]
  refine and_congr_left fun _ => ⟨?_, fun h => ⟨x.2, hg, hid.symm, h⟩⟩
  rintro ⟨g, hg', hid', h⟩
  rw [group_eq hg hg' (hid.symm.trans hid'.symm)]
  exact h

/-- The first statement fails on a foreign key, or leaves the group of the key and version. -/
theorem insertGroup_cases (cat : Catalog) (db : Db) (k : Key) (dataversion : ℤ) :
    ((¬ cat.refers k.toSeries ∧
        ¬ ∃ g ∈ db.floatvaluegroup.rows, g.ofKey k ∧ g.dataversion = dataversion) ∧
      insertGroup cat db k dataversion = none) ∨
    ((cat.refers k.toSeries ∨
        ∃ g ∈ db.floatvaluegroup.rows, g.ofKey k ∧ g.dataversion = dataversion) ∧
      ∃ db₁ g, insertGroup cat db k dataversion = some (db₁, some g.valuegroupid) ∧
        g ∈ db₁.floatvaluegroup.rows ∧ g.ofKey k ∧ g.dataversion = dataversion ∧
        (g ∈ db.floatvaluegroup.rows ∧ db₁.floatvaluegroup = db.floatvaluegroup ∨
          g = newGroup k dataversion db.floatvaluegroupSeq ∧
            db₁.floatvaluegroup.rows = db.floatvaluegroup.rows ++ [g]) ∧
        db₁.floatvalueitem = db.floatvalueitem ∧ db₁.gridvalue = db.gridvalue) := by
  have hclash : ∀ b ∈ db.floatvaluegroup.rows,
      b.clash (newGroup k dataversion db.floatvaluegroupSeq) ↔
        b.ofKey k ∧ b.dataversion = dataversion := by
    intro b hb
    refine ⟨?_, Or.inr⟩
    rintro (h | h)
    · exact absurd (db.valuegroupid_drawn b hb) (h ▸ lt_irrefl _)
    · exact h
  unfold insertGroup
  simp only
  split
  · next t ht =>
    obtain ⟨hno, hrows⟩ := Table.insert_eq_some ht
    have hnew : ¬ ∃ g ∈ db.floatvaluegroup.rows, g.ofKey k ∧ g.dataversion = dataversion :=
      fun ⟨g, hg, h⟩ => hno g hg ((hclash g hg).2 h)
    by_cases href : cat.refers k.toSeries
    · rw [if_pos href]
      refine Or.inr ⟨Or.inl href, _, newGroup k dataversion db.floatvaluegroupSeq, rfl, ?_,
        ⟨rfl, rfl, rfl⟩, rfl, Or.inr ⟨rfl, hrows⟩, rfl, rfl⟩
      rw [hrows]
      exact List.mem_append_right _ (List.mem_singleton.2 rfl)
    · rw [if_neg href]
      exact Or.inl ⟨⟨href, hnew⟩, rfl⟩
  · next hnone =>
    -- the group that clashes is the one that is selected
    have hold : ∃ g ∈ db.floatvaluegroup.rows, g.ofKey k ∧ g.dataversion = dataversion := by
      by_contra hno
      obtain ⟨t, ht, _⟩ := Table.insert_of_noClash (t := db.floatvaluegroup)
        fun b hb hc => hno ⟨b, hb, (hclash b hb).1 hc⟩
      rw [ht] at hnone
      cases hnone
    obtain ⟨g, hg⟩ : ∃ g, db.floatvaluegroup.rows.find? (fun g =>
        g.sameValid (newGroup k dataversion db.floatvaluegroupSeq) ∧
          g.dataversion = dataversion) = some g := by
      obtain ⟨g, hg, h⟩ := hold
      exact Option.isSome_iff_exists.1 (List.find?_isSome.2 ⟨g, hg, decide_eq_true h⟩)
    have hprop := List.find?_some hg
    rw [decide_eq_true_eq] at hprop
    refine Or.inr ⟨Or.inr hold, drawGroupId db, g, ?_, List.mem_of_find?_eq_some hg, hprop.1,
      hprop.2, Or.inl ⟨List.mem_of_find?_eq_some hg, rfl⟩, rfl, rfl⟩
    rw [hg, Option.map_some]

/-- The group that the first statement leaves. -/
theorem eq_groupOf {db₁ : Db} {dataversion : ℤ} {g : FloatValueGroup} (hg : g ∈ db₁.floatvaluegroup.rows)
    (hofKey : g.ofKey k) (hver : g.dataversion = dataversion)
    (hgroup : g ∈ db.floatvaluegroup.rows ∧ db₁.floatvaluegroup = db.floatvaluegroup ∨
      g = newGroup k dataversion db.floatvaluegroupSeq ∧
        db₁.floatvaluegroup.rows = db.floatvaluegroup.rows ++ [g]) :
    g = groupOf db k dataversion ∧ db₁.floatvaluegroup.rows = groupsWith db k dataversion := by
  -- a group of the key and version that was there is `g`
  have hold : ∀ h ∈ db.floatvaluegroup.rows, h.ofKey k ∧ h.dataversion = dataversion → h = g := by
    intro h hh hkey
    refine db₁.floatvaluegroup.eq_of_clash FloatValueGroup.clash_symm ?_ hg
      (Or.inr ⟨(FloatValueGroup.ofKey_of_same hofKey).2 hkey.1, hkey.2.trans hver.symm⟩)
    rcases hgroup with ⟨_, hrows⟩ | ⟨_, hrows⟩
    · rwa [hrows]
    · rw [hrows]
      exact List.mem_append_left _ hh
  unfold groupOf groupsWith
  rcases hgroup with ⟨hmem, hrows⟩ | ⟨hnew, hrows⟩
  · rw [if_pos ⟨g, hmem, hofKey, hver⟩, hrows]
    cases hfind : db.floatvaluegroup.rows.find? fun g => g.ofKey k ∧ g.dataversion = dataversion with
    | none => exact absurd (List.find?_eq_none.1 hfind g hmem) (by simp [hofKey, hver])
    | some h =>
      have hkey := List.find?_some hfind
      exact ⟨(hold h (List.mem_of_find?_eq_some hfind) (of_decide_eq_true hkey)).symm, rfl⟩
  · have hno : ¬ ∃ h ∈ db.floatvaluegroup.rows, h.ofKey k ∧ h.dataversion = dataversion := by
      rintro ⟨h, hh, hkey⟩
      have hlt := db.valuegroupid_drawn h hh
      rw [hold h hh hkey, hnew] at hlt
      exact lt_irrefl _ hlt
    have hfind : (db.floatvaluegroup.rows.find? fun g =>
        g.ofKey k ∧ g.dataversion = dataversion) = none := by
      rw [List.find?_eq_none]
      intro h hh hkey
      exact hno ⟨h, hh, of_decide_eq_true hkey⟩
    rw [if_neg hno, hrows, groupOf, hfind]
    exact ⟨hnew, by rw [hnew]; rfl⟩

/-- The second statement fails on its value, its code or a stored item, or appends the item. -/
theorem insertItem_cases (cat : Catalog) {db : Db} {g : FloatValueGroup}
    (hg : g ∈ db.floatvaluegroup.rows) (referencetime dataversion confidencecode : ℤ) (value : ℚ)
    (now : ℤ) :
    ((confidencecode ∉ cat.qualityconfidencecode ∨ toReal value = none ∨
        ∃ i ∈ db.floatvalueitem.rows, i.valuegroupid = g.valuegroupid ∧
          i.referencetime = referencetime) ∧
      insertItem cat db (some g.valuegroupid) referencetime dataversion confidencecode value now =
        none) ∨
    (confidencecode ∈ cat.qualityconfidencecode ∧ ∃ r, toReal value = some r ∧
      (¬ ∃ i ∈ db.floatvalueitem.rows, i.valuegroupid = g.valuegroupid ∧
        i.referencetime = referencetime) ∧
      ∃ db₂, insertItem cat db (some g.valuegroupid) referencetime dataversion confidencecode value
          now = some db₂ ∧
        db₂.floatvalueitem.rows = db.floatvalueitem.rows ++
          [⟨g.valuegroupid, referencetime, dataversion, confidencecode, r, now⟩] ∧
        db₂.floatvaluegroup = db.floatvaluegroup ∧ db₂.gridvalue = db.gridvalue) := by
  unfold insertItem
  rw [Option.bind_some]
  cases hr : toReal value with
  | none => exact Or.inl ⟨Or.inr (Or.inl rfl), rfl⟩
  | some r =>
    rw [Option.bind_some]
    by_cases hc : confidencecode ∈ cat.qualityconfidencecode
    · rw [dif_pos ⟨hc, g, hg, rfl⟩]
      by_cases hdup : ∃ i ∈ db.floatvalueitem.rows, i.valuegroupid = g.valuegroupid ∧
          i.referencetime = referencetime
      · refine Or.inl ⟨Or.inr (Or.inr hdup), ?_⟩
        obtain ⟨i, hi, h⟩ := hdup
        rw [Option.map_eq_none_iff, Option.attach_eq_none_iff]
        exact Table.insert_of_clash hi h
      · obtain ⟨t, ht, hrows⟩ := Table.insert_of_noClash (t := db.floatvalueitem)
          (a := ⟨g.valuegroupid, referencetime, dataversion, confidencecode, r, now⟩)
          fun i hi h => hdup ⟨i, hi, h⟩
        refine Or.inr ⟨hc, r, rfl, hdup, _, Option.map_eq_some_iff.2 ⟨⟨t, ht⟩, ?_, rfl⟩, hrows, rfl,
          rfl⟩
        exact Option.mem_attach _ ⟨t, ht⟩
    · rw [dif_neg fun h => hc h.1]
      exact Or.inl ⟨Or.inl hc, rfl⟩

/-- The floats after an item was appended to a group. -/
theorem floats_append {db db₂ : Db} {g : FloatValueGroup} {i : FloatValueItem}
    (hg : g ∈ db₂.floatvaluegroup.rows) (hid : i.valuegroupid = g.valuegroupid)
    (hgroups : db₂.floatvaluegroup = db.floatvaluegroup ∨
      db₂.floatvaluegroup.rows = db.floatvaluegroup.rows ++ [g] ∧
        g.valuegroupid = db.floatvaluegroupSeq)
    (hitems : db₂.floatvalueitem.rows = db.floatvalueitem.rows ++ [i]) :
    db₂.floats = db.floats ++ [(i, g)] := by
  -- the groups of the new item are `g`, those of an old item are as before
  have hnew : (db₂.floatvaluegroup.rows.filter fun h => i.valuegroupid = h.valuegroupid) = [g] :=
    Table.filter_eq_singleton (db₂.floatvaluegroup.nodup FloatValueGroup.clash_refl) hg
      (decide_eq_true hid) fun h hh hih => group_eq hh hg ((of_decide_eq_true hih).symm.trans hid)
  have hold : ∀ j ∈ db.floatvalueitem.rows,
      (db₂.floatvaluegroup.rows.filter fun h => j.valuegroupid = h.valuegroupid) =
        db.floatvaluegroup.rows.filter fun h => j.valuegroupid = h.valuegroupid := by
    intro j hj
    rcases hgroups with h | ⟨h, hseq⟩
    · rw [h]
    · rw [h, List.filter_append, List.filter_singleton]
      obtain ⟨g', hg', hid'⟩ := db.valuegroupid_refers j hj
      have hne : ¬ j.valuegroupid = g.valuegroupid := by
        have hlt := db.valuegroupid_drawn g' hg'
        rw [hid', ← hseq] at hlt
        exact ne_of_lt hlt
      simp [hne]
  unfold Db.floats
  rw [hitems, List.flatMap_append, List.flatMap_singleton, hnew, List.map_singleton]
  congr 1
  exact List.flatMap_congr fun j hj => by rw [hold j hj]

/-- A float write is refused by the constraints, or stores its item in the group of its key and version
    and then recomputes the maximum. -/
theorem writeFloat_stored (cat : Catalog) (db : Db) (session : Session) (k : Key)
    (dataversion confidencecode : ℤ) (value : ℚ) (now : ℤ) :
    (FloatRefused cat db k dataversion confidencecode value ∧
      writeFloat cat db session k dataversion confidencecode value now = none) ∨
    (¬ FloatRefused cat db k dataversion confidencecode value ∧ ∃ db₂ r, toReal value = some r ∧
      Stored db db₂ k dataversion (storedItem db k dataversion confidencecode r now)
        (groupOf db k dataversion) ∧
      db₂.floatvaluegroup.rows = groupsWith db k dataversion ∧
      writeFloat cat db session k dataversion confidencecode value now =
        recomputeMax cat db₂ session k dataversion) := by
  unfold writeFloat
  rcases insertGroup_cases cat db k dataversion with ⟨href, hnone⟩ | ⟨href, db₁, g, hsome, hg, hofKey,
    hver, hgroup, hitems₁, hgrids₁⟩
  · rw [hnone]
    exact Or.inl ⟨Or.inl href, rfl⟩
  rw [hsome, Option.bind_some]
  simp only
  obtain ⟨hgroupOf, hgroupsWith⟩ := eq_groupOf hg hofKey hver hgroup
  have hold : ∀ h ∈ db.floatvaluegroup.rows, h ∈ db₁.floatvaluegroup.rows := fun h hh => by
    rcases hgroup with ⟨_, hrows⟩ | ⟨_, hrows⟩
    · rw [hrows]; exact hh
    · rw [hrows]; exact List.mem_append_left _ hh
  -- an item that clashes with the new one is a stored value of the key and version
  have hpresent : (∃ i ∈ db₁.floatvalueitem.rows, i.valuegroupid = g.valuegroupid ∧
      i.referencetime = k.referencetime) ↔
      ∃ x ∈ db.floats, floatKey x = k ∧ x.2.dataversion = dataversion := by
    rw [hitems₁]
    constructor
    · rintro ⟨i, hi, hid, hr⟩
      obtain ⟨h, hh, hhid⟩ := db.valuegroupid_refers i hi
      obtain rfl : h = g := group_eq (hold h hh) hg (hhid.trans hid)
      exact ⟨(i, h), mem_floats.2 ⟨hi, hh, hhid.symm⟩, floatKey_eq_key.2 ⟨hofKey, hr⟩, hver⟩
    · rintro ⟨x, hx, hkey, hxver⟩
      obtain ⟨hi, hh, hid⟩ := mem_floats.1 hx
      obtain ⟨hxkey, hr⟩ := floatKey_eq_key.1 hkey
      have hxg : x.2 = g := db₁.floatvaluegroup.eq_of_clash FloatValueGroup.clash_symm
        (hold x.2 hh) hg (Or.inr ⟨(FloatValueGroup.ofKey_of_same hofKey).2 hxkey,
          hxver.trans hver.symm⟩)
      exact ⟨x.1, hi, by rw [hid, hxg], hr⟩
  rcases insertItem_cases cat hg k.referencetime dataversion confidencecode value now with
    ⟨hrefused, hnone⟩ | ⟨hconf, r, hr, hfree, db₂, hsome₂, hitems, hgroups, hgrids⟩
  · rw [hnone, Option.bind_none]
    refine Or.inl ⟨Or.inr ?_, rfl⟩
    rwa [hpresent] at hrefused
  · rw [hsome₂, Option.bind_some]
    unfold storedItem
    rw [← hgroupOf, ← hgroupsWith, ← hgroups]
    refine Or.inr ⟨?_, db₂, r, hr, ⟨?_, hofKey, hver, ?_, ?_, hgrids.trans hgrids₁⟩, rfl, rfl⟩
    · rintro (h | h | h | h)
      · rcases href with href | href
        · exact h.1 href
        · exact h.2 href
      · exact h hconf
      · rw [hr] at h; cases h
      · exact hfree (hpresent.2 h)
    · refine floats_append (by rw [hgroups]; exact hg) rfl ?_ (by rw [hitems, hitems₁])
      rcases hgroup with ⟨_, hrows⟩ | ⟨rfl, hrows⟩
      · exact Or.inl (hgroups.trans hrows)
      · exact Or.inr ⟨by rw [hgroups, hrows], rfl⟩
    · exact hgroup.imp And.left And.left
    · intro h hh
      rw [hgroups] at hh
      rcases hgroup with ⟨_, hrows⟩ | ⟨_, hrows⟩
      · exact Or.inl (hrows ▸ hh)
      · rw [hrows, List.mem_append, List.mem_singleton] at hh
        exact hh

/-- What of it the runs of writes need. -/
theorem writeFloat_cases (cat : Catalog) (db : Db) (session : Session) (k : Key)
    (dataversion confidencecode : ℤ) (value : ℚ) (now : ℤ) :
    (FloatRefused cat db k dataversion confidencecode value ∧
      writeFloat cat db session k dataversion confidencecode value now = none) ∨
    (¬ FloatRefused cat db k dataversion confidencecode value ∧ ∃ db₂ i g,
      Stored db db₂ k dataversion i g ∧ i.referencetime = k.referencetime ∧
      i.maxdataversion = dataversion ∧ i.confidencecode = confidencecode ∧
      toReal value = some i.value ∧
      writeFloat cat db session k dataversion confidencecode value now =
        recomputeMax cat db₂ session k dataversion) := by
  refine (writeFloat_stored cat db session k dataversion confidencecode value now).imp_right ?_
  rintro ⟨hok, db₂, r, hr, hs, _, hwrite⟩
  exact ⟨hok, db₂, _, _, hs, rfl, rfl, rfl, hr, hwrite⟩

/-- A float value with another maximum. -/
def withMax (m : ℤ) (x : FloatValueItem × FloatValueGroup) : FloatValueItem × FloatValueGroup :=
  ({ x.1 with maxdataversion := m }, x.2)

/-- The last statement sets the maximum of the values of the key. -/
theorem setFloatMax_floats (db : Db) (k : Key) (m : ℤ) :
    (setFloatMax db k m).floats =
      db.floats.map fun x => if floatKey x = k then withMax m x else x := by
  have hitems : (setFloatMax db k m).floatvalueitem.rows = db.floatvalueitem.rows.map
      (Table.updateRow (ofKey db k) fun i => { i with maxdataversion := m }) := rfl
  have hgroups : (setFloatMax db k m).floatvaluegroup = db.floatvaluegroup := rfl
  unfold Db.floats
  rw [hitems, hgroups, List.flatMap_map, List.map_flatMap]
  refine List.flatMap_congr fun i hi => ?_
  have hid : (Table.updateRow (ofKey db k) (fun i => { i with maxdataversion := m }) i).valuegroupid =
      i.valuegroupid := by
    unfold Table.updateRow
    split <;> rfl
  simp only [hid, List.map_map]
  refine List.map_congr_left fun g hg => ?_
  obtain ⟨hg, hig⟩ := List.mem_filter.1 hg
  have hx : (i, g) ∈ db.floats := mem_floats.2 ⟨hi, hg, of_decide_eq_true hig⟩
  unfold Table.updateRow
  simp only [Function.comp_apply]
  by_cases hkey : floatKey (i, g) = k
  · rw [if_pos ((ofKey_iff hx).2 hkey), if_pos hkey]
    rfl
  · rw [if_neg fun h => hkey ((ofKey_iff hx).1 h), if_neg hkey]

/-- After an item was stored, the maximum is left alone for a version up to 0; for a positive one it is
    what the session's view shows, and nothing shown is an error. -/
theorem recomputeMax_stored {db₂ : Db} {dataversion : ℤ} {i : FloatValueItem} {g : FloatValueGroup}
    (cat : Catalog) (session : Session) (hs : Stored db db₂ k dataversion i g)
    (hr : i.referencetime = k.referencetime) :
    recomputeMax cat db₂ session k dataversion =
      if dataversion > 0 then (selectMax cat db₂ session k).map (setFloatMax db₂ k)
      else some db₂ := by
  unfold recomputeMax
  split
  · cases selectMax cat db₂ session k with
    | some m => rfl
    | none =>
      have hx : (i, g) ∈ db₂.floats := by rw [hs.floats]; simp
      rw [Option.map_none, if_pos]
      exact ⟨i, (mem_floats.1 hx).1, (ofKey_iff hx).2 (floatKey_eq_key.2 ⟨hs.ofKey, hr⟩)⟩
  · rfl

end Statements

end Wdb.Store
