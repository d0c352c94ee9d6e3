import Wdb.Lib.Runs
import Wdb.Store.FloatWrite

/-! `maxdataversion` of float values over whole runs of writes.

    A write of a version up to 0 leaves the maxima of its key alone, so that it keeps them right exactly
    when it is the first of its key. A write of a positive version sets them to the greatest version
    that the session's view shows at the instants of the key. The view shows what the session has names
    for, and puts an item at its instants only when adding the stored interval to the reference time
    undoes the subtraction that made it, which changes of the session's offset prevent. A read counts from
    a maximum in `integer`s, which the greatest one does not bear. -/

namespace Wdb.Store
open Relational SqlTime SqlTypes Versioned Runs

/-- A float write. -/
structure FloatCall where
  session : Session
  k : Key
  dataversion : ℤ
  confidencecode : ℤ
  value : ℚ
  now : ℤ

/-- The tables after a float write. One that raises only draws an id. -/
def floatStep (cat : Catalog) (db : Db) (c : FloatCall) : Db :=
  (writeFloat cat db c.session c.k c.dataversion c.confidencecode c.value c.now).getD (drawGroupId db)

/-- The instants of the key are rebuilt in the time zone of the session. -/
def Faithful (session : Session) (k : Key) : Prop :=
  AddsBack session.timezone k.validtimefrom k.referencetime ∧
  AddsBack session.timezone k.validtimeto k.referencetime

instance (session : Session) (k : Key) : Decidable (Faithful session k) :=
  inferInstanceAs (Decidable (_ ∧ _))

/-- The session's view puts a float value at the instants of the key. -/
def ShownAs (session : Session) (k : Key) (x : FloatValueItem × FloatValueGroup) : Prop :=
  x.2.toSeries = k.toSeries ∧ x.1.referencetime = k.referencetime ∧
  timestamptzPlInterval session.timezone x.1.referencetime x.2.validtimefrom = k.validtimefrom ∧
  timestamptzPlInterval session.timezone x.1.referencetime x.2.validtimeto = k.validtimeto

/-- The versions stored for a key. -/
def Db.keyVersions (db : Db) (k : Key) : Set ℤ :=
  {n | ∃ x ∈ db.floats, floatKey x = k ∧ x.2.dataversion = n}

/-- The versions that the session's view puts at the instants of a key. -/
def Db.shownVersions (db : Db) (session : Session) (k : Key) : Set ℤ :=
  {n | ∃ x ∈ db.floats, ShownAs session k x ∧ x.2.dataversion = n}

/-- The condition on a write. Unless it is refused, a version up to 0 is the first of its key; for a
    positive version the session has no name for the key, or sees nothing at its instants (and then the
    write fails), or the greatest version it will see there is the greatest that is stored. -/
def FloatSafe (cat : Catalog) (db : Db) (c : FloatCall) : Prop :=
  FloatRefused cat db c.k c.dataversion c.confidencecode c.value ∨
  (c.dataversion ≤ 0 ∧ db.keyVersions c.k = ∅) ∨
  (0 < c.dataversion ∧ (cat.names c.session c.k.toSeries c.k.referencetime = [] ∨
    (¬ Faithful c.session c.k ∧ db.shownVersions c.session c.k = ∅) ∨
    ∃ n, IsGreatest (insert c.dataversion (db.keyVersions c.k)) n ∧
      IsGreatest ({m | Faithful c.session c.k ∧ m = c.dataversion} ∪
        db.shownVersions c.session c.k) n))

/-- A write fails: it is refused, or selects no maximum for its positive version. -/
def FloatFails (cat : Catalog) (db : Db) (c : FloatCall) : Prop :=
  FloatRefused cat db c.k c.dataversion c.confidencecode c.value ∨
  (0 < c.dataversion ∧ (cat.names c.session c.k.toSeries c.k.referencetime = [] ∨
    (¬ Faithful c.session c.k ∧ db.shownVersions c.session c.k = ∅)))

/-- The condition on a write for the reads: unless it fails, version -1 can be counted from its version, or
    no session has names for its item. -/
def FloatReadable (cat : Catalog) (db : Db) (c : FloatCall) : Prop :=
  FloatFails cat db c ∨ cat.Unnamed c.k.toSeries c.k.referencetime ∨ Readable c.dataversion

/-- Version -1 can be counted from every maximum that a session sees. -/
def Db.FloatReadable (cat : Catalog) (db : Db) : Prop :=
  ∀ x ∈ db.floats, cat.Unnamed x.2.toSeries x.1.referencetime ∨ Readable x.1.maxdataversion

/-- A read with data version -1 returns the newest float value of every key, once for each of its
    names, and nothing else. -/
def ReadsNewestFloats (cat : Catalog) (db : Db) : Prop :=
  ∀ session, readFloatTable cat session db { dataVersion := .value [-1] } =
    some ((db.floats.filter fun x =>
      Newest floatKey (·.2.dataversion) db.floats x).flatMap fun x => x.1.shown cat session x.2)

/-- Intervals are stored as subtraction makes them: whole days, and a time part. -/
def Canonical (db : Db) : Prop :=
  ∀ g ∈ db.floatvaluegroup.rows, g.validtimefrom = justifyHours g.validtimefrom.span ∧
    g.validtimeto = justifyHours g.validtimeto.span

section View
variable {cat : Catalog} {session : Session} {db : Db} {k : Key}

/-- `floatvalue_v` shows the floats one by one. -/
theorem floatvalueV_eq :
    floatvalueV cat session db = db.floats.flatMap fun x => x.1.shown cat session x.2 := by
  unfold floatvalueV Db.floats
  rw [List.flatMap_assoc]
  exact List.flatMap_congr fun i _ => by rw [List.flatMap_map]

theorem shown_key_iff {x : FloatValueItem × FloatValueGroup} {v : ValueV ℚ}
    (h : v ∈ x.1.shown cat session x.2) : v.toKey = k ↔ ShownAs session k x := by
  obtain ⟨hs, hr, hf, ht, _⟩ := shown_item h
  obtain ⟨⟨vs, vr, vf, vt⟩, _⟩ := v
  obtain ⟨ks, kr, kf, kt⟩ := k
  unfold ShownAs
  simp only at hs hr hf ht ⊢
  rw [Key.mk.injEq, hs, hr, hf, ht]

/-- A value of the key is shown as the key when the session rebuilds its instants. -/
theorem shownAs_iff_faithful (hc : Canonical db) {x : FloatValueItem × FloatValueGroup}
    (hg : x.2 ∈ db.floatvaluegroup.rows) (hkey : floatKey x = k) :
    ShownAs session k x ↔ Faithful session k := by
  obtain ⟨hf, ht⟩ := hc x.2 hg
  obtain ⟨hofKey, hr⟩ := floatKey_eq_key.1 hkey
  have hspan : x.2.validtimefrom.span = k.validtimefrom - k.referencetime ∧
      x.2.validtimeto.span = k.validtimeto - k.referencetime := by
    have h := hofKey.2
    unfold newGroup at h
    rwa [span_timestampMi, span_timestampMi] at h
  unfold ShownAs Faithful AddsBack timestampMi
  rw [hf, ht, hspan.1, hspan.2, hr]
  exact ⟨fun h => h.2.2, fun h => ⟨hofKey.1, rfl, h⟩⟩

/-- What `SELECT max(dataversion)` selects. -/
theorem selectMax_cases (cat : Catalog) (session : Session) (db : Db) (k : Key) :
    (cat.names session k.toSeries k.referencetime = [] ∨ db.shownVersions session k = ∅) ∧
      selectMax cat db session k = none ∨
    (cat.names session k.toSeries k.referencetime ≠ [] ∧ ∃ n, selectMax cat db session k = some n ∧
      IsGreatest (db.shownVersions session k) n) := by
  have hmem : ∀ n, n ∈ ((floatvalueV cat session db).filter fun v => v.toKey = k).map
      (·.dataversion) ↔ cat.names session k.toSeries k.referencetime ≠ [] ∧
        n ∈ db.shownVersions session k := by
    intro n
    rw [floatvalueV_eq]
    simp only [List.mem_map, List.mem_filter, List.mem_flatMap, decide_eq_true_eq]
    constructor
    · rintro ⟨v, ⟨⟨x, hx, hv⟩, hkey⟩, rfl⟩
      have hshown := (shown_key_iff hv).1 hkey
      obtain ⟨_, _, _, _, _, hver, _, hn⟩ := shown_item hv
      rw [hshown.1, hshown.2.1] at hn
      exact ⟨List.ne_nil_of_mem hn, x, hx, hshown, hver.symm⟩
    · rintro ⟨hn, x, hx, hshown, rfl⟩
      obtain ⟨n, hn⟩ := List.exists_mem_of_ne_nil _ hn
      rw [← hshown.1, ← hshown.2.1] at hn
      obtain ⟨v, hv⟩ : ∃ v, v ∈ x.1.shown cat session x.2 := ⟨_, List.mem_map.2 ⟨n, hn, rfl⟩⟩
      exact ⟨v, ⟨⟨x, hx, hv⟩, (shown_key_iff hv).2 hshown⟩, (shown_item hv).2.2.2.2.2.1⟩
  unfold selectMax
  cases hmax : (((floatvalueV cat session db).filter fun v => v.toKey = k).map (·.dataversion)).max? with
  | none =>
    refine Or.inl ⟨?_, rfl⟩
    rw [List.max?_eq_none_iff] at hmax
    by_contra h
    push Not at h
    obtain ⟨hn, n, hshown⟩ := h
    have := (hmem n).2 ⟨hn, hshown⟩
    rw [hmax] at this
    cases this
  | some n =>
    obtain ⟨hn, hle⟩ := List.max?_eq_some_iff.1 hmax
    refine Or.inr ⟨((hmem n).1 hn).1, n, rfl, ((hmem n).1 hn).2, fun m hm => ?_⟩
    exact hle m ((hmem m).2 ⟨((hmem n).1 hn).1, hm⟩)

/-- Groups stay canonical when an item is stored. -/
theorem canonical_stored {db₂ : Db} {dataversion : ℤ} {i : FloatValueItem} {g : FloatValueGroup}
    (hs : Stored db db₂ k dataversion i g) (hc : Canonical db) : Canonical db₂ := by
  intro h hh
  have hnew : g.validtimefrom = justifyHours g.validtimefrom.span ∧
      g.validtimeto = justifyHours g.validtimeto.span := by
    rcases hs.group with hg | rfl
    · exact hc g hg
    · unfold newGroup
      rw [span_timestampMi, span_timestampMi]
      exact ⟨rfl, rfl⟩
  rcases hs.groups h hh with hh | rfl
  · exact hc h hh
  · exact hnew

/-- The versions shown for the key after an item was stored. -/
theorem shownVersions_append {db₂ : Db} {dataversion : ℤ} {i : FloatValueItem} {g : FloatValueGroup}
    (hs : Stored db db₂ k dataversion i g) : db₂.shownVersions session k =
      {m | ShownAs session k (i, g) ∧ m = dataversion} ∪ db.shownVersions session k := by
  ext m
  simp only [Db.shownVersions, hs.floats, List.mem_append, List.mem_singleton, Set.mem_union,
    Set.mem_ofPred_eq]
  constructor
  · rintro ⟨x, hx | rfl, hshown, rfl⟩
    · exact Or.inr ⟨x, hx, hshown, rfl⟩
    · exact Or.inl ⟨hshown, hs.version⟩
  · rintro (⟨hshown, rfl⟩ | ⟨x, hx, hshown, rfl⟩)
    · exact ⟨(i, g), Or.inr rfl, hshown, hs.version⟩
    · exact ⟨x, Or.inl hx, hshown, rfl⟩

/-- With canonical intervals the item is shown when the session rebuilds the instants of the key. -/
theorem shownVersions_stored {db₂ : Db} {dataversion : ℤ} {i : FloatValueItem} {g : FloatValueGroup}
    (hs : Stored db db₂ k dataversion i g) (hr : i.referencetime = k.referencetime)
    (hc : Canonical db) : db₂.shownVersions session k =
      {m | Faithful session k ∧ m = dataversion} ∪ db.shownVersions session k := by
  have hmem : (i, g) ∈ db₂.floats := by rw [hs.floats]; simp
  have hnew : ShownAs session k (i, g) ↔ Faithful session k :=
    shownAs_iff_faithful (canonical_stored hs hc) (mem_floats.1 hmem).2.1
      (floatKey_eq_key.2 ⟨hs.ofKey, hr⟩)
  rw [shownVersions_append hs, hnew]

theorem shownVersions_empty_iff {db₂ : Db} {dataversion : ℤ} {i : FloatValueItem} {g : FloatValueGroup}
    (hs : Stored db db₂ k dataversion i g) (hr : i.referencetime = k.referencetime)
    (hc : Canonical db) : db₂.shownVersions session k = ∅ ↔
      ¬ Faithful session k ∧ db.shownVersions session k = ∅ := by
  rw [shownVersions_stored hs hr hc, Set.union_empty_iff]
  refine and_congr_left fun _ => ?_
  rw [Set.eq_empty_iff_forall_notMem]
  exact ⟨fun hf hk => hf _ ⟨hk, rfl⟩, fun hk n hn => hk hn.1⟩

end View

section Steps
variable (cat : Catalog) {db db₂ : Db} {k : Key} {dataversion : ℤ} {i : FloatValueItem}
  {g : FloatValueGroup}

/-- After an item was stored and the maximum of its key was set, the maxima are right exactly when that
    maximum is the greatest version of the key. -/
theorem floatMax_set_iff (hs : Stored db db₂ k dataversion i g)
    (hr : i.referencetime = k.referencetime) (h : db.FloatMax) (m : ℤ) :
    (setFloatMax db₂ k m).FloatMax ↔ IsGreatest (insert dataversion (db.keyVersions k)) m := by
  have hkey : floatKey (i, g) = k := floatKey_eq_key.2 ⟨hs.ofKey, hr⟩
  unfold Db.FloatMax
  rw [setFloatMax_floats, hs.floats, List.map_append, List.map_singleton, if_pos hkey,
    maxCorrect_write (k := k) (m := m) (b := withMax m (i, g)) ?_ ?_ ?_ hkey rfl h]
  · rw [show (withMax m (i, g)).2.dataversion = dataversion from hs.version]
    constructor
    · rintro ⟨hatt, hle, hall⟩
      refine ⟨hatt.imp Eq.symm id, ?_⟩
      rintro n (rfl | ⟨x, hx, hxk, rfl⟩)
      · exact hle
      · exact hall x hx hxk
    · rintro ⟨hatt, hle⟩
      exact ⟨hatt.imp Eq.symm id, hle (Or.inl rfl), fun x hx hxk => hle (Or.inr ⟨x, hx, hxk, rfl⟩)⟩
  all_goals
    intro x
    split <;> rfl

/-- After an item was stored with its own version as maximum, the maxima are right exactly when it is
    the only one of its key: another one keeps its own maximum, which is its version or a higher
    one. -/
theorem floatMax_stored_iff (hs : Stored db db₂ k dataversion i g)
    (hr : i.referencetime = k.referencetime) (hm : i.maxdataversion = dataversion)
    (hnew : dataversion ∉ db.keyVersions k) (h : db.FloatMax) :
    db₂.FloatMax ↔ db.keyVersions k = ∅ := by
  have hkey : floatKey (i, g) = k := floatKey_eq_key.2 ⟨hs.ofKey, hr⟩
  have hbm : (i, g).1.maxdataversion = dataversion := hm
  have hbv : (i, g).2.dataversion = dataversion := hs.version
  unfold Db.FloatMax
  rw [hs.floats]
  constructor
  · intro hmax
    have hb : (i, g) ∈ db.floats ++ [(i, g)] := by simp
    refine Set.eq_empty_iff_forall_notMem.2 fun n hn => hnew ?_
    obtain ⟨x, hx, hxk, rfl⟩ := hn
    -- the old item and the new one would have one maximum, which is an old version
    have heq := max_eq hmax hb (List.mem_append_left _ hx) (hxk.trans hkey.symm)
    obtain ⟨y, hy, hyx, hym⟩ := (h x hx).1
    exact ⟨y, hy, hyx.trans hxk, hym.trans (heq.trans hbm)⟩
  · intro hnone
    have hno : ∀ x ∈ db.floats, floatKey x ≠ k := fun x hx hxk =>
      Set.eq_empty_iff_forall_notMem.1 hnone _ ⟨x, hx, hxk, rfl⟩
    have hmap : (db.floats.map fun x => if floatKey x = k then withMax dataversion x else x) =
        db.floats := by
      rw [List.map_congr_left fun x hx => if_neg (hno x hx), List.map_id']
    rw [← hmap, maxCorrect_write (k := k) (m := dataversion) ?_ ?_ ?_ hkey hbm h]
    · exact ⟨Or.inl hbv, le_of_eq hbv, fun x hx hxk => absurd hxk (hno x hx)⟩
    all_goals
      intro x
      split <;> rfl

/-- Once its item is stored, a write keeps the maxima right exactly when the third or fourth part of
    the condition holds. -/
theorem recomputeMax_iff (session : Session) (hs : Stored db db₂ k dataversion i g)
    (hr : i.referencetime = k.referencetime) (hm : i.maxdataversion = dataversion)
    (hnew : dataversion ∉ db.keyVersions k) (hc : Canonical db) (h : db.FloatMax) :
    ((recomputeMax cat db₂ session k dataversion).getD (drawGroupId db)).FloatMax ↔
      (dataversion ≤ 0 ∧ db.keyVersions k = ∅) ∨
      (0 < dataversion ∧ (cat.names session k.toSeries k.referencetime = [] ∨
        (¬ Faithful session k ∧ db.shownVersions session k = ∅) ∨
        ∃ n, IsGreatest (insert dataversion (db.keyVersions k)) n ∧
          IsGreatest ({m | Faithful session k ∧ m = dataversion} ∪ db.shownVersions session k) n)) := by
  rw [recomputeMax_stored cat session hs hr, ← shownVersions_stored hs hr hc]
  by_cases hpos : dataversion > 0
  · rw [if_pos hpos, or_iff_right fun h => absurd hpos (not_lt.2 h.1), and_iff_right hpos]
    rw [← shownVersions_empty_iff hs hr hc]
    rcases selectMax_cases cat session db₂ k with ⟨hnone, hsel⟩ | ⟨hn, n, hsel, hgr⟩
    · rw [hsel]
      exact iff_of_true h (hnone.imp_right Or.inl)
    · rw [hsel, Option.map_some, Option.getD_some, floatMax_set_iff hs hr h]
      constructor
      · exact fun hk => Or.inr (Or.inr ⟨n, hk, hgr⟩)
      · rintro (hk | hk | ⟨m, hk, hm⟩)
        · exact absurd hk hn
        · rw [hk] at hgr
          exact absurd hgr.1 (Set.notMem_empty n)
        · rwa [hgr.unique hm]
  · rw [if_neg hpos, Option.getD_some, or_iff_left fun h => hpos h.1,
      and_iff_right (not_lt.1 hpos)]
    exact floatMax_stored_iff hs hr hm hnew h

/-- Intervals stay canonical in every write. -/
theorem canonical_step (call : FloatCall) (hc : Canonical db) : Canonical (floatStep cat db call) := by
  obtain ⟨session, k, dataversion, confidencecode, value, now⟩ := call
  rw [floatStep]
  rcases writeFloat_cases cat db session k dataversion confidencecode value now with
    ⟨_, hnone⟩ | ⟨_, db₂, i, g, hs, hr, _, _, _, hwrite⟩
  · rw [hnone]
    exact hc
  · rw [hwrite, recomputeMax_stored cat session hs hr]
    have hc₂ := canonical_stored hs hc
    split
    · cases selectMax cat db₂ session k with
      | none => exact hc
      | some m => exact hc₂
    · exact hc₂

/-- A write keeps the maxima right exactly when it is safe. -/
theorem floatStep_iff (call : FloatCall) (hc : Canonical db) (h : db.FloatMax) :
    (floatStep cat db call).FloatMax ↔ FloatSafe cat db call := by
  obtain ⟨session, k, dataversion, confidencecode, value, now⟩ := call
  rw [floatStep, FloatSafe]
  rcases writeFloat_cases cat db session k dataversion confidencecode value now with
    ⟨href, hnone⟩ | ⟨hok, db₂, i, g, hs, hr, hm, _, _, hwrite⟩
  · rw [hnone]
    exact iff_of_true h (Or.inl href)
  · rw [hwrite, or_iff_right hok]
    refine recomputeMax_iff cat session hs hr hm ?_ hc h
    rintro ⟨x, hx, hxk, hxv⟩
    exact hok (Or.inr (Or.inr (Or.inr ⟨x, hx, hxk, hxv⟩)))

/-- With right maxima, version -1 means the newest wherever it can be counted. -/
theorem readsNewestFloats_iff (h : db.FloatMax) :
    ReadsNewestFloats cat db ↔ db.FloatReadable cat := by
  have hread : ∀ session, (readFloatTable cat session db { dataVersion := .value [-1] } =
      some ((db.floats.filter fun x =>
        Newest floatKey (·.2.dataversion) db.floats x).flatMap fun x => x.1.shown cat session x.2) ↔
      ∀ x ∈ db.floats, ∀ v ∈ x.1.shown cat session x.2, Readable v.maxdataversion) := by
    intro session
    unfold readFloatTable
    rw [floatvalueV_eq]
    refine buildQuery_newest fun x hx v hv => ?_
    obtain ⟨_, _, _, _, _, hver, hmax, _⟩ := shown_item hv
    rw [hver, hmax, decide_eq_decide, newest_iff h hx]
  rw [ReadsNewestFloats, forall_congr' hread, Db.FloatReadable]
  simp only [← forall_shown_item (P := Readable)]
  exact ⟨fun hall x hx session => hall session x hx, fun hall session x hx => hall x hx session⟩

/-- After an item was stored, and after the maximum of its key was set, the maxima are countable exactly when
    the new one is. -/
theorem floatReadable_stored_iff (hs : Stored db db₂ k dataversion i g)
    (hr : i.referencetime = k.referencetime) (hm : i.maxdataversion = dataversion)
    (h : db.FloatReadable cat) :
    db₂.FloatReadable cat ↔ cat.Unnamed k.toSeries k.referencetime ∨ Readable dataversion := by
  have hseries : g.toSeries = k.toSeries := hs.ofKey.1
  have hnew : (cat.Unnamed g.toSeries i.referencetime ∨ Readable i.maxdataversion) ↔
      cat.Unnamed k.toSeries k.referencetime ∨ Readable dataversion := by rw [hseries, hr, hm]
  rw [Db.FloatReadable, hs.floats, ← hnew]
  constructor
  · intro hall
    exact hall (i, g) (by simp)
  · intro hi x hx
    rcases List.mem_append.1 hx with hx | hx
    · exact h x hx
    · obtain rfl := List.mem_singleton.1 hx
      exact hi

theorem floatReadable_set_iff (hs : Stored db db₂ k dataversion i g)
    (hr : i.referencetime = k.referencetime) (h : db.FloatReadable cat) (m : ℤ) :
    (setFloatMax db₂ k m).FloatReadable cat ↔
      cat.Unnamed k.toSeries k.referencetime ∨ Readable m := by
  have hkey : floatKey (i, g) = k := floatKey_eq_key.2 ⟨hs.ofKey, hr⟩
  rw [Db.FloatReadable, setFloatMax_floats, hs.floats, List.forall_mem_map]
  constructor
  · intro hall
    have hi := hall (i, g) (by simp)
    rw [if_pos hkey] at hi
    rwa [← show g.toSeries = k.toSeries from hs.ofKey.1, ← hr]
  · intro hm x hx
    split
    · next hxk =>
      rw [← hxk] at hm
      exact hm
    · next hxk =>
      rcases List.mem_append.1 hx with hx | hx
      · exact h x hx
      · rw [List.mem_singleton.1 hx] at hxk
        exact absurd hkey hxk

/-- The greatest version of a key is countable when the one written is: an older one was. -/
theorem readable_greatest (h : db.FloatMax) (hread : db.FloatReadable cat) (hpos : 0 < dataversion)
    {n : ℤ} (hn : IsGreatest (insert dataversion (db.keyVersions k)) n) :
    (cat.Unnamed k.toSeries k.referencetime ∨ Readable n) ↔
      cat.Unnamed k.toSeries k.referencetime ∨ Readable dataversion := by
  have hle : dataversion ≤ n := hn.2 (Or.inl rfl)
  rcases hn.1 with rfl | ⟨x, hx, rfl, hxn⟩
  · rfl
  · have hnewest : Newest floatKey (·.2.dataversion) db.floats x := by
      intro y hy hyx
      have hyn : y.2.dataversion ≤ n := hn.2 (Or.inr ⟨y, hy, hyx, rfl⟩)
      exact hyn.trans_eq hxn.symm
    have hmax : n = x.1.maxdataversion := hxn.symm.trans ((newest_iff h hx).1 hnewest)
    have hold := hread x hx
    rw [← hmax] at hold
    refine iff_of_true hold (hold.imp_right fun hr => ?_)
    unfold Readable at hr ⊢
    omega

/-- A safe write keeps the maxima countable exactly when it fails or its version is countable. -/
theorem floatReadable_step (call : FloatCall) (hc : Canonical db) (h : db.FloatMax)
    (hread : db.FloatReadable cat) (hmax : (floatStep cat db call).FloatMax) :
    (floatStep cat db call).FloatReadable cat ↔ FloatReadable cat db call := by
  obtain ⟨session, k, dataversion, confidencecode, value, now⟩ := call
  rw [floatStep] at hmax ⊢
  rw [FloatReadable, FloatFails]
  rcases writeFloat_cases cat db session k dataversion confidencecode value now with
    ⟨href, hnone⟩ | ⟨hok, db₂, i, g, hs, hr, hm, _, _, hwrite⟩
  · rw [hnone]
    exact iff_of_true hread (Or.inl (Or.inl href))
  · rw [hwrite, recomputeMax_stored cat session hs hr] at hmax ⊢
    simp only [or_iff_right hok, ← shownVersions_empty_iff hs hr hc]
    by_cases hpos : dataversion > 0
    · rw [if_pos hpos] at hmax ⊢
      rw [and_iff_right hpos]
      rcases selectMax_cases cat session db₂ k with ⟨hnone, hsel⟩ | ⟨hn, n, hsel, hgr⟩
      · rw [hsel]
        exact iff_of_true hread (Or.inl hnone)
      · rw [hsel, Option.map_some, Option.getD_some] at hmax ⊢
        have hshown : db₂.shownVersions session k ≠ ∅ := (Set.nonempty_of_mem hgr.1).ne_empty
        rw [or_iff_right (not_or.2 ⟨hn, hshown⟩), floatReadable_set_iff cat hs hr hread]
        exact readable_greatest cat h hread hpos ((floatMax_set_iff hs hr h n).1 hmax)
    · rw [if_neg hpos, Option.getD_some, or_iff_right fun h => hpos h.1]
      exact floatReadable_stored_iff cat hs hr hm hread

/-- A write keeps the reads right, with the maxima, exactly when it is safe and what it stores can be read. -/
theorem floatStep_reads_iff (call : FloatCall) (hc : Canonical db)
    (h : db.FloatMax ∧ ReadsNewestFloats cat db) :
    ((floatStep cat db call).FloatMax ∧ ReadsNewestFloats cat (floatStep cat db call)) ↔
      FloatSafe cat db call ∧ FloatReadable cat db call := by
  have hread := (readsNewestFloats_iff cat h.1).1 h.2
  rw [← floatStep_iff cat call hc h.1]
  refine and_congr_right fun hmax => ?_
  rw [readsNewestFloats_iff cat hmax, floatReadable_step cat call hc h.1 hread hmax]

end Steps

/-- In a run of writes from empty tables, the maxima are right and version -1 reads the newest values
    after every write, exactly when every write is safe and what it stores can be read. -/
theorem floatMax_always_iff (cat : Catalog) (calls : List FloatCall) :
    (∀ p, p <+: calls → (run (floatStep cat) Db.empty p).FloatMax ∧
      ReadsNewestFloats cat (run (floatStep cat) Db.empty p)) ↔
      Each (floatStep cat) (fun db call => FloatSafe cat db call ∧ FloatReadable cat db call) Db.empty
        calls := by
  have hmax : Db.empty.FloatMax := fun _ h => nomatch h
  have hread : Db.empty.FloatReadable cat := fun _ h => nomatch h
  exact always_iff_each (floatStep cat) Canonical (fun db => db.FloatMax ∧ ReadsNewestFloats cat db)
    (fun _ call hc => canonical_step cat call hc)
    (fun _ call hc h _ => floatStep_reads_iff cat call hc h) calls Db.empty (fun _ h => nomatch h)
    ⟨hmax, (readsNewestFloats_iff cat hmax).2 hread⟩
    (each_of_forall (floatStep cat) (fun _ _ => trivial) calls Db.empty)

/-- Version 0 of a float value written after version 1. -/
def lateFloats : List FloatCall :=
  let k : Key := ⟨⟨1, 1, 0, 1, 1, 0, 0, 0⟩, 0, 0, 0⟩
  [⟨oneSession, k, 1, 0, 0, 0⟩, ⟨oneSession, k, 0, 0, 0, 0⟩]

/-- The late write leaves 0 as its own maximum, and version -1 reads two values of one key. -/
theorem floatMax_lost : ¬ (run (floatStep oneName) Db.empty lateFloats).FloatMax ∧
    ¬ ReadsNewestFloats oneName (run (floatStep oneName) Db.empty lateFloats) :=
  ⟨by decide, fun h => absurd (h oneSession) (by decide)⟩

end Wdb.Store
