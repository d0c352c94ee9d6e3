import Wdb.Store.FloatMax

/-! The float store against a flat map.

    The purpose of the float tables is to be a map from keys with versions to values and confidences. A
    write adds its entry, and fails when its key is there. The tables do the same as long as a write is
    accepted; what the view shows of an item is its entry when the reading session rebuilds the instants
    of the key and the value is a `real`. -/

namespace Wdb.Store
open Relational SqlTime SqlTypes Versioned Runs

/-- A key of the flat map. -/
structure FlatKey extends Key where
  dataversion : ℤ
  deriving DecidableEq

/-- An entry of the flat map. -/
structure FlatEntry extends FlatKey where
  value : ℚ
  confidencecode : ℤ
  deriving DecidableEq

/-- The flat map: no two entries have one key. -/
abbrev FlatMap := Table FlatEntry fun a b => a.toFlatKey = b.toFlatKey

/-- The entry that a write is meant to make. -/
def FloatCall.entry (c : FloatCall) : FlatEntry := ⟨⟨c.k, c.dataversion⟩, c.value, c.confidencecode⟩

/-- The flat map after a write. One whose key is there fails and changes nothing. -/
def flatStep (m : FlatMap) (c : FloatCall) : FlatMap := (m.insert c.entry).getD m

/-- A write made to the tables and to the flat map. -/
def bothStep (cat : Catalog) (s : Db × FlatMap) (c : FloatCall) : Db × FlatMap :=
  (floatStep cat s.1 c, flatStep s.2 c)

/-- What the flat map shows a session: every entry, once for each of its names. -/
def flatShown (cat : Catalog) (read : Session) (m : FlatMap) : List (FlatEntry × Names) :=
  m.rows.flatMap fun e => (cat.names read e.toSeries e.referencetime).map fun n => (e, n)

/-- The entry and the names in a row of `floatvalue_v`. -/
def ValueV.entry (v : ValueV ℚ) : FlatEntry × Names :=
  (⟨⟨v.toKey, v.dataversion⟩, v.value, v.confidencecode⟩, v.names)

/-- The entries that `floatvalue_v` shows a session. -/
def tablesShown (cat : Catalog) (read : Session) (db : Db) : List (FlatEntry × Names) :=
  (floatvalueV cat read db).map ValueV.entry

/-- A write does to the tables what it does to the flat map: it fails in both or in none, and the view
    then shows the session `read` the entries of the map. -/
structure Refines (cat : Catalog) (read : Session) (s : Db × FlatMap) (c : FloatCall) : Prop where
  fails : writeFloat cat s.1 c.session c.k c.dataversion c.confidencecode c.value c.now = none ↔
    s.2.insert c.entry = none
  shows : (tablesShown cat read (bothStep cat s c).1).Perm (flatShown cat read (bothStep cat s c).2)

/-- The key and version are stored. -/
def Present (db : Db) (c : FloatCall) : Prop :=
  ∃ x ∈ db.floats, floatKey x = c.k ∧ x.2.dataversion = c.dataversion

/-- The condition on a write whose key is new: the constraints accept it, the writing session sees a
    value at the instants of the key when the version is positive, and the session that reads sees
    nothing of the series or rebuilds the instants and gets the value itself as `real`. -/
def FlatSafe (cat : Catalog) (read : Session) (db : Db) (c : FloatCall) : Prop :=
  Present db c ∨
  (¬ FloatRefused cat db c.k c.dataversion c.confidencecode c.value ∧
    (0 < c.dataversion → cat.names c.session c.k.toSeries c.k.referencetime ≠ [] ∧
      (Faithful c.session c.k ∨ (db.shownVersions c.session c.k).Nonempty)) ∧
    (cat.names read c.k.toSeries c.k.referencetime = [] ∨
      (Faithful read c.k ∧ toReal c.value = some c.value)))

/-- The tables and the flat map have the same keys, and show the same. -/
structure Coupled (cat : Catalog) (read : Session) (s : Db × FlatMap) : Prop where
  canonical : Canonical s.1
  keys : (s.1.floats.map fun x => FlatKey.mk (floatKey x) x.2.dataversion) =
    s.2.rows.map (·.toFlatKey)
  shows : (tablesShown cat read s.1).Perm (flatShown cat read s.2)

section Steps
variable {cat : Catalog} {read : Session} {db db₂ : Db} {m : FlatMap} {c : FloatCall}
  {k : Key} {dataversion : ℤ} {i : FloatValueItem} {g : FloatValueGroup}

/-- The keys of the flat map are those that are stored. -/
theorem Coupled.present_iff (h : Coupled cat read (db, m)) :
    Present db c ↔ ∃ e ∈ m.rows, e.toFlatKey = c.entry.toFlatKey := by
  have hmem := congrArg (fun l => c.entry.toFlatKey ∈ l) h.keys
  simp only [List.mem_map, eq_iff_iff] at hmem
  rw [← hmem]
  unfold Present FloatCall.entry
  simp only [FlatKey.mk.injEq]

/-- Storing an item adds what the view shows of it. -/
theorem tablesShown_stored (hs : Stored db db₂ k dataversion i g) :
    tablesShown cat read db₂ =
      tablesShown cat read db ++ (i.shown cat read g).map ValueV.entry := by
  unfold tablesShown
  rw [floatvalueV_eq, floatvalueV_eq, hs.floats, List.flatMap_append, List.flatMap_singleton,
    List.map_append]

/-- Setting maxima changes no entry. -/
theorem tablesShown_setFloatMax (n : ℤ) :
    tablesShown cat read (setFloatMax db k n) = tablesShown cat read db := by
  unfold tablesShown
  rw [floatvalueV_eq, floatvalueV_eq, setFloatMax_floats, List.flatMap_map, List.map_flatMap,
    List.map_flatMap]
  refine List.flatMap_congr fun x _ => ?_
  unfold FloatValueItem.shown
  rw [List.map_map, List.map_map]
  split <;> rfl

/-- Two entries with the same names show the same when they are equal or have no names. -/
theorem pair_perm_iff {e e' : FlatEntry} {l : List Names} :
    (l.map fun n => (e', n)).Perm (l.map fun n => (e, n)) ↔ l = [] ∨ e' = e := by
  constructor
  · intro h
    cases l with
    | nil => exact Or.inl rfl
    | cons n l =>
      have hmem := h.subset (List.mem_cons_self ..)
      obtain ⟨_, _, heq⟩ := List.mem_map.1 hmem
      exact Or.inr (Prod.mk.inj heq).1.symm
  · rintro (rfl | rfl) <;> exact List.Perm.refl _

/-- What the view shows of an item is the entry, exactly when the session sees nothing of the series, or
    rebuilds the instants of the key and the value is the entry's. -/
theorem entry_shown_iff (hk : floatKey (i, g) = c.k) (hv : g.dataversion = c.dataversion)
    (hconf : i.confidencecode = c.confidencecode)
    (hshown : ShownAs read c.k (i, g) ↔ Faithful read c.k) :
    ((i.shown cat read g).map ValueV.entry).Perm
        ((cat.names read c.k.toSeries c.k.referencetime).map fun n => (c.entry, n)) ↔
      cat.names read c.k.toSeries c.k.referencetime = [] ∨
        (Faithful read c.k ∧ i.value = c.value) := by
  obtain ⟨hofKey, hr⟩ := floatKey_eq_key.1 hk
  have hseries : g.toSeries = c.k.toSeries := hofKey.1
  have hentry : (⟨⟨⟨g.toSeries, i.referencetime,
      timestamptzPlInterval read.timezone i.referencetime g.validtimefrom,
      timestamptzPlInterval read.timezone i.referencetime g.validtimeto⟩, g.dataversion⟩,
      i.value, i.confidencecode⟩ : FlatEntry) = c.entry ↔ Faithful read c.k ∧ i.value = c.value := by
    rw [← hshown]
    unfold FloatCall.entry ShownAs
    obtain ⟨ks, kr, kf, kt⟩ := c.k
    simp only [FlatEntry.mk.injEq, FlatKey.mk.injEq, Key.mk.injEq, hv, hconf, and_true]
  unfold FloatValueItem.shown
  rw [List.map_map, hseries, hr, ← hentry, ← pair_perm_iff, hseries, hr]
  rfl

/-- After its item is stored, a write fails when its version is positive and its session sees no value
    at the instants of the key. -/
theorem recomputeMax_none_iff (cat : Catalog) (hs : Stored db db₂ c.k c.dataversion i g)
    (hr : i.referencetime = c.k.referencetime) (hc : Canonical db) :
    recomputeMax cat db₂ c.session c.k c.dataversion = none ↔
      ¬ (0 < c.dataversion → cat.names c.session c.k.toSeries c.k.referencetime ≠ [] ∧
        (Faithful c.session c.k ∨ (db.shownVersions c.session c.k).Nonempty)) := by
  have hsees : (Faithful c.session c.k ∨ (db.shownVersions c.session c.k).Nonempty) ↔
      db₂.shownVersions c.session c.k ≠ ∅ := by
    rw [shownVersions_stored hs hr hc, ← Set.nonempty_iff_ne_empty, Set.union_nonempty]
    exact or_congr_left ⟨fun hf => ⟨_, hf, rfl⟩, fun ⟨_, hf, _⟩ => hf⟩
  rw [recomputeMax_stored cat c.session hs hr, hsees]
  by_cases hpos : c.dataversion > 0
  · rw [if_pos hpos, Option.map_eq_none_iff]
    rcases selectMax_cases cat c.session db₂ c.k with ⟨hnone, hsel⟩ | ⟨hn, n, hsel, hgr⟩
    · exact iff_of_true hsel fun h => hnone.elim (h hpos).1 (h hpos).2
    · rw [hsel]
      refine iff_of_false (by simp) fun h => h fun _ => ⟨hn, fun hempty => ?_⟩
      rw [hempty] at hgr
      exact Set.notMem_empty n hgr.1
  · rw [if_neg hpos]
    exact iff_of_false (by simp) fun h => h fun h' => absurd h' hpos

/-- A write that succeeds after its item was stored changes maxima only. -/
theorem recomputeMax_some {db' : Db} (read : Session) (hs : Stored db db₂ c.k c.dataversion i g)
    (hr : i.referencetime = c.k.referencetime)
    (h : recomputeMax cat db₂ c.session c.k c.dataversion = some db') :
    tablesShown cat read db' = tablesShown cat read db₂ ∧
      (db'.floats.map fun x => FlatKey.mk (floatKey x) x.2.dataversion) =
        db₂.floats.map fun x => FlatKey.mk (floatKey x) x.2.dataversion := by
  rw [recomputeMax_stored cat c.session hs hr] at h
  split at h
  · obtain ⟨n, _, rfl⟩ := Option.map_eq_some_iff.1 h
    refine ⟨tablesShown_setFloatMax n, ?_⟩
    rw [setFloatMax_floats, List.map_map]
    refine List.map_congr_left fun x _ => ?_
    simp only [Function.comp_apply]
    split <;> rfl
  · cases h
    exact ⟨rfl, rfl⟩

/-- A write of a key that is there fails in both. -/
theorem refines_present (h : Coupled cat read (db, m)) (hp : Present db c) :
    Refines cat read (db, m) c ∧ Coupled cat read (bothStep cat (db, m) c) := by
  have hflat : m.insert c.entry = none := by
    obtain ⟨e, he, hek⟩ := h.present_iff.1 hp
    exact Table.insert_of_clash he hek
  have hfail : writeFloat cat db c.session c.k c.dataversion c.confidencecode c.value c.now = none := by
    rcases writeFloat_cases cat db c.session c.k c.dataversion c.confidencecode c.value c.now with
      ⟨_, hnone⟩ | ⟨hok, _⟩
    · exact hnone
    · exact absurd (Or.inr (Or.inr (Or.inr hp))) hok
  have hboth : bothStep cat (db, m) c = (drawGroupId db, m) := by
    unfold bothStep floatStep flatStep
    rw [hfail, hflat]
    rfl
  rw [hboth]
  refine ⟨⟨iff_of_true hfail hflat, ?_⟩, ⟨h.canonical, h.keys, h.shows⟩⟩
  rw [hboth]
  exact h.shows

/-- A write that stores an item of a new key refines the flat map when the entry is shown as it is. -/
theorem refines_stored {db' : Db} {m' : FlatMap} (h : Coupled cat read (db, m))
    (hs : Stored db db₂ c.k c.dataversion i g) (hr : i.referencetime = c.k.referencetime)
    (hconf : i.confidencecode = c.confidencecode) (hval : toReal c.value = some i.value)
    (hwrite : writeFloat cat db c.session c.k c.dataversion c.confidencecode c.value c.now = some db')
    (hrec : recomputeMax cat db₂ c.session c.k c.dataversion = some db')
    (hflat : m.insert c.entry = some m') (hrows : m'.rows = m.rows ++ [c.entry]) :
    (Refines cat read (db, m) c ↔ cat.names read c.k.toSeries c.k.referencetime = [] ∨
      (Faithful read c.k ∧ toReal c.value = some c.value)) ∧
    (Refines cat read (db, m) c → Coupled cat read (bothStep cat (db, m) c)) := by
  obtain ⟨hshown, hkeys⟩ := recomputeMax_some read hs hr hrec
  have hboth : bothStep cat (db, m) c = (db', m') := by
    unfold bothStep floatStep flatStep
    rw [hwrite, hflat]
    rfl
  have hkey : floatKey (i, g) = c.k := floatKey_eq_key.2 ⟨hs.ofKey, hr⟩
  have hcanonical : Canonical db₂ := canonical_stored hs h.canonical
  have hmem : (i, g) ∈ db₂.floats := by rw [hs.floats]; simp
  have hflatShown : flatShown cat read m' = flatShown cat read m ++
      (cat.names read c.k.toSeries c.k.referencetime).map fun n => (c.entry, n) := by
    unfold flatShown
    rw [hrows, List.flatMap_append, List.flatMap_singleton]
    rfl
  -- both show something in addition to what they showed, and that was the same
  have hshows : (tablesShown cat read db').Perm (flatShown cat read m') ↔
      cat.names read c.k.toSeries c.k.referencetime = [] ∨
        (Faithful read c.k ∧ toReal c.value = some c.value) := by
    rw [hshown, tablesShown_stored hs, hflatShown, hval, Option.some_inj,
      ← entry_shown_iff hkey hs.version hconf
        (shownAs_iff_faithful hcanonical (mem_floats.1 hmem).2.1 hkey)]
    rw [(h.shows.append_right _).congr_left]
    exact List.perm_append_left_iff _
  refine ⟨⟨fun hrefines => ?_, fun hsafe => ⟨?_, ?_⟩⟩,
    fun hrefines => ⟨canonical_step cat c h.canonical, ?_, hrefines.shows⟩⟩
  · have := hrefines.shows
    rw [hboth] at this
    exact hshows.1 this
  · rw [hwrite, hflat]
    exact iff_of_false (by simp) (by simp)
  · rw [hboth]
    exact hshows.2 hsafe
  · rw [hboth]
    change (db'.floats.map fun x => FlatKey.mk (floatKey x) x.2.dataversion) = _
    rw [hkeys, hs.floats, List.map_append, hrows, List.map_append, h.keys, List.map_singleton,
      List.map_singleton, hkey, hs.version]
    rfl

/-- A write refines the flat map exactly when it is safe, and then keeps the two coupled. -/
theorem refines_iff (h : Coupled cat read (db, m)) :
    (Refines cat read (db, m) c ↔ FlatSafe cat read db c) ∧
      (Refines cat read (db, m) c → Coupled cat read (bothStep cat (db, m) c)) := by
  by_cases hp : Present db c
  · obtain ⟨hrefines, hcoupled⟩ := refines_present h hp
    exact ⟨iff_of_true hrefines (Or.inl hp), fun _ => hcoupled⟩
  obtain ⟨m', hflat, hrows⟩ := Table.insert_of_noClash (t := m) (a := c.entry) fun e he hek =>
    hp (h.present_iff.2 ⟨e, he, hek⟩)
  have hfails : writeFloat cat db c.session c.k c.dataversion c.confidencecode c.value c.now = none →
      ¬ Refines cat read (db, m) c := fun hnone hrefines => by
    have := hrefines.fails.1 hnone
    rw [hflat] at this
    cases this
  unfold FlatSafe
  rw [or_iff_right hp]
  rcases writeFloat_cases cat db c.session c.k c.dataversion c.confidencecode c.value c.now with
    ⟨href, hnone⟩ | ⟨hok, db₂, i, g, hs, hr, _, hconf, hval, hwrite⟩
  · exact ⟨iff_of_false (hfails hnone) fun hsafe => hsafe.1 href,
      fun hrefines => absurd hrefines (hfails hnone)⟩
  rw [and_iff_right hok]
  have hnone := recomputeMax_none_iff cat hs hr h.canonical
  cases hrec : recomputeMax cat db₂ c.session c.k c.dataversion with
  | none =>
    have hfail := hfails (hwrite.trans hrec)
    exact ⟨iff_of_false hfail fun hsafe => hnone.1 hrec hsafe.1,
      fun hrefines => absurd hrefines hfail⟩
  | some db' =>
    rw [and_iff_right (not_not.1 (mt hnone.2 (by rw [hrec]; simp)))]
    exact refines_stored h hs hr hconf hval (hwrite.trans hrec) hrec hflat hrows

end Steps

/-- In a run of writes from empty tables, every write does to the tables what it does to the flat map, as
    a session sees it, exactly when every write is safe. -/
theorem flatMap_refined_iff (cat : Catalog) (read : Session) (calls : List FloatCall) :
    Each (bothStep cat) (Refines cat read) (Db.empty, Table.empty) calls ↔
      Each (bothStep cat) (fun s c => FlatSafe cat read s.1 c) (Db.empty, Table.empty) calls := by
  refine each_iff_each (bothStep cat) (Coupled cat read) (fun _ _ h => (refines_iff h).1)
    (fun _ _ h => (refines_iff h).2) calls _ ⟨(fun _ h => nomatch h), rfl, ?_⟩
  exact List.Perm.refl _

/-- Central European time in 2012: an hour ahead of UTC, two in summer. -/
def summerTime : TimeZone :=
  ⟨3600000000, [(1332637200000000, 7200000000), (1351386000000000, 3600000000)]⟩

/-- A value for the day on which summer time begins: valid 24 hours after its reference time. -/
def springWrite : FloatCall :=
  ⟨oneSession, ⟨⟨1, 1, 0, 1, 1, 0, 0, 0⟩, 1332590400000000, 1332676800000000, 1332676800000000⟩,
    0, 0, 0, 0⟩

/-- The session in summer time sees the value an hour early. -/
theorem flatMap_shifted :
    ¬ Each (bothStep oneName) (Refines oneName { oneSession with timezone := summerTime })
      (Db.empty, Table.empty) [springWrite] := by
  rintro ⟨h, _⟩
  exact absurd h.shows (by decide)

end Wdb.Store
