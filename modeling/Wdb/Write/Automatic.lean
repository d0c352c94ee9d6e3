import Wdb.Lib.Numbered
import Wdb.Read.Fetch
import Wdb.Store.GridMax

/-! The data versions that the database chooses itself.

    A call that gives no data version, or a negative one, gets the version after the greatest that its
    session sees of the key, and 0 when it sees none. A session sees either all values of a key or none
    of them, and a version that is stored already is refused; so that sessions of different namespaces
    and places that get new names in between do no harm to the numbers. -/

namespace Wdb.Fetch
open Relational SqlTime SqlTypes Store Blob Place Versioned Write

/-- The data version that a call gives. The forms with limited specification give none. -/
def Call.dataVersion : Call → Option ℤ
  | .gridAll _ _ _ _ _ dataVersion_ _ _ | .gridIdAll _ _ _ _ _ dataVersion_ _ _
  | .gridReturnGid _ _ _ _ _ dataVersion_ _ | .floatAll _ _ _ _ _ dataVersion_ _ _ => dataVersion_
  | _ => none

/-- The call leaves the data version to the database. -/
def Call.Automatic (call : Call) : Prop := ∀ n ∈ call.dataVersion, n < 0

/-- The indeterminate codes are those that a write gives. -/
def Determinate (s : Series) : Prop :=
  s.validtimeindeterminatecode = 0 ∧ s.levelindeterminatecode = 0

section Keys
variable {env : Environment} {a : Arguments} {provider : Option ℤ} {k k' : Key}

theorem determinate_resolve (h : a.resolve env provider = some k) : Determinate k.toSeries := by
  simp only [Arguments.resolve, Arguments.key, Option.bind_eq_bind, Option.bind_eq_some_iff] at h
  obtain ⟨p, rfl, _, _, _, _, _, _, _, _, _, _, _, _, _, _, _, _, _, _, _, _, h⟩ := h
  cases h
  exact ⟨rfl, rfl⟩

/-- The columns that a write compares make up the key. -/
theorem sameColumns_iff (hk : Determinate k.toSeries) (hk' : Determinate k'.toSeries) :
    sameColumns k k' = true ↔ k' = k := by
  obtain ⟨⟨p, pl, vc, vp, lp, lf, lt, lc⟩, r, f, t⟩ := k
  obtain ⟨⟨p', pl', vc', vp', lp', lf', lt', lc'⟩, r', f', t'⟩ := k'
  obtain ⟨rfl, rfl⟩ := hk
  obtain ⟨rfl, rfl⟩ := hk'
  simp only [sameColumns, Bool.and_eq_true, decide_eq_true_eq, Key.mk.injEq, Series.mk.injEq, true_and,
    and_true]
  tauto

/-- The version that an automatic call writes. -/
theorem determineVersion_automatic {call : Call} (h : call.Automatic) {found : Option ℤ} {v : ℤ}
    (hv : determineVersion found call.dataVersion = some v) : v = found.elim 0 (· + 1) := by
  have hnext : determineVersion found call.dataVersion = nextVersion found := by
    unfold determineVersion
    split
    · rfl
    · next n hn => rw [if_pos (h n hn)]
  rw [hnext] at hv
  cases found with
  | none => exact (Option.some_inj.1 hv).symm
  | some m =>
    simp only [nextVersion, integer] at hv
    split at hv
    · exact (Option.some_inj.1 hv).symm
    · cases hv

/-- The greatest of the versions that a view shows of a key, when the view shows of each of some rows
    something, or of none of the key. -/
theorem currentVersion_greatest {α β : Type} {key : α → Key} {version : α → ℤ} {l : List α}
    {shown : α → List (ValueV β)} (hk : Determinate k.toSeries)
    (hkey : ∀ a ∈ l, ∀ v ∈ shown a, v.toKey = key a ∧ v.dataversion = version a)
    (hl : ∀ a ∈ l, Determinate (key a).toSeries)
    (hall : ∀ a ∈ l, ∀ b ∈ l, key a = key b → shown a ≠ [] → shown b ≠ []) (m : ℤ)
    (hm : currentVersion (l.flatMap shown) k = some m) : IsGreatest (versions key version l k) m := by
  obtain ⟨hmem, hle⟩ := List.max?_eq_some_iff.1 hm
  have hshown : ∀ n, n ∈ ((l.flatMap shown).filter fun v => sameColumns k v.toKey).map (·.dataversion) ↔
      ∃ a ∈ l, key a = k ∧ shown a ≠ [] ∧ version a = n := by
    intro n
    simp only [List.mem_map, List.mem_filter, List.mem_flatMap]
    constructor
    · rintro ⟨v, ⟨⟨a, ha, hv⟩, hsame⟩, rfl⟩
      obtain ⟨hvk, hver⟩ := hkey a ha v hv
      rw [hvk, sameColumns_iff hk (hl a ha)] at hsame
      exact ⟨a, ha, hsame, List.ne_nil_of_mem hv, hver.symm⟩
    · rintro ⟨a, ha, hak, hne, rfl⟩
      obtain ⟨v, hv⟩ := List.exists_mem_of_ne_nil _ hne
      obtain ⟨hvk, hver⟩ := hkey a ha v hv
      refine ⟨v, ⟨⟨a, ha, hv⟩, ?_⟩, hver⟩
      rw [hvk, sameColumns_iff hk (hl a ha)]
      exact hak
  obtain ⟨a, ha, hak, hne, rfl⟩ := (hshown m).1 hmem
  refine ⟨⟨a, ha, hak, rfl⟩, ?_⟩
  rintro n ⟨b, hb, hbk, rfl⟩
  exact hle _ ((hshown _).2 ⟨b, hb, hbk, hall a ha b hb (hak.trans hbk.symm) hne, rfl⟩)

end Keys

/-! ### Grids -/

section Grids
variable {server : Server} {w : World} {call : Call}

/-- A grid value was written: the key is resolved in an environment with the catalog, the version is
    determined by what its session sees, and no constraint refuses the row. -/
def WritesGrid (cat : Catalog) (db db' : Db) (dataVersion : Option ℤ) : Prop :=
  ∃ (env : Environment) (a : Arguments), ∃ provider k v c id now, env.cat = cat ∧ a.resolve env provider = some k ∧
    determineVersion (currentVersion (gridvalueV cat env.session db) k) dataVersion = some v ∧
    ¬ GridRefused cat db k v c ∧
    db'.gridvalue.rows = (setGridMax db k v).rows ++ [newGrid db k v c id now]

theorem writesGrid_gridWith {env : Environment} {s s' : State} {provider : Option ℤ}
    {data : Option (List UInt8)} {a : Arguments} {dataVersion_ setConfidenceCode_ : Option ℤ} {now : ℤ}
    (h : gridWith env s provider data a dataVersion_ setConfidenceCode_ now = some s') :
    WritesGrid env.cat s.db s'.db dataVersion_ := by
  simp only [gridWith, Option.bind_eq_bind, Option.bind_eq_some_iff] at h
  obtain ⟨k, hk, _, _, v, hv, bytes, _, h⟩ := h
  rcases step_write_cases s env.cat k v (setConfidenceCode_.getD 0) bytes now with
    ⟨_, hnone⟩ | ⟨hok, s₁, hs₁, hwritten⟩
  · rw [hnone] at h
    cases h
  · rw [hs₁] at h
    cases h
    exact ⟨env, a, provider, k, v, _, _, now, rfl, hk, hv, hok.1, hwritten.grids⟩

theorem writesGrid_gridReturnGid {env : Environment} {s s' : State} {value : Option ℤ}
    {name : Option String} {a : Arguments} {dataVersion : Option ℤ} {now : ℤ}
    (h : gridReturnGid env s value name a dataVersion now = some s') :
    WritesGrid env.cat s.db s'.db dataVersion := by
  simp only [gridReturnGid, Option.bind_eq_bind, Option.bind_eq_some_iff] at h
  obtain ⟨p, hp, placeid, hplace, k, hk, v, hv, id, _, h⟩ := h
  have hresolve : a.resolve env (idFromDataProvider env name) = some k := by
    simp [Arguments.resolve, hp, hplace, hk]
  rcases writeGrid_cases env.cat s.db k v 0 id now with ⟨_, hnone⟩ | ⟨hok, db', hsome, hrows⟩
  · simp [step, Statement.tables, hnone] at h
  · simp only [step, Statement.tables, hsome, Option.map_some, Option.some_inj] at h
    subst h
    exact ⟨env, a, _, k, v, 0, id, now, rfl, hresolve, hv, hok, hrows⟩

theorem floatWith_grids {env : Environment} {s s' : State} {provider : Option ℤ} {value_ : Option ℚ}
    {a : Arguments} {dataVersion_ setConfidenceCode_ : Option ℤ} {now : ℤ}
    (h : floatWith env s provider value_ a dataVersion_ setConfidenceCode_ now = some s') :
    s'.db.gridvalue = s.db.gridvalue := by
  simp only [floatWith, Option.bind_eq_bind, Option.bind_eq_some_iff, Option.pure_def,
    Option.some_inj] at h
  obtain ⟨k, _, v, _, x, _, db', hdb', rfl⟩ := h
  rcases writeFloat_done env s k v (setConfidenceCode_.getD 0) x with ⟨_, hnone⟩ | ⟨_, r, m, hall⟩
  · rw [hnone now] at hdb'
    cases hdb'
  · obtain ⟨db₁, hdb₁, hwritten⟩ := hall now
    rw [hdb₁] at hdb'
    cases hdb'
    exact hwritten.grids

/-- A call leaves the grid values as they are, or writes one. -/
theorem grids_step (server : Server) (w : World) (call : Call) :
    (w.step server call).blobs.db.gridvalue.rows = w.blobs.db.gridvalue.rows ∨
      WritesGrid (w.catalog server) w.blobs.db (w.step server call).blobs.db call.dataVersion := by
  unfold World.step
  cases hcall : call.perform server w with
  | none => exact Or.inl rfl
  | some w' =>
    rw [Option.getD_some]
    cases call with
    | place op isFunction =>
      obtain ⟨places, _, rfl⟩ := Option.map_eq_some_iff.1 hcall
      exact Or.inl rfl
    | gridLimited session user data a now =>
      obtain ⟨s', hs', rfl⟩ := Option.map_eq_some_iff.1 hcall
      rw [gridLimited_eq] at hs'
      exact Or.inr (writesGrid_gridWith hs')
    | gridAll session user data name a dataVersion_ setConfidenceCode_ now =>
      obtain ⟨s', hs', rfl⟩ := Option.map_eq_some_iff.1 hcall
      rw [gridAll_eq] at hs'
      exact Or.inr (writesGrid_gridWith hs')
    | gridIdAll session user gridId_ name a dataVersion_ setConfidenceCode_ now =>
      obtain ⟨s', hs', rfl⟩ := Option.map_eq_some_iff.1 hcall
      rw [gridIdAll_eq_none] at hs'
      cases hs'
    | gridReturnGid session user value name what dataVersion now =>
      obtain ⟨s', hs', rfl⟩ := Option.map_eq_some_iff.1 hcall
      exact Or.inr (writesGrid_gridReturnGid hs')
    | floatLimited session user value_ a now =>
      obtain ⟨s', hs', rfl⟩ := Option.map_eq_some_iff.1 hcall
      rw [floatLimited_eq] at hs'
      exact Or.inl (congrArg Relational.Table.rows (floatWith_grids hs'))
    | floatAll session user value_ name a dataVersion_ setConfidenceCode_ now =>
      obtain ⟨s', hs', rfl⟩ := Option.map_eq_some_iff.1 hcall
      rw [floatAll_eq] at hs'
      exact Or.inl (congrArg Relational.Table.rows (floatWith_grids hs'))

/-- The grid values are numbered within their keys, with the right maxima. -/
structure GridsNumbered (db : Db) : Prop where
  numbered : Numbered GridValue.toKey GridValue.dataversion db.gridvalue.rows
  gridMax : db.GridMax
  determinate : ∀ v ∈ db.gridvalue.rows, Determinate v.toSeries

/-- With fewer than 2^31 versions of every key, the maxima can be counted from. -/
theorem GridsNumbered.readable {cat : Catalog} {db : Db} (h : GridsNumbered db)
    (hfew : ∀ k, count GridValue.toKey db.gridvalue.rows k < 2 ^ 31) : db.GridReadable cat := by
  intro a ha
  have hmax := h.numbered.maxVersion_eq h.gridMax ha
  have hcount := hfew a.toKey
  refine Or.inr ?_
  unfold Readable
  omega

/-- A session sees all grid values of a key, or none. -/
theorem currentVersion_grids {cat : Catalog} {session : Session} {db : Db} {k : Key}
    (h : GridsNumbered db) (hk : Determinate k.toSeries) (m : ℤ)
    (hm : currentVersion (gridvalueV cat session db) k = some m) :
    IsGreatest (versions GridValue.toKey GridValue.dataversion db.gridvalue.rows k) m := by
  refine currentVersion_greatest hk (fun a _ v hv => ?_) h.determinate (fun a _ b _ hab hne => ?_) m hm
  · obtain ⟨hkey, _, hver, _⟩ := shown_grid hv
    exact ⟨hkey, hver⟩
  · obtain ⟨v, hv⟩ := List.exists_mem_of_ne_nil _ hne
    obtain ⟨u, hu⟩ := exists_shown_grid hv hab.symm
    exact List.ne_nil_of_mem hu

/-- A write that chooses the version keeps the numbers. -/
theorem GridsNumbered.write {cat : Catalog} {db db' : Db} (h : GridsNumbered db)
    (hcall : call.Automatic) (hwrite : WritesGrid cat db db' call.dataVersion) : GridsNumbered db' := by
  obtain ⟨env, a, provider, k, v, c, id, now, _, hresolve, hv, hok, hrows⟩ := hwrite
  have hk := determinate_resolve hresolve
  have hfree : v ∉ versions GridValue.toKey GridValue.dataversion db.gridvalue.rows k :=
    fun ⟨r, hr, hrk, hrv⟩ => hok (Or.inr ⟨r, hr, hrk, hrv⟩)
  have hcount := h.numbered.next (currentVersion_grids h hk) (determineVersion_automatic hcall hv) hfree
  have hkeep : ∀ r : GridValue, (if r.toKey = k then { r with maxdataversion := v } else r).toKey =
      r.toKey ∧ (if r.toKey = k then { r with maxdataversion := v } else r).dataversion =
        r.dataversion := by
    intro r
    split <;> exact ⟨rfl, rfl⟩
  rw [setGridMax_rows] at hrows
  refine ⟨?_, ?_, ?_⟩
  · rw [hrows, numbered_concat, count_map fun r => (hkeep r).1]
    exact ⟨numbered_map (fun r => (hkeep r).1) (fun r => (hkeep r).2) h.numbered, hcount⟩
  · unfold Db.GridMax
    rw [hrows, maxCorrect_write (k := k) (fun r => (hkeep r).1) (fun r => (hkeep r).2) ?_ rfl rfl
      h.gridMax]
    · refine ⟨Or.inl rfl, le_rfl, fun r hr hrk => ?_⟩
      have hlt := (h.numbered.mem_versions.1 ⟨r, hr, hrk, rfl⟩).2
      rw [← hcount] at hlt
      exact hlt.le
    · intro r
      split <;> rfl
  · rw [hrows]
    intro r hr
    rcases List.mem_append.1 hr with hr | hr
    · obtain ⟨r₀, hr₀, rfl⟩ := List.mem_map.1 hr
      have hseries := congrArg Key.toSeries (hkeep r₀).1
      rw [hseries]
      exact h.determinate r₀ hr₀
    · rw [List.mem_singleton.1 hr]
      exact hk

/-- The grid values of every key have the versions 0, 1, 2, … in the order in which they were written, all
    have the last of them as their maximum, and data version -1 reads the last value of every key, as long
    as no key has 2^31 of them. -/
structure GridsInOrder (server : Server) (w : World) : Prop where
  numbered : Numbered GridValue.toKey GridValue.dataversion w.blobs.db.gridvalue.rows
  maximum : ∀ a ∈ w.blobs.db.gridvalue.rows,
    a.maxdataversion + 1 = count GridValue.toKey w.blobs.db.gridvalue.rows a.toKey
  newest : (∀ k, count GridValue.toKey w.blobs.db.gridvalue.rows k < 2 ^ 31) → ∀ session,
    readGid (w.catalog server) session w.blobs.db { dataVersion := .value [-1] } .null =
    some ((lasts GridValue.toKey w.blobs.db.gridvalue.rows).flatMap
      (GridValue.shown (w.catalog server) session))

/-- So it is in every state that place functions and writes of automatic versions lead to. -/
theorem grids_inOrder (server : Server) (places : PlaceDb) (calls : List Call)
    (hcalls : ∀ call ∈ calls, call.Automatic) :
    GridsInOrder server (Runs.run (World.step server) (World.start places) calls) := by
  have hnumbered : GridsNumbered (Runs.run (World.step server) (World.start places) calls).blobs.db := by
    refine Runs.inv_run_forall (World.step server) (fun w => GridsNumbered w.blobs.db)
      (fun w call h hcall => ?_) calls _ hcalls ?_
    · rcases grids_step server w call with hsame | hwrite
      · refine ⟨?_, ?_, ?_⟩
        · rw [hsame]; exact h.numbered
        · unfold Db.GridMax; rw [hsame]; exact h.gridMax
        · rw [hsame]; exact h.determinate
      · exact h.write hcall hwrite
    · exact ⟨numbered_nil, fun _ h => (List.not_mem_nil h).elim, fun _ h => (List.not_mem_nil h).elim⟩
  refine ⟨hnumbered.numbered, fun a ha => hnumbered.numbered.maxVersion_eq hnumbered.gridMax ha,
    fun hfew session => ?_⟩
  rw [(readsNewest_iff _ hnumbered.gridMax).2 (hnumbered.readable hfew) session,
    filter_newest hnumbered.numbered.pairwise]

end Grids

/-- The grid is written again, with a negative version. -/
def writtenTwice : List Call :=
  writtenGrid ++ [.gridAll oneSession "wdb" (some (List.replicate 16 1)) (some "provider") gridValue
    (some (-1)) none 0]

/-- The values get the versions 0 and 1. -/
theorem grids_inOrder_writtenTwice :
    (Runs.run (World.step oneProvider) (World.start oneProjection) writtenTwice).blobs.db.gridvalue.rows.map
      (·.dataversion) = [0, 1] ∧
    GridsInOrder oneProvider
      (Runs.run (World.step oneProvider) (World.start oneProjection) writtenTwice) := by
  refine ⟨by decide +kernel, grids_inOrder oneProvider oneProjection writtenTwice fun call hcall => ?_⟩
  simp only [writtenTwice, writtenGrid, List.cons_append, List.nil_append, List.mem_cons,
    List.not_mem_nil, or_false] at hcall
  rcases hcall with rfl | rfl | rfl
  · exact fun n h => by cases h
  · exact fun n h => by cases h
  · exact fun n h => by cases h; decide

end Wdb.Fetch
