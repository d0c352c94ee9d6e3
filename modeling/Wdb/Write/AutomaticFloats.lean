import Wdb.Store.FloatMax
import Wdb.Write.Automatic
import Wdb.Write.ReadBack

/-! The data versions that the database chooses for float values.

    A session finds the values of a key by the instants that its view rebuilds, and these are the stored
    ones when the offset of its time zone does not change. Then the versions that it gets are numbers as
    those of grids are, and the maxima, which only a positive version sets, are right as well. -/

namespace Wdb.Fetch
open Relational SqlTime SqlTypes Store Blob Place Versioned Write

/-- Adding back undoes subtraction everywhere. -/
def Steady (z : TimeZone) : Prop := ∀ a b, AddsBack z a b

/-- As it does in a zone without transitions. -/
theorem steady_of_transitions {z : TimeZone} (h : z.transitions = []) : Steady z := by
  intro a b
  have hoffset : ∀ t, z.offsetAt t = z.initial := by
    intro t
    simp [TimeZone.offsetAt, h, TimeZone.lastOffset]
  have hdetermine : ∀ l, z.determineTimeZoneOffset l = z.initial := by
    intro l
    simp [TimeZone.determineTimeZoneOffset, TimeZone.nextDstBoundary, h, hoffset]
  have hspan := span_timestampMi a b
  unfold Interval.span at hspan
  simp only [AddsBack, timestamptzPlInterval, hoffset, hdetermine]
  split
  · next hday =>
    rw [hday] at hspan
    omega
  · omega

/-- The session of a call that writes a float. -/
def Call.floatSession : Call → Option Session
  | .floatLimited session _ _ _ _ | .floatAll session _ _ _ _ _ _ _ => some session
  | _ => none

/-- A float value was written: the key is resolved in an environment with the catalog, and the version is
    determined by what the session sees. -/
def WritesFloat (cat : Catalog) (session : Session) (db db' : Db) (dataVersion : Option ℤ) : Prop :=
  ∃ (env : Environment) (a : Arguments), ∃ provider k v c x now, env.cat = cat ∧
    env.session = session ∧ a.resolve env provider = some k ∧
    determineVersion (currentVersion (floatvalueV cat session db) k) dataVersion = some v ∧
    writeFloat cat db session k v c x now = some db'

/-- The items and groups are the same. -/
def SameFloats (db db' : Db) : Prop :=
  db'.floatvalueitem = db.floatvalueitem ∧ db'.floatvaluegroup = db.floatvaluegroup

theorem SameFloats.floats {db db' : Db} (h : SameFloats db db') : db'.floats = db.floats := by
  unfold Db.floats
  rw [h.1, h.2]

theorem writesFloat_floatWith {env : Environment} {s s' : State} {provider : Option ℤ} {value_ : Option ℚ}
    {a : Arguments} {dataVersion_ setConfidenceCode_ : Option ℤ} {now : ℤ}
    (h : floatWith env s provider value_ a dataVersion_ setConfidenceCode_ now = some s') :
    WritesFloat env.cat env.session s.db s'.db dataVersion_ := by
  simp only [floatWith, Option.bind_eq_bind, Option.bind_eq_some_iff, Option.pure_def,
    Option.some_inj] at h
  obtain ⟨k, hk, v, hv, x, _, db', hdb', rfl⟩ := h
  exact ⟨env, a, provider, k, v, _, x, now, rfl, rfl, hk, hv, hdb'⟩

theorem sameFloats_gridWith {env : Environment} {s s' : State} {provider : Option ℤ}
    {data : Option (List UInt8)} {a : Arguments} {dataVersion_ setConfidenceCode_ : Option ℤ} {now : ℤ}
    (h : gridWith env s provider data a dataVersion_ setConfidenceCode_ now = some s') :
    SameFloats s.db s'.db := by
  rcases gridWith_cases env s provider data a dataVersion_ setConfidenceCode_ with
    ⟨_, hnone⟩ | ⟨_, k, v, bytes, _, _, hsome⟩
  · rw [hnone] at h
    cases h
  · obtain ⟨s₁, hs₁, hwritten⟩ := hsome now
    obtain rfl : s₁ = s' := Option.some_inj.1 (hs₁.symm.trans h)
    exact ⟨hwritten.items, hwritten.groups⟩

theorem sameFloats_gridReturnGid {env : Environment} {s s' : State} {value : Option ℤ}
    {name : Option String} {a : Arguments} {dataVersion : Option ℤ} {now : ℤ}
    (h : gridReturnGid env s value name a dataVersion now = some s') : SameFloats s.db s'.db := by
  simp only [gridReturnGid, Option.bind_eq_bind, Option.bind_eq_some_iff] at h
  obtain ⟨_, _, _, _, k, _, v, _, id, _, h⟩ := h
  obtain ⟨t, ht, rfl⟩ := Option.map_eq_some_iff.1 h
  obtain ⟨db, hdb, rfl⟩ := Option.map_eq_some_iff.1 ht
  obtain ⟨hgroups, hitems⟩ := writeGrid_floats hdb
  exact ⟨hitems, hgroups⟩

/-- A call leaves the float values as they are, or writes one in its session. -/
theorem floats_step (server : Server) (w : World) (call : Call) :
    SameFloats w.blobs.db (w.step server call).blobs.db ∨ ∃ session, call.floatSession = some session ∧
      WritesFloat (w.catalog server) session w.blobs.db (w.step server call).blobs.db
        call.dataVersion := by
  unfold World.step
  cases hcall : call.perform server w with
  | none => exact Or.inl ⟨rfl, rfl⟩
  | some w' =>
    rw [Option.getD_some]
    cases call with
    | place op isFunction =>
      obtain ⟨places, _, rfl⟩ := Option.map_eq_some_iff.1 hcall
      exact Or.inl ⟨rfl, rfl⟩
    | gridLimited session user data a now =>
      obtain ⟨s', hs', rfl⟩ := Option.map_eq_some_iff.1 hcall
      rw [gridLimited_eq] at hs'
      exact Or.inl (sameFloats_gridWith hs')
    | gridAll session user data name a dataVersion_ setConfidenceCode_ now =>
      obtain ⟨s', hs', rfl⟩ := Option.map_eq_some_iff.1 hcall
      rw [gridAll_eq] at hs'
      exact Or.inl (sameFloats_gridWith hs')
    | gridIdAll session user gridId_ name a dataVersion_ setConfidenceCode_ now =>
      obtain ⟨s', hs', rfl⟩ := Option.map_eq_some_iff.1 hcall
      rw [gridIdAll_eq_none] at hs'
      cases hs'
    | gridReturnGid session user value name what dataVersion now =>
      obtain ⟨s', hs', rfl⟩ := Option.map_eq_some_iff.1 hcall
      exact Or.inl (sameFloats_gridReturnGid hs')
    | floatLimited session user value_ a now =>
      obtain ⟨s', hs', rfl⟩ := Option.map_eq_some_iff.1 hcall
      rw [floatLimited_eq] at hs'
      exact Or.inr ⟨session, rfl, writesFloat_floatWith hs'⟩
    | floatAll session user value_ name a dataVersion_ setConfidenceCode_ now =>
      obtain ⟨s', hs', rfl⟩ := Option.map_eq_some_iff.1 hcall
      rw [floatAll_eq] at hs'
      exact Or.inr ⟨session, rfl, writesFloat_floatWith hs'⟩

/-- The float values are numbered within their keys, with the right maxima. -/
structure FloatsNumbered (db : Db) : Prop where
  numbered : Numbered floatKey (·.2.dataversion) db.floats
  floatMax : db.FloatMax
  canonical : Canonical db
  determinate : ∀ x ∈ db.floats, Determinate x.2.toSeries

section Steps
variable {cat : Catalog} {session : Session} {db db' : Db} {k : Key}

/-- In a steady zone, a value is shown at the instants of its key. -/
theorem shownAs_iff_floatKey (hc : Canonical db) (hz : Steady session.timezone)
    {x : FloatValueItem × FloatValueGroup} (hx : x ∈ db.floats) :
    ShownAs session k x ↔ floatKey x = k := by
  have hfaithful : ∀ k, Faithful session k := fun k => ⟨hz _ _, hz _ _⟩
  have hown : ShownAs session (floatKey x) x :=
    (shownAs_iff_faithful hc (mem_floats.1 hx).2.1 rfl).2 (hfaithful _)
  constructor
  · rintro ⟨hs, hr, hf, ht⟩
    obtain ⟨_, _, hf', ht'⟩ := hown
    obtain ⟨ks, kr, kf, kt⟩ := k
    simp only at hs hr hf ht
    rw [← hs, ← hr, ← hf, ← ht, hf', ht']
    rfl
  · rintro rfl
    exact hown

theorem shownVersions_steady (hc : Canonical db) (hz : Steady session.timezone) :
    db.shownVersions session k = db.keyVersions k := by
  ext n
  exact exists_congr fun x => and_congr_right fun hx =>
    and_congr_left fun _ => shownAs_iff_floatKey hc hz hx

/-- With fewer than 2^31 versions of every key, the maxima can be counted from. -/
theorem FloatsNumbered.readable (h : FloatsNumbered db)
    (hfew : ∀ k, count floatKey db.floats k < 2 ^ 31) : db.FloatReadable cat := by
  intro x hx
  have hmax := h.numbered.maxVersion_eq h.floatMax hx
  have hcount := hfew (floatKey x)
  refine Or.inr ?_
  unfold Readable
  omega

/-- In a steady zone, a session sees all float values of a key, or none. -/
theorem currentVersion_floats (h : FloatsNumbered db) (hz : Steady session.timezone)
    (hk : Determinate k.toSeries) (m : ℤ)
    (hm : currentVersion (floatvalueV cat session db) k = some m) :
    IsGreatest (versions floatKey (·.2.dataversion) db.floats k) m := by
  rw [floatvalueV_eq] at hm
  refine currentVersion_greatest hk (fun x hx v hv => ?_) h.determinate (fun x _ y _ hxy hne => ?_) m hm
  · exact ⟨(shown_key_iff hv).2 ((shownAs_iff_floatKey h.canonical hz hx).2 rfl),
      (shown_item hv).2.2.2.2.2.1⟩
  · obtain ⟨v, hv⟩ := List.exists_mem_of_ne_nil _ hne
    obtain ⟨u, hu⟩ := exists_shown_item hv (congrArg Key.toSeries hxy.symm)
      (congrArg Key.referencetime hxy.symm)
    exact List.ne_nil_of_mem hu

/-- A write of the next version is safe. -/
theorem floatSafe_next (h : FloatsNumbered db) (hz : Steady session.timezone) {c now : ℤ} {x : ℚ} {v : ℤ}
    (hv : v = count floatKey db.floats k) : FloatSafe cat db ⟨session, k, v, c, x, now⟩ := by
  have hmem : ∀ n, n ∈ db.keyVersions k ↔ 0 ≤ n ∧ n < v := fun n => hv ▸ h.numbered.mem_versions
  refine Or.inr ?_
  rcases Nat.eq_zero_or_pos (count floatKey db.floats k) with hzero | hpos
  · have hle : v ≤ 0 := by omega
    refine Or.inl ⟨hle, Set.eq_empty_iff_forall_notMem.2 fun n hn => ?_⟩
    have hbounds := (hmem n).1 hn
    omega
  · have hvpos : 0 < v := by omega
    have hgreatest : IsGreatest (insert v (db.keyVersions k)) v :=
      ⟨Set.mem_insert _ _, fun n hn => hn.elim le_of_eq fun hn => ((hmem n).1 hn).2.le⟩
    have hall : {m | Faithful session k ∧ m = v} ∪ db.shownVersions session k =
        insert v (db.keyVersions k) := by
      rw [shownVersions_steady h.canonical hz]
      ext n
      have hfaithful : Faithful session k := ⟨hz _ _, hz _ _⟩
      simp only [Set.mem_union, Set.mem_ofPred_eq, Set.mem_insert_iff, hfaithful, true_and]
    exact Or.inr ⟨hvpos, Or.inr (Or.inr ⟨v, hgreatest, hall ▸ hgreatest⟩)⟩

/-- A write that chooses the version keeps the numbers. -/
theorem FloatsNumbered.write {call : Call} (h : FloatsNumbered db) (hcall : call.Automatic)
    (hz : Steady session.timezone) (hwrite : WritesFloat cat session db db' call.dataVersion) :
    FloatsNumbered db' := by
  obtain ⟨env, a, provider, k, v, c, x, now, rfl, rfl, hresolve, hv, hdb'⟩ := hwrite
  have hk := determinate_resolve hresolve
  have hstep : floatStep env.cat db ⟨env.session, k, v, c, x, now⟩ = db' := by
    rw [floatStep, hdb', Option.getD_some]
  rcases writeFloat_done env ⟨⟨db, .empty, 1⟩, .empty⟩ k v c x with ⟨_, hnone⟩ | ⟨hok, r, m, hall⟩
  · rw [hnone now] at hdb'
    cases hdb'
  obtain ⟨db₁, hdb₁, hwritten⟩ := hall now
  obtain rfl : db₁ = db' := Option.some_inj.1 (hdb₁.symm.trans hdb')
  have hfree : v ∉ versions floatKey (·.2.dataversion) db.floats k := by
    rintro ⟨y, hy, hyk, hyv⟩
    exact hok.1 (Or.inr (Or.inr (Or.inr ⟨y, hy, hyk, hyv⟩)))
  have hcount := h.numbered.next (currentVersion_floats h hz hk) (determineVersion_automatic hcall hv)
    hfree
  -- setting a maximum leaves the key and the version
  have hkeep : ∀ y, floatKey (setMax k m y) = floatKey y ∧
      (setMax k m y).2.dataversion = y.2.dataversion := by
    intro y
    unfold floatKey
    rw [setMax_snd, (setMax_fst k m y).2]
    exact ⟨rfl, rfl⟩
  obtain ⟨_, _, _, _, hs, _⟩ := (writeFloat_stored env.cat db env.session k v c x now).resolve_left
    fun href => hok.1 href.1
  have hkey : floatKey (storedItem db k v c r now, groupOf db k v) = k :=
    floatKey_eq_key.2 ⟨hs.ofKey, rfl⟩
  have hdeterminate : Determinate (groupOf db k v).toSeries := hwritten.series ▸ hk
  refine ⟨?_, ?_, ?_, ?_⟩
  · rw [hwritten.floats]
    refine numbered_map (fun y => (hkeep y).1) (fun y => (hkeep y).2) (numbered_concat.2 ⟨h.numbered, ?_⟩)
    rw [hkey, ← hcount]
    exact hs.version
  · rw [← hstep, floatStep_iff env.cat _ h.canonical h.floatMax]
    exact floatSafe_next h hz hcount
  · rw [← hstep]
    exact canonical_step env.cat _ h.canonical
  · rw [hwritten.floats, List.forall_mem_map]
    intro y hy
    rw [setMax_snd]
    rcases List.mem_append.1 hy with hy | hy
    · exact h.determinate y hy
    · rw [List.mem_singleton.1 hy]
      exact hdeterminate

end Steps

/-- The float values of every key have the versions 0, 1, 2, … in the order in which they were written, all
    have the last of them as their maximum, and data version -1 reads the last value of every key, as long
    as no key has 2^31 of them. -/
structure FloatsInOrder (server : Server) (w : World) : Prop where
  numbered : Numbered floatKey (·.2.dataversion) w.blobs.db.floats
  maximum : ∀ x ∈ w.blobs.db.floats,
    x.1.maxdataversion + 1 = count floatKey w.blobs.db.floats (floatKey x)
  newest : (∀ k, count floatKey w.blobs.db.floats k < 2 ^ 31) → ∀ session,
    readFloatTable (w.catalog server) session w.blobs.db { dataVersion := .value [-1] } =
    some ((lasts floatKey w.blobs.db.floats).flatMap fun x => x.1.shown (w.catalog server) session x.2)

/-- So it is in every state that place functions and writes of automatic versions in steady time zones
    lead to. -/
theorem floats_inOrder (server : Server) (places : PlaceDb) (calls : List Call)
    (hcalls : ∀ call ∈ calls, call.Automatic ∧
      ∀ session ∈ call.floatSession, Steady session.timezone) :
    FloatsInOrder server (Runs.run (World.step server) (World.start places) calls) := by
  have hnumbered : FloatsNumbered (Runs.run (World.step server) (World.start places) calls).blobs.db := by
    refine Runs.inv_run_forall (World.step server) (fun w => FloatsNumbered w.blobs.db)
      (fun w call h hcall => ?_) calls _ hcalls ?_
    · rcases floats_step server w call with hsame | ⟨session, hsession, hwrite⟩
      · refine ⟨?_, ?_, fun g hg => h.canonical g (hsame.2 ▸ hg), ?_⟩
        · rw [hsame.floats]; exact h.numbered
        · unfold Db.FloatMax; rw [hsame.floats]; exact h.floatMax
        · rw [hsame.floats]; exact h.determinate
      · exact h.write hcall.1 (hcall.2 session hsession) hwrite
    · exact ⟨numbered_nil, fun _ h => (List.not_mem_nil h).elim, fun _ h => (List.not_mem_nil h).elim,
        fun _ h => (List.not_mem_nil h).elim⟩
  refine ⟨hnumbered.numbered, fun x hx => hnumbered.numbered.maxVersion_eq hnumbered.floatMax hx,
    fun hfew session => ?_⟩
  rw [(readsNewestFloats_iff _ hnumbered.floatMax).2 (hnumbered.readable hfew) session,
    filter_newest hnumbered.numbered.pairwise]

/-- Two floats of one key, the second with a negative version. -/
def twoFloats : List Call :=
  [.place (.addPlaceRegularGrid (callerOf 1) "grid" 2 2 1 1 0 0 "+proj=longlat") trivial,
    .floatAll oneSession "wdb" (some 1) (some "provider") gridValue none none 0,
    .floatAll oneSession "wdb" (some 2) (some "provider") gridValue (some (-1)) none 0]

/-- They get the versions 0 and 1. -/
theorem floats_inOrder_twoFloats :
    (Runs.run (World.step oneProvider) (World.start oneProjection) twoFloats).blobs.db.floats.map
      (·.2.dataversion) = [0, 1] ∧
    FloatsInOrder oneProvider
      (Runs.run (World.step oneProvider) (World.start oneProjection) twoFloats) := by
  refine ⟨by decide +kernel, floats_inOrder oneProvider oneProjection twoFloats fun call hcall => ?_⟩
  simp only [twoFloats, List.mem_cons, List.not_mem_nil, or_false] at hcall
  rcases hcall with rfl | rfl | rfl
  · refine ⟨fun n h => ?_, fun session h => ?_⟩ <;> cases h
  · refine ⟨fun n h => ?_, fun session h => ?_⟩
    · cases h
    · cases h
      exact steady_of_transitions rfl
  · refine ⟨fun n h => ?_, fun session h => ?_⟩
    · cases h
      decide
    · cases h
      exact steady_of_transitions rfl

end Wdb.Fetch
