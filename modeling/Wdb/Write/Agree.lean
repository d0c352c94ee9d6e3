import Wdb.Store.FloatMax
import Wdb.Write.Overloads

/-! Which overloads of `wci.write` agree.

    Two calls agree when both fail, or both leave the same rows: of the ids and the store time nothing is
    kept, and a file id stands for what the file holds. The limited forms and those with all parameters
    differ in the data provider that they write for. The form with a grid id fails on every input. -/

namespace Wdb.Write
open Relational SqlTypes Store Blob

/-! ### Agreement -/

section Rows
variable (s : State)

/-- A grid value without its ids and its store time. -/
def gridRow (v : GridValue) : Key × ℤ × ℤ × ℤ × Option (List UInt8) :=
  (v.toKey, v.dataversion, v.maxdataversion, v.confidencecode, s.readFile v.value)

/-- A file. -/
def fileRow (r : FileBlob) : Bool × Option (List UInt8) := (r.active, s.readFile r.fileId)

end Rows

/-- A group without its id. -/
def groupRow (g : FloatValueGroup) : Series × SqlTime.Interval × SqlTime.Interval × ℤ :=
  (g.toSeries, g.validtimefrom, g.validtimeto, g.dataversion)

/-- A float value without its ids and its store time. -/
def floatRow (x : FloatValueItem × FloatValueGroup) :
    (Series × SqlTime.Interval × SqlTime.Interval × ℤ) × ℤ × ℤ × ℤ × ℚ :=
  (groupRow x.2, x.1.referencetime, x.1.maxdataversion, x.1.confidencecode, x.1.value)

/-- Two states have the same rows up to ids and store times. -/
structure SameRows (s s' : State) : Prop where
  grids : (s.db.gridvalue.rows.map (gridRow s)).Perm (s'.db.gridvalue.rows.map (gridRow s'))
  floats : (s.db.floats.map floatRow).Perm (s'.db.floats.map floatRow)
  groups : (s.db.floatvaluegroup.rows.map groupRow).Perm (s'.db.floatvaluegroup.rows.map groupRow)
  files : (s.fileBlob.rows.map (fileRow s)).Perm (s'.fileBlob.rows.map (fileRow s'))

/-- Two calls agree. -/
def Agree (r r' : Option State) : Prop := Option.Rel SameRows r r'

/-! ### What is accepted -/

section Accepted
variable (env : Environment) (s : State)

/-- The key that a call writes, when everything it names is found. -/
def Arguments.resolve (a : Arguments) (provider : Option ℤ) : Option Key := do
  let dataproviderid ← provider
  let placeid_ ← getPlaceId env a.placename a.referencetime
  a.key env dataproviderid placeid_

/-- A write of bytes for a data provider is accepted: everything is found, the size is right, there is a
    version, and no constraint refuses the rows. -/
def DataAccepted (provider : Option ℤ) (data : Option (List UInt8)) (a : Arguments)
    (dataVersion_ setConfidenceCode_ : Option ℤ) : Prop :=
  ∃ k v bytes, a.resolve env provider = some k ∧ verifyBlobSize env data a.placename = some () ∧
    determineVersion (currentVersion (gridvalueV env.cat env.session s.db) k) dataVersion_ = some v ∧
    data = some bytes ∧ ¬ GridRefused env.cat s.db k v (setConfidenceCode_.getD 0) ∧
    ∀ r ∈ s.fileBlob.rows, r.fileId ≠ s.fileIdSeq

/-- A write of a grid id with the default confidence is accepted. -/
def GidAccepted (provider value : Option ℤ) (a : Arguments) (dataVersion_ : Option ℤ) : Prop :=
  ∃ k v id, a.resolve env provider = some k ∧
    determineVersion (currentVersion (gridvalueV env.cat env.session s.db) k) dataVersion_ = some v ∧
    value = some id ∧ ¬ GridRefused env.cat s.db k v 0

/-- The session sees a value at the instants of the key once one of the version is stored. -/
def Sees (k : Key) (v : ℤ) : Prop :=
  env.cat.names env.session k.toSeries k.referencetime ≠ [] ∧
    (ShownAs env.session k (storedItem s.db k v 0 0 0, groupOf s.db k v) ∨
      (s.db.shownVersions env.session k).Nonempty)

/-- A write of a float for a data provider is accepted. -/
def FloatAccepted (provider : Option ℤ) (value : Option ℚ) (a : Arguments)
    (dataVersion_ setConfidenceCode_ : Option ℤ) : Prop :=
  ∃ k v x, a.resolve env provider = some k ∧
    determineVersion (currentVersion (floatvalueV env.cat env.session s.db) k) dataVersion_ = some v ∧
    value = some x ∧ ¬ FloatRefused env.cat s.db k v (setConfidenceCode_.getD 0) x ∧
    (0 < v → Sees env s k v)

/-- The grid forms with bytes, for a data provider. -/
def gridWith (provider : Option ℤ) (data : Option (List UInt8)) (a : Arguments)
    (dataVersion_ setConfidenceCode_ : Option ℤ) (now : ℤ) : Option State := do
  let k ← a.resolve env provider
  verifyBlobSize env data a.placename
  let currentVersion_ ← determineVersion (currentVersion (gridvalueV env.cat env.session s.db) k)
    dataVersion_
  step env.cat s (.write k currentVersion_ (setConfidenceCode_.getD 0) (← data) now)

/-- The float forms, for a data provider. -/
def floatWith (provider : Option ℤ) (value_ : Option ℚ) (a : Arguments)
    (dataVersion_ setConfidenceCode_ : Option ℤ) (now : ℤ) : Option State := do
  let k ← a.resolve env provider
  let currentVersion_ ← determineVersion (currentVersion (floatvalueV env.cat env.session s.db) k)
    dataVersion_
  return withDb s (← writeFloat env.cat s.db env.session k currentVersion_
    (setConfidenceCode_.getD 0) (← value_) now)

end Accepted

section Forms
variable {env : Environment} {s : State} {a : Arguments} {now : ℤ}

/-- The grid form with limited specification writes for the user's provider. -/
theorem gridLimited_eq (data : Option (List UInt8)) : gridLimited env s data a now =
    gridWith env s (wcidataproviderid env) data a none none now := by
  simp [gridLimited, gridWith, Arguments.resolve, determineVersion, Option.bind_assoc]

/-- The one with all parameters specified writes for the provider that is named. -/
theorem gridAll_eq (data : Option (List UInt8)) (name : Option String)
    (dataVersion_ setConfidenceCode_ : Option ℤ) :
    gridAll env s data name a dataVersion_ setConfidenceCode_ now =
      gridWith env s (idFromDataProvider env name) data a dataVersion_ setConfidenceCode_ now := by
  simp [gridAll, gridWith, Arguments.resolve, Option.bind_assoc]

theorem floatLimited_eq (value_ : Option ℚ) : floatLimited env s value_ a now =
    floatWith env s (wcidataproviderid env) value_ a none none now := by
  simp [floatLimited, floatWith, Arguments.resolve, determineVersion, Option.bind_assoc]

theorem floatAll_eq (value_ : Option ℚ) (name : Option String)
    (dataVersion_ setConfidenceCode_ : Option ℤ) :
    floatAll env s value_ name a dataVersion_ setConfidenceCode_ now =
      floatWith env s (idFromDataProvider env name) value_ a dataVersion_ setConfidenceCode_ now := by
  simp [floatAll, floatWith, Arguments.resolve, Option.bind_assoc]

/-- The form with a grid id never gets past the declaration of `placeid_`. -/
theorem gridIdAll_eq_none (gridId_ : Option ℤ) (name : Option String)
    (dataVersion_ setConfidenceCode_ : Option ℤ) :
    gridIdAll env s gridId_ name a dataVersion_ setConfidenceCode_ now = none := by
  have hunknown : a.instants.lookup "referencetime" = none := by
    simp [Arguments.instants, List.lookup]
  simp [gridIdAll, hunknown]

/-- A key is of the provider that it was resolved for. -/
theorem resolve_provider {provider : Option ℤ} {k : Key} (h : a.resolve env provider = some k) :
    provider = some k.dataproviderid := by
  simp only [Arguments.resolve, Arguments.key, Option.bind_eq_bind, Option.bind_eq_some_iff] at h
  obtain ⟨p, rfl, _, _, _, _, _, _, _, _, _, _, _, _, _, _, _, _, _, _, _, _, h⟩ := h
  cases h
  rfl

end Forms

/-! ### Writing for a provider -/

/-- A form fails unless it is accepted; else it leaves the same rows whatever the clock says, and one
    more value of its provider. -/
structure WritesFor (form : ℤ → Option State) (accepted : Prop) (values : State → ℤ → ℕ)
    (before : ℤ → ℕ) (provider : Option ℤ) : Prop where
  refused : ¬ accepted → ∀ now, form now = none
  done : accepted → ∀ now, ∃ s', form now = some s'
  same : ∀ now now' s₁ s₂, form now = some s₁ → form now' = some s₂ → SameRows s₁ s₂
  adds : ∀ now s', form now = some s' →
    ∃ q, provider = some q ∧ ∀ p, values s' p = before p + if q = p then 1 else 0

/-- Forms that write for two providers agree exactly when they are one, or neither is accepted. -/
theorem agree_iff {form : Option ℤ → ℤ → Option State} {accepted : Option ℤ → Prop}
    {values : State → ℤ → ℕ} {before : ℤ → ℕ}
    (h : ∀ provider, WritesFor (form provider) (accepted provider) values before provider)
    (hvalues : ∀ s₁ s₂, SameRows s₁ s₂ → values s₁ = values s₂) (provider provider' : Option ℤ)
    (now now' : ℤ) : Agree (form provider now) (form provider' now') ↔
      provider = provider' ∨ (¬ accepted provider ∧ ¬ accepted provider') := by
  by_cases hacc : accepted provider
  · obtain ⟨s₁, hs₁⟩ := (h provider).done hacc now
    rw [hs₁]
    constructor
    · intro hagree
      left
      cases hs₂ : form provider' now' with
      | none => rw [hs₂] at hagree; cases hagree
      | some s₂ =>
        rw [hs₂] at hagree
        obtain ⟨hsame⟩ := hagree
        -- the first has one more value of its own provider, and so has the second
        obtain ⟨q, hq, hadds⟩ := (h provider).adds now s₁ hs₁
        obtain ⟨q', hq', hadds'⟩ := (h provider').adds now' s₂ hs₂
        have hcount := congrFun (hvalues _ _ hsame) q
        rw [hadds, hadds', if_pos rfl] at hcount
        by_cases heq : q' = q
        · rw [hq, hq', heq]
        · rw [if_neg heq] at hcount
          omega
    · rintro (rfl | hno)
      · obtain ⟨s₂, hs₂⟩ := (h provider).done hacc now'
        rw [hs₂]
        exact .some ((h provider).same _ _ _ _ hs₁ hs₂)
      · exact absurd hacc hno.1
  · rw [(h provider).refused hacc]
    by_cases hacc' : accepted provider'
    · obtain ⟨s₂, hs₂⟩ := (h provider').done hacc' now'
      rw [hs₂]
      refine iff_of_false (fun hagree => nomatch hagree) ?_
      rintro (rfl | hno)
      · exact hacc hacc'
      · exact hno.2 hacc'
    · rw [(h provider').refused hacc']
      exact iff_of_true .none (Or.inr ⟨hacc, hacc'⟩)

/-! ### Grids -/

/-- What a write of bytes that is accepted has done. -/
structure Written (s s' : State) (k : Key) (v confidence : ℤ) (bytes : List UInt8) (now : ℤ) :
    Prop where
  grids : s'.db.gridvalue.rows =
    (setGridMax s.db k v).rows ++ [newGrid s.db k v confidence s.fileIdSeq now]
  groups : s'.db.floatvaluegroup = s.db.floatvaluegroup
  items : s'.db.floatvalueitem = s.db.floatvalueitem
  fileBlob : s'.fileBlob.rows = s.fileBlob.rows ++ [⟨s.fileIdSeq, true⟩]
  directory : s'.directory = applyAll s.directory (writeFile s.fileIdSeq bytes now)

section Grids
variable {env : Environment} {s : State} {a : Arguments}

/-- A grid write leaves the float tables alone. -/
theorem writeGrid_floats {cat : Catalog} {db db' : Db} {k : Key} {v c dataId now : ℤ}
    (h : writeGrid cat db k v c dataId now = some db') :
    db'.floatvaluegroup = db.floatvaluegroup ∧ db'.floatvalueitem = db.floatvalueitem := by
  unfold writeGrid insertGrid at h
  split at h
  · obtain ⟨t, _, rfl⟩ := Option.map_eq_some_iff.1 h
    exact ⟨rfl, rfl⟩
  · cases h

variable (s) in
/-- The last statements of a write of bytes. -/
theorem step_write_cases (cat : Catalog) (k : Key) (v c : ℤ) (bytes : List UInt8) (now : ℤ) :
    (¬ (¬ GridRefused cat s.db k v c ∧ ∀ r ∈ s.fileBlob.rows, r.fileId ≠ s.fileIdSeq) ∧
      step cat s (.write k v c bytes now) = none) ∨
    ((¬ GridRefused cat s.db k v c ∧ ∀ r ∈ s.fileBlob.rows, r.fileId ≠ s.fileIdSeq) ∧
      ∃ s', step cat s (.write k v c bytes now) = some s' ∧ Written s s' k v c bytes now) := by
  rcases writeGrid_cases cat s.db k v c s.fileIdSeq now with
    ⟨href, hnone⟩ | ⟨hok, db', hsome, hrows⟩
  · refine Or.inl ⟨fun h => h.1 href, ?_⟩
    simp [step, Statement.tables, hnone]
  · by_cases hfree : ∀ r ∈ s.fileBlob.rows, r.fileId ≠ s.fileIdSeq
    · obtain ⟨t, ht, htrows⟩ := Table.insert_of_noClash (t := s.fileBlob) (a := ⟨s.fileIdSeq, true⟩) hfree
      obtain ⟨hgroups, hitems⟩ := writeGrid_floats hsome
      refine Or.inr ⟨⟨hok, hfree⟩, ⟨⟨db', t, s.fileIdSeq + 1⟩,
        applyAll s.directory (writeFile s.fileIdSeq bytes now)⟩, ?_,
        ⟨hrows, hgroups, hitems, htrows, rfl⟩⟩
      simp only [step, Statement.files, Statement.tables, hsome, ht, Option.bind_some, Option.map_some]
    · refine Or.inl ⟨fun h => hfree h.2, ?_⟩
      push Not at hfree
      obtain ⟨r, hr, hid⟩ := hfree
      have ht : s.fileBlob.insert ⟨s.fileIdSeq, true⟩ = none := Table.insert_of_clash hr hid
      simp only [step, Statement.tables, hsome, ht, Option.bind_some, Option.map_none]

/-- A write of bytes that is not accepted fails, and one that is writes a key of its provider. -/
theorem gridWith_cases (env : Environment) (s : State) (provider : Option ℤ)
    (data : Option (List UInt8)) (a : Arguments) (dataVersion_ setConfidenceCode_ : Option ℤ) :
    (¬ DataAccepted env s provider data a dataVersion_ setConfidenceCode_ ∧
      ∀ now, gridWith env s provider data a dataVersion_ setConfidenceCode_ now = none) ∨
    (DataAccepted env s provider data a dataVersion_ setConfidenceCode_ ∧
      ∃ k v bytes, provider = some k.dataproviderid ∧ data = some bytes ∧ ∀ now, ∃ s',
        gridWith env s provider data a dataVersion_ setConfidenceCode_ now = some s' ∧
        Written s s' k v (setConfidenceCode_.getD 0) bytes now) := by
  by_cases h : DataAccepted env s provider data a dataVersion_ setConfidenceCode_
  · obtain ⟨k, v, bytes, hk, hsize, hv, rfl, hacc⟩ := h
    refine Or.inr ⟨⟨k, v, bytes, hk, hsize, hv, rfl, hacc⟩, k, v, bytes, resolve_provider hk, rfl,
      fun now => ?_⟩
    rcases step_write_cases s env.cat k v (setConfidenceCode_.getD 0) bytes now with
      ⟨hno, _⟩ | ⟨_, s', hstep, hwritten⟩
    · exact absurd hacc hno
    · exact ⟨s', by simp [gridWith, hk, hsize, hv, hstep], hwritten⟩
  · refine Or.inl ⟨h, fun now => ?_⟩
    cases hk : a.resolve env provider with
    | none => simp [gridWith, hk]
    | some k =>
    cases hsize : verifyBlobSize env data a.placename with
    | none => simp [gridWith, hk, hsize]
    | some =>
    cases hv : determineVersion (currentVersion (gridvalueV env.cat env.session s.db) k)
        dataVersion_ with
    | none => simp [gridWith, hk, hv]
    | some v =>
    cases data with
    | none => simp [gridWith, hk, hsize]
    | some bytes =>
    rcases step_write_cases s env.cat k v (setConfidenceCode_.getD 0) bytes now with
      ⟨_, hnone⟩ | ⟨hacc, _⟩
    · simp [gridWith, hk, hsize, hv, hnone]
    · exact absurd ⟨k, v, bytes, hk, hsize, hv, rfl, hacc⟩ h

/-- What the files hold after a write does not depend on the clock. -/
theorem Written.readFile_eq {s₁ s₂ : State} {k : Key} {v c now now' : ℤ} {bytes : List UInt8}
    (h₁ : Written s s₁ k v c bytes now) (h₂ : Written s s₂ k v c bytes now') :
    s₁.readFile = s₂.readFile := by
  funext id
  refine Option.ext fun data => ?_
  unfold State.readFile
  rw [readFile_eq_some, readFile_eq_some, h₁.fileBlob, h₂.fileBlob, h₁.directory, h₂.directory]
  refine and_congr_right fun _ => ?_
  have hfile : ∀ now'' : ℤ, (∃ f ∈ (applyAll s.directory (writeFile s.fileIdSeq bytes now'')).rows,
      f.id = id ∧ f.data = data) ↔
      (∃ f ∈ (s.directory.remove s.fileIdSeq).rows, f.id ≠ s.fileIdSeq ∧ f.id = id ∧ f.data = data) ∨
        s.fileIdSeq = id ∧ bytes = data := by
    intro now''
    change (∃ f ∈ (FileStep.apply _ (.create ⟨s.fileIdSeq, bytes, now''⟩)).rows, _) ↔ _
    simp only [mem_create]
    constructor
    · rintro ⟨f, ⟨hf, hne⟩ | rfl, hid⟩
      · exact Or.inl ⟨f, hf, hne, hid⟩
      · exact Or.inr hid
    · rintro (⟨f, hf, hne, hid⟩ | hid)
      · exact ⟨f, Or.inl ⟨hf, hne⟩, hid⟩
      · exact ⟨_, Or.inr rfl, hid⟩
  rw [hfile now, hfile now']

/-- Two writes of the same leave the same rows. -/
theorem Written.sameRows {s₁ s₂ : State} {k : Key} {v c now now' : ℤ} {bytes : List UInt8}
    (h₁ : Written s s₁ k v c bytes now) (h₂ : Written s s₂ k v c bytes now') : SameRows s₁ s₂ := by
  have hread := h₁.readFile_eq h₂
  have hfloats : s₁.db.floats = s₂.db.floats := by
    unfold Db.floats
    rw [h₁.items, h₂.items, h₁.groups, h₂.groups]
  refine ⟨List.Perm.of_eq ?_, by rw [hfloats], by rw [h₁.groups, h₂.groups], List.Perm.of_eq ?_⟩
  · rw [h₁.grids, h₂.grids, List.map_append, List.map_append, List.map_singleton, List.map_singleton]
    unfold gridRow
    rw [hread]
    rfl
  · rw [h₁.fileBlob, h₂.fileBlob]
    unfold fileRow
    rw [hread]

/-- How many grid values of a provider there are after a write. -/
theorem Written.count {s' : State} {k : Key} {v c now : ℤ} {bytes : List UInt8}
    (h : Written s s' k v c bytes now) (p : ℤ) :
    (s'.db.gridvalue.rows.map (gridRow s')).countP (fun r => r.1.dataproviderid = p) =
      s.db.gridvalue.rows.countP (fun r => r.dataproviderid = p) +
        if k.dataproviderid = p then 1 else 0 := by
  rw [List.countP_map, h.grids, List.countP_append, setGridMax_rows, List.countP_map,
    List.countP_singleton]
  congr 1
  · refine List.countP_congr fun x _ => ?_
    simp only [Function.comp_apply, gridRow]
    split <;> rfl
  · by_cases hp : k.dataproviderid = p <;> simp [hp, gridRow, newGrid]

/-- How many grid values of a provider a state has. -/
def gridsOf (s : State) (p : ℤ) : ℕ :=
  (s.db.gridvalue.rows.map (gridRow s)).countP fun r => r.1.dataproviderid = p

theorem gridWith_writesFor (env : Environment) (s : State) (data : Option (List UInt8)) (a : Arguments)
    (dataVersion_ setConfidenceCode_ provider : Option ℤ) :
    WritesFor (gridWith env s provider data a dataVersion_ setConfidenceCode_)
      (DataAccepted env s provider data a dataVersion_ setConfidenceCode_) gridsOf
      (fun p => s.db.gridvalue.rows.countP fun r => r.dataproviderid = p) provider := by
  rcases gridWith_cases env s provider data a dataVersion_ setConfidenceCode_ with
    ⟨hno, hnone⟩ | ⟨hacc, k, v, bytes, hk, _, hsome⟩
  · refine ⟨fun _ => hnone, fun h => absurd h hno, fun now _ s₁ _ h => ?_, fun now s' h => ?_⟩
    all_goals
      rw [hnone now] at h
      cases h
  · refine ⟨fun h => absurd hacc h, fun _ now => ?_, fun now now' s₁ s₂ h₁ h₂ => ?_, fun now s' h => ?_⟩
    · obtain ⟨s', hs', _⟩ := hsome now
      exact ⟨s', hs'⟩
    · obtain ⟨s₁', hs₁, hwritten₁⟩ := hsome now
      obtain ⟨s₂', hs₂, hwritten₂⟩ := hsome now'
      obtain rfl : s₁' = s₁ := Option.some_inj.1 (hs₁.symm.trans h₁)
      obtain rfl : s₂' = s₂ := Option.some_inj.1 (hs₂.symm.trans h₂)
      exact hwritten₁.sameRows hwritten₂
    · obtain ⟨s₁, hs₁, hwritten⟩ := hsome now
      obtain rfl : s₁ = s' := Option.some_inj.1 (hs₁.symm.trans h)
      exact ⟨k.dataproviderid, hk, hwritten.count⟩

end Grids

/-! ### Floats -/

/-- The maximum of a key set to a number, if there is one. -/
def setMax (k : Key) : Option ℤ → FloatValueItem × FloatValueGroup → FloatValueItem × FloatValueGroup
  | none, x => x
  | some m, x => if floatKey x = k then withMax m x else x

/-- What a write of a float that is accepted has done. -/
structure FloatWritten (db db' : Db) (k : Key) (v confidence : ℤ) (r : ℚ) (m : Option ℤ) (now : ℤ) :
    Prop where
  floats : db'.floats =
    (db.floats ++ [(storedItem db k v confidence r now, groupOf db k v)]).map (setMax k m)
  groups : db'.floatvaluegroup.rows = groupsWith db k v
  grids : db'.gridvalue = db.gridvalue
  series : (groupOf db k v).toSeries = k.toSeries

section Floats
variable {env : Environment} {s : State} {a : Arguments}

/-- The statements of a float write. -/
theorem writeFloat_done (env : Environment) (s : State) (k : Key) (v c : ℤ) (x : ℚ) :
    (¬ (¬ FloatRefused env.cat s.db k v c x ∧ (0 < v → Sees env s k v)) ∧
      ∀ now, writeFloat env.cat s.db env.session k v c x now = none) ∨
    ((¬ FloatRefused env.cat s.db k v c x ∧ (0 < v → Sees env s k v)) ∧ ∃ r m, ∀ now, ∃ db',
      writeFloat env.cat s.db env.session k v c x now = some db' ∧
      FloatWritten s.db db' k v c r m now) := by
  have hcases := fun now => writeFloat_stored env.cat s.db env.session k v c x now
  by_cases href : FloatRefused env.cat s.db k v c x
  · refine Or.inl ⟨fun h => h.1 href, fun now => ?_⟩
    exact ((hcases now).resolve_right fun h => h.1 href).2
  obtain ⟨r, hr⟩ : ∃ r, toReal x = some r := by
    obtain ⟨_, _, r, hr, _⟩ := (hcases 0).resolve_left fun h => href h.1
    exact ⟨r, hr⟩
  have hall : ∀ now, ∃ db₂, Stored s.db db₂ k v (storedItem s.db k v c r now) (groupOf s.db k v) ∧
      db₂.floatvaluegroup.rows = groupsWith s.db k v ∧
      writeFloat env.cat s.db env.session k v c x now =
        if v > 0 then (selectMax env.cat db₂ env.session k).map (setFloatMax db₂ k) else some db₂ := by
    intro now
    obtain ⟨_, db₂, r', hr', hs, hgroups, hwrite⟩ := (hcases now).resolve_left fun h => href h.1
    obtain rfl : r' = r := Option.some_inj.1 (hr'.symm.trans hr)
    exact ⟨db₂, hs, hgroups, hwrite.trans (recomputeMax_stored env.cat env.session hs rfl)⟩
  by_cases hpos : 0 < v
  · by_cases hsees : Sees env s k v
    · -- what is selected does not depend on the clock
      have hgreatest : ∀ now db₂,
          Stored s.db db₂ k v (storedItem s.db k v c r now) (groupOf s.db k v) →
          ∃ n, selectMax env.cat db₂ env.session k = some n ∧
            IsGreatest ({m | ShownAs env.session k (storedItem s.db k v 0 0 0, groupOf s.db k v) ∧
              m = v} ∪ s.db.shownVersions env.session k) n := by
        intro now db₂ hs
        have hshown := @shownVersions_append env.session s.db k _ _ _ _ hs
        rcases selectMax_cases env.cat env.session db₂ k with ⟨hnone, _⟩ | ⟨_, n, hsel, hgr⟩
        · have hempty := hnone.resolve_left hsees.1
          rw [hshown, Set.union_empty_iff] at hempty
          rcases hsees.2 with h | h
          · exact absurd hempty.1 (Set.nonempty_iff_ne_empty.1 ⟨v, h, rfl⟩)
          · exact absurd hempty.2 (Set.nonempty_iff_ne_empty.1 h)
        · rw [hshown] at hgr
          exact ⟨n, hsel, hgr⟩
      obtain ⟨db₀, hs₀, _, _⟩ := hall 0
      obtain ⟨n, _, hn⟩ := hgreatest 0 db₀ hs₀
      refine Or.inr ⟨⟨href, fun _ => hsees⟩, r, some n, fun now => ?_⟩
      obtain ⟨db₂, hs, hgroups, hwrite⟩ := hall now
      obtain ⟨n', hsel, hn'⟩ := hgreatest now db₂ hs
      obtain rfl : n' = n := hn'.unique hn
      rw [if_pos hpos, hsel, Option.map_some] at hwrite
      refine ⟨_, hwrite, ?_, hgroups, hs.grids, hs.ofKey.1⟩
      rw [setFloatMax_floats, hs.floats]
      rfl
    · refine Or.inl ⟨fun h => hsees (h.2 hpos), fun now => ?_⟩
      obtain ⟨db₂, hs, _, hwrite⟩ := hall now
      rw [hwrite, if_pos hpos, Option.map_eq_none_iff]
      rcases selectMax_cases env.cat env.session db₂ k with ⟨_, hnone⟩ | ⟨hnames, n, _, hgr⟩
      · exact hnone
      · refine absurd ⟨hnames, ?_⟩ hsees
        have hmem := hgr.1
        rw [shownVersions_append hs] at hmem
        exact hmem.imp And.left fun h => ⟨n, h⟩
  · refine Or.inr ⟨⟨href, fun h => absurd h hpos⟩, r, none, fun now => ?_⟩
    obtain ⟨db₂, hs, hgroups, hwrite⟩ := hall now
    rw [if_neg hpos] at hwrite
    refine ⟨db₂, hwrite, ?_, hgroups, hs.grids, hs.ofKey.1⟩
    rw [hs.floats]
    exact (List.map_id _).symm

/-- Two writes of the same leave the same float values. -/
theorem FloatWritten.sameRows {db₁ db₂ : Db} {k : Key} {v c now now' : ℤ} {r : ℚ} {m : Option ℤ}
    (h₁ : FloatWritten s.db db₁ k v c r m now) (h₂ : FloatWritten s.db db₂ k v c r m now') :
    SameRows (withDb s db₁) (withDb s db₂) := by
  refine ⟨List.Perm.of_eq ?_, List.Perm.of_eq ?_, List.Perm.of_eq ?_, .refl _⟩
  · change db₁.gridvalue.rows.map _ = db₂.gridvalue.rows.map _
    rw [h₁.grids, h₂.grids]
    rfl
  · change db₁.floats.map _ = db₂.floats.map _
    rw [h₁.floats, h₂.floats, List.map_map, List.map_map, List.map_append, List.map_append]
    congr 1
    cases m with
    | none => rfl
    | some m =>
      simp only [List.map_singleton, Function.comp_apply, setMax]
      split <;> split <;> first | rfl | contradiction
  · change db₁.floatvaluegroup.rows.map _ = db₂.floatvaluegroup.rows.map _
    rw [h₁.groups, h₂.groups]

/-- How many float values of a provider a state has. -/
def floatsOf (s : State) (p : ℤ) : ℕ :=
  (s.db.floats.map floatRow).countP fun r => r.1.1.dataproviderid = p

/-- Setting a maximum changes no group. -/
theorem setMax_snd (k : Key) (m : Option ℤ) (x : FloatValueItem × FloatValueGroup) :
    (setMax k m x).2 = x.2 := by
  cases m with
  | none => rfl
  | some m =>
    simp only [setMax]
    split <;> rfl

theorem FloatWritten.count {db' : Db} {k : Key} {v c now : ℤ} {r : ℚ} {m : Option ℤ}
    (h : FloatWritten s.db db' k v c r m now) (p : ℤ) : floatsOf (withDb s db') p =
      s.db.floats.countP (fun x => x.2.dataproviderid = p) + if k.dataproviderid = p then 1 else 0 := by
  have hfloats : (withDb s db').db.floats = _ := h.floats
  unfold floatsOf
  rw [hfloats, List.map_map, List.countP_map, List.countP_append, List.countP_singleton]
  congr 1
  · refine List.countP_congr fun x _ => ?_
    simp [floatRow, groupRow, setMax_snd]
  · have hseries := congrArg Series.dataproviderid h.series
    by_cases hp : k.dataproviderid = p <;> simp [hp, floatRow, groupRow, setMax_snd, hseries]

theorem floatWith_writesFor (env : Environment) (s : State) (value_ : Option ℚ) (a : Arguments)
    (dataVersion_ setConfidenceCode_ provider : Option ℤ) :
    WritesFor (floatWith env s provider value_ a dataVersion_ setConfidenceCode_)
      (FloatAccepted env s provider value_ a dataVersion_ setConfidenceCode_) floatsOf
      (fun p => s.db.floats.countP fun x => x.2.dataproviderid = p) provider := by
  by_cases h : FloatAccepted env s provider value_ a dataVersion_ setConfidenceCode_
  · obtain ⟨k, v, x, hk, hv, rfl, hacc⟩ := h
    have hform : ∀ now, floatWith env s provider (some x) a dataVersion_ setConfidenceCode_ now =
        (writeFloat env.cat s.db env.session k v (setConfidenceCode_.getD 0) x now).map (withDb s) := by
      intro now
      simp [floatWith, hk, hv, Option.map_eq_bind]
    rcases writeFloat_done env s k v (setConfidenceCode_.getD 0) x with ⟨hno, _⟩ | ⟨_, r, m, hall⟩
    · exact absurd hacc hno
    · refine ⟨fun hno => absurd ⟨k, v, x, hk, hv, rfl, hacc⟩ hno, fun _ now => ?_,
        fun now now' s₁ s₂ h₁ h₂ => ?_, fun now s' h => ?_⟩
      · obtain ⟨db', hdb', _⟩ := hall now
        exact ⟨_, by rw [hform, hdb']; rfl⟩
      · obtain ⟨db₁, hdb₁, hwritten₁⟩ := hall now
        obtain ⟨db₂, hdb₂, hwritten₂⟩ := hall now'
        rw [hform, hdb₁] at h₁
        rw [hform, hdb₂] at h₂
        cases h₁
        cases h₂
        exact hwritten₁.sameRows hwritten₂
      · obtain ⟨db', hdb', hwritten⟩ := hall now
        rw [hform, hdb'] at h
        cases h
        exact ⟨k.dataproviderid, resolve_provider hk, hwritten.count⟩
  · have hnone : ∀ now, floatWith env s provider value_ a dataVersion_ setConfidenceCode_ now = none := by
      intro now
      cases hk : a.resolve env provider with
      | none => simp [floatWith, hk]
      | some k =>
      cases hv : determineVersion (currentVersion (floatvalueV env.cat env.session s.db) k)
          dataVersion_ with
      | none => simp [floatWith, hk, hv]
      | some v =>
      cases value_ with
      | none => simp [floatWith, hk]
      | some x =>
      rcases writeFloat_done env s k v (setConfidenceCode_.getD 0) x with ⟨_, hnone⟩ | ⟨hacc, _⟩
      · simp [floatWith, hk, hv, hnone]
      · exact absurd ⟨k, v, x, hk, hv, rfl, hacc⟩ h
    refine ⟨fun _ => hnone, fun hacc => absurd hacc h, fun now _ s₁ _ h₁ => ?_, fun now s' h₁ => ?_⟩
    all_goals
      rw [hnone now] at h₁
      cases h₁

end Floats

/-! ### The overloads -/

section Overloads
variable (env : Environment) (s : State) (a : Arguments) (now now' : ℤ)

/-- The form with a `wci.returnGid` succeeds when it is accepted. -/
theorem gridReturnGid_eq_none_iff (value : Option ℤ) (name : Option String) (dataVersion : Option ℤ) :
    gridReturnGid env s value name a dataVersion now = none ↔
      ¬ GidAccepted env s (idFromDataProvider env name) value a dataVersion := by
  have hform : gridReturnGid env s value name a dataVersion now = (do
      let k ← a.resolve env (idFromDataProvider env name)
      let currentVersion_ ← determineVersion
        (currentVersion (gridvalueV env.cat env.session s.db) k) dataVersion
      step env.cat s (.writeGid k currentVersion_ 0 (← value) now)) := by
    simp [gridReturnGid, Arguments.resolve, Option.bind_assoc]
  have hstep : ∀ k v id, step env.cat s (.writeGid k v 0 id now) = none ↔
      GridRefused env.cat s.db k v 0 := by
    intro k v id
    rcases writeGrid_cases env.cat s.db k v 0 id now with ⟨href, hnone⟩ | ⟨hok, db', hsome, _⟩
    · exact iff_of_true (by simp [step, Statement.tables, hnone]) href
    · exact iff_of_false (by simp [step, Statement.tables, hsome]) hok
  rw [hform]
  simp only [Option.bind_eq_bind, Option.bind_eq_none_iff, hstep, GidAccepted]
  constructor
  · rintro h ⟨k, v, id, hk, hv, hid, hok⟩
    exact hok (h k hk v hv id hid)
  · intro h k hk v hv id hid
    by_contra hok
    exact h ⟨k, v, id, hk, hv, hid, hok⟩

theorem agree_none_iff {r : Option State} : Agree r none ↔ r = none := by
  cases r with
  | none => exact iff_of_true .none rfl
  | some s => exact iff_of_false (fun h => nomatch h) (fun h => nomatch h)

/-- Which overloads agree. A limited form and the one with all parameters do when the user's provider is
    the one that the session finds by the user's name, or neither write is accepted; the form with a
    grid id agrees with another where the other fails. -/
theorem overloads_agree_iff :
    (∀ data, Agree (gridLimited env s data a now) (gridAll env s data (some env.user) a none none now') ↔
      wcidataproviderid env = idFromDataProvider env (some env.user) ∨
      (¬ DataAccepted env s (wcidataproviderid env) data a none none ∧
        ¬ DataAccepted env s (idFromDataProvider env (some env.user)) data a none none)) ∧
    (∀ data name dataVersion_ setConfidenceCode_,
      Agree (gridAll env s data name a dataVersion_ setConfidenceCode_ now)
          (reserveAndWrite env s data name a dataVersion_ setConfidenceCode_ now') ↔
        ¬ DataAccepted env s (idFromDataProvider env name) data a dataVersion_ setConfidenceCode_) ∧
    (∀ value name dataVersion_,
      Agree (gridReturnGid env s value name a dataVersion_ now)
          (gridIdAll env s value name a dataVersion_ (some 0) now') ↔
        ¬ GidAccepted env s (idFromDataProvider env name) value a dataVersion_) ∧
    ∀ value_, Agree (floatLimited env s value_ a now)
        (floatAll env s value_ (some env.user) a none none now') ↔
      wcidataproviderid env = idFromDataProvider env (some env.user) ∨
      (¬ FloatAccepted env s (wcidataproviderid env) value_ a none none ∧
        ¬ FloatAccepted env s (idFromDataProvider env (some env.user)) value_ a none none) := by
  refine ⟨fun data => ?_, fun data name dataVersion_ setConfidenceCode_ => ?_,
    fun value name dataVersion_ => ?_, fun value_ => ?_⟩
  · rw [gridLimited_eq, gridAll_eq]
    refine agree_iff (gridWith_writesFor env s data a none none) (fun s₁ s₂ h => ?_) _ _ now now'
    exact funext fun p => h.grids.countP_eq _
  · have hnone : reserveAndWrite env s data name a dataVersion_ setConfidenceCode_ now' = none := by
      simp [reserveAndWrite, gridIdAll_eq_none]
    have hwrites := gridWith_writesFor env s data a dataVersion_ setConfidenceCode_
      (idFromDataProvider env name)
    rw [hnone, agree_none_iff, gridAll_eq]
    refine ⟨fun h hacc => ?_, fun h => hwrites.refused h now⟩
    obtain ⟨s', hs'⟩ := hwrites.done hacc now
    rw [h] at hs'
    cases hs'
  · rw [gridIdAll_eq_none, agree_none_iff]
    exact gridReturnGid_eq_none_iff env s a now value name dataVersion_
  · rw [floatLimited_eq, floatAll_eq]
    refine agree_iff (floatWith_writesFor env s value_ a none none) (fun s₁ s₂ h => ?_) _ _ now now'
    exact funext fun p => h.floats.countP_eq _

end Overloads

/-- A writer whose provider has the name and the namespace that are given. -/
def writer (user : String) (dataprovidernamespaceid : ℤ) : Environment where
  cat := { oneName with dataproviderMv := [⟨1, dataprovidernamespaceid, user, 1, 2⟩] }
  session := oneSession
  user := user
  dataprovidertype _ := "wci user"
  placeregulargridV := []

/-- Nothing is stored. -/
def nothing : State := ⟨⟨Db.empty, .empty, 1⟩, .empty⟩

/-- A value at the only place, of the only parameter. -/
def oneValue : Arguments :=
  ⟨some "place", some 0, some 0, some 0, some "air temperature", some "air temperature", some 0, some 0⟩

/-- The form with a grid id refuses what the one with all parameters writes; and a user whose provider
    is of another namespace can write with the limited form only. -/
theorem overloads_disagree :
    ¬ Agree (gridAll (writer "wdb" 1) nothing (some [1, 2, 3, 4]) (some "wdb") oneValue none none 0)
      (reserveAndWrite (writer "wdb" 1) nothing (some [1, 2, 3, 4]) (some "wdb") oneValue none none 0) ∧
    ¬ Agree (gridLimited (writer "wdb" 2) nothing (some [1, 2, 3, 4]) oneValue 0)
      (gridAll (writer "wdb" 2) nothing (some [1, 2, 3, 4]) (some "wdb") oneValue none none 0) := by
  constructor
  · have hnone : reserveAndWrite (writer "wdb" 1) nothing (some [1, 2, 3, 4]) (some "wdb") oneValue none
        none 0 = none := by
      simp [reserveAndWrite, gridIdAll_eq_none]
    have hsome : (gridAll (writer "wdb" 1) nothing (some [1, 2, 3, 4]) (some "wdb") oneValue none none
        0).isSome := by decide
    rw [hnone, agree_none_iff]
    intro h
    rw [h] at hsome
    cases hsome
  · have hnone : (gridAll (writer "wdb" 2) nothing (some [1, 2, 3, 4]) (some "wdb") oneValue none none
        0).isNone := by decide
    have hsome : (gridLimited (writer "wdb" 2) nothing (some [1, 2, 3, 4]) oneValue 0).isSome := by decide
    rw [Option.isNone_iff_eq_none.1 hnone, agree_none_iff]
    intro h
    rw [h] at hsome
    cases hsome

end Wdb.Write
