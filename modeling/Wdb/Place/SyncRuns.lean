import Wdb.Place.Sync

/-! The materialized views of places over runs of operations.

    The functions of the wci end with a trigger on `placename` that copies the place they have written,
    except where they write no name: in namespace 0 a new place is missing in the copies. -/

namespace Wdb.Place
open SqlTypes Store Relational Periods

section Calls
variable {gis : Gis} {c : Caller} {db db' : PlaceDb} {placeId k : ℤ} {r : ℤ × PlaceDb}

/-- Names that are updated within their places. -/
theorem PlaceDb.updatePlaceName_keeps {p : PlaceName → Bool} {f : PlaceName → Option PlaceName}
    (hf : ∀ pn pn', f pn = some pn' → pn'.placeid = pn.placeid)
    (h : db.updatePlaceName gis p f = some db') (hs : db.SyncedAt gis k) : db'.SyncedAt gis k := by
  refine (updatePlaceName_syncedAt h hs).2 fun pn hpn hp hk => Or.inl ⟨pn, hpn, hp, ?_⟩
  cases hfp : f pn with
  | none => exact hk
  | some pn' => exact (hf pn pn' hfp).trans hk

theorem setValid_placeid {placevalidfrom placevalidto : PlaceName → Timestamp} {now : Timestamp}
    (pn pn' : PlaceName)
    (h : pn.setValid (placevalidfrom pn) (placevalidto pn) now = some pn') :
    pn'.placeid = pn.placeid :=
  (PlaceName.setValid_eq_some h).1

/-- A new name ends a call in sync, when all other places are. -/
theorem PlaceDb.insertName_inSync {placeName : String} {placevalidfrom placevalidto : Timestamp}
    (h : db.insertName gis c placeId placeName placevalidfrom placevalidto = some r)
    (hs : ∀ k, k ≠ placeId → db.SyncedAt gis k) : r.2.InSync gis := by
  obtain ⟨-, pn, hpn, hins⟩ := insertName_eq_some h
  refine inSync_iff.2 fun k => insertPlaceName_syncedAt hins fun hk => hs k ?_
  rwa [(placeNameRow_eq_some hpn).1] at hk

theorem PlaceDb.updateOr_inSync {p : PlaceName → Bool} {f : PlaceName → Option PlaceName}
    {otherwise : PlaceDb → Option (ℤ × PlaceDb)}
    (hf : ∀ pn pn', f pn = some pn' → pn'.placeid = pn.placeid) (hs : db.InSync gis)
    (hother : otherwise db = some r → r.2.InSync gis)
    (h : db.updateOr gis placeId p f otherwise = some r) : r.2.InSync gis := by
  rcases updateOr_eq_some h with ⟨-, -, hupd⟩ | ⟨-, hoth⟩
  · exact inSync_iff.2 fun k => updatePlaceName_keeps hf hupd (inSync_iff.1 hs k)
  · exact hother hoth

theorem PlaceDb.updateSame_inSync {early later : PlaceName → Bool} {placeName : String}
    {placevalidfrom placevalidto : Timestamp} {otherwise : PlaceDb → Option (ℤ × PlaceDb)}
    (hs : db.InSync gis) (hother : otherwise db = some r → r.2.InSync gis)
    (h : db.updateSame gis c early later placeId placeName placevalidfrom placevalidto otherwise =
      some r) : r.2.InSync gis := by
  refine updateOr_inSync setValid_placeid hs ?_ h
  refine updateOr_inSync setValid_placeid hs ?_
  refine updateOr_inSync setValid_placeid hs ?_
  exact updateOr_inSync setValid_placeid hs hother

theorem PlaceDb.updateIfAny_syncedAt {p : PlaceName → Bool} {f : PlaceName → Option PlaceName}
    (hf : ∀ pn pn', f pn = some pn' → pn'.placeid = pn.placeid)
    (h : db.updateIfAny gis p f = some db') (hs : db.SyncedAt gis k) : db'.SyncedAt gis k := by
  unfold PlaceDb.updateIfAny at h
  split at h
  · exact updatePlaceName_keeps hf h hs
  · exact Option.some_inj.1 h ▸ hs

theorem PlaceDb.splitOthers_inSync {placeName : String} {placevalidfrom placevalidto : Timestamp}
    (h : db.splitOthers gis c placeId placeName placevalidfrom placevalidto = some r)
    (hs : ∀ k, k ≠ placeId → db.SyncedAt gis k) : r.2.InSync gis := by
  unfold PlaceDb.splitOthers at h
  dsimp only at h
  split at h
  · cases h
  split at h
  · cases h
  obtain ⟨db₁, h₁, h⟩ := Option.bind_eq_some_iff.1 h
  obtain ⟨db₂, h₂, h⟩ := Option.bind_eq_some_iff.1 h
  refine insertName_inSync h fun k hk => ?_
  exact updateIfAny_syncedAt setValid_placeid h₂ (updateIfAny_syncedAt setValid_placeid h₁ (hs k hk))

/-- A new place that gets a name is copied with it; one without a name is missing. -/
theorem PlaceDb.newPlace_inSync {pd : PlaceDefinition} {named : PlaceDb → Option (ℤ × PlaceDb)}
    (hgrid : pd.placegeometrytype ≠ .grid) (hs : db.InSync gis)
    (hnamed : ∀ db₁, (∀ k, k ≠ pd.placeid → db₁.SyncedAt gis k) → named db₁ = some r →
      r.2.InSync gis)
    (h : ((db.insertPlaceDefinition gis pd).bind fun db =>
      if c.namespace ≠ 0 then named db else some (pd.placeid, db)) = some r) :
    r.2.InSync gis ↔ c.namespace ≠ 0 := by
  obtain ⟨db₁, h₁, h⟩ := Option.bind_eq_some_iff.1 h
  by_cases hns : c.namespace ≠ 0
  · rw [if_pos hns] at h
    refine iff_of_true (hnamed db₁ (fun k hk => ?_) h) hns
    exact insertPlaceDefinition_syncedAt h₁ hk (inSync_iff.1 hs k)
  · rw [if_neg hns, Option.some_inj] at h
    refine iff_of_false ?_ hns
    rw [← h]
    exact insertPlaceDefinition_not_inSync h₁ hgrid hs

theorem addPlacePoint_inSync {placeName placeGeometry : String}
    {placevalidfrom placevalidto : Timestamp} (hs : db.InSync gis)
    (h : addPlacePoint gis c placeName placeGeometry placevalidfrom placevalidto db = some r) :
    r.2.InSync gis ↔ c.namespace ≠ 0 := by
  unfold addPlacePoint at h
  split at h
  · cases h
  split at h
  · cases h
  · exact PlaceDb.newPlace_inSync (by simp) hs (fun _ hs₁ h₁ => PlaceDb.insertName_inSync h₁ hs₁) h

theorem addOrUpdatePlacePoint_inSync {placeName placeGeometry : String}
    {placevalidfrom placevalidto : Timestamp} (hs : db.InSync gis)
    (h : addOrUpdatePlacePoint gis c placeName placeGeometry placevalidfrom placevalidto db = some r) :
    r.2.InSync gis ↔ c.namespace ≠ 0 ∨ (db.placeOfGeometry gis placeGeometry).isSome := by
  unfold addOrUpdatePlacePoint at h
  split at h
  · cases h
  cases hplace : db.placeOfGeometry gis placeGeometry with
  | none =>
    rw [hplace] at h
    rw [Option.isSome_none, Bool.false_eq_true, or_false]
    refine PlaceDb.newPlace_inSync (by simp) hs (fun db₁ hs₁ h₁ => ?_) h
    split at h₁
    · cases h₁
    · exact PlaceDb.insertName_inSync h₁ hs₁
  | some placeId =>
    rw [hplace] at h
    refine iff_of_true ?_ (Or.inr rfl)
    dsimp only at h
    split at h
    · refine PlaceDb.updateSame_inSync hs (fun h => ?_) h
      exact PlaceDb.insertName_inSync h fun k _ => PlaceDb.inSync_iff.1 hs k
    · cases h
      exact hs

theorem addPlacePolygon_inSync {placeName placeGeometry : String} (hs : db.InSync gis)
    (h : addPlacePolygon gis c placeName placeGeometry db = some r) : ¬ r.2.InSync gis := by
  unfold addPlacePolygon at h
  split at h
  · cases h
  split at h
  · cases h
  · obtain ⟨db₁, h₁, h⟩ := Option.bind_eq_some_iff.1 h
    split at h
    · cases h
    · cases h
      exact PlaceDb.insertPlaceDefinition_not_inSync h₁ (by simp) hs

theorem addOrUpdatePlacePolygon_inSync {placeName placeGeometry : String}
    {placevalidfrom placevalidto : Timestamp} (hs : db.InSync gis)
    (h : addOrUpdatePlacePolygon gis c placeName placeGeometry placevalidfrom placevalidto db =
      some r) :
    r.2.InSync gis ↔ c.namespace ≠ 0 ∨ (db.placeOfGeometry gis placeGeometry).isSome := by
  unfold addOrUpdatePlacePolygon at h
  split at h
  · cases h
  cases hplace : db.placeOfGeometry gis placeGeometry with
  | none =>
    rw [hplace] at h
    rw [Option.isSome_none, Bool.false_eq_true, or_false]
    exact PlaceDb.newPlace_inSync (by simp) hs
      (fun _ hs₁ h₁ => PlaceDb.splitOthers_inSync h₁ hs₁) h
  | some placeId =>
    rw [hplace] at h
    refine iff_of_true ?_ (Or.inr rfl)
    dsimp only at h
    split at h
    · refine PlaceDb.updateSame_inSync hs (fun h => ?_) h
      exact PlaceDb.splitOthers_inSync h fun k _ => PlaceDb.inSync_iff.1 hs k
    · cases h
      exact hs

theorem PlaceDb.nameOrRename_inSync {placeName : String} (hs : db.InSync gis)
    (h : db.nameOrRename gis c placeId placeName = some r) : r.2.InSync gis := by
  unfold PlaceDb.nameOrRename at h
  dsimp only at h
  split at h
  · obtain ⟨db₁, h₁, rfl⟩ := Option.map_eq_some_iff.1 h
    refine inSync_iff.2 fun k => updatePlaceName_keeps (fun pn pn' hf => ?_) h₁ (inSync_iff.1 hs k)
    exact (placeNameRow_eq_some hf).1
  · exact insertName_inSync h fun k _ => inSync_iff.1 hs k

theorem addPlaceRegularGrid_inSync {placeName : String} {numX numY : ℤ}
    {incX incY startX startY : ℚ} {projection : String} (hs : db.InSync gis)
    (h : addPlaceRegularGrid gis c placeName numX numY incX incY startX startY projection db =
      some r) :
    r.2.InSync gis ↔ c.namespace ≠ 0 ∨
      (db.placeOfGrid gis numX numY incX incY startX startY projection).isSome := by
  obtain ⟨srs, -, h⟩ := Option.bind_eq_some_iff.1 h
  cases hplace : db.placeOfGrid gis numX numY incX incY startX startY projection with
  | none =>
    rw [hplace] at h
    rw [Option.isSome_none, Bool.false_eq_true, or_false]
    obtain ⟨incrementx, -, h⟩ := Option.bind_eq_some_iff.1 h
    obtain ⟨incrementy, -, h⟩ := Option.bind_eq_some_iff.1 h
    obtain ⟨startx, -, h⟩ := Option.bind_eq_some_iff.1 h
    obtain ⟨starty, -, h⟩ := Option.bind_eq_some_iff.1 h
    obtain ⟨db₁, h₁, h⟩ := Option.bind_eq_some_iff.1 h
    by_cases hns : c.namespace ≠ 0
    · rw [if_pos hns] at h
      refine iff_of_true (PlaceDb.insertName_inSync h fun k hk => ?_) hns
      exact PlaceDb.insertPlaceRegularGrid_syncedAt h₁ hk (PlaceDb.inSync_iff.1 hs k)
    · rw [if_neg hns, Option.some_inj] at h
      refine iff_of_false ?_ hns
      rw [← h]
      exact PlaceDb.insertPlaceRegularGrid_not_inSync h₁ hs
  | some placeId =>
    rw [hplace] at h
    refine iff_of_true ?_ (Or.inr rfl)
    dsimp only at h
    split at h
    · exact PlaceDb.nameOrRename_inSync hs h
    · cases h
      exact hs

/-- The names that are deleted are those of the place that then gets its new name. -/
theorem setPlaceName_inSync {canonicalName placeName : String} (hs : db.InSync gis)
    (h : setPlaceName gis c canonicalName placeName db = some r) : r.2.InSync gis := by
  unfold setPlaceName at h
  split at h
  · cases h
  obtain ⟨placeId, -, h⟩ := Option.bind_eq_some_iff.1 h
  split at h
  · cases h
  obtain ⟨db₁, h₁, h⟩ := Option.bind_eq_some_iff.1 h
  refine PlaceDb.insertName_inSync h fun k hk => ?_
  refine (PlaceDb.deletePlaceName_syncedAt h₁ (PlaceDb.inSync_iff.1 hs k)).2 fun pn _ hp hid => ?_
  have hplace : pn.placeid = placeId := by simpa using (Bool.and_eq_true_iff.1 hp).2
  exact absurd (hid.symm.trans hplace) hk

end Calls

/-! ### Operations and runs -/

/-- The operations that keep the materialized views in sync when they succeed. -/
def Operation.KeepsSync (gis : Gis) (db : PlaceDb) : Operation → Prop
  | .addPlacePoint c _ _ _ _ => c.namespace ≠ 0
  | .addPlacePointFromToday c _ _ => c.namespace ≠ 0
  | .addOrUpdatePlacePoint c _ g _ _ => c.namespace ≠ 0 ∨ (db.placeOfGeometry gis g).isSome
  | .addPlacePolygon _ _ _ => False
  | .addOrUpdatePlacePolygon c _ g _ _ => c.namespace ≠ 0 ∨ (db.placeOfGeometry gis g).isSome
  | .addPlaceRegularGrid c _ nx ny ix iy sx sy projection =>
    c.namespace ≠ 0 ∨ (db.placeOfGrid gis nx ny ix iy sx sy projection).isSome
  | .setPlaceName _ _ _ => True
  -- every place that an updated name leaves gets an updated name again, or has no rows in the views
  | .updatePlaceName p f => ∀ pn ∈ db.tables.placename.rows, p pn →
      (∃ pn' ∈ db.tables.placename.rows, p pn' ∧ ((f pn').getD pn').placeid = pn.placeid) ∨
        db.tables.Bare pn.placeid
  -- every id that is given up is taken again, or a grid moves, or the place has no rows in the views
  | .updatePlaceDefinition p f => ∀ pd ∈ db.tables.placedefinition.rows, p pd →
      db.tables.Takes p f pd.placeid ∨ db.tables.MovesGrid p f ∨ db.tables.Bare pd.placeid
  | .updatePlaceRegularGrid _ _ => True
  | .deletePlaceName p => ∀ pn ∈ db.tables.placename.rows, p pn → db.tables.Bare pn.placeid
  | .deletePlaceDefinition _ => True
  | .deletePlaceRegularGrid p => ∀ pg ∈ db.tables.placeregulargrid.rows, p pg →
      ∀ pd ∈ db.tables.placedefinition.rows, pd.placeid = pg.placeid →
        pd.placegeometrytype = .grid

/-- What a successful operation does to the materialized views. -/
theorem Operation.perform_inSync {gis : Gis} {db db' : PlaceDb} {op : Operation}
    (hs : db.InSync gis) (h : op.perform gis db = some db') :
    db'.InSync gis ↔ op.KeepsSync gis db := by
  cases op with
  | addPlacePoint c name g from_ to_ =>
    obtain ⟨r, hr, rfl⟩ := Option.map_eq_some_iff.1 h
    exact addPlacePoint_inSync hs hr
  | addPlacePointFromToday c name g =>
    obtain ⟨r, hr, rfl⟩ := Option.map_eq_some_iff.1 h
    exact addPlacePoint_inSync hs hr
  | addOrUpdatePlacePoint c name g from_ to_ =>
    obtain ⟨r, hr, rfl⟩ := Option.map_eq_some_iff.1 h
    exact addOrUpdatePlacePoint_inSync hs hr
  | addPlacePolygon c name g =>
    obtain ⟨r, hr, rfl⟩ := Option.map_eq_some_iff.1 h
    exact iff_of_false (addPlacePolygon_inSync hs hr) id
  | addOrUpdatePlacePolygon c name g from_ to_ =>
    obtain ⟨r, hr, rfl⟩ := Option.map_eq_some_iff.1 h
    exact addOrUpdatePlacePolygon_inSync hs hr
  | addPlaceRegularGrid c name nx ny ix iy sx sy projection =>
    obtain ⟨r, hr, rfl⟩ := Option.map_eq_some_iff.1 h
    exact addPlaceRegularGrid_inSync hs hr
  | setPlaceName c canonical name =>
    obtain ⟨r, hr, rfl⟩ := Option.map_eq_some_iff.1 h
    exact iff_of_true (setPlaceName_inSync hs hr) trivial
  | updatePlaceName p f =>
    rw [PlaceDb.inSync_iff]
    constructor
    · intro hall pn hpn hp
      exact (PlaceDb.updatePlaceName_syncedAt h (PlaceDb.inSync_iff.1 hs _)).1 (hall _) pn hpn hp rfl
    · intro hkeep k
      refine (PlaceDb.updatePlaceName_syncedAt h (PlaceDb.inSync_iff.1 hs k)).2 ?_
      rintro pn hpn hp rfl
      exact hkeep pn hpn hp
  | updatePlaceDefinition p f =>
    rw [PlaceDb.inSync_iff]
    constructor
    · intro hall pd hpd hp
      exact (PlaceDb.updatePlaceDefinition_syncedAt h (PlaceDb.inSync_iff.1 hs _)).1 (hall _)
        pd hpd hp rfl
    · intro hkeep k
      refine (PlaceDb.updatePlaceDefinition_syncedAt h (PlaceDb.inSync_iff.1 hs k)).2 ?_
      rintro pd hpd hp rfl
      exact hkeep pd hpd hp
  | updatePlaceRegularGrid p f =>
    exact iff_of_true (PlaceDb.updatePlaceRegularGrid_inSync h hs) trivial
  | deletePlaceName p =>
    rw [PlaceDb.inSync_iff]
    constructor
    · intro hall pn hpn hp
      exact (PlaceDb.deletePlaceName_syncedAt h (PlaceDb.inSync_iff.1 hs _)).1 (hall _) pn hpn hp rfl
    · intro hkeep k
      refine (PlaceDb.deletePlaceName_syncedAt h (PlaceDb.inSync_iff.1 hs k)).2 ?_
      rintro pn hpn hp rfl
      exact hkeep pn hpn hp
  | deletePlaceDefinition p =>
    exact iff_of_true (PlaceDb.deletePlaceDefinition_inSync h hs) trivial
  | deletePlaceRegularGrid p =>
    rw [PlaceDb.inSync_iff]
    constructor
    · intro hall pg hpg hp
      exact (PlaceDb.deletePlaceRegularGrid_syncedAt h (PlaceDb.inSync_iff.1 hs _)).1 (hall _)
        pg hpg hp rfl
    · intro hkeep k
      refine (PlaceDb.deletePlaceRegularGrid_syncedAt h (PlaceDb.inSync_iff.1 hs k)).2 ?_
      rintro pg hpg hp rfl
      exact hkeep pg hpg hp

/-- Over every run of operations the materialized views hold the rows of the views in every state
    exactly when each operation raises, or is one that keeps them. -/
theorem placeMv_inSync_iff (gis : Gis) (l : List Operation) (db : PlaceDb) (h : db.InSync gis) :
    (∀ p, p <+: l → (Runs.run (PlaceDb.step gis) db p).InSync gis) ↔
      Runs.Each (PlaceDb.step gis) (fun db op => op.perform gis db = none ∨ op.KeepsSync gis db)
        db l := by
  refine Runs.always_iff_each_all (PlaceDb.step gis) (PlaceDb.InSync gis) (fun db op hs => ?_) l db h
  unfold PlaceDb.step
  cases hop : op.perform gis db with
  | none => exact iff_of_true hs (Or.inl rfl)
  | some db' =>
    rw [Option.getD_some, Operation.perform_inSync hs hop, or_iff_right (by simp)]

/-- A point is named in namespace 1 and deleted. -/
def deletedPoint : List Operation :=
  [.addPlacePoint (callerOf 1) "place" "POINT(10 60)" (.at 0) (.at 10),
    .deletePlaceDefinition fun _ => true]

theorem placeMv_inSync_deleted :
    (Runs.run (PlaceDb.step plainGis) noPlaces (deletedPoint.take 1)).placedefinitionMv ≠ [] ∧
    ∀ p, p <+: deletedPoint → (Runs.run (PlaceDb.step plainGis) noPlaces p).InSync plainGis :=
  ⟨by decide, (placeMv_inSync_iff plainGis deletedPoint noPlaces ⟨List.Perm.refl _, List.Perm.refl _⟩).2
    ⟨Or.inr (show (1 : ℤ) ≠ 0 by decide), Or.inr trivial, trivial⟩⟩

/-- A point that is added in namespace 0 is missing in the materialized view; and when the only name of
    a point is deleted, its canonical row goes with it. -/
theorem placeMv_outOfSync :
    ¬ (Runs.run (PlaceDb.step plainGis) noPlaces
      [.addPlacePoint (callerOf 0) "place" "POINT(10 60)" (.at 0) (.at 10)]).InSync plainGis ∧
    ¬ (Runs.run (PlaceDb.step plainGis) noPlaces
      [.addPlacePoint (callerOf 1) "place" "POINT(10 60)" (.at 0) (.at 10),
        .deletePlaceName fun pn => pn.placename = "place"]).InSync plainGis :=
  ⟨fun h => absurd h.placedefinition.length_eq (by decide),
    fun h => absurd h.placedefinition.length_eq (by decide)⟩

end Wdb.Place
