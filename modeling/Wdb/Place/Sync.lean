import Wdb.Place.Calls
import Wdb.Lib.Runs

/-! When the materialized views of places hold the rows of the views.

    The triggers maintain them place by place. What a statement leaves for a place is decided by the
    last trigger that touches it; a place that none touches must have kept its rows. -/

namespace Wdb.Place
open SqlTypes Store Relational Periods

section Synced
variable (gis : Gis)

/-- The materialized views hold exactly the rows of the views. -/
structure PlaceDb.InSync (db : PlaceDb) : Prop where
  placedefinition : db.placedefinitionMv.Perm (db.tables.placedefinitionV gis)
  placeregulargrid : db.placeregulargridMv.Perm (db.tables.placeregulargridV gis)

/-- They do so for one place. -/
def PlaceDb.SyncedAt (db : PlaceDb) (k : ℤ) : Prop :=
  (Mirror.fibre PlaceDefinitionV.placeid k db.placedefinitionMv).Perm
      (Mirror.fibre PlaceDefinitionV.placeid k (db.tables.placedefinitionV gis)) ∧
    (Mirror.fibre PlaceRegularGridV.placeid k db.placeregulargridMv).Perm
      (Mirror.fibre PlaceRegularGridV.placeid k (db.tables.placeregulargridV gis))

/-- The tables hold the same rows of a place. -/
structure PlaceTables.SameRows (t t' : PlaceTables) (k : ℤ) : Prop where
  placedefinition : Mirror.fibre PlaceDefinition.placeid k t'.placedefinition.rows =
    Mirror.fibre PlaceDefinition.placeid k t.placedefinition.rows
  placeregulargrid : Mirror.fibre PlaceRegularGrid.placeid k t'.placeregulargrid.rows =
    Mirror.fibre PlaceRegularGrid.placeid k t.placeregulargrid.rows
  placename : Mirror.fibre PlaceName.placeid k t'.placename.rows =
    Mirror.fibre PlaceName.placeid k t.placename.rows
  spatialRefSys : t'.spatialRefSys = t.spatialRefSys
  placeindeterminatetype : t'.placeindeterminatetype = t.placeindeterminatetype

variable {gis} {db db' : PlaceDb} {t t' : PlaceTables} {k : ℤ} {actions : List (Mirror.Action ℤ)}

theorem PlaceDb.inSync_iff : db.InSync gis ↔ ∀ k, db.SyncedAt gis k :=
  ⟨fun h k => ⟨(Mirror.perm_iff_fibres _).1 h.1 k, (Mirror.perm_iff_fibres _).1 h.2 k⟩,
    fun h => ⟨(Mirror.perm_iff_fibres _).2 fun k => (h k).1,
      (Mirror.perm_iff_fibres _).2 fun k => (h k).2⟩⟩

/-- A bare place has no grid. -/
theorem PlaceTables.Bare.no_grid (h : t.Bare k) : ∀ pg ∈ t.placeregulargrid.rows, pg.placeid ≠ k := by
  intro pg hpg hk
  obtain ⟨pd, hpd, hid⟩ := t.references.placeregulargrid_placeid pg hpg
  exact (h pd hpd (hid.trans hk)).2 pg hpg hk

/-- The views have no rows of a place exactly when it is bare. -/
theorem PlaceTables.bare_iff : (Mirror.fibre PlaceDefinitionV.placeid k (t.placedefinitionV gis) = [] ∧
    Mirror.fibre PlaceRegularGridV.placeid k (t.placeregulargridV gis) = []) ↔ t.Bare k :=
  ⟨fun h => fibre_placedefinitionV_eq_nil.1 h.1, fun h =>
    ⟨fibre_placedefinitionV_eq_nil.2 h, fibre_placeregulargridV_eq_nil h.no_grid⟩⟩

/-- The same rows of a place make the same rows of the views. -/
theorem PlaceTables.SameRows.views (h : t.SameRows t' k) :
    Mirror.fibre PlaceDefinitionV.placeid k (t'.placedefinitionV gis) =
      Mirror.fibre PlaceDefinitionV.placeid k (t.placedefinitionV gis) ∧
    Mirror.fibre PlaceRegularGridV.placeid k (t'.placeregulargridV gis) =
      Mirror.fibre PlaceRegularGridV.placeid k (t.placeregulargridV gis) := by
  unfold PlaceTables.placedefinitionV PlaceTables.placeregulargridV
  rw [fibre_placedefinitionV, fibre_placedefinitionV, fibre_placeregulargridV,
    fibre_placeregulargridV, h.placedefinition, h.placeregulargrid, h.placename, h.spatialRefSys,
    h.placeindeterminatetype]
  exact ⟨rfl, rfl⟩

/-! ### A place after the triggers -/

theorem PlaceDb.fire_refreshed (h : Mirror.lastOn k actions = some true) :
    (db.fire gis t actions).SyncedAt gis k := by
  unfold SyncedAt fire
  rw [Mirror.fibre_replay, Mirror.fibre_replay, h]
  exact ⟨List.Perm.refl _, List.Perm.refl _⟩

theorem PlaceDb.fire_cleared (h : Mirror.lastOn k actions = some false) :
    (db.fire gis t actions).SyncedAt gis k ↔ t.Bare k := by
  unfold SyncedAt fire
  rw [Mirror.fibre_replay, Mirror.fibre_replay, h]
  simp only [List.nil_perm]
  exact PlaceTables.bare_iff

/-- What is in sync and stays untouched has as many rows in the view as before. -/
theorem PlaceDb.length_of_untouched (h : Mirror.lastOn k actions = none) (hs : db.SyncedAt gis k)
    (hs' : (db.fire gis t actions).SyncedAt gis k) :
    (Mirror.fibre PlaceDefinitionV.placeid k (t.placedefinitionV gis)).length =
      (Mirror.fibre PlaceDefinitionV.placeid k (db.tables.placedefinitionV gis)).length := by
  unfold SyncedAt fire at hs'
  rw [Mirror.fibre_replay, Mirror.fibre_replay, h] at hs'
  exact hs'.1.length_eq.symm.trans hs.1.length_eq

theorem PlaceDb.fire_untouched (h : Mirror.lastOn k actions = none) (hs : db.SyncedAt gis k)
    (hsame : db.tables.SameRows t k) : (db.fire gis t actions).SyncedAt gis k := by
  unfold SyncedAt fire
  rw [Mirror.fibre_replay, Mirror.fibre_replay, h]
  dsimp only
  rw [hsame.views.1, hsame.views.2]
  exact hs

/-- A place that had no rows in the views is in sync, untouched, while it has none. -/
theorem PlaceDb.fire_defined (h : Mirror.lastOn k actions = none) (hs : db.SyncedAt gis k)
    (hbare : db.tables.Bare k) : (db.fire gis t actions).SyncedAt gis k ↔ t.Bare k := by
  obtain ⟨hpd, hpg⟩ := (@PlaceTables.bare_iff gis _ _).2 hbare
  unfold SyncedAt at hs
  rw [hpd, hpg, List.perm_nil, List.perm_nil] at hs
  unfold SyncedAt fire
  rw [Mirror.fibre_replay, Mirror.fibre_replay, h]
  dsimp only
  rw [hs.1, hs.2, List.nil_perm, List.nil_perm]
  exact PlaceTables.bare_iff

/-- A place that loses its rows in the views, untouched, was in sync and stays so when it had none. -/
theorem PlaceDb.fire_vacated (h : Mirror.lastOn k actions = none) (hs : db.SyncedAt gis k)
    (hbare : t.Bare k) : (db.fire gis t actions).SyncedAt gis k ↔ db.tables.Bare k := by
  obtain ⟨hpd, hpg⟩ := (@PlaceTables.bare_iff gis _ _).2 hbare
  unfold SyncedAt fire
  rw [Mirror.fibre_replay, Mirror.fibre_replay, h]
  dsimp only
  rw [hpd, hpg, List.perm_nil, List.perm_nil, ← @PlaceTables.bare_iff gis]
  constructor
  · rintro ⟨h₁, h₂⟩
    unfold SyncedAt at hs
    rw [h₁, h₂, List.nil_perm, List.nil_perm] at hs
    exact hs
  · rintro ⟨h₁, h₂⟩
    unfold SyncedAt at hs
    rw [h₁, h₂, List.perm_nil, List.perm_nil] at hs
    exact hs

/-! ### The rows of a place after a statement -/

section Rows
variable {α : Type} {key : α → ℤ} {l : List α} {p : α → Bool} {f : α → α}

/-- Rows that are moved away from a key are gone from it. -/
theorem fibre_updateRow (h : ∀ a ∈ l, p a → key (f a) ≠ k) :
    Mirror.fibre key k (l.map (Table.updateRow p f)) =
      Mirror.fibre key k (l.filter fun a => !p a) := by
  induction l with
  | nil => rfl
  | cons a l ih =>
    have ih := ih fun b hb => h b (List.mem_cons_of_mem _ hb)
    have ha := h a List.mem_cons_self
    unfold Mirror.fibre at ih ⊢
    by_cases hp : p a = true
    · simp [Table.updateRow, hp, ha hp, ih]
    · simp [Table.updateRow, hp, List.filter_cons, ih]

/-- Rows of other keys do not count. -/
theorem fibre_filter_not (h : ∀ a ∈ l, p a → key a ≠ k) :
    Mirror.fibre key k (l.filter fun a => !p a) = Mirror.fibre key k l := by
  unfold Mirror.fibre
  rw [List.filter_filter]
  refine List.filter_congr fun a ha => ?_
  by_cases hp : p a = true
  · simp [hp, h a ha hp]
  · simp [hp]

theorem fibre_concat {a : α} (h : key a ≠ k) :
    Mirror.fibre key k (l ++ [a]) = Mirror.fibre key k l := by
  simp [Mirror.fibre, h]

/-- A map that brings no rows to a key, takes none away and leaves those it has. -/
theorem fibre_map_of_stay (h : ∀ a ∈ l, (key (f a) = k ↔ key a = k) ∧ (key a = k → f a = a)) :
    Mirror.fibre key k (l.map f) = Mirror.fibre key k l := by
  induction l with
  | nil => rfl
  | cons a l ih =>
    have ih := ih fun b hb => h b (List.mem_cons_of_mem _ hb)
    obtain ⟨hiff, hself⟩ := h a List.mem_cons_self
    unfold Mirror.fibre at ih ⊢
    by_cases hk : key a = k
    · simp [hself hk, hk, ih]
    · simp [hk, hiff, ih]

/-- A place loses a name. -/
theorem length_fibre_filter_lt {a : α} (ha : a ∈ l) (hp : p a) (hk : key a = k) :
    (Mirror.fibre key k (l.filter fun a => !p a)).length < (Mirror.fibre key k l).length := by
  unfold Mirror.fibre
  rw [List.filter_comm, List.length_filter_lt_length_iff_exists]
  exact ⟨a, List.mem_filter.2 ⟨ha, by simpa using hk⟩, by simpa using hp⟩

end Rows

/-! ### The statements -/

/-- A new definition leaves the other places alone. -/
theorem PlaceDb.insertPlaceDefinition_syncedAt {pd : PlaceDefinition}
    (h : db.insertPlaceDefinition gis pd = some db') (hk : k ≠ pd.placeid)
    (hs : db.SyncedAt gis k) : db'.SyncedAt gis k := by
  obtain ⟨t, ht, rfl⟩ := Option.map_eq_some_iff.1 h
  obtain ⟨-, hl⟩ := PlaceTables.insertPlaceDefinition_eq_some ht
  refine fire_untouched rfl hs ⟨?_, by rw [hl.placeregulargrid], by rw [hl.placename],
    hl.spatialRefSys, hl.placeindeterminatetype⟩
  rw [hl.placedefinition, fibre_concat (Ne.symm hk)]

/-- A new definition that is no grid is missing in the materialized view. -/
theorem PlaceDb.insertPlaceDefinition_not_inSync {pd : PlaceDefinition}
    (h : db.insertPlaceDefinition gis pd = some db') (hgrid : pd.placegeometrytype ≠ .grid)
    (hs : db.InSync gis) : ¬ db'.InSync gis := by
  obtain ⟨t, ht, rfl⟩ := Option.map_eq_some_iff.1 h
  obtain ⟨hnew, hl⟩ := PlaceTables.insertPlaceDefinition_eq_some ht
  intro hs'
  have hbare : db.tables.Bare pd.placeid := fun d hd hk => absurd hk (hnew d hd)
  have hbare' := (fire_defined rfl (inSync_iff.1 hs pd.placeid) hbare).1 (inSync_iff.1 hs' pd.placeid)
  have hmem : pd ∈ t.placedefinition.rows := by rw [hl.placedefinition]; simp
  exact hgrid (hbare' pd hmem rfl).1

/-- A new grid leaves the other places alone. -/
theorem PlaceDb.insertPlaceRegularGrid_syncedAt {now : Timestamp} {pg : PlaceRegularGrid}
    (h : db.insertPlaceRegularGrid gis now pg = some db') (hk : k ≠ pg.placeid)
    (hs : db.SyncedAt gis k) : db'.SyncedAt gis k := by
  obtain ⟨t, ht, rfl⟩ := Option.map_eq_some_iff.1 h
  obtain ⟨pd, hpd, -, hl⟩ := PlaceTables.insertPlaceRegularGrid_eq_some ht
  refine fire_untouched rfl hs ⟨?_, ?_, by rw [hl.placename], hl.spatialRefSys,
    hl.placeindeterminatetype⟩
  · rw [hl.placedefinition, fibre_concat (hpd ▸ Ne.symm hk)]
  · rw [hl.placeregulargrid, fibre_concat (Ne.symm hk)]

/-- A new grid is missing in the materialized views. -/
theorem PlaceDb.insertPlaceRegularGrid_not_inSync {now : Timestamp} {pg : PlaceRegularGrid}
    (h : db.insertPlaceRegularGrid gis now pg = some db') (hs : db.InSync gis) :
    ¬ db'.InSync gis := by
  obtain ⟨t, ht, rfl⟩ := Option.map_eq_some_iff.1 h
  obtain ⟨pd, hpd, hnew, hl⟩ := PlaceTables.insertPlaceRegularGrid_eq_some ht
  intro hs'
  have hbare : db.tables.Bare pg.placeid := fun d hd hk => absurd hk (hnew d hd)
  have hbare' := (fire_defined rfl (inSync_iff.1 hs pg.placeid) hbare).1 (inSync_iff.1 hs' pg.placeid)
  refine hbare'.no_grid pg ?_ rfl
  rw [hl.placeregulargrid]
  simp

/-- A new name refreshes its place. -/
theorem PlaceDb.insertPlaceName_syncedAt {pn : PlaceName} (h : db.insertPlaceName gis pn = some db')
    (hs : k ≠ pn.placeid → db.SyncedAt gis k) : db'.SyncedAt gis k := by
  obtain ⟨t, ht, rfl⟩ := Option.map_eq_some_iff.1 h
  obtain ⟨-, hl⟩ := PlaceTables.insertPlaceName_eq_some ht
  by_cases hk : k = pn.placeid
  · subst hk
    exact fire_refreshed (by simp [Mirror.lastOn, updateplacespec, Mirror.Action.on])
  · refine fire_untouched ?_ (hs hk) ⟨by rw [hl.placedefinition], by rw [hl.placeregulargrid], ?_,
      hl.spatialRefSys, hl.placeindeterminatetype⟩
    · simp [Mirror.lastOn, updateplacespec, Mirror.Action.on, Ne.symm hk]
    · rw [hl.placename, fibre_concat (Ne.symm hk)]

/-- Names that are updated: a place that has lost one, and got none, must have been bare. -/
theorem PlaceDb.updatePlaceName_syncedAt {p : PlaceName → Bool} {f : PlaceName → Option PlaceName}
    (h : db.updatePlaceName gis p f = some db') (hs : db.SyncedAt gis k) :
    db'.SyncedAt gis k ↔ ∀ pn ∈ db.tables.placename.rows, p pn → pn.placeid = k →
      (∃ pn' ∈ db.tables.placename.rows, p pn' ∧ ((f pn').getD pn').placeid = k) ∨
        db.tables.Bare k := by
  obtain ⟨t, ht, rfl⟩ := Option.map_eq_some_iff.1 h
  obtain ⟨-, hl⟩ := PlaceTables.updatePlaceName_eq_some ht
  have hlast : Mirror.lastOn k ((db.tables.placename.rows.filter p).map fun pn =>
      updateplacespec ((f pn).getD pn).placeid) =
      if ∃ pn' ∈ db.tables.placename.rows, p pn' ∧ ((f pn').getD pn').placeid = k then some true
      else none := by
    rw [Mirror.lastOn_of_noClear (by simp [updateplacespec])]
    simp [updateplacespec, and_assoc]
  by_cases hget : ∃ pn' ∈ db.tables.placename.rows, p pn' ∧ ((f pn').getD pn').placeid = k
  · rw [if_pos hget] at hlast
    exact iff_of_true (fire_refreshed hlast) fun _ _ _ _ => Or.inl hget
  · rw [if_neg hget] at hlast
    have hmoved : Mirror.fibre PlaceName.placeid k t.placename.rows =
        Mirror.fibre PlaceName.placeid k (db.tables.placename.rows.filter fun pn => !p pn) := by
      rw [hl.placename]
      exact fibre_updateRow fun pn hpn hp hk => hget ⟨pn, hpn, hp, hk⟩
    by_cases hlose : ∃ pn ∈ db.tables.placename.rows, p pn ∧ pn.placeid = k
    · obtain ⟨pn, hpn, hp, hk⟩ := hlose
      have hbare : t.Bare k ↔ db.tables.Bare k := by
        unfold PlaceTables.Bare
        rw [hl.placedefinition, hl.placeregulargrid]
      constructor
      · intro hs'
        refine fun _ _ _ _ => Or.inr ?_
        obtain ⟨pd, hpd, hid⟩ := db.tables.references.placename_placeid pn hpn
        obtain rfl : k = pd.placeid := hk.symm.trans hid.symm
        have hpd' : pd ∈ t.placedefinition.rows := hl.placedefinition ▸ hpd
        have hlen := length_of_untouched hlast hs hs'
        have hlt := @length_fibre_filter_lt _ _ PlaceName.placeid _ _ _ hpn hp hk
        -- the view has lost rows, unless it had none
        rw [length_fibre_placedefinitionV t hpd', length_fibre_placedefinitionV db.tables hpd,
          hl.placeregulargrid, hmoved] at hlen
        rw [← @fibre_placedefinitionV_eq_nil gis, ← List.length_eq_zero_iff,
          length_fibre_placedefinitionV db.tables hpd, Nat.mul_eq_zero]
        refine Or.inl (by_contra fun hne => ?_)
        have := Nat.eq_of_mul_eq_mul_left (Nat.pos_of_ne_zero hne) hlen
        omega
      · intro hall
        have hb := (hall pn hpn hp hk).resolve_left hget
        exact (fire_defined hlast hs hb).2 (hbare.2 hb)
    · refine iff_of_true ?_ fun pn hpn hp hk => absurd ⟨pn, hpn, hp, hk⟩ hlose
      refine fire_untouched hlast hs ⟨by rw [hl.placedefinition], by rw [hl.placeregulargrid], ?_,
        hl.spatialRefSys, hl.placeindeterminatetype⟩
      rw [hmoved]
      exact fibre_filter_not fun pn hpn hp hk => hlose ⟨pn, hpn, hp, hk⟩

/-- An update of a grid refreshes everything. -/
theorem PlaceDb.updatePlaceRegularGrid_inSync {p : PlaceRegularGrid → Bool}
    {f : PlaceRegularGrid → Option PlaceRegularGrid} (h : db.updatePlaceRegularGrid gis p f = some db')
    (hs : db.InSync gis) : db'.InSync gis := by
  obtain ⟨t, ht, rfl⟩ := Option.map_eq_some_iff.1 h
  have hl := PlaceTables.updatePlaceRegularGrid_eq_some ht
  refine inSync_iff.2 fun k => ?_
  by_cases hany : ∃ pg ∈ db.tables.placeregulargrid.rows, p pg = true
  · refine fire_refreshed ?_
    rw [Mirror.lastOn_of_noClear (by simp [updateplacespec, refreshplacespec]), if_pos]
    simpa [refreshplacespec] using Or.inr hany
  · push Not at hany
    have hnone : db.tables.placeregulargrid.rows.filter p = [] :=
      List.filter_eq_nil_iff.2 hany
    rw [hnone]
    refine fire_untouched rfl (inSync_iff.1 hs k) ⟨by rw [hl.placedefinition], ?_,
      by rw [hl.placename], hl.spatialRefSys, hl.placeindeterminatetype⟩
    rw [hl.placeregulargrid, fibre_updateRow fun pg hpg hp => absurd hp (hany pg hpg),
      fibre_filter_not fun pg hpg hp => absurd hp (hany pg hpg)]

/-- Names that are deleted: their places lose all rows, and must have been bare. -/
theorem PlaceDb.deletePlaceName_syncedAt {p : PlaceName → Bool}
    (h : db.deletePlaceName gis p = some db') (hs : db.SyncedAt gis k) :
    db'.SyncedAt gis k ↔
      ∀ pn ∈ db.tables.placename.rows, p pn → pn.placeid = k → db.tables.Bare k := by
  obtain ⟨t, ht, rfl⟩ := Option.map_eq_some_iff.1 h
  have hl := PlaceTables.deletePlaceName_eq_some ht
  have hlast : Mirror.lastOn k ((db.tables.placename.rows.filter p).map fun pn =>
      updateplacespecDelete pn.placeid) =
      if ∃ pn ∈ db.tables.placename.rows, p pn ∧ pn.placeid = k then some false else none := by
    rw [Mirror.lastOn_of_clear fun a ha => ?_]
    · simp [updateplacespecDelete, and_assoc]
    · obtain ⟨pn, -, rfl⟩ := List.mem_map.1 ha
      exact ⟨_, rfl⟩
  have hbare : t.Bare k ↔ db.tables.Bare k := by
    unfold PlaceTables.Bare
    rw [hl.placedefinition, hl.placeregulargrid]
  by_cases hany : ∃ pn ∈ db.tables.placename.rows, p pn ∧ pn.placeid = k
  · rw [if_pos hany] at hlast
    obtain ⟨pn, hpn, hp, hk⟩ := hany
    rw [fire_cleared hlast, hbare]
    exact ⟨fun hb _ _ _ _ => hb, fun hall => hall pn hpn hp hk⟩
  · rw [if_neg hany] at hlast
    refine iff_of_true ?_ fun pn hpn hp hk => absurd ⟨pn, hpn, hp, hk⟩ hany
    refine fire_untouched hlast hs ⟨by rw [hl.placedefinition], by rw [hl.placeregulargrid], ?_,
      hl.spatialRefSys, hl.placeindeterminatetype⟩
    rw [hl.placename]
    exact fibre_filter_not fun pn hpn hp hk => hany ⟨pn, hpn, hp, hk⟩

/-- Grids that are deleted: their places lose all rows, and must have no definition but as a grid. -/
theorem PlaceDb.deletePlaceRegularGrid_syncedAt {p : PlaceRegularGrid → Bool}
    (h : db.deletePlaceRegularGrid gis p = some db') (hs : db.SyncedAt gis k) :
    db'.SyncedAt gis k ↔ ∀ pg ∈ db.tables.placeregulargrid.rows, p pg → pg.placeid = k →
      ∀ pd ∈ db.tables.placedefinition.rows, pd.placeid = k → pd.placegeometrytype = .grid := by
  obtain ⟨t, ht, rfl⟩ := Option.map_eq_some_iff.1 h
  have hl := PlaceTables.deletePlaceRegularGrid_eq_some ht
  have hlast : Mirror.lastOn k ((db.tables.placeregulargrid.rows.filter p).flatMap fun pg =>
      [updateplacespecDelete pg.placeid, updateplacespecDelete pg.placeid]) =
      if ∃ pg ∈ db.tables.placeregulargrid.rows, p pg ∧ pg.placeid = k then some false
      else none := by
    rw [Mirror.lastOn_of_clear fun a ha => ?_]
    · simp [updateplacespecDelete, and_assoc, @eq_comm _ k]
    · obtain ⟨pg, -, ha⟩ := List.mem_flatMap.1 ha
      exact ⟨pg.placeid, by simpa [updateplacespecDelete] using ha⟩
  by_cases hany : ∃ pg ∈ db.tables.placeregulargrid.rows, p pg ∧ pg.placeid = k
  · rw [if_pos hany] at hlast
    obtain ⟨pg, hpg, hp, hk⟩ := hany
    rw [fire_cleared hlast]
    unfold PlaceTables.Bare
    rw [hl.placedefinition, hl.placeregulargrid]
    refine ⟨fun hb _ _ _ _ pd hpd hid => (hb pd hpd hid).1, fun hall pd hpd hid =>
      ⟨hall pg hpg hp hk pd hpd hid, fun pg' hpg' hk' => ?_⟩⟩
    -- the grid of the place is the one that is deleted
    obtain ⟨hmem, hkeep⟩ := List.mem_filter.1 hpg'
    have heq : pg' = pg := db.tables.grid_unique hmem hpg (hk'.trans hk.symm)
    rw [heq, hp] at hkeep
    exact absurd hkeep (by simp)
  · rw [if_neg hany] at hlast
    refine iff_of_true ?_ fun pg hpg hp hk => absurd ⟨pg, hpg, hp, hk⟩ hany
    refine fire_untouched hlast hs ⟨by rw [hl.placedefinition], ?_, by rw [hl.placename],
      hl.spatialRefSys, hl.placeindeterminatetype⟩
    rw [hl.placeregulargrid]
    exact fibre_filter_not fun pg hpg hp hk => hany ⟨pg, hpg, hp, hk⟩

/-- A place that is deleted is cleared; the others are left alone. -/
theorem PlaceDb.deletePlaceDefinition_inSync {p : PlaceDefinition → Bool}
    (h : db.deletePlaceDefinition gis p = some db') (hs : db.InSync gis) : db'.InSync gis := by
  obtain ⟨t, ht, rfl⟩ := Option.map_eq_some_iff.1 h
  have hl := PlaceTables.deletePlaceDefinition_eq_some ht
  refine inSync_iff.2 fun k => ?_
  have hremoved : ∀ {j}, db.tables.removed p j = true ↔
      ∃ pd ∈ db.tables.placedefinition.rows, p pd ∧ pd.placeid = j := by
    simp [PlaceTables.removed]
  have hlast : Mirror.lastOn k
      (((db.tables.placedefinition.rows.filter p).map fun pd => updateplacespecDelete pd.placeid) ++
      ((db.tables.placeregulargrid.rows.filter fun pg => db.tables.removed p pg.placeid).flatMap
        fun pg => [updateplacespecDelete pg.placeid, updateplacespecDelete pg.placeid]) ++
      (db.tables.placename.rows.filter fun pn => db.tables.removed p pn.placeid).map fun pn =>
        updateplacespecDelete pn.placeid) =
      if db.tables.removed p k then some false else none := by
    rw [Mirror.lastOn_of_clear fun a ha => ?_]
    · refine if_congr ?_ rfl rfl
      simp only [List.mem_append, List.mem_map, List.mem_flatMap, List.mem_filter,
        updateplacespecDelete, Mirror.Action.clear.injEq]
      constructor
      · rintro ((⟨pd, ⟨hpd, hp⟩, hid⟩ | ⟨pg, ⟨-, hp⟩, hid⟩) | ⟨pn, ⟨-, hp⟩, hid⟩)
        · exact hremoved.2 ⟨pd, hpd, hp, hid⟩
        · have hid : k = pg.placeid := by simpa using hid
          exact hid ▸ hp
        · exact hid ▸ hp
      · intro hk
        obtain ⟨pd, hpd, hp, hid⟩ := hremoved.1 hk
        exact Or.inl (Or.inl ⟨pd, ⟨hpd, hp⟩, hid⟩)
    · simp only [List.mem_append, List.mem_map, List.mem_flatMap] at ha
      rcases ha with (⟨pd, -, rfl⟩ | ⟨pg, -, ha⟩) | ⟨pn, -, rfl⟩
      · exact ⟨_, rfl⟩
      · exact ⟨pg.placeid, by simpa [updateplacespecDelete] using ha⟩
      · exact ⟨_, rfl⟩
  by_cases hk : db.tables.removed p k = true
  · rw [if_pos hk] at hlast
    refine (fire_cleared hlast).2 fun pd hpd hid => ?_
    rw [hl.placedefinition] at hpd
    obtain ⟨hmem, hkeep⟩ := List.mem_filter.1 hpd
    obtain ⟨pd', hmem', hp, hid'⟩ := hremoved.1 hk
    rw [db.tables.place_unique hmem hmem' (hid.trans hid'.symm), hp] at hkeep
    exact absurd hkeep (by simp)
  · rw [if_neg hk] at hlast
    refine fire_untouched hlast (inSync_iff.1 hs k) ⟨?_, ?_, ?_, hl.spatialRefSys,
      hl.placeindeterminatetype⟩
    · rw [hl.placedefinition]
      exact fibre_filter_not fun pd hpd hp hid => hk (hremoved.2 ⟨pd, hpd, hp, hid⟩)
    · rw [hl.placeregulargrid]
      exact fibre_filter_not fun pg _ hp hid => hk (hid ▸ hp)
    · rw [hl.placename]
      exact fibre_filter_not fun pn _ hp hid => hk (hid ▸ hp)

section UpdateDefinition
variable {p : PlaceDefinition → Bool} {f : PlaceDefinition → Option PlaceDefinition} {j : ℤ}

/-- An update gives the id to a definition. -/
def PlaceTables.Takes (t : PlaceTables) (p : PlaceDefinition → Bool)
    (f : PlaceDefinition → Option PlaceDefinition) (k : ℤ) : Prop :=
  ∃ pd ∈ t.placedefinition.rows, p pd ∧ ((f pd).getD pd).placeid = k

/-- An update of definitions moves a grid. -/
def PlaceTables.MovesGrid (t : PlaceTables) (p : PlaceDefinition → Bool)
    (f : PlaceDefinition → Option PlaceDefinition) : Prop :=
  ∃ pg ∈ t.placeregulargrid.rows, t.moved p f pg.placeid ≠ pg.placeid

/-- A row whose place moves to `k` refers to a definition that takes `k`. -/
theorem PlaceTables.takes_of_moved (hj : ∃ pd ∈ t.placedefinition.rows, pd.placeid = j)
    (hne : t.moved p f j ≠ j) : t.Takes p f (t.moved p f j) := by
  obtain ⟨pd, hpd, rfl⟩ := hj
  rw [PlaceTables.moved_of_mem hpd] at hne ⊢
  unfold Table.updateRow at hne ⊢
  by_cases hp : p pd = true
  · rw [if_pos hp]
    exact ⟨pd, hpd, hp, rfl⟩
  · rw [if_neg hp] at hne
    exact absurd rfl hne

/-- Where no definition gives up or takes `k`, the same rows refer to it before and after. -/
theorem PlaceTables.moved_eq_iff (hj : ∃ pd ∈ t.placedefinition.rows, pd.placeid = j)
    (htakes : ¬ t.Takes p f k) (hgives : ¬ ∃ pd ∈ t.placedefinition.rows, p pd ∧ pd.placeid = k) :
    t.moved p f j = k ↔ j = k := by
  by_cases hne : t.moved p f j = j
  · rw [hne]
  · refine iff_of_false (fun hk => htakes (hk ▸ takes_of_moved hj hne)) ?_
    rintro rfl
    obtain ⟨pd, hpd, rfl⟩ := hj
    rw [PlaceTables.moved_of_mem hpd, Table.updateRow] at hne
    by_cases hp : p pd = true
    · exact hgives ⟨pd, hpd, hp, rfl⟩
    · rw [if_neg hp] at hne
      exact hne rfl

instance : Decidable (t.Takes p f k) :=
  inferInstanceAs (Decidable (∃ pd ∈ t.placedefinition.rows, _))

instance : Decidable (t.MovesGrid p f) :=
  inferInstanceAs (Decidable (∃ pg ∈ t.placeregulargrid.rows, _))

/-- The triggers of the update copy the places that are taken, or all places when a grid moves. -/
theorem PlaceDb.updatePlaceDefinition_lastOn (h : db.updatePlaceDefinition gis p f = some db') :
    ∃ t actions, db.tables.updatePlaceDefinition gis p f = some t ∧ db' = db.fire gis t actions ∧
      Mirror.lastOn k actions =
        if db.tables.Takes p f k ∨ db.tables.MovesGrid p f then some true else none := by
  obtain ⟨t, ht, rfl⟩ := Option.map_eq_some_iff.1 h
  refine ⟨t, _, ht, rfl, ?_⟩
  rw [Mirror.lastOn_of_noClear (by simp [updateplacespec, refreshplacespec])]
  refine if_congr ?_ rfl rfl
  simp only [List.mem_append, List.mem_map, List.mem_flatMap, List.mem_filter, updateplacespec,
    refreshplacespec, List.mem_cons, List.not_mem_nil, or_false, decide_eq_true_eq,
    Mirror.Action.refresh.injEq, reduceCtorEq, and_false, exists_false, false_or, or_true, and_true]
  constructor
  · rintro (((⟨pd, ⟨hpd, hp⟩, hk⟩ | ⟨pg, hpg, -⟩) | ⟨pn, ⟨hpn, hne⟩, rfl⟩) | ⟨pg, hpg⟩)
    · exact Or.inl ⟨pd, hpd, hp, hk⟩
    · exact Or.inr ⟨pg, hpg⟩
    · exact Or.inl (PlaceTables.takes_of_moved (db.tables.references.placename_placeid pn hpn) hne)
    · exact Or.inr ⟨pg, hpg⟩
  · rintro (⟨pd, hpd, hp, hk⟩ | ⟨pg, hpg⟩)
    · exact Or.inl (Or.inl (Or.inl ⟨pd, ⟨hpd, hp⟩, hk⟩))
    · exact Or.inr ⟨pg, hpg⟩

/-- Definitions that are updated: a place whose id is given up must have been bare, unless its id is
    taken or the update of a grid refreshes everything. -/
theorem PlaceDb.updatePlaceDefinition_syncedAt (h : db.updatePlaceDefinition gis p f = some db')
    (hs : db.SyncedAt gis k) : db'.SyncedAt gis k ↔
      ∀ pd ∈ db.tables.placedefinition.rows, p pd → pd.placeid = k →
        db.tables.Takes p f k ∨ db.tables.MovesGrid p f ∨ db.tables.Bare k := by
  obtain ⟨t, actions, ht, rfl, hlast⟩ := updatePlaceDefinition_lastOn (k := k) h
  have hl := PlaceTables.updatePlaceDefinition_eq_some ht
  by_cases hget : db.tables.Takes p f k ∨ db.tables.MovesGrid p f
  · rw [if_pos hget] at hlast
    exact iff_of_true (fire_refreshed hlast) fun _ _ _ _ => hget.imp_right Or.inl
  rw [if_neg hget] at hlast
  have htakes : ¬ db.tables.Takes p f k := fun h => hget (Or.inl h)
  have hleave : Mirror.fibre PlaceDefinition.placeid k t.placedefinition.rows =
      Mirror.fibre PlaceDefinition.placeid k
        (db.tables.placedefinition.rows.filter fun pd => !p pd) := by
    rw [hl.placedefinition]
    exact fibre_updateRow fun pd hpd hp hk => htakes ⟨pd, hpd, hp, hk⟩
  by_cases hgives : ∃ pd ∈ db.tables.placedefinition.rows, p pd ∧ pd.placeid = k
  · obtain ⟨pd, hpd, hp, hk⟩ := hgives
    have hbare : t.Bare k := by
      intro pd' hpd' hk'
      have hmem : pd' ∈ Mirror.fibre PlaceDefinition.placeid k t.placedefinition.rows :=
        List.mem_filter.2 ⟨hpd', by simpa using hk'⟩
      rw [hleave] at hmem
      obtain ⟨hold, hkeep⟩ := List.mem_filter.1 (List.mem_of_mem_filter hmem)
      rw [db.tables.place_unique hold hpd (hk'.trans hk.symm), hp] at hkeep
      exact absurd hkeep (by simp)
    rw [fire_vacated hlast hs hbare]
    refine ⟨fun hb _ _ _ _ => Or.inr (Or.inr hb), fun hall => ?_⟩
    rcases hall pd hpd hp hk with h₁ | h₂ | h₃
    · exact absurd (Or.inl h₁) hget
    · exact absurd (Or.inr h₂) hget
    · exact h₃
  · refine iff_of_true ?_ fun pd hpd hp hk => absurd ⟨pd, hpd, hp, hk⟩ hgives
    refine fire_untouched hlast hs ⟨?_, ?_, ?_, hl.spatialRefSys, hl.placeindeterminatetype⟩
    · rw [hleave]
      exact fibre_filter_not fun pd hpd hp hk => hgives ⟨pd, hpd, hp, hk⟩
    · rw [hl.placeregulargrid]
      refine fibre_map_of_stay fun pg hpg => ?_
      have hiff := PlaceTables.moved_eq_iff
        (db.tables.references.placeregulargrid_placeid pg hpg) htakes hgives
      exact ⟨hiff, fun hk => by rw [hiff.2 hk, ← hk]⟩
    · rw [hl.placename]
      refine fibre_map_of_stay fun pn hpn => ?_
      have hiff := PlaceTables.moved_eq_iff
        (db.tables.references.placename_placeid pn hpn) htakes hgives
      exact ⟨hiff, fun hk => by rw [hiff.2 hk, ← hk]⟩

end UpdateDefinition

end Synced

end Wdb.Place
