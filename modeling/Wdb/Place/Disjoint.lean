import Wdb.Place.Calls
import Wdb.Lib.Runs

/-! When the validity periods of a name are disjoint.

    A name stands for one place at a time when the periods of its rows do not overlap. The functions
    that write names compare the new period with the rows of the same place, or with those of other
    places, but seldom with both; what they leave out has to hold of the state they are called in. -/

namespace Wdb.Place
open SqlTypes Store Relational Periods

section Rows
variable {rows rows' : List PlaceName}

/-- The rows of each name and namespace have disjoint periods. -/
def DisjointRows (rows : List PlaceName) : Prop :=
  ∀ a ∈ rows, ∀ b ∈ rows, a ≠ b → a.Same b → ¬ a.valid.Overlaps b.valid

instance (rows : List PlaceName) : Decidable (DisjointRows rows) :=
  inferInstanceAs (Decidable (∀ a ∈ rows, ∀ b ∈ rows, _))

/-- Periods are disjoint exactly when a name has at most one row at every instant. -/
theorem disjointRows_iff : DisjointRows rows ↔ ∀ a ∈ rows, ∀ b ∈ rows, a.Same b →
    ∀ t, a.valid.Covers t → b.valid.Covers t → a = b := by
  constructor
  · intro h a ha b hb hsame t hta htb
    by_contra hne
    exact h a ha b hb hne hsame (Period.overlaps_iff.2 ⟨t, hta, htb⟩)
  · intro h a ha b hb hne hsame hover
    obtain ⟨t, hta, htb⟩ := Period.overlaps_iff.1 hover
    exact hne (h a ha b hb hsame t hta htb)

/-- The row has the name that a new row gets in a namespace. -/
def PlaceName.Stored (namespace_ : ℤ) (placeName : String) (pn : PlaceName) : Prop :=
  pn.placenamespaceid = namespace_ ∧ varchar 255 (lower placeName) = some pn.placename

instance (namespace_ : ℤ) (placeName : String) (pn : PlaceName) :
    Decidable (pn.Stored namespace_ placeName) := inferInstanceAs (Decidable (_ ∧ _))

/-- No row of the name has an instant between the bounds. -/
def FreeFor (rows : List PlaceName) (namespace_ : ℤ) (placeName : String)
    (placevalidfrom placevalidto : Timestamp) : Prop :=
  ∀ pn ∈ rows, pn.Stored namespace_ placeName → ¬ pn.valid.Touches placevalidfrom placevalidto

instance (rows : List PlaceName) (namespace_ : ℤ) (placeName : String)
    (placevalidfrom placevalidto : Timestamp) :
    Decidable (FreeFor rows namespace_ placeName placevalidfrom placevalidto) :=
  inferInstanceAs (Decidable (∀ pn ∈ rows, _))

/-- Where the rows of a selection get new bounds, no other row of the name has an instant between
    them. -/
def RoomFor (rows : List PlaceName) (p : PlaceName → Bool) (l u : PlaceName → Timestamp) : Prop :=
  ∀ a ∈ rows, p a → ∀ b ∈ rows, p b = false → a.Same b → ¬ b.valid.Touches (l a) (u a)

instance (rows : List PlaceName) (p : PlaceName → Bool) (l u : PlaceName → Timestamp) :
    Decidable (RoomFor rows p l u) :=
  inferInstanceAs (Decidable (∀ a ∈ rows, p a → ∀ b ∈ rows, _))

/-- Appending a row that is not there. -/
theorem disjointRows_concat {pn : PlaceName} (hnew : pn ∉ rows) : DisjointRows (rows ++ [pn]) ↔
    DisjointRows rows ∧ ∀ a ∈ rows, a.Same pn → ¬ a.valid.Overlaps pn.valid := by
  constructor
  · intro h
    refine ⟨fun a ha b hb => h a (List.mem_append_left _ ha) b (List.mem_append_left _ hb),
      fun a ha hsame => ?_⟩
    exact h a (List.mem_append_left _ ha) pn (by simp) (fun he => hnew (he ▸ ha)) hsame
  · rintro ⟨hrows, hpn⟩ a ha b hb hne hsame
    rcases List.mem_append.1 ha with ha | ha <;> rcases List.mem_append.1 hb with hb | hb
    · exact hrows a ha b hb hne hsame
    · rw [List.mem_singleton] at hb
      exact hb ▸ hpn a ha (hb ▸ hsame)
    · rw [List.mem_singleton] at ha
      exact fun hover => hpn b hb (ha ▸ hsame.symm) (ha ▸ hover.symm)
    · rw [List.mem_singleton] at ha hb
      exact absurd (ha.trans hb.symm) hne

/-- Replacing the rows by others that are different when they were. -/
theorem disjointRows_map {g : PlaceName → PlaceName}
    (hinj : ∀ a ∈ rows, ∀ b ∈ rows, a ≠ b → g a ≠ g b) : DisjointRows (rows.map g) ↔
    ∀ a ∈ rows, ∀ b ∈ rows, a ≠ b → (g a).Same (g b) → ¬ (g a).valid.Overlaps (g b).valid := by
  constructor
  · intro h a ha b hb hne
    exact h _ (List.mem_map_of_mem ha) _ (List.mem_map_of_mem hb) (hinj a ha b hb hne)
  · intro h a' ha' b' hb' hne
    obtain ⟨a, ha, rfl⟩ := List.mem_map.1 ha'
    obtain ⟨b, hb, rfl⟩ := List.mem_map.1 hb'
    exact h a ha b hb fun he => hne (he ▸ rfl)

end Rows

/-! ### Statements -/

section Statements
variable {gis : Gis} {c : Caller} {db db' : PlaceDb} {placeId : ℤ} {r : ℤ × PlaceDb}

/-- The rows of names after a definition is inserted. -/
theorem PlaceDb.insertPlaceDefinition_placename {pd : PlaceDefinition}
    (h : db.insertPlaceDefinition gis pd = some db') :
    db'.tables.placename.rows = db.tables.placename.rows ∧
      ∀ pn ∈ db.tables.placename.rows, pn.placeid ≠ pd.placeid := by
  obtain ⟨t, ht, rfl⟩ := Option.map_eq_some_iff.1 h
  obtain ⟨hnew, hl⟩ := PlaceTables.insertPlaceDefinition_eq_some ht
  refine ⟨hl.placename, fun pn hpn he => ?_⟩
  obtain ⟨d, hd, hid⟩ := db.tables.references.placename_placeid pn hpn
  exact hnew d hd (hid.trans he)

theorem PlaceDb.insertPlaceRegularGrid_placename {now : Timestamp} {pg : PlaceRegularGrid}
    (h : db.insertPlaceRegularGrid gis now pg = some db') :
    db'.tables.placename.rows = db.tables.placename.rows := by
  obtain ⟨t, ht, rfl⟩ := Option.map_eq_some_iff.1 h
  obtain ⟨pd, -, -, hl⟩ := PlaceTables.insertPlaceRegularGrid_eq_some ht
  exact hl.placename

theorem PlaceDb.deletePlaceName_placename {p : PlaceName → Bool}
    (h : db.deletePlaceName gis p = some db') :
    db'.tables.placename.rows = db.tables.placename.rows.filter fun pn => !p pn := by
  obtain ⟨t, ht, rfl⟩ := Option.map_eq_some_iff.1 h
  exact (PlaceTables.deletePlaceName_eq_some ht).placename

/-- The rows of names after a name is inserted. -/
theorem PlaceDb.insertName_placename {placeName : String} {placevalidfrom placevalidto : Timestamp}
    (h : db.insertName gis c placeId placeName placevalidfrom placevalidto = some r) :
    ∃ pn : PlaceName, pn.placeid = placeId ∧ pn.Stored c.namespace placeName ∧
      pn.valid.start = placevalidfrom ∧ pn.valid.stop = placevalidto ∧
      r.2.tables.placename.rows = db.tables.placename.rows ++ [pn] ∧
      ∀ a ∈ db.tables.placename.rows, ¬ sameStart a pn := by
  obtain ⟨-, pn, hpn, hins⟩ := insertName_eq_some h
  obtain ⟨hid, hns, hname, hstart, hstop⟩ := placeNameRow_eq_some hpn
  obtain ⟨t, ht, hr⟩ := Option.map_eq_some_iff.1 hins
  obtain ⟨hnew, hl⟩ := PlaceTables.insertPlaceName_eq_some ht
  exact ⟨pn, hid, ⟨hns, hname⟩, hstart, hstop, hr ▸ hl.placename, hnew⟩

/-- The rows of names after an update. -/
theorem PlaceDb.updatePlaceName_placename {p : PlaceName → Bool} {f : PlaceName → Option PlaceName}
    (h : db.updatePlaceName gis p f = some db') :
    (∀ pn ∈ db.tables.placename.rows, p pn → (f pn).isSome) ∧
      db'.tables.placename.rows =
        db.tables.placename.rows.map (Table.updateRow p fun pn => (f pn).getD pn) := by
  obtain ⟨t, ht, rfl⟩ := Option.map_eq_some_iff.1 h
  obtain ⟨hcheck, hl⟩ := PlaceTables.updatePlaceName_eq_some ht
  exact ⟨hcheck, hl.placename⟩

/-- Different rows are mapped to rows that differ in their starts. -/
theorem PlaceTables.not_sameStart_of_map {t t' : PlaceTables} {g : PlaceName → PlaceName}
    (h : t'.placename.rows = t.placename.rows.map g) {a b : PlaceName} (ha : a ∈ t.placename.rows)
    (hb : b ∈ t.placename.rows) (hne : a ≠ b) : ¬ sameStart (g a) (g b) := by
  have hpair := t'.placename.unique
  rw [h, List.pairwise_map] at hpair
  exact (Table.pairwise_iff_of_nodup (t.placename.nodup sameStart_refl)
    fun a b hn hs => hn ⟨hs.1.symm, Eq.symm hs.2⟩).1 hpair a ha b hb hne

/-- A name that is inserted keeps the periods disjoint exactly when no row of it is in the way. -/
theorem PlaceDb.insertName_disjoint {placeName : String} {placevalidfrom placevalidto : Timestamp}
    (h : db.insertName gis c placeId placeName placevalidfrom placevalidto = some r)
    (hd : DisjointRows db.tables.placename.rows) : DisjointRows r.2.tables.placename.rows ↔
      FreeFor db.tables.placename.rows c.namespace placeName placevalidfrom placevalidto := by
  obtain ⟨pn, -, ⟨hns, hname⟩, rfl, rfl, hrows, hnew⟩ := insertName_placename h
  have hmem : pn ∉ db.tables.placename.rows := fun hpn => hnew pn hpn (sameStart_refl pn)
  rw [hrows, disjointRows_concat hmem, and_iff_right hd]
  refine forall₂_congr fun a _ => imp_congr ?_ Iff.rfl
  unfold PlaceName.Same PlaceName.Stored
  rw [hns, hname, Option.some_inj, @eq_comm _ pn.placename]

section Update
variable {p : PlaceName → Bool} {l u : PlaceName → Timestamp} {now : Timestamp}

/-- The rows of names after an update of the periods. -/
theorem PlaceDb.updateValid_placename
    (h : db.updatePlaceName gis p (fun pn => pn.setValid (l pn) (u pn) now) = some db') :
    ∃ g : PlaceName → PlaceName, db'.tables.placename.rows = db.tables.placename.rows.map g ∧
      (∀ a ∈ db.tables.placename.rows, p a = false → g a = a) ∧
      ∀ a ∈ db.tables.placename.rows, p a → (g a).placeid = a.placeid ∧ (g a).Same a ∧
        (g a).valid.start = l a ∧ (g a).valid.stop = u a := by
  obtain ⟨hcheck, hrows⟩ := updatePlaceName_placename h
  refine ⟨_, hrows, fun a _ hp => by simp [Table.updateRow, hp], fun a ha hp => ?_⟩
  obtain ⟨a', ha'⟩ := Option.isSome_iff_exists.1 (hcheck a ha hp)
  obtain ⟨hid, hns, hname, hstart, hstop⟩ := PlaceName.setValid_eq_some ha'
  have hga : Table.updateRow p (fun pn => (pn.setValid (l pn) (u pn) now).getD pn) a = a' := by
    simp [Table.updateRow, hp, ha']
  rw [hga]
  exact ⟨hid, ⟨hns, hname⟩, hstart, hstop⟩

/-- The same, where nothing is done when no row is found. -/
theorem PlaceDb.updateIfAny_placename
    (h : db.updateIfAny gis p (fun pn => pn.setValid (l pn) (u pn) now) = some db') :
    ∃ g : PlaceName → PlaceName, db'.tables.placename.rows = db.tables.placename.rows.map g ∧
      (∀ a ∈ db.tables.placename.rows, p a = false → g a = a) ∧
      ∀ a ∈ db.tables.placename.rows, p a → (g a).placeid = a.placeid ∧ (g a).Same a ∧
        (g a).valid.start = l a ∧ (g a).valid.stop = u a := by
  unfold PlaceDb.updateIfAny at h
  split at h
  · exact updateValid_placename h
  · next hno =>
    have hno : ∀ a ∈ db.tables.placename.rows, p a = false := by simpa using hno
    refine ⟨id, by rw [List.map_id, Option.some_inj.1 h], fun _ _ _ => rfl, fun a ha hp => ?_⟩
    rw [hno a ha] at hp
    cases hp

/-- The rows of names after the rows of other places have made room. A row of the name had both bounds
    after those of the new period, or both before. -/
theorem PlaceDb.splitOthers_placename {placeName : String} {placevalidfrom placevalidto : Timestamp}
    (h : db.splitOthers gis c placeId placeName placevalidfrom placevalidto = some r)
    (hown : ∀ a ∈ db.tables.placename.rows, a.named c.namespace placeName → placeId ≠ a.placeid) :
    ∃ (pn : PlaceName) (g : PlaceName → PlaceName),
      (pn.placeid = placeId ∧ pn.Stored c.namespace placeName ∧
        pn.valid.start = placevalidfrom ∧ pn.valid.stop = placevalidto) ∧
      r.2.tables.placename.rows = db.tables.placename.rows.map g ++ [pn] ∧
      (∀ a ∈ db.tables.placename.rows, ¬ sameStart (g a) pn) ∧
      (∀ a ∈ db.tables.placename.rows, ∀ b ∈ db.tables.placename.rows, a ≠ b →
        ¬ sameStart (g a) (g b)) ∧
      (∀ a ∈ db.tables.placename.rows, a.named c.namespace placeName = false → g a = a) ∧
      ∀ a ∈ db.tables.placename.rows, a.named c.namespace placeName →
        (g a).placeid = a.placeid ∧ (g a).Same a ∧
        ((placevalidfrom < a.valid.start ∧ placevalidto < a.valid.stop ∧
            (g a).valid.start = placevalidto ∧ (g a).valid.stop = a.valid.stop) ∨
          (a.valid.start < placevalidfrom ∧ a.valid.stop < placevalidto ∧
            (g a).valid.start = a.valid.start ∧ (g a).valid.stop = placevalidfrom)) := by
  unfold PlaceDb.splitOthers at h
  dsimp only at h
  split at h
  · cases h
  next hext =>
  split at h
  · cases h
  next haround =>
  obtain ⟨db₁, h₁, h⟩ := Option.bind_eq_some_iff.1 h
  obtain ⟨db₂, h₂, h⟩ := Option.bind_eq_some_iff.1 h
  obtain ⟨g₁, hrows₁, hout₁, hin₁⟩ := updateIfAny_placename (l := fun _ => placevalidto)
    (u := fun pn => pn.valid.stop) h₁
  obtain ⟨g₂, hrows₂, hout₂, hin₂⟩ := updateIfAny_placename (l := fun pn => pn.valid.start)
    (u := fun _ => placevalidfrom) h₂
  obtain ⟨pn, hid, hstored, hstart, hstop, hrows, hnew⟩ := insertName_placename h
  have hmap : db₂.tables.placename.rows = db.tables.placename.rows.map fun a => g₂ (g₁ a) := by
    rw [hrows₂, hrows₁, List.map_map]
    rfl
  have hmem : ∀ a ∈ db.tables.placename.rows, g₁ a ∈ db₁.tables.placename.rows := fun a ha =>
    hrows₁ ▸ List.mem_map_of_mem ha
  refine ⟨pn, fun a => g₂ (g₁ a), ⟨hid, hstored, hstart, hstop⟩, by rw [hrows, hmap],
    fun a ha => hnew _ (hmap ▸ List.mem_map_of_mem ha),
    fun a ha b hb hne => PlaceTables.not_sameStart_of_map hmap ha hb hne, fun a ha hn => ?_,
    fun a ha hn => ?_⟩
  · have hstay : g₁ a = a := hout₁ a ha (by simp [hn])
    have hmem₁ := hmem a ha
    dsimp only
    rw [hstay] at hmem₁ ⊢
    exact hout₂ a hmem₁ (by simp [hn])
  · have hne := hown a ha hn
    simp only [List.any_eq_true, not_exists, not_and, Bool.and_eq_true, decide_eq_true_eq,
      PlaceName.extended, PlaceName.around] at hext haround
    have hext := hext a ha ⟨hn, hne⟩
    have haround := haround a ha ⟨hn, hne⟩
    by_cases hfrom : placevalidfrom ≤ a.valid.start
    · -- the row starts later at the stop of the new period, and is left alone after that
      have hto : placevalidto < a.valid.stop := not_le.1 (hext hfrom)
      have hlt : placevalidfrom < a.valid.start := not_le.1 fun hle => haround hle hto.le
      obtain ⟨hid₁, hsame₁, hstart₁, hstop₁⟩ := hin₁ a ha (by
        simp [hn, hne, PlaceName.early, hfrom, hto.le])
      have hstay : g₂ (g₁ a) = g₁ a := hout₂ _ (hmem a ha) (by
        simp [PlaceName.later, hstop₁, hto])
      dsimp only
      rw [hstay]
      exact ⟨hid₁, hsame₁, Or.inl ⟨hlt, hto, hstart₁, hstop₁⟩⟩
    · -- the row is left alone, and then stops at the start of the new period
      have hlt : a.valid.start < placevalidfrom := not_le.1 hfrom
      have hto : a.valid.stop < placevalidto := not_le.1 (haround hlt.le)
      have hstay : g₁ a = a := hout₁ a ha (by simp [PlaceName.early, hlt])
      have hmem₁ := hmem a ha
      dsimp only
      rw [hstay] at hmem₁ ⊢
      obtain ⟨hid₂, hsame₂, hstart₂, hstop₂⟩ := hin₂ a hmem₁ (by
        simp [hn, hne, PlaceName.later, hlt.le, hto.le])
      exact ⟨hid₂, hsame₂, Or.inr ⟨hlt, hto, hstart₂, hstop₂⟩⟩

/-- The rows of a name that an update has moved start at different instants. -/
theorem PlaceDb.updateValid_start_ne
    (h : db.updatePlaceName gis p (fun pn => pn.setValid (l pn) (u pn) now) = some db')
    {a b : PlaceName} (ha : a ∈ db.tables.placename.rows) (hb : b ∈ db.tables.placename.rows)
    (hpa : p a) (hpb : p b) (hne : a ≠ b) (hab : a.Same b) : l a ≠ l b := by
  obtain ⟨g, hrows, -, hin⟩ := updateValid_placename h
  obtain ⟨-, hsa, hla, -⟩ := hin a ha hpa
  obtain ⟨-, hsb, hlb, -⟩ := hin b hb hpb
  intro hlo
  refine PlaceTables.not_sameStart_of_map hrows ha hb hne ⟨⟨?_, ?_⟩, ?_⟩
  · rw [hsa.1, hsb.1, hab.1]
  · rw [hsa.2, hsb.2, hab.2]
  · rw [hla, hlb, hlo]

/-- An update of periods keeps them disjoint exactly when there is room for the rows that are updated,
    and their new periods do not meet. -/
theorem PlaceDb.updateValid_disjoint
    (h : db.updatePlaceName gis p (fun pn => pn.setValid (l pn) (u pn) now) = some db')
    (hd : DisjointRows db.tables.placename.rows) : DisjointRows db'.tables.placename.rows ↔
      RoomFor db.tables.placename.rows p l u ∧
      ∀ a ∈ db.tables.placename.rows, ∀ b ∈ db.tables.placename.rows, p a → p b → a ≠ b →
        a.Same b → ¬ ((l a < u b ∧ l b < u a) ∧ l a < u a ∧ l b < u b) := by
  obtain ⟨g, hrows, hout, hin⟩ := updateValid_placename h
  have hkey : ∀ a ∈ db.tables.placename.rows, (g a).Same a := fun a ha => by
    by_cases hp : p a = true
    · exact (hin a ha hp).2.1
    · rw [hout a ha (by simpa using hp)]
      exact ⟨rfl, rfl⟩
  have hsame : ∀ a ∈ db.tables.placename.rows, ∀ b ∈ db.tables.placename.rows,
      (g a).Same (g b) ↔ a.Same b := fun a ha b hb => by
    unfold PlaceName.Same
    rw [(hkey a ha).1, (hkey a ha).2, (hkey b hb).1, (hkey b hb).2]
  have hinj : ∀ a ∈ db.tables.placename.rows, ∀ b ∈ db.tables.placename.rows, a ≠ b →
      g a ≠ g b := fun a ha b hb hne he =>
    PlaceTables.not_sameStart_of_map hrows ha hb hne (by rw [he]; exact sameStart_refl _)
  rw [hrows, disjointRows_map hinj]
  constructor
  · intro hall
    refine ⟨fun a ha hp b hb hpb hab htouch => ?_, fun a ha b hb hp hpb hne hab => ?_⟩
    · have hne : b ≠ a := fun he => by rw [he, hp] at hpb; cases hpb
      refine hall b hb a ha hne ((hsame b hb a ha).2 hab.symm) ?_
      rw [hout b hb hpb]
      unfold Period.Overlaps
      rwa [(hin a ha hp).2.2.1, (hin a ha hp).2.2.2]
    · have hover := hall a ha b hb hne ((hsame a ha b hb).2 hab)
      unfold Period.Overlaps Period.Touches at hover
      rwa [(hin a ha hp).2.2.1, (hin a ha hp).2.2.2, (hin b hb hpb).2.2.1, (hin b hb hpb).2.2.2]
        at hover
  · rintro ⟨hroom, hpairs⟩ a ha b hb hne hab
    have hab := (hsame a ha b hb).1 hab
    by_cases hpa : p a = true <;> by_cases hpb : p b = true
    · have hpair := hpairs a ha b hb hpa hpb hne hab
      unfold Period.Overlaps Period.Touches
      rwa [(hin a ha hpa).2.2.1, (hin a ha hpa).2.2.2, (hin b hb hpb).2.2.1, (hin b hb hpb).2.2.2]
    · rw [Bool.not_eq_true] at hpb
      rw [Period.overlaps_comm, hout b hb hpb]
      unfold Period.Overlaps
      rw [(hin a ha hpa).2.2.1, (hin a ha hpa).2.2.2]
      exact hroom a ha hpa b hb hpb hab
    · rw [Bool.not_eq_true] at hpa
      rw [hout a ha hpa]
      unfold Period.Overlaps
      rw [(hin b hb hpb).2.2.1, (hin b hb hpb).2.2.2]
      exact hroom b hb hpb a ha hpa hab.symm
    · rw [Bool.not_eq_true] at hpa hpb
      rw [hout a ha hpa, hout b hb hpb]
      exact hd a ha b hb hne hab

end Update

end Statements

end Wdb.Place
