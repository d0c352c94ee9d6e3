import Wdb.Place.Disjoint

/-! The periods of names over runs of calls.

    Each branch of a function moves some bounds of the rows it has found. The periods stay disjoint
    exactly when no row that the branch has not looked at is in the way. -/

namespace Wdb.Place
open SqlTypes Store Relational Periods

section Branches
variable {gis : Gis} {c : Caller} {db db' : PlaceDb} {placeId : ℤ} {r : ℤ × PlaceDb}
  {p : PlaceName → Bool} {placevalidfrom placevalidto now : Timestamp}

/-- Rows that get one start: there is one of each name. -/
theorem PlaceDb.setStart_disjoint {u : PlaceName → Timestamp}
    (h : db.updatePlaceName gis p (fun pn => pn.setValid placevalidfrom (u pn) now) = some db')
    (hd : DisjointRows db.tables.placename.rows) : DisjointRows db'.tables.placename.rows ↔
      RoomFor db.tables.placename.rows p (fun _ => placevalidfrom) u := by
  have hone := fun a ha b hb hpa hpb hne hab =>
    updateValid_start_ne (l := fun _ => placevalidfrom) h (a := a) (b := b) ha hb hpa hpb hne hab rfl
  rw [updateValid_disjoint (l := fun _ => placevalidfrom) h hd]
  exact and_iff_left fun a ha b hb hpa hpb hne hab => (hone a ha b hb hpa hpb hne hab).elim

/-- A row that shrinks to a period inside its own. -/
theorem PlaceDb.shrink_disjoint
    (h : db.updatePlaceName gis p (fun pn => pn.setValid placevalidfrom placevalidto now) = some db')
    (hp : ∀ pn, p pn → pn.around placevalidfrom placevalidto)
    (hd : DisjointRows db.tables.placename.rows) : DisjointRows db'.tables.placename.rows := by
  refine (setStart_disjoint (u := fun _ => placevalidto) h hd).2 fun a ha hpa b hb hpb hab htouch => ?_
  have hne : a ≠ b := fun he => by rw [← he, hpa] at hpb; cases hpb
  have haround := hp a hpa
  simp only [PlaceName.around, Bool.and_eq_true, decide_eq_true_eq] at haround
  refine hd a ha b hb hne hab (Period.overlaps_comm.1 ?_)
  obtain ⟨x, hx, hfrom, hto⟩ := Period.touches_iff.1 htouch
  exact Period.touches_iff.2 ⟨x, hx, haround.1.trans hfrom, hto.trans_le haround.2⟩

/-- Of two rows of the name that are found, one starts at the new stop. -/
def OneAt (rows : List PlaceName) (p : PlaceName → Bool) (placevalidto : Timestamp) : Prop :=
  ∀ a ∈ rows, ∀ b ∈ rows, p a → p b → a ≠ b → a.valid.start = placevalidto ∨ b.valid.start = placevalidto

instance (rows : List PlaceName) (p : PlaceName → Bool) (placevalidto : Timestamp) :
    Decidable (OneAt rows p placevalidto) :=
  inferInstanceAs (Decidable (∀ a ∈ rows, ∀ b ∈ rows, _))

/-- Rows of one name that get one stop. -/
theorem PlaceDb.setStop_disjoint
    (h : db.updatePlaceName gis p (fun pn => pn.setValid pn.valid.start placevalidto now) = some db')
    (hp : ∀ a b, p a → p b → a.Same b) (hd : DisjointRows db.tables.placename.rows) :
    DisjointRows db'.tables.placename.rows ↔
      RoomFor db.tables.placename.rows p (fun pn => pn.valid.start) (fun _ => placevalidto) ∧
      OneAt db.tables.placename.rows p placevalidto := by
  rw [updateValid_disjoint (l := fun pn => pn.valid.start) (u := fun _ => placevalidto) h hd]
  refine and_congr Iff.rfl ?_
  have hle : ∀ a ∈ db.tables.placename.rows, p a → a.valid.start ≤ placevalidto := by
    intro a ha hpa
    obtain ⟨g, -, -, hin⟩ := updateValid_placename (l := fun pn => pn.valid.start)
      (u := fun _ => placevalidto) h
    obtain ⟨-, -, hstart, hstop⟩ := hin a ha hpa
    exact hstart ▸ hstop ▸ (g a).valid.le
  refine forall₂_congr fun a ha => forall₂_congr fun b hb => forall₂_congr fun hpa hpb =>
    forall_congr' fun hne => ?_
  have hla := hle a ha hpa
  have hlb := hle b hb hpb
  rw [forall_prop_of_true (hp a b hpa hpb)]
  grind

/-- What the branches for the same place need to keep the periods disjoint. -/
def UpdatesApart (c : Caller) (rows : List PlaceName) (early later : PlaceName → Bool) (placeId : ℤ)
    (placeName : String) (placevalidfrom placevalidto : Timestamp) (otherwise : Prop) : Prop :=
  let same := PlaceName.ofPlace c placeId placeName
  if ∃ pn ∈ rows, same pn && pn.extended placevalidfrom placevalidto then
    RoomFor rows (fun pn => same pn && pn.extended placevalidfrom placevalidto)
      (fun _ => placevalidfrom) (fun _ => placevalidto)
  else if ∃ pn ∈ rows, same pn && pn.around placevalidfrom placevalidto then True
  else if ∃ pn ∈ rows, same pn && early pn then
    RoomFor rows (fun pn => same pn && early pn) (fun _ => placevalidfrom) (fun pn => pn.valid.stop)
  else if ∃ pn ∈ rows, same pn && later pn then
    RoomFor rows (fun pn => same pn && later pn) (fun pn => pn.valid.start) (fun _ => placevalidto) ∧
      OneAt rows (fun pn => same pn && later pn) placevalidto
  else otherwise

theorem PlaceName.same_of_ofPlace {placeName : String} {a b : PlaceName}
    (ha : PlaceName.ofPlace c placeId placeName a) (hb : PlaceName.ofPlace c placeId placeName b) :
    a.Same b := by
  simp only [PlaceName.ofPlace, PlaceName.named, Bool.and_eq_true, decide_eq_true_eq] at ha hb
  exact ⟨ha.1.2.trans hb.1.2.symm, ha.1.1.trans hb.1.1.symm⟩

/-- The branches for the same place keep the periods disjoint exactly when there is room. -/
theorem PlaceDb.updateSame_disjoint {early later : PlaceName → Bool} {placeName : String}
    {otherwise : PlaceDb → Option (ℤ × PlaceDb)} {apart : Prop}
    (h : db.updateSame gis c early later placeId placeName placevalidfrom placevalidto otherwise =
      some r)
    (hd : DisjointRows db.tables.placename.rows)
    (hother : (∀ pn ∈ db.tables.placename.rows, PlaceName.ofPlace c placeId placeName pn →
        ¬ pn.extended placevalidfrom placevalidto ∧ ¬ pn.around placevalidfrom placevalidto ∧
          ¬ early pn ∧ ¬ later pn) → otherwise db = some r →
      (DisjointRows r.2.tables.placename.rows ↔ apart)) :
    DisjointRows r.2.tables.placename.rows ↔
      UpdatesApart c db.tables.placename.rows early later placeId placeName placevalidfrom
        placevalidto apart := by
  unfold UpdatesApart
  dsimp only
  rcases updateOr_eq_some h with ⟨hany, -, hupd⟩ | ⟨hno₁, h⟩
  · rw [if_pos hany]
    exact setStart_disjoint (u := fun _ => placevalidto) hupd hd
  rw [if_neg (by simpa using hno₁)]
  rcases updateOr_eq_some h with ⟨hany, -, hupd⟩ | ⟨hno₂, h⟩
  · rw [if_pos hany]
    exact iff_of_true (shrink_disjoint hupd (fun pn hp => (Bool.and_eq_true_iff.1 hp).2) hd) trivial
  rw [if_neg (by simpa using hno₂)]
  rcases updateOr_eq_some h with ⟨hany, -, hupd⟩ | ⟨hno₃, h⟩
  · rw [if_pos hany]
    exact setStart_disjoint hupd hd
  rw [if_neg (by simpa using hno₃)]
  rcases updateOr_eq_some h with ⟨hany, -, hupd⟩ | ⟨hno₄, h⟩
  · rw [if_pos hany]
    refine setStop_disjoint hupd (fun a b ha hb => ?_) hd
    exact PlaceName.same_of_ofPlace (Bool.and_eq_true_iff.1 ha).1 (Bool.and_eq_true_iff.1 hb).1
  rw [if_neg (by simpa using hno₄)]
  refine hother (fun pn hpn hp => ?_) h
  have h₁ := hno₁ pn hpn
  have h₂ := hno₂ pn hpn
  have h₃ := hno₃ pn hpn
  have h₄ := hno₄ pn hpn
  rw [hp, Bool.true_and] at h₁ h₂ h₃ h₄
  simp [h₁, h₂, h₃, h₄]

/-- What the rows of other places need to be split apart: at most one has the earlier bounds, and a
    name that is cut to its column is free. -/
def SplitsApart (c : Caller) (rows : List PlaceName) (placeName : String)
    (placevalidfrom placevalidto : Timestamp) : Prop :=
  (∀ a ∈ rows, ∀ b ∈ rows, a.named c.namespace placeName → b.named c.namespace placeName →
    a.later placevalidfrom placevalidto → b.later placevalidfrom placevalidto → a = b) ∧
  (varchar 255 (lower placeName) = some (lower placeName) ∨
    FreeFor rows c.namespace placeName placevalidfrom placevalidto)

instance (rows : List PlaceName) (placeName : String) (placevalidfrom placevalidto : Timestamp) :
    Decidable (SplitsApart c rows placeName placevalidfrom placevalidto) :=
  inferInstanceAs (Decidable (_ ∧ _))

theorem PlaceName.named_iff {namespace_ : ℤ} {placeName : String} {pn : PlaceName} :
    pn.named namespace_ placeName ↔ pn.placenamespaceid = namespace_ ∧ pn.placename = lower placeName := by
  simp [PlaceName.named, and_comm]

theorem PlaceName.named_of_stored {namespace_ : ℤ} {placeName : String} {pn : PlaceName}
    (hfits : varchar 255 (lower placeName) = some (lower placeName))
    (h : pn.Stored namespace_ placeName) : pn.named namespace_ placeName :=
  PlaceName.named_iff.2 ⟨h.1, Option.some_inj.1 (h.2.symm.trans hfits)⟩

theorem PlaceDb.splitOthers_disjoint {placeName : String}
    (h : db.splitOthers gis c placeId placeName placevalidfrom placevalidto = some r)
    (hown : ∀ a ∈ db.tables.placename.rows, a.named c.namespace placeName → placeId ≠ a.placeid)
    (hd : DisjointRows db.tables.placename.rows) : DisjointRows r.2.tables.placename.rows ↔
      SplitsApart c db.tables.placename.rows placeName placevalidfrom placevalidto := by
  obtain ⟨pn, g, ⟨-, hstored, rfl, rfl⟩, hrows, hnew, hdiff, hout, hin⟩ :=
    splitOthers_placename h hown
  have hkey : ∀ a ∈ db.tables.placename.rows, (g a).Same a := fun a ha => by
    by_cases hn : a.named c.namespace placeName = true
    · exact (hin a ha hn).2.1
    · rw [hout a ha (by simpa using hn)]
      exact ⟨rfl, rfl⟩
  have hsame : ∀ a ∈ db.tables.placename.rows, ∀ b ∈ db.tables.placename.rows,
      (g a).Same (g b) ↔ a.Same b := fun a ha b hb => by
    unfold PlaceName.Same
    rw [(hkey a ha).1, (hkey a ha).2, (hkey b hb).1, (hkey b hb).2]
  have hpn : pn ∉ db.tables.placename.rows.map g := fun hmem => by
    obtain ⟨a, ha, rfl⟩ := List.mem_map.1 hmem
    exact hnew a ha (sameStart_refl _)
  have hle := pn.valid.le
  rw [hrows, disjointRows_concat hpn, disjointRows_map fun a ha b hb hne he =>
    hdiff a ha b hb hne (by rw [he]; exact sameStart_refl _)]
  constructor
  · rintro ⟨hpairs, hall⟩
    refine ⟨fun a ha b hb hna hnb hla hlb => by_contra fun hne => ?_, ?_⟩
    · have hab : a.Same b := by
        obtain ⟨h₁, h₂⟩ := PlaceName.named_iff.1 hna
        obtain ⟨h₃, h₄⟩ := PlaceName.named_iff.1 hnb
        exact ⟨h₁.trans h₃.symm, h₂.trans h₄.symm⟩
      refine hpairs a ha b hb hne ((hsame a ha b hb).2 hab) ?_
      obtain ⟨-, -, hga⟩ := hin a ha hna
      obtain ⟨-, -, hgb⟩ := hin b hb hnb
      simp only [PlaceName.later, Bool.and_eq_true, decide_eq_true_eq] at hla hlb
      unfold Period.Overlaps Period.Touches
      grind
    · by_cases hfits : varchar 255 (lower placeName) = some (lower placeName)
      · exact Or.inl hfits
      · refine Or.inr fun a ha hsa => ?_
        have hna : a.named c.namespace placeName = false := by
          by_contra hna
          rw [Bool.not_eq_false] at hna
          exact hfits (hsa.2.trans (congrArg some (PlaceName.named_iff.1 hna).2))
        have hover := hall (g a) (List.mem_map_of_mem ha)
        rw [hout a ha hna] at hover
        exact hover ⟨hsa.1.trans hstored.1.symm, Option.some_inj.1 (hsa.2.symm.trans hstored.2)⟩
  · rintro ⟨hone, hfree⟩
    refine ⟨fun a ha b hb hne hab => ?_, fun a' ha' hsa => ?_⟩
    · have hab := (hsame a ha b hb).1 hab
      by_cases hna : a.named c.namespace placeName = true
      · have hnb : b.named c.namespace placeName = true := by
          obtain ⟨h₁, h₂⟩ := PlaceName.named_iff.1 hna
          exact PlaceName.named_iff.2 ⟨hab.1.symm.trans h₁, hab.2.symm.trans h₂⟩
        have hone := hone a ha b hb hna hnb
        have hdiff := hdiff a ha b hb hne
        unfold sameStart at hdiff
        rw [and_iff_right ((hsame a ha b hb).2 hab)] at hdiff
        obtain ⟨-, -, hga⟩ := hin a ha hna
        obtain ⟨-, -, hgb⟩ := hin b hb hnb
        simp only [PlaceName.later, Bool.and_eq_true, decide_eq_true_eq] at hone
        unfold Period.Overlaps Period.Touches
        grind
      · have hnb : ¬ b.named c.namespace placeName = true := fun hnb => by
          obtain ⟨h₁, h₂⟩ := PlaceName.named_iff.1 hnb
          exact hna (PlaceName.named_iff.2 ⟨hab.1.trans h₁, hab.2.trans h₂⟩)
        rw [hout a ha (by simpa using hna), hout b hb (by simpa using hnb)]
        exact hd a ha b hb hne hab
    · obtain ⟨a, ha, rfl⟩ := List.mem_map.1 ha'
      have hsa' : a.Stored c.namespace placeName :=
        ⟨(hkey a ha).1.symm.trans (hsa.1.trans hstored.1),
          hstored.2.trans (congrArg some (hsa.2.symm.trans (hkey a ha).2))⟩
      by_cases hna : a.named c.namespace placeName = true
      · obtain ⟨-, -, hga⟩ := hin a ha hna
        unfold Period.Overlaps Period.Touches
        grind
      · rw [hout a ha (by simpa using hna)]
        rcases hfree with hfits | hfree
        · exact absurd (PlaceName.named_of_stored hfits hsa') hna
        · exact hfree a ha hsa'

/-- The rows of names after a place is renamed. -/
theorem PlaceDb.rename_disjoint {placeName : String}
    (h : db.updatePlaceName gis p (fun pn => placeNameRow pn.valid.start pn.valid.stop now pn.placeid
      pn.placenamespaceid (lower placeName)) = some db')
    (hp : ∀ pn, p pn → pn.placenamespaceid = c.namespace)
    (hd : DisjointRows db.tables.placename.rows) : DisjointRows db'.tables.placename.rows ↔
      ∀ a ∈ db.tables.placename.rows, ∀ b ∈ db.tables.placename.rows, p a → a ≠ b →
        (p b ∨ b.Stored c.namespace placeName) → ¬ a.valid.Overlaps b.valid := by
  obtain ⟨hcheck, hrows⟩ := updatePlaceName_placename h
  generalize hg : (Table.updateRow p fun pn => (placeNameRow pn.valid.start pn.valid.stop now
    pn.placeid pn.placenamespaceid (lower placeName)).getD pn) = g at hrows
  have hout : ∀ a, p a = false → g a = a := fun a ha => by rw [← hg]; simp [Table.updateRow, ha]
  have hin : ∀ a ∈ db.tables.placename.rows, p a →
      (g a).Stored c.namespace placeName ∧ (g a).valid = a.valid := fun a ha hpa => by
    obtain ⟨a', ha'⟩ := Option.isSome_iff_exists.1 (hcheck a ha hpa)
    obtain ⟨-, hns, hname, hstart, hstop⟩ := placeNameRow_eq_some ha'
    have hga : g a = a' := by rw [← hg]; simp [Table.updateRow, hpa, ha']
    rw [hga]
    exact ⟨⟨hns.trans (hp a hpa), hname⟩, Period.ext hstart hstop⟩
  have hvalid : ∀ a ∈ db.tables.placename.rows, (g a).valid = a.valid := fun a ha => by
    by_cases hpa : p a = true
    · exact (hin a ha hpa).2
    · rw [hout a (by simpa using hpa)]
  have hstored : ∀ {a b : PlaceName}, a.Stored c.namespace placeName →
      (b.Stored c.namespace placeName ↔ a.Same b) := by
    rintro a b ⟨hns, hname⟩
    unfold PlaceName.Stored PlaceName.Same
    rw [hns, hname, Option.some_inj, @eq_comm _ c.namespace]
  rw [hrows, disjointRows_map fun a ha b hb hne he =>
    PlaceTables.not_sameStart_of_map hrows ha hb hne (by rw [he]; exact sameStart_refl _)]
  constructor
  · intro hall a ha b hb hpa hne hor
    have hab : (g a).Same (g b) := by
      refine (hstored (hin a ha hpa).1).1 ?_
      by_cases hpb : p b = true
      · exact (hin b hb hpb).1
      · rw [hout b (by simpa using hpb)]
        exact hor.resolve_left hpb
    rw [← hvalid a ha, ← hvalid b hb]
    exact hall a ha b hb hne hab
  · intro hall a ha b hb hne hab
    rw [hvalid a ha, hvalid b hb]
    by_cases hpa : p a = true
    · refine hall a ha b hb hpa hne ?_
      by_cases hpb : p b = true
      · exact Or.inl hpb
      · rw [hout b (by simpa using hpb)] at hab
        exact Or.inr ((hstored (hin a ha hpa).1).2 hab)
    · rw [hout a (by simpa using hpa)] at hab
      by_cases hpb : p b = true
      · rw [Period.overlaps_comm]
        exact hall b hb a ha hpb (Ne.symm hne) (Or.inr ((hstored (hin b hb hpb).1).2 hab.symm))
      · rw [hout b (by simpa using hpb)] at hab
        exact hd a ha b hb hne hab

end Branches

/-! ### The calls -/

section Calls
variable {gis : Gis} {c : Caller} {db db' : PlaceDb} {placeId : ℤ} {r : ℤ × PlaceDb}
  {placevalidfrom placevalidto : Timestamp}

/-- The row is a name of the place in the session's namespace. -/
def PlaceName.names (c : Caller) (placeId : ℤ) (pn : PlaceName) : Bool :=
  pn.placeid = placeId && pn.placenamespaceid = c.namespace

/-- What a name for all times, or a new name for the rows of a place, needs to keep the periods
    disjoint. -/
def RenamesApart (c : Caller) (rows : List PlaceName) (placeId : ℤ) (placeName : String) : Prop :=
  if ∃ pn ∈ rows, PlaceName.names c placeId pn then
    ∀ a ∈ rows, ∀ b ∈ rows, PlaceName.names c placeId a → a ≠ b →
      (PlaceName.names c placeId b ∨ b.Stored c.namespace placeName) → ¬ a.valid.Overlaps b.valid
  else FreeFor rows c.namespace placeName .negInfinity .infinity

theorem PlaceDb.nameOrRename_disjoint {placeName : String}
    (h : db.nameOrRename gis c placeId placeName = some r)
    (hd : DisjointRows db.tables.placename.rows) : DisjointRows r.2.tables.placename.rows ↔
      RenamesApart c db.tables.placename.rows placeId placeName := by
  unfold PlaceDb.nameOrRename at h
  unfold RenamesApart
  dsimp only at h
  split at h
  · next hany =>
    rw [if_pos (by simpa [PlaceName.names] using hany)]
    obtain ⟨db', hdb', rfl⟩ := Option.map_eq_some_iff.1 h
    exact rename_disjoint (c := c) hdb' (fun pn hp => by simpa using (Bool.and_eq_true_iff.1 hp).2) hd
  · next hany =>
    rw [if_neg (by simpa [PlaceName.names] using hany)]
    exact insertName_disjoint h hd

/-- A new place that is named, or not. -/
theorem PlaceDb.newPlace_disjoint {pd : PlaceDefinition} {named : PlaceDb → Option (ℤ × PlaceDb)}
    {apart : Prop} (hd : DisjointRows db.tables.placename.rows)
    (hnamed : ∀ db₁, db₁.tables.placename.rows = db.tables.placename.rows →
      (∀ pn ∈ db.tables.placename.rows, pn.placeid ≠ pd.placeid) → named db₁ = some r →
      (DisjointRows r.2.tables.placename.rows ↔ apart))
    (h : ((db.insertPlaceDefinition gis pd).bind fun db =>
      if c.namespace ≠ 0 then named db else some (pd.placeid, db)) = some r) :
    DisjointRows r.2.tables.placename.rows ↔ (c.namespace ≠ 0 → apart) := by
  obtain ⟨db₁, h₁, h⟩ := Option.bind_eq_some_iff.1 h
  obtain ⟨hrows, hnew⟩ := insertPlaceDefinition_placename h₁
  by_cases hns : c.namespace ≠ 0
  · rw [if_pos hns] at h
    rw [forall_prop_of_true hns]
    exact hnamed db₁ hrows hnew h
  · rw [if_neg hns, Option.some_inj] at h
    refine iff_of_true ?_ fun h => absurd h hns
    rw [← h, hrows]
    exact hd

theorem addPlacePoint_disjoint {placeName placeGeometry : String}
    (hd : DisjointRows db.tables.placename.rows)
    (h : addPlacePoint gis c placeName placeGeometry placevalidfrom placevalidto db = some r) :
    DisjointRows r.2.tables.placename.rows ↔ (c.namespace ≠ 0 →
      FreeFor db.tables.placename.rows c.namespace placeName placevalidfrom placevalidto) := by
  unfold addPlacePoint at h
  split at h
  · cases h
  split at h
  · cases h
  · refine PlaceDb.newPlace_disjoint hd (fun db₁ hrows _ h₁ => ?_) h
    rw [PlaceDb.insertName_disjoint h₁ (hrows ▸ hd), hrows]

/-- What `addOrUpdatePlacePoint` needs in a namespace. -/
def PointApart (gis : Gis) (c : Caller) (db : PlaceDb) (placeName placeGeometry : String)
    (placevalidfrom placevalidto : Timestamp) : Prop :=
  let free := FreeFor db.tables.placename.rows c.namespace placeName placevalidfrom placevalidto
  match db.placeOfGeometry gis placeGeometry with
  | none => free
  | some placeId =>
    UpdatesApart c db.tables.placename.rows (fun pn => pn.underlapped placevalidfrom placevalidto)
      (fun pn => pn.overlapped placevalidfrom placevalidto) placeId placeName placevalidfrom
      placevalidto free

theorem addOrUpdatePlacePoint_disjoint {placeName placeGeometry : String}
    (hd : DisjointRows db.tables.placename.rows)
    (h : addOrUpdatePlacePoint gis c placeName placeGeometry placevalidfrom placevalidto db = some r) :
    DisjointRows r.2.tables.placename.rows ↔ (c.namespace ≠ 0 →
      PointApart gis c db placeName placeGeometry placevalidfrom placevalidto) := by
  unfold addOrUpdatePlacePoint at h
  unfold PointApart
  dsimp only
  split at h
  · cases h
  cases hplace : db.placeOfGeometry gis placeGeometry with
  | none =>
    rw [hplace] at h
    refine PlaceDb.newPlace_disjoint hd (fun db₁ hrows _ h₁ => ?_) h
    split at h₁
    · cases h₁
    · rw [PlaceDb.insertName_disjoint h₁ (hrows ▸ hd), hrows]
  | some placeId =>
    rw [hplace] at h
    dsimp only at h ⊢
    split at h
    · next hns =>
      rw [forall_prop_of_true hns]
      exact PlaceDb.updateSame_disjoint h hd fun _ h => PlaceDb.insertName_disjoint h hd
    · next hns =>
      cases h
      exact iff_of_true hd fun h => absurd h hns

/-- What `addOrUpdatePlacePolygon` needs in a namespace. -/
def PolygonApart (gis : Gis) (c : Caller) (db : PlaceDb) (placeName placeGeometry : String)
    (placevalidfrom placevalidto : Timestamp) : Prop :=
  let split := SplitsApart c db.tables.placename.rows placeName placevalidfrom placevalidto
  match db.placeOfGeometry gis placeGeometry with
  | none => split
  | some placeId =>
    UpdatesApart c db.tables.placename.rows (fun pn => pn.early placevalidfrom placevalidto)
      (fun pn => pn.later placevalidfrom placevalidto) placeId placeName placevalidfrom placevalidto
      split

theorem addOrUpdatePlacePolygon_disjoint {placeName placeGeometry : String}
    (hd : DisjointRows db.tables.placename.rows)
    (h : addOrUpdatePlacePolygon gis c placeName placeGeometry placevalidfrom placevalidto db =
      some r) :
    DisjointRows r.2.tables.placename.rows ↔ (c.namespace ≠ 0 →
      PolygonApart gis c db placeName placeGeometry placevalidfrom placevalidto) := by
  unfold addOrUpdatePlacePolygon at h
  unfold PolygonApart
  dsimp only
  split at h
  · cases h
  cases hplace : db.placeOfGeometry gis placeGeometry with
  | none =>
    rw [hplace] at h
    refine PlaceDb.newPlace_disjoint hd (fun db₁ hrows hnew h₁ => ?_) h
    rw [PlaceDb.splitOthers_disjoint h₁ (fun a ha _ => Ne.symm (hnew a (hrows ▸ ha))) (hrows ▸ hd),
      hrows]
  | some placeId =>
    rw [hplace] at h
    dsimp only at h ⊢
    split at h
    · next hns =>
      rw [forall_prop_of_true hns]
      refine PlaceDb.updateSame_disjoint h hd fun hnone h => ?_
      refine PlaceDb.splitOthers_disjoint h (fun a ha hna hid => ?_) hd
      -- the bounds of a row of the place compare with the new ones in one of the four ways
      obtain ⟨h₁, h₂, h₃, h₄⟩ := hnone a ha (by
        simp [PlaceName.ofPlace, hna, hid])
      simp only [PlaceName.extended, PlaceName.around, PlaceName.early, PlaceName.later,
        Bool.and_eq_true, decide_eq_true_eq] at h₁ h₂ h₃ h₄
      grind
    · next hns =>
      cases h
      exact iff_of_true hd fun h => absurd h hns

theorem addPlaceRegularGrid_disjoint {placeName : String} {numX numY : ℤ}
    {incX incY startX startY : ℚ} {projection : String}
    (hd : DisjointRows db.tables.placename.rows)
    (h : addPlaceRegularGrid gis c placeName numX numY incX incY startX startY projection db =
      some r) :
    DisjointRows r.2.tables.placename.rows ↔ (c.namespace ≠ 0 →
      match db.placeOfGrid gis numX numY incX incY startX startY projection with
      | none => FreeFor db.tables.placename.rows c.namespace placeName .negInfinity .infinity
      | some placeId => RenamesApart c db.tables.placename.rows placeId placeName) := by
  obtain ⟨srs, -, h⟩ := Option.bind_eq_some_iff.1 h
  cases hplace : db.placeOfGrid gis numX numY incX incY startX startY projection with
  | none =>
    rw [hplace] at h
    obtain ⟨incrementx, -, h⟩ := Option.bind_eq_some_iff.1 h
    obtain ⟨incrementy, -, h⟩ := Option.bind_eq_some_iff.1 h
    obtain ⟨startx, -, h⟩ := Option.bind_eq_some_iff.1 h
    obtain ⟨starty, -, h⟩ := Option.bind_eq_some_iff.1 h
    obtain ⟨db₁, h₁, h⟩ := Option.bind_eq_some_iff.1 h
    have hrows := PlaceDb.insertPlaceRegularGrid_placename h₁
    dsimp only
    split at h
    · next hns =>
      rw [forall_prop_of_true hns, PlaceDb.insertName_disjoint h (hrows ▸ hd), hrows]
    · next hns =>
      cases h
      exact iff_of_true (hrows ▸ hd) fun h => absurd h hns
  | some placeId =>
    rw [hplace] at h
    dsimp only at h ⊢
    split at h
    · next hns =>
      rw [forall_prop_of_true hns]
      exact PlaceDb.nameOrRename_disjoint h hd
    · next hns =>
      cases h
      exact iff_of_true hd fun h => absurd h hns

theorem setPlaceName_disjoint {canonicalName placeName : String}
    (hd : DisjointRows db.tables.placename.rows)
    (h : setPlaceName gis c canonicalName placeName db = some r) :
    DisjointRows r.2.tables.placename.rows ↔ ∀ placeId, db.placeOfName canonicalName = some placeId →
      FreeFor (db.tables.placename.rows.filter fun pn => !PlaceName.names c placeId pn) c.namespace
        placeName .negInfinity .infinity := by
  unfold setPlaceName at h
  split at h
  · cases h
  obtain ⟨placeId, hplace, h⟩ := Option.bind_eq_some_iff.1 h
  split at h
  · cases h
  obtain ⟨db₁, h₁, h⟩ := Option.bind_eq_some_iff.1 h
  have hrows : db₁.tables.placename.rows =
      db.tables.placename.rows.filter fun pn => !PlaceName.names c placeId pn := by
    rw [PlaceDb.deletePlaceName_placename h₁]
    refine List.filter_congr fun pn _ => ?_
    rw [PlaceName.names, Bool.and_comm]
  have hd₁ : DisjointRows db₁.tables.placename.rows := by
    rw [hrows]
    exact fun a ha b hb => hd a (List.mem_of_mem_filter ha) b (List.mem_of_mem_filter hb)
  rw [PlaceDb.insertName_disjoint h hd₁, hrows]
  simp [hplace]

end Calls

/-! ### Operations and runs -/

/-- The functions that give names to places. -/
def Operation.NamesPlaces : Operation → Prop
  | .addPlacePoint _ _ _ _ _ | .addPlacePointFromToday _ _ _ | .addOrUpdatePlacePoint _ _ _ _ _
  | .addOrUpdatePlacePolygon _ _ _ _ _ | .addPlaceRegularGrid _ _ _ _ _ _ _ _ _
  | .setPlaceName _ _ _ => True
  | _ => False

/-- The calls that keep the periods disjoint when they succeed. -/
def Operation.KeepsApart (gis : Gis) (db : PlaceDb) : Operation → Prop
  | .addPlacePoint c name _ f t =>
    c.namespace ≠ 0 → FreeFor db.tables.placename.rows c.namespace name f t
  | .addPlacePointFromToday c name _ =>
    c.namespace ≠ 0 → FreeFor db.tables.placename.rows c.namespace name c.today .infinity
  | .addOrUpdatePlacePoint c name g f t => c.namespace ≠ 0 → PointApart gis c db name g f t
  | .addOrUpdatePlacePolygon c name g f t => c.namespace ≠ 0 → PolygonApart gis c db name g f t
  | .addPlaceRegularGrid c name nx ny ix iy sx sy projection => c.namespace ≠ 0 →
    match db.placeOfGrid gis nx ny ix iy sx sy projection with
    | none => FreeFor db.tables.placename.rows c.namespace name .negInfinity .infinity
    | some placeId => RenamesApart c db.tables.placename.rows placeId name
  | .setPlaceName c canonical name => ∀ placeId, db.placeOfName canonical = some placeId →
    FreeFor (db.tables.placename.rows.filter fun pn => !PlaceName.names c placeId pn) c.namespace
      name .negInfinity .infinity
  | _ => True

/-- What a successful call does to the periods. -/
theorem Operation.perform_disjoint {gis : Gis} {db db' : PlaceDb} {op : Operation}
    (hop : op.NamesPlaces) (hd : DisjointRows db.tables.placename.rows)
    (h : op.perform gis db = some db') :
    DisjointRows db'.tables.placename.rows ↔ op.KeepsApart gis db := by
  cases op with
  | addPlacePoint c name g from_ to_ =>
    obtain ⟨r, hr, rfl⟩ := Option.map_eq_some_iff.1 h
    exact addPlacePoint_disjoint hd hr
  | addPlacePointFromToday c name g =>
    obtain ⟨r, hr, rfl⟩ := Option.map_eq_some_iff.1 h
    exact addPlacePoint_disjoint hd hr
  | addOrUpdatePlacePoint c name g from_ to_ =>
    obtain ⟨r, hr, rfl⟩ := Option.map_eq_some_iff.1 h
    exact addOrUpdatePlacePoint_disjoint hd hr
  | addOrUpdatePlacePolygon c name g from_ to_ =>
    obtain ⟨r, hr, rfl⟩ := Option.map_eq_some_iff.1 h
    exact addOrUpdatePlacePolygon_disjoint hd hr
  | addPlaceRegularGrid c name nx ny ix iy sx sy projection =>
    obtain ⟨r, hr, rfl⟩ := Option.map_eq_some_iff.1 h
    exact addPlaceRegularGrid_disjoint hd hr
  | setPlaceName c canonical name =>
    obtain ⟨r, hr, rfl⟩ := Option.map_eq_some_iff.1 h
    exact setPlaceName_disjoint hd hr
  | _ => exact absurd hop id

/-- Over every run of successful calls the periods of each name are disjoint in every state exactly when
    each call is one that keeps them apart. -/
theorem placename_disjoint_iff (gis : Gis) (l : List Operation) (db : PlaceDb)
    (hl : Runs.Each (PlaceDb.step gis)
      (fun db op => op.NamesPlaces ∧ (op.perform gis db).isSome) db l)
    (h : DisjointRows db.tables.placename.rows) :
    (∀ p, p <+: l → DisjointRows (Runs.run (PlaceDb.step gis) db p).tables.placename.rows) ↔
      Runs.Each (PlaceDb.step gis) (fun db op => op.KeepsApart gis db) db l := by
  refine Runs.always_iff_each (PlaceDb.step gis) (fun _ => True)
    (fun db => DisjointRows db.tables.placename.rows) (fun _ _ _ => trivial)
    (fun db op _ hd hop => ?_) l db trivial h hl
  obtain ⟨db', hdb'⟩ := Option.isSome_iff_exists.1 hop.2
  unfold PlaceDb.step
  rw [hdb', Option.getD_some]
  exact Operation.perform_disjoint hop.1 hd hdb'

/-- A name goes from one point to another. -/
def movedName : List Operation :=
  [.addPlacePoint (callerOf 1) "place" "POINT(10 60)" (.at 0) (.at 10),
    .addPlacePoint { callerOf 1 with nextval := 2 } "place" "POINT(11 60)" (.at 10) .infinity]

theorem placename_disjoint_moved :
    (Runs.run (PlaceDb.step plainGis) noPlaces movedName).tables.placename.rows.length = 2 ∧
    ∀ p, p <+: movedName →
      DisjointRows (Runs.run (PlaceDb.step plainGis) noPlaces p).tables.placename.rows :=
  ⟨by decide, (placename_disjoint_iff plainGis movedName noPlaces
    ⟨⟨trivial, by decide⟩, ⟨trivial, by decide⟩, trivial⟩ (by decide)).2
    ⟨fun _ => by decide, fun _ => by decide, trivial⟩⟩

/-- A point extends its period over that of another point of the name. -/
theorem placename_overlap : ¬ DisjointRows (Runs.run (PlaceDb.step plainGis) noPlaces
    [.addOrUpdatePlacePoint (callerOf 1) "place" "POINT(10 60)" (.at 0) (.at 10),
      .addOrUpdatePlacePoint { callerOf 1 with nextval := 2 } "place" "POINT(11 60)" (.at 10) (.at 20),
      .addOrUpdatePlacePoint (callerOf 1) "place" "POINT(10 60)" (.at 0) (.at 15)]
    ).tables.placename.rows := by
  decide

end Wdb.Place
