import Wdb.Place.DisjointRuns

/-! What the update functions do to the places that names stand for.

    At an instant a name designates the places of its rows that cover it. A call with a period is meant
    to make the name designate the place of its geometry there, and to take nothing from other places
    elsewhere. The functions move bounds of rows by comparing bounds only, so that a row may also gain
    the instants of a gap, or of the rows of other places. -/

namespace Wdb.Place
open SqlTypes Store Relational Periods

section Rows
variable {rows rows' : List PlaceName} {namespace_ : ℤ} {placename : String} {t : Timestamp}
  {placeid p q : ℤ}

/-- A name designates a place at an instant. -/
def Designates (rows : List PlaceName) (namespace_ : ℤ) (placename : String) (t : Timestamp)
    (placeid : ℤ) : Prop :=
  ∃ pn ∈ rows, (pn.placenamespaceid = namespace_ ∧ pn.placename = placename) ∧
    pn.valid.Covers t ∧ pn.placeid = placeid

instance : Decidable (Designates rows namespace_ placename t placeid) :=
  inferInstanceAs (Decidable (∃ pn ∈ rows, _))

/-- While periods are disjoint, a name designates at most one place. -/
theorem DisjointRows.designates_unique (hd : DisjointRows rows)
    (hp : Designates rows namespace_ placename t p) (hq : Designates rows namespace_ placename t q) :
    p = q := by
  obtain ⟨a, ha, ⟨hns, hname⟩, hta, rfl⟩ := hp
  obtain ⟨b, hb, ⟨hns', hname'⟩, htb, rfl⟩ := hq
  rw [disjointRows_iff.1 hd a ha b hb ⟨hns.trans hns'.symm, hname.trans hname'.symm⟩ t hta htb]

/-- A call makes a name designate a place in a period; elsewhere the name designates what it did, or
    gives up the place itself; no other name is touched. -/
structure ResolvesAs (rows rows' : List PlaceName) (namespace_ : ℤ) (placename : String) (p : ℤ)
    (placevalidfrom placevalidto : Timestamp) : Prop where
  inside : ∀ t, placevalidfrom ≤ t → t < placevalidto →
    ∀ q, Designates rows' namespace_ placename t q ↔ q = p
  outside : ∀ t, ¬ (placevalidfrom ≤ t ∧ t < placevalidto) →
    (∀ q, Designates rows' namespace_ placename t q ↔ Designates rows namespace_ placename t q) ∨
    ((∀ q, Designates rows namespace_ placename t q ↔ q = p) ∧
      ∀ q, ¬ Designates rows' namespace_ placename t q)
  others : ∀ namespace' placename', ¬ (namespace' = namespace_ ∧ placename' = placename) →
    ∀ t q, Designates rows' namespace' placename' t q ↔ Designates rows namespace' placename' t q

/-- No row gives the name to another place in the period. -/
def Undisputed (rows : List PlaceName) (namespace_ : ℤ) (placename : String) (p : ℤ)
    (placevalidfrom placevalidto : Timestamp) : Prop :=
  ∀ a ∈ rows, a.placenamespaceid = namespace_ ∧ a.placename = placename → a.placeid ≠ p →
    ¬ a.valid.Touches placevalidfrom placevalidto

instance {placevalidfrom placevalidto : Timestamp} :
    Decidable (Undisputed rows namespace_ placename p placevalidfrom placevalidto) :=
  inferInstanceAs (Decidable (∀ a ∈ rows, _))

variable {placevalidfrom placevalidto : Timestamp}

theorem undisputed_iff : Undisputed rows namespace_ placename p placevalidfrom placevalidto ↔
    ∀ t, placevalidfrom ≤ t → t < placevalidto → ∀ q, Designates rows namespace_ placename t q →
      q = p := by
  constructor
  · rintro h t hfrom hto q ⟨a, ha, hname, hta, rfl⟩
    by_contra hne
    exact h a ha hname hne (Period.touches_iff.2 ⟨t, hta, hfrom, hto⟩)
  · intro h a ha hname hne htouch
    obtain ⟨t, hta, hfrom, hto⟩ := Period.touches_iff.1 htouch
    exact hne (h t hfrom hto _ ⟨a, ha, hname, hta, rfl⟩)

/-- A call that moves rows of its own place only: it does as it should when the period is undisputed and
    covered, and the place gains no other instant. -/
theorem resolvesAs_iff (hd : DisjointRows rows)
    (hown : ∀ t q, q ≠ p →
      (Designates rows' namespace_ placename t q ↔ Designates rows namespace_ placename t q))
    (hframe : ∀ namespace' placename', ¬ (namespace' = namespace_ ∧ placename' = placename) →
      ∀ t q, Designates rows' namespace' placename' t q ↔ Designates rows namespace' placename' t q) :
    ResolvesAs rows rows' namespace_ placename p placevalidfrom placevalidto ↔
      Undisputed rows namespace_ placename p placevalidfrom placevalidto ∧
      (∀ t, placevalidfrom ≤ t → t < placevalidto → Designates rows' namespace_ placename t p) ∧
      ∀ t, ¬ (placevalidfrom ≤ t ∧ t < placevalidto) → Designates rows' namespace_ placename t p →
        Designates rows namespace_ placename t p := by
  rw [undisputed_iff]
  constructor
  · intro h
    refine ⟨fun t hfrom hto q hq => by_contra fun hne => ?_, fun t hfrom hto =>
      (h.inside t hfrom hto p).2 rfl, fun t ht hp => ?_⟩
    · exact hne ((h.inside t hfrom hto q).1 ((hown t q hne).2 hq))
    · rcases h.outside t ht with hsame | ⟨-, hnone⟩
      · exact (hsame p).1 hp
      · exact absurd hp (hnone p)
  · rintro ⟨hund, hin, hout⟩
    refine ⟨fun t hfrom hto q => ⟨fun hq => by_contra fun hne => ?_, ?_⟩, fun t ht => ?_, hframe⟩
    · exact hne (hund t hfrom hto q ((hown t q hne).1 hq))
    · rintro rfl
      exact hin t hfrom hto
    · by_cases hp : Designates rows namespace_ placename t p
      · -- the place had the instant: it keeps it, or gives it up
        have honly : ∀ q, Designates rows namespace_ placename t q ↔ q = p :=
          fun q => ⟨fun hq => hd.designates_unique hq hp, fun hq => hq ▸ hp⟩
        by_cases hp' : Designates rows' namespace_ placename t p
        · refine Or.inl fun q => ?_
          by_cases hq : q = p
          · rw [hq]
            exact iff_of_true hp' hp
          · exact hown t q hq
        · refine Or.inr ⟨honly, fun q hq => ?_⟩
          by_cases hqp : q = p
          · exact hp' (hqp ▸ hq)
          · exact hqp ((honly q).1 ((hown t q hqp).1 hq))
      · have hp' : ¬ Designates rows' namespace_ placename t p := fun h => hp (hout t ht h)
        refine Or.inl fun q => ?_
        by_cases hq : q = p
        · rw [hq]
          exact iff_of_false hp' hp
        · exact hown t q hq

end Rows

/-! ### The branches -/

section Branches
variable {gis : Gis} {c : Caller} {db db' : PlaceDb} {placeId : ℤ} {r : ℤ × PlaceDb}
  {placeName : String} {placevalidfrom placevalidto now : Timestamp}

/-- The name fits its column, so that it is found as it is stored. -/
def NameFits (placeName : String) : Prop := varchar 255 (lower placeName) = some (lower placeName)

instance : Decidable (NameFits placeName) := inferInstanceAs (Decidable (_ = _))

/-- A name that some row has fits its column. -/
theorem nameFits_of_mem {pn : PlaceName} (h : pn.placename = lower placeName) : NameFits placeName := by
  unfold NameFits
  rw [← h]
  exact varchar_of_length_le pn.short

/-- The call as a change of the rows of names. -/
def CallResolves (c : Caller) (db db' : PlaceDb) (placeName : String) (placeId : ℤ)
    (placevalidfrom placevalidto : Timestamp) : Prop :=
  ResolvesAs db.tables.placename.rows db'.tables.placename.rows c.namespace (lower placeName) placeId
    placevalidfrom placevalidto

/-- A branch that gives rows of the place periods which cover the new one. -/
theorem updateValid_resolves {sel : PlaceName → Bool} {l u : PlaceName → Timestamp}
    (h : db.updatePlaceName gis sel (fun pn => pn.setValid (l pn) (u pn) now) = some db')
    (hd : DisjointRows db.tables.placename.rows)
    (hsel : ∀ a, sel a → PlaceName.ofPlace c placeId placeName a)
    (hany : ∃ a ∈ db.tables.placename.rows, sel a)
    (hcover : ∀ a ∈ db.tables.placename.rows, sel a → l a ≤ placevalidfrom ∧ placevalidto ≤ u a) :
    CallResolves c db db' placeName placeId placevalidfrom placevalidto ↔
      Undisputed db.tables.placename.rows c.namespace (lower placeName) placeId placevalidfrom
        placevalidto ∧
      ∀ a ∈ db.tables.placename.rows, sel a → ∀ t, ¬ (placevalidfrom ≤ t ∧ t < placevalidto) →
        l a ≤ t → t < u a →
        Designates db.tables.placename.rows c.namespace (lower placeName) t placeId := by
  obtain ⟨g, hrows, hout, hin⟩ := PlaceDb.updateValid_placename h
  have hname : ∀ a, sel a → (a.placenamespaceid = c.namespace ∧ a.placename = lower placeName) ∧
      a.placeid = placeId := fun a ha => by
    have ha := hsel a ha
    simp only [PlaceName.ofPlace, Bool.and_eq_true, PlaceName.named_iff, decide_eq_true_eq] at ha
    exact ⟨ha.1, ha.2.symm⟩
  -- a row that designates afterwards comes from a row of the same name and place
  have hafter : ∀ {ns key t q}, Designates db'.tables.placename.rows ns key t q ↔
      ∃ a ∈ db.tables.placename.rows, (a.placenamespaceid = ns ∧ a.placename = key) ∧
        (g a).valid.Covers t ∧ a.placeid = q := by
    intro ns key t q
    unfold Designates
    rw [hrows]
    simp only [List.mem_map, exists_exists_and_eq_and]
    refine exists_congr fun a => and_congr_right fun ha => ?_
    by_cases hs : sel a = true
    · obtain ⟨hid, ⟨hns, hnm⟩, -, -⟩ := hin a ha hs
      rw [hid, hns, hnm]
    · rw [hout a ha (by simpa using hs)]
  unfold CallResolves
  rw [resolvesAs_iff hd]
  · refine and_congr Iff.rfl ⟨fun hresolves a ha hs t ht hlo hhi => ?_, fun hrest => ⟨?_, ?_⟩⟩
    · obtain ⟨-, -, hstart, hstop⟩ := hin a ha hs
      exact hresolves.2 t ht
        (hafter.2 ⟨a, ha, (hname a hs).1, ⟨hstart ▸ hlo, hstop ▸ hhi⟩, (hname a hs).2⟩)
    · intro t hfrom hto
      obtain ⟨a, ha, hs⟩ := hany
      obtain ⟨-, -, hstart, hstop⟩ := hin a ha hs
      obtain ⟨hlo, hhi⟩ := hcover a ha hs
      exact hafter.2 ⟨a, ha, (hname a hs).1,
        ⟨hstart ▸ hlo.trans hfrom, hstop ▸ hto.trans_le hhi⟩, (hname a hs).2⟩
    · intro t ht hp
      obtain ⟨a, ha, hnm, hcov, hid⟩ := hafter.1 hp
      by_cases hs : sel a = true
      · obtain ⟨-, -, hstart, hstop⟩ := hin a ha hs
        exact hrest a ha hs t ht (hstart ▸ hcov.1) (hstop ▸ hcov.2)
      · rw [hout a ha (by simpa using hs)] at hcov
        exact ⟨a, ha, hnm, hcov, hid⟩
  · intro t q hq
    rw [hafter]
    refine exists_congr fun a => and_congr_right fun ha => ?_
    by_cases hs : sel a = true
    · rw [(hname a hs).2]
      exact iff_of_false (fun h => hq h.2.2.symm) fun h => hq h.2.2.symm
    · rw [hout a ha (by simpa using hs)]
  · intro ns key hne t q
    rw [hafter]
    refine exists_congr fun a => and_congr_right fun ha => ?_
    by_cases hs : sel a = true
    · obtain ⟨⟨hns, hnm⟩, -⟩ := hname a hs
      rw [hns, hnm]
      exact iff_of_false (fun h => hne ⟨h.1.1.symm, h.1.2.symm⟩)
        fun h => hne ⟨h.1.1.symm, h.1.2.symm⟩
    · rw [hout a ha (by simpa using hs)]

/-- A new row for the period. -/
theorem insertName_resolves
    (h : db.insertName gis c placeId placeName placevalidfrom placevalidto = some r)
    (hd : DisjointRows db.tables.placename.rows) :
    CallResolves c db r.2 placeName placeId placevalidfrom placevalidto ↔
      Undisputed db.tables.placename.rows c.namespace (lower placeName) placeId placevalidfrom
        placevalidto ∧ (placevalidfrom < placevalidto → NameFits placeName) := by
  obtain ⟨pn, hid, ⟨hns, hname⟩, hstart, hstop, hrows, -⟩ := PlaceDb.insertName_placename h
  have hafter : ∀ {ns key t q}, Designates r.2.tables.placename.rows ns key t q ↔
      Designates db.tables.placename.rows ns key t q ∨ ((c.namespace = ns ∧ pn.placename = key) ∧
        (placevalidfrom ≤ t ∧ t < placevalidto) ∧ placeId = q) := by
    intro ns key t q
    unfold Designates Period.Covers
    rw [hrows]
    simp only [List.mem_append, List.mem_singleton, or_and_right, exists_or, exists_eq_left, hns, hid,
      hstart, hstop]
  unfold CallResolves
  by_cases hfit : placevalidfrom < placevalidto → NameFits placeName
  · rw [resolvesAs_iff hd]
    · refine and_congr Iff.rfl ⟨fun _ => hfit, fun _ => ⟨fun t hfrom hto => ?_, fun t ht hp => ?_⟩⟩
      · refine hafter.2 (Or.inr ⟨⟨rfl, ?_⟩, ⟨hfrom, hto⟩, rfl⟩)
        exact Option.some_inj.1 (hname.symm.trans (hfit (hfrom.trans_lt hto)))
      · exact (hafter.1 hp).resolve_right fun h => ht h.2.1
    · intro t q hq
      rw [hafter]
      exact or_iff_left fun h => hq h.2.2.symm
    · intro ns key hne t q
      rw [hafter]
      refine or_iff_left fun h => hne ⟨h.1.1.symm, ?_⟩
      have hfits := hfit (h.2.1.1.trans_lt h.2.1.2)
      exact h.1.2.symm.trans (Option.some_inj.1 (hname.symm.trans hfits))
  · refine iff_of_false (fun hres => ?_) fun h => hfit h.2
    obtain ⟨hlt, hnot⟩ := Classical.not_imp.1 hfit
    obtain ⟨a, -, hnm, -, -⟩ := (hres.inside placevalidfrom le_rfl hlt placeId).2 rfl
    exact hnot (nameFits_of_mem hnm.2)

/-- Rows that are prolonged to an earlier start: the gap before each is the place's already. -/
def GapBefore (c : Caller) (rows : List PlaceName) (sel : PlaceName → Bool) (placeId : ℤ)
    (placeName : String) (placevalidfrom placevalidto : Timestamp) : Prop :=
  ∀ a ∈ rows, sel a → ∀ t, placevalidto ≤ t → placevalidfrom ≤ t → t < a.valid.start →
    Designates rows c.namespace (lower placeName) t placeId

/-- Rows that are prolonged to a later stop: the gap after each is the place's already. -/
def GapAfter (c : Caller) (rows : List PlaceName) (sel : PlaceName → Bool) (placeId : ℤ)
    (placeName : String) (placevalidfrom placevalidto : Timestamp) : Prop :=
  ∀ a ∈ rows, sel a → ∀ t, a.valid.stop ≤ t → t < placevalidfrom → t < placevalidto →
    Designates rows c.namespace (lower placeName) t placeId

/-- What the branches for the same place need to do as they should. -/
def UpdatesResolve (c : Caller) (rows : List PlaceName) (early later : PlaceName → Bool) (placeId : ℤ)
    (placeName : String) (placevalidfrom placevalidto : Timestamp) (otherwise : Prop) : Prop :=
  let same := PlaceName.ofPlace c placeId placeName
  let undisputed := Undisputed rows c.namespace (lower placeName) placeId placevalidfrom placevalidto
  if ∃ pn ∈ rows, same pn && pn.extended placevalidfrom placevalidto then undisputed
  else if ∃ pn ∈ rows, same pn && pn.around placevalidfrom placevalidto then undisputed
  else if ∃ pn ∈ rows, same pn && early pn then
    undisputed ∧ GapBefore c rows (fun pn => same pn && early pn) placeId placeName placevalidfrom
      placevalidto
  else if ∃ pn ∈ rows, same pn && later pn then
    undisputed ∧ GapAfter c rows (fun pn => same pn && later pn) placeId placeName placevalidfrom
      placevalidto
  else otherwise

/-- A row of the place designates it while it covers an instant. -/
theorem designates_of_ofPlace {a : PlaceName} {t : Timestamp} (ha : a ∈ db.tables.placename.rows)
    (hs : PlaceName.ofPlace c placeId placeName a) (hfrom : a.valid.start ≤ t)
    (hto : t < a.valid.stop) :
    Designates db.tables.placename.rows c.namespace (lower placeName) t placeId := by
  simp only [PlaceName.ofPlace, Bool.and_eq_true, PlaceName.named_iff, decide_eq_true_eq] at hs
  exact ⟨a, ha, hs.1, ⟨hfrom, hto⟩, hs.2.symm⟩

/-- The branches for the same place do as they should exactly when the period is undisputed, and they
    close no gap that is not the place's. -/
theorem updateSame_resolves {early later : PlaceName → Bool}
    {otherwise : PlaceDb → Option (ℤ × PlaceDb)} {resolves : Prop}
    (h : db.updateSame gis c early later placeId placeName placevalidfrom placevalidto otherwise =
      some r)
    (hd : DisjointRows db.tables.placename.rows)
    (hearly : ∀ pn, early pn → pn.early placevalidfrom placevalidto)
    (hlater : ∀ pn, later pn → pn.later placevalidfrom placevalidto)
    (hother : (∀ pn ∈ db.tables.placename.rows, PlaceName.ofPlace c placeId placeName pn →
        ¬ pn.extended placevalidfrom placevalidto ∧ ¬ pn.around placevalidfrom placevalidto ∧
          ¬ early pn ∧ ¬ later pn) → otherwise db = some r →
      (CallResolves c db r.2 placeName placeId placevalidfrom placevalidto ↔ resolves)) :
    CallResolves c db r.2 placeName placeId placevalidfrom placevalidto ↔
      UpdatesResolve c db.tables.placename.rows early later placeId placeName placevalidfrom
        placevalidto resolves := by
  unfold UpdatesResolve
  dsimp only
  have hsame : ∀ {test : PlaceName → Bool} (a : PlaceName),
      (PlaceName.ofPlace c placeId placeName a && test a) = true →
        PlaceName.ofPlace c placeId placeName a := fun a ha => (Bool.and_eq_true_iff.1 ha).1
  rcases PlaceDb.updateOr_eq_some h with ⟨hany, -, hupd⟩ | ⟨hno₁, h⟩
  · rw [if_pos hany, updateValid_resolves (l := fun _ => placevalidfrom)
      (u := fun _ => placevalidto) hupd hd hsame hany fun _ _ _ => ⟨le_rfl, le_rfl⟩]
    exact and_iff_left fun _ _ _ t ht hfrom hto => absurd ⟨hfrom, hto⟩ ht
  rw [if_neg (by simpa using hno₁)]
  rcases PlaceDb.updateOr_eq_some h with ⟨hany, -, hupd⟩ | ⟨hno₂, h⟩
  · rw [if_pos hany, updateValid_resolves (l := fun _ => placevalidfrom)
      (u := fun _ => placevalidto) hupd hd hsame hany fun _ _ _ => ⟨le_rfl, le_rfl⟩]
    exact and_iff_left fun _ _ _ t ht hfrom hto => absurd ⟨hfrom, hto⟩ ht
  rw [if_neg (by simpa using hno₂)]
  rcases PlaceDb.updateOr_eq_some h with ⟨hany, -, hupd⟩ | ⟨hno₃, h⟩
  · have hbounds : ∀ a, (PlaceName.ofPlace c placeId placeName a && early a) = true →
        placevalidfrom ≤ a.valid.start ∧ placevalidto ≤ a.valid.stop := fun a ha => by
      simpa [PlaceName.early] using hearly a (Bool.and_eq_true_iff.1 ha).2
    rw [if_pos hany, updateValid_resolves (l := fun _ => placevalidfrom) hupd hd hsame hany
      fun a _ hs => ⟨le_rfl, (hbounds a hs).2⟩]
    refine and_congr Iff.rfl (forall₂_congr fun a ha => forall_congr' fun hs =>
      ⟨fun hall t hto hfrom hlt => ?_, fun hgap t ht hfrom hlt => ?_⟩)
    · exact hall t (fun h => h.2.not_ge hto) hfrom (hlt.trans_le a.valid.le)
    · have hto : placevalidto ≤ t := not_lt.1 fun hlt => ht ⟨hfrom, hlt⟩
      rcases lt_or_ge t a.valid.start with hstart | hstart
      · exact hgap t hto hfrom hstart
      · exact designates_of_ofPlace ha (hsame a hs) hstart hlt
  rw [if_neg (by simpa using hno₃)]
  rcases PlaceDb.updateOr_eq_some h with ⟨hany, -, hupd⟩ | ⟨hno₄, h⟩
  · have hbounds : ∀ a, (PlaceName.ofPlace c placeId placeName a && later a) = true →
        a.valid.start ≤ placevalidfrom ∧ a.valid.stop ≤ placevalidto := fun a ha => by
      simpa [PlaceName.later] using hlater a (Bool.and_eq_true_iff.1 ha).2
    rw [if_pos hany, updateValid_resolves (u := fun _ => placevalidto) hupd hd hsame hany
      fun a _ hs => ⟨(hbounds a hs).1, le_rfl⟩]
    refine and_congr Iff.rfl (forall₂_congr fun a ha => forall_congr' fun hs =>
      ⟨fun hall t hstop hlt hto => ?_, fun hgap t ht hstart hto => ?_⟩)
    · exact hall t (fun h => h.1.not_gt hlt) (a.valid.le.trans hstop) hto
    · have hlt : t < placevalidfrom := not_le.1 fun hle => ht ⟨hle, hto⟩
      rcases lt_or_ge t a.valid.stop with hstop | hstop
      · exact designates_of_ofPlace ha (hsame a hs) hstart hstop
      · exact hgap t hstop hlt hto
  rw [if_neg (by simpa using hno₄)]
  refine hother (fun pn hpn hp => ?_) h
  have h₁ := hno₁ pn hpn
  have h₂ := hno₂ pn hpn
  have h₃ := hno₃ pn hpn
  have h₄ := hno₄ pn hpn
  rw [hp, Bool.true_and] at h₁ h₂ h₃ h₄
  simp [h₁, h₂, h₃, h₄]

/-- What the rows of other places need to be split as they should: the instants that one gains are its
    place's already. -/
def SplitsResolve (c : Caller) (rows : List PlaceName) (placeName : String)
    (placevalidfrom placevalidto : Timestamp) : Prop :=
  (∀ a ∈ rows, a.named c.namespace placeName →
    (a.early placevalidfrom placevalidto → ∀ t, placevalidto ≤ t → t < a.valid.start →
      Designates rows c.namespace (lower placeName) t a.placeid) ∧
    (a.later placevalidfrom placevalidto → ∀ t, a.valid.stop ≤ t → t < placevalidfrom →
      Designates rows c.namespace (lower placeName) t a.placeid)) ∧
  (placevalidfrom < placevalidto → NameFits placeName)

theorem splitOthers_resolves
    (h : db.splitOthers gis c placeId placeName placevalidfrom placevalidto = some r)
    (hown : ∀ a ∈ db.tables.placename.rows, a.named c.namespace placeName → placeId ≠ a.placeid) :
    CallResolves c db r.2 placeName placeId placevalidfrom placevalidto ↔
      SplitsResolve c db.tables.placename.rows placeName placevalidfrom placevalidto := by
  obtain ⟨pn, g, ⟨hid, ⟨hns, hname⟩, rfl, rfl⟩, hrows, -, -, hout, hin⟩ :=
    PlaceDb.splitOthers_placename h hown
  have hle := pn.valid.le
  have hafter : ∀ {ns key t q}, Designates r.2.tables.placename.rows ns key t q ↔
      (∃ a ∈ db.tables.placename.rows, (a.placenamespaceid = ns ∧ a.placename = key) ∧
        (g a).valid.Covers t ∧ a.placeid = q) ∨
      ((c.namespace = ns ∧ pn.placename = key) ∧ pn.valid.Covers t ∧ placeId = q) := by
    intro ns key t q
    unfold Designates
    rw [hrows]
    simp only [List.mem_append, List.mem_singleton, or_and_right, exists_or, exists_eq_left, hns, hid,
      List.mem_map, exists_exists_and_eq_and]
    refine or_congr (exists_congr fun a => and_congr_right fun ha => ?_) Iff.rfl
    by_cases hn : a.named c.namespace placeName = true
    · obtain ⟨hida, ⟨hnsa, hnma⟩, -⟩ := hin a ha hn
      rw [hida, hnsa, hnma]
    · rw [hout a ha (by simpa using hn)]
  unfold CallResolves
  by_cases hfit : pn.valid.start < pn.valid.stop → NameFits placeName
  · unfold SplitsResolve
    rw [and_iff_left hfit]
    constructor
    · intro hres a ha hn
      have hkey := PlaceName.named_iff.1 hn
      obtain ⟨-, -, hbounds⟩ := hin a ha hn
      refine ⟨fun hearly t hto hlt => ?_, fun hlater t hstop hlt => ?_⟩
      · simp only [PlaceName.early, Bool.and_eq_true, decide_eq_true_eq] at hearly
        obtain ⟨-, -, hstart, hstop⟩ := hbounds.resolve_right fun h => h.1.not_ge hearly.1
        have hmem : Designates r.2.tables.placename.rows c.namespace (lower placeName) t a.placeid :=
          hafter.2 (Or.inl ⟨a, ha, hkey, ⟨hstart ▸ hto, hstop ▸ hlt.trans_le a.valid.le⟩, rfl⟩)
        rcases hres.outside t fun h => h.2.not_ge hto with hsame | ⟨-, hnone⟩
        · exact (hsame _).1 hmem
        · exact absurd hmem (hnone _)
      · simp only [PlaceName.later, Bool.and_eq_true, decide_eq_true_eq] at hlater
        obtain ⟨-, -, hstart', hstop'⟩ := hbounds.resolve_left fun h => h.1.not_ge hlater.1
        have hmem : Designates r.2.tables.placename.rows c.namespace (lower placeName) t a.placeid :=
          hafter.2 (Or.inl ⟨a, ha, hkey, ⟨hstart' ▸ a.valid.le.trans hstop, hstop' ▸ hlt⟩, rfl⟩)
        rcases hres.outside t fun h => h.1.not_gt hlt with hsame | ⟨-, hnone⟩
        · exact (hsame _).1 hmem
        · exact absurd hmem (hnone _)
    · intro hgaps
      refine ⟨fun t hfrom hto q => ?_, fun t ht => Or.inl fun q => ?_, fun ns key hne t q => ?_⟩
      · rw [hafter]
        constructor
        · rintro (⟨a, ha, hkey, hcov, -⟩ | ⟨-, -, rfl⟩)
          · -- the rows of other places have made room
            obtain ⟨-, -, ⟨-, -, hstart, -⟩ | ⟨-, -, -, hstop⟩⟩ := hin a ha (PlaceName.named_iff.2 hkey)
            · exact absurd (hstart ▸ hcov.1) hto.not_ge
            · exact absurd (hstop ▸ hcov.2) hfrom.not_gt
          · rfl
        · rintro rfl
          refine Or.inr ⟨⟨rfl, ?_⟩, ⟨hfrom, hto⟩, rfl⟩
          exact Option.some_inj.1 (hname.symm.trans (hfit (hfrom.trans_lt hto)))
      · rw [hafter, or_iff_left fun h => ht h.2.1]
        constructor
        · rintro ⟨a, ha, hkey, ⟨hfrom, hto⟩, rfl⟩
          have hn := PlaceName.named_iff.2 hkey
          obtain ⟨hbefore, hbehind⟩ := hgaps a ha hn
          obtain ⟨-, -, ⟨h₁, h₂, hstart, hstop⟩ | ⟨h₁, h₂, hstart, hstop⟩⟩ := hin a ha hn
          · rw [hstart] at hfrom
            rw [hstop] at hto
            rcases lt_or_ge t a.valid.start with hlt | hge
            · exact hbefore (by simp [PlaceName.early, h₁.le, h₂.le]) t hfrom hlt
            · exact ⟨a, ha, hkey, ⟨hge, hto⟩, rfl⟩
          · rw [hstart] at hfrom
            rw [hstop] at hto
            rcases lt_or_ge t a.valid.stop with hlt | hge
            · exact ⟨a, ha, hkey, ⟨hfrom, hlt⟩, rfl⟩
            · exact hbehind (by simp [PlaceName.later, h₁.le, h₂.le]) t hge hto
        · rintro ⟨a, ha, hkey, ⟨hfrom, hto⟩, rfl⟩
          refine ⟨a, ha, hkey, ?_, rfl⟩
          obtain ⟨-, -, ⟨h₁, h₂, hstart, hstop⟩ | ⟨h₁, h₂, hstart, hstop⟩⟩ :=
            hin a ha (PlaceName.named_iff.2 hkey)
          · refine ⟨hstart ▸ not_lt.1 fun hlt => ht ⟨h₁.le.trans hfrom, hlt⟩, hstop ▸ hto⟩
          · refine ⟨hstart ▸ hfrom, hstop ▸ not_le.1 fun hge => ht ⟨hge, hto.trans h₂⟩⟩
      · rw [hafter]
        have hpn : ¬ ((c.namespace = ns ∧ pn.placename = key) ∧ pn.valid.Covers t ∧ placeId = q) := by
          rintro ⟨⟨hnsq, hkey⟩, hcov, -⟩
          refine hne ⟨hnsq.symm, hkey.symm.trans ?_⟩
          exact Option.some_inj.1 (hname.symm.trans (hfit (hcov.1.trans_lt hcov.2)))
        rw [or_iff_left hpn]
        refine exists_congr fun a => and_congr_right fun ha => and_congr_right fun hkey => ?_
        rw [hout a ha]
        by_contra hn
        obtain ⟨h₁, h₂⟩ := PlaceName.named_iff.1 (Bool.not_eq_false _ ▸ hn)
        exact hne ⟨hkey.1.symm.trans h₁, hkey.2.symm.trans h₂⟩
  · refine iff_of_false (fun hres => ?_) fun h => hfit h.2
    obtain ⟨hlt, hnot⟩ := Classical.not_imp.1 hfit
    obtain ⟨a, -, hnm, -, -⟩ := (hres.inside pn.valid.start le_rfl hlt placeId).2 rfl
    exact hnot (nameFits_of_mem hnm.2)

end Branches

/-! ### The calls -/

section Calls
variable {gis : Gis} {c : Caller} {db : PlaceDb} {r : ℤ × PlaceDb} {placeName placeGeometry : String}
  {placevalidfrom placevalidto : Timestamp}

/-- The place of a geometry: the one that has it, or the one that the call makes. -/
def PlaceDb.placeFor (gis : Gis) (c : Caller) (db : PlaceDb) (placeGeometry : String) : ℤ :=
  (db.placeOfGeometry gis placeGeometry).getD c.nextval

/-- When `addOrUpdatePlacePoint` does as it should: the period is undisputed. -/
def PointResolves (gis : Gis) (c : Caller) (db : PlaceDb) (placeName placeGeometry : String)
    (placevalidfrom placevalidto : Timestamp) : Prop :=
  Undisputed db.tables.placename.rows c.namespace (lower placeName) (db.placeFor gis c placeGeometry)
    placevalidfrom placevalidto ∧ (placevalidfrom < placevalidto → NameFits placeName)

instance : Decidable (PointResolves gis c db placeName placeGeometry placevalidfrom placevalidto) :=
  inferInstanceAs (Decidable (_ ∧ _))

/-- When `addOrUpdatePlacePolygon` does as it should. -/
def PolygonResolves (gis : Gis) (c : Caller) (db : PlaceDb) (placeName placeGeometry : String)
    (placevalidfrom placevalidto : Timestamp) : Prop :=
  let splits := SplitsResolve c db.tables.placename.rows placeName placevalidfrom placevalidto
  match db.placeOfGeometry gis placeGeometry with
  | none => splits
  | some placeId =>
    UpdatesResolve c db.tables.placename.rows (fun pn => pn.early placevalidfrom placevalidto)
      (fun pn => pn.later placevalidfrom placevalidto) placeId placeName placevalidfrom placevalidto
      splits

/-- The branches for points close no gap. -/
theorem updatesResolve_point {placeId : ℤ} : UpdatesResolve c db.tables.placename.rows
      (fun pn => pn.underlapped placevalidfrom placevalidto)
      (fun pn => pn.overlapped placevalidfrom placevalidto) placeId placeName placevalidfrom
      placevalidto
      (Undisputed db.tables.placename.rows c.namespace (lower placeName) placeId placevalidfrom
        placevalidto ∧ (placevalidfrom < placevalidto → NameFits placeName)) ↔
    Undisputed db.tables.placename.rows c.namespace (lower placeName) placeId placevalidfrom
      placevalidto ∧ (placevalidfrom < placevalidto → NameFits placeName) := by
  have hfits : ∀ {test : PlaceName → Bool}, (∃ pn ∈ db.tables.placename.rows,
      (PlaceName.ofPlace c placeId placeName pn && test pn) = true) → NameFits placeName := by
    rintro test ⟨pn, -, hp⟩
    simp only [PlaceName.ofPlace, Bool.and_eq_true, PlaceName.named_iff] at hp
    exact nameFits_of_mem hp.1.1.2
  unfold UpdatesResolve
  dsimp only
  split
  · next hany => exact (and_iff_left fun _ => hfits hany).symm
  split
  · next hany => exact (and_iff_left fun _ => hfits hany).symm
  split
  · next hany =>
    refine and_congr Iff.rfl (iff_of_true (fun a _ hs t hto _ hlt => ?_) fun _ => hfits hany)
    have hstart : a.valid.start ≤ placevalidto := by
      simpa [PlaceName.underlapped] using (Bool.and_eq_true_iff.1
        (Bool.and_eq_true_iff.1 hs).2).2
    exact absurd (hlt.trans_le hstart) hto.not_gt
  split
  · next hany =>
    refine and_congr Iff.rfl (iff_of_true (fun a _ hs t hstop hlt _ => ?_) fun _ => hfits hany)
    have hfrom : placevalidfrom ≤ a.valid.stop := by
      simpa [PlaceName.overlapped] using (Bool.and_eq_true_iff.1
        (Bool.and_eq_true_iff.1 hs).2).2
    exact absurd (hlt.trans_le hfrom) hstop.not_gt
  · exact Iff.rfl

theorem addOrUpdatePlacePoint_resolves (hns : c.namespace ≠ 0)
    (hd : DisjointRows db.tables.placename.rows)
    (h : addOrUpdatePlacePoint gis c placeName placeGeometry placevalidfrom placevalidto db = some r) :
    CallResolves c db r.2 placeName (db.placeFor gis c placeGeometry) placevalidfrom placevalidto ↔
      PointResolves gis c db placeName placeGeometry placevalidfrom placevalidto := by
  unfold addOrUpdatePlacePoint at h
  unfold PointResolves PlaceDb.placeFor
  split at h
  · cases h
  cases hplace : db.placeOfGeometry gis placeGeometry with
  | none =>
    rw [hplace] at h
    obtain ⟨db₁, h₁, h⟩ := Option.bind_eq_some_iff.1 h
    obtain ⟨hrows, -⟩ := PlaceDb.insertPlaceDefinition_placename h₁
    split at h
    · cases h
    · have := insertName_resolves h (hrows ▸ hd)
      unfold CallResolves at this ⊢
      rwa [hrows] at this
  | some placeId =>
    rw [hplace] at h
    dsimp only at h
    rw [Option.getD_some, ← updatesResolve_point]
    exact updateSame_resolves h hd (fun pn hp => (Bool.and_eq_true_iff.1 hp).1)
      (fun pn hp => (Bool.and_eq_true_iff.1 hp).1) fun _ h => insertName_resolves h hd

theorem addOrUpdatePlacePolygon_resolves (hns : c.namespace ≠ 0)
    (hd : DisjointRows db.tables.placename.rows)
    (h : addOrUpdatePlacePolygon gis c placeName placeGeometry placevalidfrom placevalidto db =
      some r) :
    CallResolves c db r.2 placeName (db.placeFor gis c placeGeometry) placevalidfrom placevalidto ↔
      PolygonResolves gis c db placeName placeGeometry placevalidfrom placevalidto := by
  unfold addOrUpdatePlacePolygon at h
  unfold PolygonResolves PlaceDb.placeFor
  dsimp only
  split at h
  · cases h
  cases hplace : db.placeOfGeometry gis placeGeometry with
  | none =>
    rw [hplace] at h
    obtain ⟨db₁, h₁, h⟩ := Option.bind_eq_some_iff.1 h
    obtain ⟨hrows, hnew⟩ := PlaceDb.insertPlaceDefinition_placename h₁
    have := splitOthers_resolves h fun a ha _ => Ne.symm (hnew a (hrows ▸ ha))
    unfold CallResolves at this ⊢
    rwa [hrows] at this
  | some placeId =>
    rw [hplace] at h
    dsimp only at h
    refine updateSame_resolves h hd (fun _ hp => hp) (fun _ hp => hp) fun hnone h => ?_
    refine splitOthers_resolves h fun a ha hna hid => ?_
    obtain ⟨h₁, h₂, h₃, h₄⟩ := hnone a ha (by simp [PlaceName.ofPlace, hna, hid])
    simp only [PlaceName.extended, PlaceName.around, PlaceName.early, PlaceName.later,
      Bool.and_eq_true, decide_eq_true_eq] at h₁ h₂ h₃ h₄
    grind

/-- In a namespace, from a state with disjoint periods, a successful update makes the name designate the
    place in the period and changes nothing else, exactly when the period is undisputed and no row gains
    an instant that is not its place's. -/
theorem addOrUpdate_resolves_iff (gis : Gis) (c : Caller) (db : PlaceDb)
    (placeName placeGeometry : String) (placevalidfrom placevalidto : Timestamp) (r : ℤ × PlaceDb)
    (hns : c.namespace ≠ 0) (hd : DisjointRows db.tables.placename.rows) :
    (addOrUpdatePlacePoint gis c placeName placeGeometry placevalidfrom placevalidto db = some r →
      (CallResolves c db r.2 placeName (db.placeFor gis c placeGeometry) placevalidfrom placevalidto ↔
        PointResolves gis c db placeName placeGeometry placevalidfrom placevalidto)) ∧
    (addOrUpdatePlacePolygon gis c placeName placeGeometry placevalidfrom placevalidto db = some r →
      (CallResolves c db r.2 placeName (db.placeFor gis c placeGeometry) placevalidfrom placevalidto ↔
        PolygonResolves gis c db placeName placeGeometry placevalidfrom placevalidto)) :=
  ⟨addOrUpdatePlacePoint_resolves hns hd, addOrUpdatePlacePolygon_resolves hns hd⟩

/-- A point whose period is prolonged after itself. -/
theorem addOrUpdate_resolves_prolonged :
    let db := PlaceDb.step plainGis noPlaces
      (.addPlacePoint (callerOf 1) "place" "POINT(10 60)" (.at 0) (.at 10))
    ∃ r, addOrUpdatePlacePoint plainGis (callerOf 1) "place" "POINT(10 60)" (.at 5) (.at 15) db = some r ∧
      CallResolves (callerOf 1) db r.2 "place" 1 (.at 5) (.at 15) :=
  ⟨_, Option.eq_some_of_isSome (by decide), ((addOrUpdate_resolves_iff plainGis (callerOf 1) _ "place"
    "POINT(10 60)" (.at 5) (.at 15) _ (by decide) (by decide)).1
      (Option.eq_some_of_isSome (by decide))).2 (by decide)⟩

/-- A name that goes from one place to another: an update of the first place into the period of the
    second leaves the name with both. A polygon that gets the name later prolongs the row of the one
    before it over the gap between. -/
theorem addOrUpdate_takes :
    (let db := Runs.run (PlaceDb.step plainGis) noPlaces
      [.addPlacePoint (callerOf 1) "place" "POINT(10 60)" (.at 0) (.at 10),
        .addPlacePoint { callerOf 1 with nextval := 2 } "place" "POINT(11 60)" (.at 10) (.at 20)]
    DisjointRows db.tables.placename.rows ∧ ∃ r,
      addOrUpdatePlacePoint plainGis (callerOf 1) "place" "POINT(10 60)" (.at 0) (.at 15) db =
        some r ∧
      ¬ CallResolves (callerOf 1) db r.2 "place"
        (db.placeFor plainGis (callerOf 1) "POINT(10 60)") (.at 0) (.at 15)) ∧
    (let db := PlaceDb.step plainGis noPlaces
      (.addOrUpdatePlacePolygon (callerOf 1) "place" "POLYGON(1)" (.at 0) (.at 10))
    let c : Caller := { callerOf 1 with nextval := 2 }
    DisjointRows db.tables.placename.rows ∧ ∃ r,
      addOrUpdatePlacePolygon plainGis c "place" "POLYGON(2)" (.at 20) (.at 30) db = some r ∧
      ¬ CallResolves c db r.2 "place" (db.placeFor plainGis c "POLYGON(2)") (.at 20) (.at 30)) := by
  refine ⟨⟨by decide, _, Option.eq_some_of_isSome (by decide), fun h => ?_⟩,
    ⟨by decide, _, Option.eq_some_of_isSome (by decide), fun h => ?_⟩⟩
  · exact absurd ((h.inside (.at 12) (by decide) (by decide) 2).1 (by decide)) (by decide)
  · rcases h.outside (.at 15) (by decide) with hsame | ⟨-, hnone⟩
    · exact absurd ((hsame 1).1 (by decide)) (by decide)
    · exact hnone 1 (by decide)

end Calls

end Wdb.Place
