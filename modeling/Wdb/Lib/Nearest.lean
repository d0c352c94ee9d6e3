import Mathlib

/-! The nearest of several things, each with a distance.

    A set is closed when nothing outside of it is nearer than anything in it. The first elements of a list
    that is sorted by distance are such a set, but when several elements stand for one thing there may be
    fewer things in it than elements. -/

namespace Nearest

variable {κ β : Type} [DecidableEq κ] [LinearOrder β] (d : κ → β)

/-- Nothing outside is nearer than anything inside. -/
structure Closed (all s : Finset κ) : Prop where
  subset : s ⊆ all
  le : ∀ p ∈ s, ∀ q ∈ all, q ∉ s → d p ≤ d q

/-- The `n` nearest things, or all if there are fewer. -/
structure Selection (n : ℕ) (all s : Finset κ) : Prop extends Closed d all s where
  card : s.card = min n all.card

section Rows
variable {α : Type} (thing : α → κ)

/-- The things that elements stand for. -/
def things (rows : List α) : Finset κ := (rows.map thing).toFinset

variable {d thing}

theorem mem_things {rows : List α} {p : κ} : p ∈ things thing rows ↔ ∃ v ∈ rows, thing v = p := by
  simp [things]

/-- The first elements of a sorted list. -/
theorem closed_take {rows : List α} (hsorted : rows.Pairwise fun v w => d (thing v) ≤ d (thing w)) (n : ℕ) :
    Closed d (things thing rows) (things thing (rows.take n)) := by
  refine ⟨fun p hp => ?_, fun p hp q hq hnot => ?_⟩
  · obtain ⟨v, hv, rfl⟩ := mem_things.1 hp
    exact mem_things.2 ⟨v, List.mem_of_mem_take hv, rfl⟩
  · obtain ⟨v, hv, rfl⟩ := mem_things.1 hp
    obtain ⟨w, hw, rfl⟩ := mem_things.1 hq
    rw [← List.take_append_drop n rows] at hsorted hw
    rcases List.mem_append.1 hw with hw | hw
    · exact absurd (mem_things.2 ⟨w, hw, rfl⟩) hnot
    · exact (List.pairwise_append.1 hsorted).2.2 v hv w hw

/-- A thing is among those of the first elements when there are fewer elements before its own. -/
theorem mem_things_take_iff {p : κ} {n : ℕ} : ∀ {rows : List α}, (∃ v ∈ rows, thing v = p) →
    (p ∈ things thing (rows.take n) ↔ (rows.takeWhile fun v => thing v ≠ p).length < n) := by
  intro rows h
  induction rows generalizing n with
  | nil => simp at h
  | cons v rows ih =>
    cases n with
    | zero => simp [things]
    | succ n =>
      rw [List.take_succ_cons, mem_things, List.takeWhile_cons]
      by_cases hv : thing v = p
      · simp [hv]
      · have hrest : ∃ w ∈ rows, thing w = p := by
          obtain ⟨w, hw, hwp⟩ := h
          rcases List.mem_cons.1 hw with rfl | hw
          · exact absurd hwp hv
          · exact ⟨w, hw, hwp⟩
        have hih := ih (n := n) hrest
        rw [mem_things] at hih
        simpa [hv] using hih

theorem card_take_le (rows : List α) (n : ℕ) :
    (things thing (rows.take n)).card ≤ min n (things thing rows).card := by
  refine le_min ?_ (Finset.card_le_card fun p hp => ?_)
  · calc (things thing (rows.take n)).card ≤ ((rows.take n).map thing).length :=
          List.toFinset_card_le _
      _ ≤ n := by simp
  · obtain ⟨v, hv, rfl⟩ := mem_things.1 hp
    exact mem_things.2 ⟨v, List.mem_of_mem_take hv, rfl⟩

end Rows

variable {d} {all s t : Finset κ}

/-- There are as many nearest things as one likes. -/
theorem exists_selection (d : κ → β) (n : ℕ) (all : Finset κ) : ∃ s, Selection d n all s := by
  induction n with
  | zero => exact ⟨∅, ⟨Finset.empty_subset _, fun p hp => absurd hp (Finset.notMem_empty p)⟩, by simp⟩
  | succ n ih =>
    obtain ⟨s, hs⟩ := ih
    rcases (all \ s).eq_empty_or_nonempty with hnone | hsome
    · have hall : all ⊆ s := Finset.sdiff_eq_empty_iff_subset.1 hnone
      have hcard := hs.card
      have hle := Finset.card_le_card hall
      exact ⟨s, hs.toClosed, by omega⟩
    · obtain ⟨p, hp, hmin⟩ := Finset.exists_min_image (all \ s) d hsome
      obtain ⟨hpall, hps⟩ := Finset.mem_sdiff.1 hp
      refine ⟨insert p s, ⟨Finset.insert_subset hpall hs.subset, fun q hq r hr hnot => ?_⟩, ?_⟩
      · rw [Finset.mem_insert, not_or] at hnot
        rcases Finset.mem_insert.1 hq with rfl | hq
        · exact hmin r (Finset.mem_sdiff.2 ⟨hr, hnot.2⟩)
        · exact hs.le q hq r hr hnot.2
      · have hcard := hs.card
        have hlt := Finset.card_lt_card (Finset.ssubset_iff_of_subset hs.subset |>.2 ⟨p, hpall, hps⟩)
        rw [Finset.card_insert_of_notMem hps]
        omega

/-- A closed set can be completed to a selection by things of which nothing is asked, exactly when for each
    other thing that it lacks there are `n` that are no farther and in the set or without such a demand. -/
theorem Closed.completes_iff {n : ℕ} (ht : Closed d all t) (hcard : t.card ≤ min n all.card)
    {asked : κ → Prop} [DecidablePred asked] :
    (∃ s, Selection d n all s ∧ ∀ p ∈ all, asked p → (p ∈ s ↔ p ∈ t)) ↔
      ∀ p ∈ all, asked p → p ∈ t ∨ n ≤ (all.filter fun q => d q ≤ d p ∧ (q ∈ t ∨ ¬ asked q)).card := by
  constructor
  · rintro ⟨s, hs, hagree⟩ p hp hasked
    rw [or_iff_not_imp_left]
    intro hpt
    have hps : p ∉ s := fun h => hpt ((hagree p hp hasked).1 h)
    have hlt := Finset.card_lt_card (Finset.ssubset_iff_of_subset hs.subset |>.2 ⟨p, hp, hps⟩)
    have hn : s.card = n := by
      have := hs.card
      omega
    rw [← hn]
    refine Finset.card_le_card fun q hq => Finset.mem_filter.2 ⟨hs.subset hq, hs.le q hq p hp hps, ?_⟩
    by_cases hqasked : asked q
    · exact Or.inl ((hagree q (hs.subset hq) hqasked).1 hq)
    · exact Or.inr hqasked
  · intro h
    -- the set is completed by the nearest of the things that nothing is asked of
    obtain ⟨e, he⟩ := exists_selection d (min n all.card - t.card) ((all.filter fun q => ¬ asked q) \ t)
    have hfree : ∀ q ∈ e, q ∈ all ∧ ¬ asked q ∧ q ∉ t := by
      intro q hq
      obtain ⟨hq, hqt⟩ := Finset.mem_sdiff.1 (he.subset hq)
      exact ⟨(Finset.mem_filter.1 hq).1, (Finset.mem_filter.1 hq).2, hqt⟩
    have hdisjoint : Disjoint t e := Finset.disjoint_left.2 fun q hqt hqe => (hfree q hqe).2.2 hqt
    have hclose : ∀ p ∈ all, asked p → p ∉ t → n ≤ (all.filter fun q => d q ≤ d p ∧ (q ∈ t ∨ ¬ asked q)).card :=
      fun p hp hasked hpt => (h p hp hasked).resolve_left hpt
    have henough : min n all.card - t.card ≤ ((all.filter fun q => ¬ asked q) \ t).card := by
      have hpool : min n all.card ≤ (t ∪ (all.filter fun q => ¬ asked q) \ t).card := by
        by_cases hlacks : ∃ p ∈ all, asked p ∧ p ∉ t
        · obtain ⟨p, hp, hasked, hpt⟩ := hlacks
          refine (min_le_left _ _).trans ((hclose p hp hasked hpt).trans (Finset.card_le_card fun q hq => ?_))
          obtain ⟨hq, -, hkind⟩ := Finset.mem_filter.1 hq
          by_cases hqt : q ∈ t
          · exact Finset.mem_union_left _ hqt
          · refine Finset.mem_union_right _ (Finset.mem_sdiff.2 ⟨Finset.mem_filter.2 ⟨hq, ?_⟩, hqt⟩)
            exact hkind.resolve_left hqt
        · push Not at hlacks
          refine (min_le_right _ _).trans (Finset.card_le_card fun q hq => ?_)
          by_cases hqt : q ∈ t
          · exact Finset.mem_union_left _ hqt
          · refine Finset.mem_union_right _ (Finset.mem_sdiff.2 ⟨Finset.mem_filter.2 ⟨hq, ?_⟩, hqt⟩)
            exact fun hasked => hqt (hlacks q hq hasked)
      rw [Finset.card_union_of_disjoint Finset.disjoint_sdiff] at hpool
      omega
    have hall : (t ∪ e).card = min n all.card := by
      rw [Finset.card_union_of_disjoint hdisjoint, he.card, min_eq_left henough]
      omega
    refine ⟨t ∪ e, ⟨⟨?_, fun p hp q hq hnot => ?_⟩, hall⟩, fun p _ hasked => ?_⟩
    · exact Finset.union_subset ht.subset fun q hq => (hfree q hq).1
    · rw [Finset.mem_union, not_or] at hnot
      rcases Finset.mem_union.1 hp with hp | hp
      · exact ht.le p hp q hq hnot.1
      by_cases hasked : asked q
      · by_contra hfar
        -- then what is no farther than `q` is in the completed set, which has a farther one as well
        have hsub : (all.filter fun r => d r ≤ d q ∧ (r ∈ t ∨ ¬ asked r)) ⊂ t ∪ e := by
          refine (Finset.ssubset_iff_of_subset fun r hr => ?_).2
            ⟨p, Finset.mem_union_right _ hp, fun hin => hfar (Finset.mem_filter.1 hin).2.1⟩
          obtain ⟨hr, hrq, hkind⟩ := Finset.mem_filter.1 hr
          by_contra hnotr
          rw [Finset.mem_union, not_or] at hnotr
          have hrfree : r ∈ all.filter fun r => ¬ asked r :=
            Finset.mem_filter.2 ⟨hr, hkind.resolve_left hnotr.1⟩
          exact hfar ((he.le p hp r (Finset.mem_sdiff.2 ⟨hrfree, hnotr.1⟩) hnotr.2).trans hrq)
        have hlt := Finset.card_lt_card hsub
        have hle := hclose q hq hasked hnot.1
        omega
      · exact he.le p hp q (Finset.mem_sdiff.2 ⟨Finset.mem_filter.2 ⟨hq, hasked⟩, hnot.1⟩) hnot.2
    · rw [Finset.mem_union]
      exact or_iff_left fun hpe => (hfree p hpe).2.1 hasked

end Nearest
