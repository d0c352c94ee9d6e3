import Mathlib

/-! Half-open periods of a linear order.

    A period runs from its start up to, and without, its stop; one that starts where it stops covers no
    instant. Two periods overlap when some instant is in both. -/

namespace Periods

/-- A half-open period `[start, stop)`. -/
@[ext] structure Period (τ : Type*) [LinearOrder τ] where
  start : τ
  stop : τ
  le : start ≤ stop
  deriving DecidableEq

namespace Period

variable {τ : Type*} [LinearOrder τ]

/-- The period between two bounds, refused when they are in the wrong order. -/
def between (start stop : τ) : Option (Period τ) :=
  if h : start ≤ stop then some ⟨start, stop, h⟩ else none

/-- The instants of a period. -/
def Covers (p : Period τ) (t : τ) : Prop := p.start ≤ t ∧ t < p.stop

/-- Some instant of the period lies between two bounds (`touches_iff`). -/
def Touches (p : Period τ) (s t : τ) : Prop :=
  (p.start < t ∧ s < p.stop) ∧ p.start < p.stop ∧ s < t

/-- Some instant is in both periods (`overlaps_iff`). -/
def Overlaps (p q : Period τ) : Prop := p.Touches q.start q.stop

instance (p : Period τ) (t : τ) : Decidable (p.Covers t) := inferInstanceAs (Decidable (_ ∧ _))

instance (p : Period τ) (s t : τ) : Decidable (p.Touches s t) := inferInstanceAs (Decidable (_ ∧ _))

instance (p q : Period τ) : Decidable (p.Overlaps q) := inferInstanceAs (Decidable (_ ∧ _))

variable {p q r : Period τ} {s t : τ}

theorem between_eq_some : between s t = some p ↔ p.start = s ∧ p.stop = t := by
  unfold between
  constructor
  · intro h
    split at h
    · cases h
      exact ⟨rfl, rfl⟩
    · cases h
  · rintro ⟨rfl, rfl⟩
    rw [dif_pos p.le]

theorem touches_iff : p.Touches s t ↔ ∃ x, p.Covers x ∧ s ≤ x ∧ x < t := by
  constructor
  · rintro ⟨⟨hpt, hsp⟩, hp, hst⟩
    exact ⟨max p.start s, ⟨le_max_left _ _, max_lt hp hsp⟩, le_max_right _ _, max_lt hpt hst⟩
  · rintro ⟨x, ⟨hp, hp'⟩, hs, ht⟩
    exact ⟨⟨hp.trans_lt ht, hs.trans_lt hp'⟩, hp.trans_lt hp', hs.trans_lt ht⟩

theorem overlaps_iff : p.Overlaps q ↔ ∃ x, p.Covers x ∧ q.Covers x := touches_iff

theorem Overlaps.symm (h : p.Overlaps q) : q.Overlaps p :=
  ⟨⟨h.1.2, h.1.1⟩, h.2.2, h.2.1⟩

theorem overlaps_comm : p.Overlaps q ↔ q.Overlaps p := ⟨Overlaps.symm, Overlaps.symm⟩

end Period

end Periods
