import Mathlib

/-! Nested sets: a forest stored as integer intervals.

    Every node carries a left and a right bound; a node is an ancestor of the nodes whose interval
    lies within its own. Making room for a new node at a position `g` moves bounds to the right.
    `shift` is the coarse way to do that, which moves both bounds of every interval that ends beyond
    `g`. The lemmas say exactly when it keeps two intervals compatible, and when it keeps one
    inside the other. -/

namespace NestedSet

/-- The interval of a node. -/
structure Span where
  left : ℤ
  right : ℤ
  deriving DecidableEq

namespace Span

/-- The bounds are in order. -/
def Proper (s : Span) : Prop := s.left < s.right

/-- The intervals are disjoint. -/
def Apart (s t : Span) : Prop := s.right < t.left ∨ t.right < s.left

/-- `s` lies strictly within `t`. -/
def Within (s t : Span) : Prop := t.left < s.left ∧ s.right < t.right

/-- The four bounds of two intervals are pairwise distinct. -/
def Distinct (s t : Span) : Prop :=
  s.left ≠ t.left ∧ s.left ≠ t.right ∧ s.right ≠ t.left ∧ s.right ≠ t.right

/-- Two intervals of a nested-set encoding: distinct bounds, and disjoint or strictly nested. -/
def Compatible (s t : Span) : Prop := s.Distinct t ∧ (s.Apart t ∨ s.Within t ∨ t.Within s)

/-- The membership test of nested-set queries: `t` lies in `s`, bounds included. -/
def Contains (s t : Span) : Prop := s.left ≤ t.left ∧ t.right ≤ s.right

instance (s : Span) : Decidable s.Proper := inferInstanceAs (Decidable (_ < _))
instance (s t : Span) : Decidable (s.Apart t) := inferInstanceAs (Decidable (_ ∨ _))
instance (s t : Span) : Decidable (s.Within t) := inferInstanceAs (Decidable (_ ∧ _))
instance (s t : Span) : Decidable (s.Distinct t) := inferInstanceAs (Decidable (_ ∧ _))
instance (s t : Span) : Decidable (s.Compatible t) := inferInstanceAs (Decidable (_ ∧ _))
instance (s t : Span) : Decidable (s.Contains t) := inferInstanceAs (Decidable (_ ∧ _))

/-- Move both bounds by `k` when the interval ends beyond `g`. -/
def shift (g k : ℤ) (s : Span) : Span :=
  if g < s.right then ⟨s.left + k, s.right + k⟩ else s

variable {s t : Span} {g k : ℤ}

theorem shift_of_lt (h : g < s.right) : s.shift g k = ⟨s.left + k, s.right + k⟩ := if_pos h

theorem shift_of_le (h : s.right ≤ g) : s.shift g k = s := if_neg (not_lt.2 h)

theorem Proper.shift (h : s.Proper) : (s.shift g k).Proper := by
  unfold Span.shift
  split
  · exact add_lt_add_left h k
  · exact h

theorem Compatible.symm (h : s.Compatible t) : t.Compatible s := by
  obtain ⟨⟨h1, h2, h3, h4⟩, hn⟩ := h
  refine ⟨⟨h1.symm, h3.symm, h2.symm, h4.symm⟩, ?_⟩
  rcases hn with h | h | h
  · exact Or.inl h.symm
  · exact Or.inr (Or.inr h)
  · exact Or.inr (Or.inl h)

/-- Disjoint intervals are compatible. -/
theorem Apart.compatible (hs : s.Proper) (ht : t.Proper) (h : s.Apart t) : s.Compatible t := by
  refine ⟨?_, Or.inl h⟩
  unfold Proper at hs ht; unfold Apart at h; unfold Distinct
  omega

/-- `s` ends beyond `g` and `t` does not, and the left bound of `s` stays before `t` when it moves by
    two. -/
def Room (g : ℤ) (s t : Span) : Prop :=
  s.left < t.left → t.right ≤ g → g < s.right → s.left + 2 < t.left

instance (g : ℤ) (s t : Span) : Decidable (Room g s t) := inferInstanceAs (Decidable (_ → _))

/-- The shift keeps two compatible intervals compatible exactly when they leave room. -/
theorem compatible_shift (hs : s.Proper) (ht : t.Proper) (h : s.Compatible t) :
    (s.shift g 2).Compatible (t.shift g 2) ↔ Room g s t ∧ Room g t s := by
  unfold Proper at hs ht
  unfold Compatible Distinct Apart Within Room at *
  rcases lt_or_ge g s.right with hgs | hgs <;> rcases lt_or_ge g t.right with hgt | hgt
  · rw [shift_of_lt hgs, shift_of_lt hgt]; simp only; omega
  · rw [shift_of_lt hgs, shift_of_le hgt]; simp only; omega
  · rw [shift_of_le hgs, shift_of_lt hgt]; simp only; omega
  · rw [shift_of_le hgs, shift_of_le hgt]; omega

/-- The shift beyond `t` and a `t` two wider stay compatible exactly when there is room. -/
theorem compatible_widen (hs : s.Proper) (ht : t.Proper) (h : s.Compatible t) :
    (s.shift t.right 2).Compatible ⟨t.left, t.right + 2⟩ ↔ Room t.right s t := by
  unfold Proper at hs ht
  unfold Compatible Distinct Apart Within Room at *
  rcases lt_or_ge t.right s.right with hts | hts
  · rw [shift_of_lt hts]; simp only; omega
  · rw [shift_of_le hts]; simp only; omega

/-- With room, the shift beyond `t` frees the interval of two at its end. -/
theorem compatible_slot (hs : s.Proper) (ht : t.Proper) (h : s.Compatible t)
    (hroom : Room t.right s t) : (s.shift t.right 2).Compatible ⟨t.right, t.right + 1⟩ := by
  unfold Proper at hs ht
  unfold Compatible Distinct Apart Within Room at *
  rcases lt_or_ge t.right s.right with hts | hts
  · rw [shift_of_lt hts]; simp only; omega
  · rw [shift_of_le hts]; simp only; omega

/-- The freed interval lies within the widened one. -/
theorem compatible_inside (ht : t.Proper) :
    (⟨t.left, t.right + 2⟩ : Span).Compatible ⟨t.right, t.right + 1⟩ := by
  unfold Proper at ht
  unfold Compatible Distinct Apart Within
  simp only
  omega

/-- The shift keeps whether `t` lies in `s` exactly when the left bound of `s` moves no further than
    that of `t`. -/
theorem contains_shift :
    ((s.shift g 2).Contains (t.shift g 2) ↔ s.Contains t) ↔
      (t.right ≤ g → g < s.right → s.left ≤ t.left → s.left + 2 ≤ t.left) := by
  unfold Contains
  rcases lt_or_ge g s.right with hgs | hgs <;> rcases lt_or_ge g t.right with hgt | hgt
  · rw [shift_of_lt hgs, shift_of_lt hgt]; simp only; omega
  · rw [shift_of_lt hgs, shift_of_le hgt]; simp only; omega
  · rw [shift_of_le hgs, shift_of_lt hgt]; simp only; omega
  · rw [shift_of_le hgs, shift_of_le hgt]; omega

/-- Nothing but itself lies in the freed interval. -/
theorem not_slot_contains_shift (hs : s.Proper) : ¬ (⟨g, g + 1⟩ : Span).Contains (s.shift g 2) := by
  unfold Proper at hs
  unfold Contains
  rcases lt_or_ge g s.right with hgs | hgs
  · rw [shift_of_lt hgs]; simp only; omega
  · rw [shift_of_le hgs]; simp only; omega

/-- What lies in the widened interval besides the freed one lay in it before. -/
theorem widen_contains_shift :
    (⟨t.left, t.right + 2⟩ : Span).Contains (s.shift t.right 2) ↔ t.Contains s := by
  unfold Contains
  rcases lt_or_ge t.right s.right with hts | hts
  · rw [shift_of_lt hts]; simp only; omega
  · rw [shift_of_le hts]; simp only; omega

/-- The widened interval has the freed one in it. -/
theorem widen_contains_slot (ht : t.Proper) :
    (⟨t.left, t.right + 2⟩ : Span).Contains ⟨t.right, t.right + 1⟩ :=
  ⟨le_of_lt ht, by simp⟩

/-- The widened interval does not lie in the freed one. -/
theorem not_slot_contains_widen : ¬ (⟨t.right, t.right + 1⟩ : Span).Contains
    ⟨t.left, t.right + 2⟩ := by
  rintro ⟨_, h⟩
  simp only at h
  omega

/-- A shifted interval still has the widened one in it exactly when it does not end with it and its
    left bound moves no further than the other's. -/
theorem shift_contains_widen :
    ((s.shift t.right 2).Contains ⟨t.left, t.right + 2⟩ ↔ s.Contains t) ↔
      (t.right < s.right → s.left ≤ t.left → s.left + 2 ≤ t.left) ∧
      (s.right = t.right → ¬ s.left ≤ t.left) := by
  unfold Contains
  rcases lt_or_ge t.right s.right with hts | hts
  · rw [shift_of_lt hts]; simp only; omega
  · rw [shift_of_le hts]; simp only; omega

/-- A shifted interval has the freed one in it exactly when it had `t`, up to intervals that end with
    `t` and intervals that overlap it. -/
theorem shift_contains_slot :
    ((s.shift t.right 2).Contains ⟨t.right, t.right + 1⟩ ↔ s.Contains t) ↔
      (t.right < s.right → (s.left + 2 ≤ t.right ↔ s.left ≤ t.left)) ∧
      (s.right = t.right → ¬ s.left ≤ t.left) := by
  unfold Contains
  rcases lt_or_ge t.right s.right with hts | hts
  · rw [shift_of_lt hts]; simp only; omega
  · rw [shift_of_le hts]; simp only; omega

end Span

end NestedSet
