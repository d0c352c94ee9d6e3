import Mathlib

/-! A cache that keeps the first value that is looked up for each key.

    A look-up has a key, and what the source says at the time. The cache answers it with the value it
    keeps, and otherwise from the source, whose value it keeps from then on. It is transparent over a
    sequence of look-ups exactly when what is found for a key is found again by every later look-up of
    the key. -/

namespace ReadThrough

variable {κ υ : Type*}

/-- A look-up of a key, and what the source says. -/
structure Lookup (κ υ : Type*) where
  key : κ
  source : Option υ

/-- What the cache answers. -/
def serve (m : κ → Option υ) (a : Lookup κ υ) : Option υ := (m a.key).or a.source

theorem serve_eq_source {m : κ → Option υ} {a : Lookup κ υ} :
    serve m a = a.source ↔ ∀ v, m a.key = some v → a.source = some v := by
  unfold serve
  cases m a.key with
  | none => simp
  | some v => simp [eq_comm]

variable [DecidableEq κ]

/-- What the cache keeps after a look-up; only some values are kept. -/
def store (keep : υ → Bool) (m : κ → Option υ) (a : Lookup κ υ) : κ → Option υ :=
  if (m a.key).isNone then Function.update m a.key (a.source.filter keep) else m

/-- Every look-up is answered as the source says. -/
def Transparent (keep : υ → Bool) : (κ → Option υ) → List (Lookup κ υ) → Prop
  | _, [] => True
  | m, a :: l => serve m a = a.source ∧ Transparent keep (store keep m a) l

/-- The later look-up finds what the earlier one found. -/
def Agrees (keep : υ → Bool) (a b : Lookup κ υ) : Prop :=
  a.key = b.key → ∀ v, a.source = some v → keep v → b.source = some v

variable {keep : υ → Bool}

/-- The cache after a look-up that it answers as the source says. -/
theorem store_eq_some {m : κ → Option υ} {a : Lookup κ υ} (h : serve m a = a.source) {k : κ} {v : υ} :
    store keep m a k = some v ↔ m k = some v ∨ a.key = k ∧ a.source = some v ∧ keep v := by
  unfold store
  cases hm : m a.key with
  | some w =>
    have hw := serve_eq_source.1 h w hm
    simp only [Option.isNone_some, Bool.false_eq_true, if_false]
    refine (or_iff_left_of_imp ?_).symm
    rintro ⟨rfl, hv, -⟩
    exact hm.trans (hw.symm.trans hv)
  | none =>
    simp only [Option.isNone_none, if_true]
    by_cases hk : k = a.key
    · subst hk
      simp [hm, Option.filter_eq_some_iff]
    · rw [Function.update_of_ne hk]
      simp [Ne.symm hk]

theorem transparent_append {m : κ → Option υ} {l l' : List (Lookup κ υ)} :
    Transparent keep m (l ++ l') ↔
      Transparent keep m l ∧ Transparent keep (l.foldl (store keep) m) l' := by
  induction l generalizing m with
  | nil => simp [Transparent]
  | cons a l ih => simp [Transparent, ih, and_assoc]

/-- Transparency from any state of the cache. -/
theorem transparent_iff_pairwise (m : κ → Option υ) (l : List (Lookup κ υ)) :
    Transparent keep m l ↔
      (∀ b ∈ l, ∀ v, m b.key = some v → b.source = some v) ∧ l.Pairwise (Agrees keep) := by
  induction l generalizing m with
  | nil => simp [Transparent]
  | cons a l ih =>
    rw [Transparent, ih, List.pairwise_cons, List.forall_mem_cons]
    constructor
    · rintro ⟨ha, hl, hpair⟩
      refine ⟨⟨serve_eq_source.1 ha, fun b hb v hv => ?_⟩, fun b hb hk v hv hkeep => ?_, hpair⟩
      · exact hl b hb v ((store_eq_some ha).2 (Or.inl hv))
      · exact hl b hb v ((store_eq_some ha).2 (Or.inr ⟨hk, hv, hkeep⟩))
    · rintro ⟨⟨ha, hl⟩, hagrees, hpair⟩
      have ha := serve_eq_source.2 ha
      refine ⟨ha, fun b hb v hv => ?_, hpair⟩
      rcases (store_eq_some ha).1 hv with hv | ⟨hk, hv, hkeep⟩
      · exact hl b hb v hv
      · exact hagrees b hb hk v hv hkeep

/-- From an empty cache. -/
theorem transparent_iff (l : List (Lookup κ υ)) :
    Transparent keep (fun _ => none) l ↔ l.Pairwise (Agrees keep) := by
  simp [transparent_iff_pairwise]

end ReadThrough
