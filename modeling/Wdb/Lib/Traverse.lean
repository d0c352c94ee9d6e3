import Mathlib

/-! Programs that are run for every element of a list: the results of all of them, and when there are any. -/

namespace Traverse

variable {α β ε : Type}

/-- A program that has a result has one at every step. -/
theorem of_bind_eq_ok {x : Except ε α} {f : α → Except ε β} {b : β} (h : x >>= f = .ok b) :
    ∃ a, x = .ok a ∧ f a = .ok b := by
  cases x with
  | error e => cases h
  | ok a => exact ⟨a, rfl, h⟩

/-- When every element has a result, the results are theirs. -/
theorem mapM_eq_pure {m : Type → Type} [Monad m] [LawfulMonad m] {f : α → m β} {g : α → β} {l : List α}
    (h : ∀ a ∈ l, f a = pure (g a)) : l.mapM f = pure (l.map g) := by
  induction l with
  | nil => rfl
  | cons a l ih =>
    have hrest := ih fun b hb => h b (List.mem_cons_of_mem a hb)
    simp [List.mapM_cons, h a List.mem_cons_self, hrest]

theorem isSome_of_mapM {f : α → Option β} {l : List α} {bs : List β} (h : l.mapM f = some bs) :
    ∀ a ∈ l, (f a).isSome := by
  induction l generalizing bs with
  | nil => simp
  | cons a l ih =>
    simp only [List.mapM_cons, Option.bind_eq_bind, Option.bind_eq_some_iff] at h
    obtain ⟨b, hb, bs', hbs', -⟩ := h
    intro x hx
    rcases List.mem_cons.1 hx with rfl | hx
    · simp [hb]
    · exact ih hbs' x hx

/-- When there are results, nothing has thrown. -/
theorem of_mapM_eq_ok {f : α → Except ε β} : ∀ {l : List α} {results : List β}, l.mapM f = .ok results →
    (∀ a ∈ l, ∃ r ∈ results, f a = .ok r) ∧ ∀ r ∈ results, ∃ a ∈ l, f a = .ok r
  | [], results, h => by
    obtain rfl := Except.ok.inj h
    simp
  | a :: l, results, h => by
    rw [List.mapM_cons] at h
    cases hf : f a with
    | error e =>
      rw [hf] at h
      cases h
    | ok r =>
      cases hl : l.mapM f with
      | error e =>
        rw [hf, hl] at h
        cases h
      | ok rs =>
        rw [hf, hl] at h
        obtain rfl := Except.ok.inj h
        obtain ⟨hall, honly⟩ := of_mapM_eq_ok hl
        refine ⟨fun b hb => ?_, fun q hq => ?_⟩
        · rcases List.mem_cons.1 hb with rfl | hb
          · exact ⟨r, List.mem_cons_self, hf⟩
          · obtain ⟨q, hq, hfq⟩ := hall b hb
            exact ⟨q, List.mem_cons_of_mem _ hq, hfq⟩
        · rcases List.mem_cons.1 hq with rfl | hq
          · exact ⟨a, List.mem_cons_self, hf⟩
          · obtain ⟨b, hb, hfb⟩ := honly q hq
            exact ⟨b, List.mem_cons_of_mem _ hb, hfb⟩

/-- When the program can only give one result for an element, the results are these. -/
theorem eq_map_of_mapM_eq_ok {f : α → Except ε β} {g : α → β} (hf : ∀ a b, f a = .ok b → b = g a) {l : List α}
    {results : List β} (h : l.mapM f = .ok results) : results = l.map g := by
  induction l generalizing results with
  | nil => exact (Except.ok.inj h).symm
  | cons a l ih =>
    rw [List.mapM_cons] at h
    cases ha : f a with
    | error e =>
      rw [ha] at h
      cases h
    | ok b =>
      cases hl : l.mapM f with
      | error e =>
        rw [ha, hl] at h
        cases h
      | ok bs =>
        rw [ha, hl] at h
        obtain rfl := Except.ok.inj h
        rw [hf a b ha, ih hl, List.map_cons]

end Traverse
