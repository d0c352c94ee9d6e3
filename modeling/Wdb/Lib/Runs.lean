import Mathlib

/-! Runs of a step function, and what holds in every state of a run.

    `run` folds a total step function over a list of calls; `exec` does the same for a step that may
    be disabled. `Each` says that every step of a run meets a condition in the state it is made
    from. An invariant is proved once per step and carried over the run here. -/

namespace Runs

variable {σ ι : Type*}

section Total
variable (step : σ → ι → σ)

/-- The state after a list of calls. -/
def run (s : σ) (l : List ι) : σ := l.foldl step s

/-- Every call of the list meets `Good` in the state it is made from. -/
def Each (Good : σ → ι → Prop) : σ → List ι → Prop
  | _, [] => True
  | s, i :: l => Good s i ∧ Each Good (step s i) l

instance (Good : σ → ι → Prop) [∀ s i, Decidable (Good s i)] :
    ∀ (s : σ) (l : List ι), Decidable (Each step Good s l)
  | _, [] => isTrue trivial
  | s, i :: l =>
    have : Decidable (Each step Good (step s i) l) := instDecidableEach Good (step s i) l
    inferInstanceAs (Decidable (_ ∧ _))

@[simp] theorem run_nil (s : σ) : run step s [] = s := rfl

@[simp] theorem run_cons (s : σ) (i : ι) (l : List ι) :
    run step s (i :: l) = run step (step s i) l := rfl

/-- An invariant that every call preserves holds after every run. -/
theorem inv_run_all (Inv : σ → Prop) (hstep : ∀ s i, Inv s → Inv (step s i)) :
    ∀ (l : List ι) (s : σ), Inv s → Inv (run step s l)
  | [], _, hs => hs
  | i :: l, s, hs => inv_run_all Inv hstep l (step s i) (hstep s i hs)

/-- An invariant that every call of a kind preserves holds after every run of such calls. -/
theorem inv_run_forall (Inv : σ → Prop) {Good : ι → Prop}
    (hstep : ∀ s i, Inv s → Good i → Inv (step s i)) :
    ∀ (l : List ι) (s : σ), (∀ i ∈ l, Good i) → Inv s → Inv (run step s l)
  | [], _, _, hs => hs
  | i :: l, s, hl, hs =>
    inv_run_forall Inv hstep l (step s i) (fun j hj => hl j (List.mem_cons_of_mem i hj))
      (hstep s i hs (hl i List.mem_cons_self))

theorem run_append (s : σ) (p l : List ι) : run step s (p ++ l) = run step (run step s p) l :=
  List.foldl_append

/-- Each call of a run of good calls is good in the state it is made from. -/
theorem good_of_prefix {Good : σ → ι → Prop} : ∀ {p l : List ι} {s : σ} {i : ι}, (p ++ [i]) <+: l →
    Each step Good s l → Good (run step s p) i
  | _, [], _, _, h, _ => by simp at h
  | [], j :: l, s, i, h, ⟨hj, _⟩ => by
    obtain ⟨rfl, _⟩ := List.cons_prefix_cons.1 h
    exact hj
  | k :: p, j :: l, s, i, h, ⟨_, hl⟩ => by
    obtain ⟨rfl, h'⟩ := List.cons_prefix_cons.1 h
    exact good_of_prefix (p := p) (s := step s k) h' hl

/-- A condition that always holds holds of every run. -/
theorem each_of_forall {Good : σ → ι → Prop} (h : ∀ s i, Good s i) :
    ∀ (l : List ι) (s : σ), Each step Good s l
  | [], _ => trivial
  | i :: l, s => ⟨h s i, each_of_forall h l (step s i)⟩

/-- If, wherever `Base` holds, a call meets `P` exactly when it is `Good`, and then keeps `Base`, then
    every call of a run meets `P` exactly when every call is `Good`. -/
theorem each_iff_each (Base : σ → Prop) {P Good : σ → ι → Prop}
    (hiff : ∀ s i, Base s → (P s i ↔ Good s i)) (hbase : ∀ s i, Base s → P s i → Base (step s i)) :
    ∀ (l : List ι) (s : σ), Base s → (Each step P s l ↔ Each step Good s l)
  | [], _, _ => Iff.rfl
  | i :: l, s, hs => by
    refine ⟨fun ⟨hi, hl⟩ => ?_, fun ⟨hi, hl⟩ => ?_⟩
    · exact ⟨(hiff s i hs).1 hi, (each_iff_each Base hiff hbase l _ (hbase s i hs hi)).1 hl⟩
    · have hi := (hiff s i hs).2 hi
      exact ⟨hi, (each_iff_each Base hiff hbase l _ (hbase s i hs hi)).2 hl⟩

/-- If, wherever `Base` holds, a call that is `Good` meets `P` and keeps `Base`, then the calls of a run of
    good calls meet `P`. -/
theorem each_imp (Base : σ → Prop) {P Good : σ → ι → Prop}
    (h : ∀ s i, Base s → Good s i → P s i ∧ Base (step s i)) :
    ∀ (l : List ι) (s : σ), Base s → Each step Good s l → Each step P s l
  | [], _, _, _ => trivial
  | i :: l, s, hs, ⟨hi, hl⟩ =>
    ⟨(h s i hs hi).1, each_imp Base h l (step s i) (h s i hs hi).2 hl⟩

/-- If, wherever `Base` and `Inv` hold, an admissible call keeps `Inv` exactly when it is `Good`,
    then `Inv` holds in every state of a run exactly when every call of the run is `Good`. -/
theorem always_iff_each (Base Inv : σ → Prop) {Adm Good : σ → ι → Prop}
    (hbase : ∀ s i, Base s → Base (step s i))
    (hiff : ∀ s i, Base s → Inv s → Adm s i → (Inv (step s i) ↔ Good s i)) :
    ∀ (l : List ι) (s : σ), Base s → Inv s → Each step Adm s l →
      ((∀ p, p <+: l → Inv (run step s p)) ↔ Each step Good s l)
  | [], s, _, hs, _ => by
    refine ⟨fun _ => trivial, fun _ p hp => ?_⟩
    rw [List.prefix_nil.1 hp]; exact hs
  | i :: l, s, hb, hs, ⟨ha, hl⟩ => by
    have hone := hiff s i hb hs ha
    constructor
    · intro h
      have hnext : Inv (step s i) := h [i] (by simp)
      refine ⟨hone.1 hnext, ?_⟩
      refine (always_iff_each Base Inv hbase hiff l (step s i) (hbase s i hb) hnext hl).1 ?_
      intro p hp
      exact h (i :: p) (List.cons_prefix_cons.2 ⟨rfl, hp⟩)
    · rintro ⟨hi, hrest⟩ p hp
      have hnext : Inv (step s i) := hone.2 hi
      have ih := (always_iff_each Base Inv hbase hiff l (step s i) (hbase s i hb) hnext hl).2 hrest
      cases p with
      | nil => exact hs
      | cons j p =>
        obtain ⟨rfl, hp'⟩ := List.cons_prefix_cons.1 hp
        exact ih p hp'

/-- The same without conditions on the calls. -/
theorem always_iff_each_all (Inv : σ → Prop) {Good : σ → ι → Prop}
    (hiff : ∀ s i, Inv s → (Inv (step s i) ↔ Good s i)) (l : List ι) (s : σ) (hs : Inv s) :
    (∀ p, p <+: l → Inv (run step s p)) ↔ Each step Good s l :=
  have hall : Each step (fun _ _ => True) s l := each_of_forall step (fun _ _ => trivial) l s
  always_iff_each step (fun _ => True) Inv (fun _ _ _ => trivial) (fun s i _ h _ => hiff s i h)
    l s trivial hs hall

end Total

section Partial
variable (step : σ → ι → Option σ)

/-- The state after a list of calls, if every one of them is enabled. -/
def exec : σ → List ι → Option σ
  | s, [] => some s
  | s, i :: l => (step s i).bind fun s' => exec s' l

/-- Every call of the list meets `Good` in the state it is made from, up to the first call that is
    disabled. -/
def EachOf (Good : σ → ι → Prop) : σ → List ι → Prop
  | _, [] => True
  | s, i :: l => Good s i ∧ ∀ s', step s i = some s' → EachOf Good s' l

/-- A run of good calls goes on with a good call. -/
theorem EachOf.cons {Good : σ → ι → Prop} {s t : σ} {i : ι} {l : List ι}
    (hstep : step s i = some t) (hi : Good s i) (hl : EachOf step Good t l) :
    EachOf step Good s (i :: l) :=
  ⟨hi, fun _ h => Option.some_inj.1 (hstep.symm.trans h) ▸ hl⟩

theorem exec_cons {s t : σ} {i : ι} (h : step s i = some t) (l : List ι) :
    exec step s (i :: l) = exec step t l := by
  rw [exec, h, Option.bind_some]

/-- What every enabled call preserves, knowing the calls before it, holds after every run. -/
theorem inv_exec (Inv : List ι → σ → Prop)
    (hstep : ∀ p s i s', Inv p s → step s i = some s' → Inv (p ++ [i]) s') :
    ∀ (l p : List ι) (s s' : σ), Inv p s → exec step s l = some s' → Inv (p ++ l) s'
  | [], p, s, s', hs, h => by
    rw [List.append_nil, ← Option.some_inj.1 h]
    exact hs
  | i :: l, p, s, s', hs, h => by
    obtain ⟨s₁, h₁, h₂⟩ := Option.bind_eq_some_iff.1 h
    rw [List.append_cons]
    exact inv_exec Inv hstep l (p ++ [i]) s₁ s' (hstep p s i s₁ hs h₁) h₂

/-- An invariant that every good enabled call preserves holds after every run of good calls. -/
theorem inv_exec_eachOf (Inv : σ → Prop) {Good : σ → ι → Prop}
    (hstep : ∀ s i s', Inv s → Good s i → step s i = some s' → Inv s') :
    ∀ (l : List ι) (s s' : σ), Inv s → EachOf step Good s l → exec step s l = some s' → Inv s'
  | [], s, s', hs, _, h => by
    rw [← Option.some_inj.1 h]
    exact hs
  | i :: l, s, s', hs, ⟨hi, hl⟩, h => by
    obtain ⟨s₁, h₁, h₂⟩ := Option.bind_eq_some_iff.1 h
    exact inv_exec_eachOf Inv hstep l s₁ s' (hstep s i s₁ hs hi h₁) (hl s₁ h₁) h₂

/-- What the calls of a list put out, up to the first one that is disabled. That one still puts out
    what it did before it failed. -/
def trace {τ : Type*} (out : σ → ι → List τ) : σ → List ι → List τ
  | _, [] => []
  | s, i :: l => out s i ++ match step s i with
    | some s' => trace out s' l
    | none => []

theorem forall_mem_trace {τ : Type*} (out : σ → ι → List τ) (P : τ → Prop) :
    ∀ (l : List ι) (s : σ), (∀ t ∈ trace step out s l, P t) ↔
      EachOf step (fun s i => ∀ t ∈ out s i, P t) s l
  | [], _ => by simp [trace, EachOf]
  | i :: l, s => by
    simp only [trace, EachOf, List.forall_mem_append]
    refine and_congr Iff.rfl ?_
    cases step s i with
    | none => simp
    | some s' => simp [forall_mem_trace out P l s']

/-- What a run puts out, one of its calls puts out, with all else that this call puts out. -/
theorem exists_of_mem_trace {τ : Type*} {out : σ → ι → List τ} {t : τ} :
    ∀ {l : List ι} {s : σ}, t ∈ trace step out s l →
      ∃ s' i, t ∈ out s' i ∧ ∀ u ∈ out s' i, u ∈ trace step out s l
  | [], _, h => by cases h
  | i :: l, s, h => by
    simp only [trace, List.mem_append] at h ⊢
    rcases h with h | h
    · exact ⟨s, i, h, fun u hu => Or.inl hu⟩
    · cases hstep : step s i with
      | none => rw [hstep] at h; cases h
      | some s₁ =>
        rw [hstep] at h
        obtain ⟨s', j, hj, hall⟩ := exists_of_mem_trace h
        exact ⟨s', j, hj, fun u hu => Or.inr (hall u hu)⟩

/-- If, wherever `Base` holds, a call meets `P` exactly when it is `Good`, and then keeps `Base`, then
    every call of a list meets `P` exactly when every call is `Good`. -/
theorem eachOf_iff_eachOf (Base : σ → Prop) {P Good : σ → ι → Prop}
    (hiff : ∀ s i, Base s → (P s i ↔ Good s i))
    (hbase : ∀ s i s', Base s → P s i → step s i = some s' → Base s') :
    ∀ (l : List ι) (s : σ), Base s → (EachOf step P s l ↔ EachOf step Good s l)
  | [], _, _ => Iff.rfl
  | i :: l, s, hs => by
    refine ⟨fun ⟨hi, hl⟩ => ⟨(hiff s i hs).1 hi, fun s' h' => ?_⟩,
      fun ⟨hi, hl⟩ => ⟨(hiff s i hs).2 hi, fun s' h' => ?_⟩⟩
    · exact (eachOf_iff_eachOf Base hiff hbase l s' (hbase s i s' hs hi h')).1 (hl s' h')
    · have hi := (hiff s i hs).2 hi
      exact (eachOf_iff_eachOf Base hiff hbase l s' (hbase s i s' hs hi h')).2 (hl s' h')

end Partial

end Runs
