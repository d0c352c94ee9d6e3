import Mathlib

/-! Two transactions that keep a copy of the greatest version, under read committed isolation.

    The rows of one key are known by their versions, and each holds a copy of the greatest version. Two
    writers each insert a row of a version of their own and may set the copy in the rows they see. A
    statement sees the rows that were committed when it started, and those of its own transaction. An
    update collects its rows in one step and writes them in a later one, so that it may wait for a lock
    in between; the rows it writes to are those it collected. -/

namespace ReadCommitted

/-- The two transactions. -/
inductive Tx where
  | first | second
  deriving DecidableEq

/-- The other transaction. -/
def Tx.other : Tx → Tx
  | .first => .second
  | .second => .first

@[simp] theorem Tx.other_other (t : Tx) : t.other.other = t := by cases t <;> rfl

theorem Tx.other_ne (t : Tx) : t.other ≠ t := by cases t <;> decide

theorem Tx.forall_iff {P : Tx → Prop} (t : Tx) : (∀ u, P u) ↔ P t ∧ P t.other := by
  refine ⟨fun h => ⟨h _, h _⟩, fun h u => ?_⟩
  cases t <;> cases u
  exacts [h.1, h.2, h.2, h.1]

theorem Tx.exists_iff {P : Tx → Prop} (t : Tx) : (∃ u, P u) ↔ P t ∨ P t.other := by
  refine ⟨fun ⟨u, h⟩ => ?_, fun h => h.elim (fun h => ⟨_, h⟩) fun h => ⟨_, h⟩⟩
  cases t <;> cases u
  exacts [Or.inl h, Or.inr h, Or.inr h, Or.inl h]

/-- A writer: the version it inserts, the maximum it chooses from the versions it sees, and the numbers
    of its statements. A statement that it does not make has a number from `length` on. -/
structure Writer where
  version : ℤ
  chooses : Set ℤ → ℤ → Prop
  insertAt : ℕ
  selectAt : ℕ
  snapshotAt : ℕ
  updateAt : ℕ
  length : ℕ
  select_le : selectAt ≤ snapshotAt
  snapshot_lt : snapshotAt < updateAt
  insert_apart : insertAt < selectAt ∨ updateAt < insertAt
  insert_lt : insertAt < length

/-- The writer inserts its row before it reads. -/
def Writer.insertsFirst (w : Writer) : Prop := w.insertAt < w.selectAt

/-- The writer updates the copies. -/
def Writer.updates (w : Writer) : Prop := w.updateAt < w.length

/-- The steps made so far, the copy of the maximum in the row of each version, and what the writers have
    selected and collected. -/
structure State where
  past : List Tx
  rows : ℤ → Option ℤ
  max : Tx → Option ℤ
  targets : Tx → Set ℤ

/-- The number of statements a writer has made. -/
def State.done (s : State) (t : Tx) : ℕ := s.past.count t

/-- The state after a statement of `t`. -/
def State.next (s : State) (t : Tx) (rows : ℤ → Option ℤ) (max : Tx → Option ℤ)
    (targets : Tx → Set ℤ) : State := ⟨s.past ++ [t], rows, max, targets⟩

/-- Statement number `j` of `t` comes after `n` statements of `u`. -/
def Follows (l : List Tx) (t : Tx) (j : ℕ) (u : Tx) (n : ℕ) : Prop :=
  ∃ p q, l = p ++ t :: q ∧ p.count t = j ∧ p.count u = n

section Machine
variable (w : Tx → Writer)

/-- The versions that a statement of `t` sees: not the row of the other one before it commits. -/
def visible (s : State) (t : Tx) : Set ℤ :=
  {n | (s.rows n).isSome ∧ ¬ (n = (w t.other).version ∧ (w t.other).insertAt < s.done t.other ∧
    s.done t.other < (w t.other).length)}

/-- The next statement of `t`. -/
structure Step (s : State) (t : Tx) (s' : State) : Prop where
  running : s.done t < (w t).length
  past : s'.past = s.past ++ [t]
  inserts : s.done t = (w t).insertAt →
    s.rows (w t).version = none ∧ s'.rows (w t).version = some (w t).version
  sets : s.done t = (w t).updateAt → (s.max t).isSome ∧
    ∀ n ∈ s.targets t, (s.rows n).isSome → s'.rows n = s.max t
  rows : ∀ n, ¬ (s.done t = (w t).insertAt ∧ n = (w t).version) →
    ¬ (s.done t = (w t).updateAt ∧ n ∈ s.targets t ∧ (s.rows n).isSome) → s'.rows n = s.rows n
  selects : s.done t = (w t).selectAt → ∀ m, s'.max t = some m → (w t).chooses (visible w s t) m
  max : ∀ u, ¬ (u = t ∧ s.done t = (w t).selectAt) → s'.max u = s.max u
  collects : s.done t = (w t).snapshotAt → s'.targets t = visible w s t
  targets : ∀ u, ¬ (u = t ∧ s.done t = (w t).snapshotAt) → s'.targets u = s.targets u

/-- The states that are reached from one in which `rows` are committed. -/
inductive Reaches (rows : ℤ → Option ℤ) : State → Prop where
  | init : Reaches rows ⟨[], rows, fun _ => none, fun _ => ∅⟩
  | step {s s' : State} {t : Tx} : Reaches rows s → Step w s t s' → Reaches rows s'

/-- The versions `V`, with that of `t` and that of the other one under conditions. -/
def seen (V : Set ℤ) (t : Tx) (own other : Prop) : Set ℤ :=
  {n | n ∈ V ∨ (own ∧ n = (w t).version) ∨ (other ∧ n = (w t.other).version)}

/-- What holds after any steps, for the versions `V` at the beginning. A row of `V` has the maximum of
    one that has updated, and that of one whose update followed the commit of the other. The row of a
    writer has the maximum of the other when that one's update followed, and otherwise its own. -/
structure Inv (V : Set ℤ) (s : State) : Prop where
  done_le : ∀ t, s.done t ≤ (w t).length
  dom : ∀ n, (s.rows n).isSome ↔
    n ∈ V ∨ ∃ t, (w t).insertAt < s.done t ∧ n = (w t).version
  fresh : ∀ t, (w t).insertAt < s.done t → (w t).version ∉ V
  max : ∀ t m, s.max t = some m → (w t).chooses (seen w V t (w t).insertsFirst
    (Follows s.past t (w t).selectAt t.other (w t.other).length)) m
  updated : ∀ t, (w t).updateAt < s.done t → (s.max t).isSome
  targets : ∀ t, (w t).snapshotAt < s.done t → s.targets t = seen w V t (w t).insertsFirst
    (Follows s.past t (w t).snapshotAt t.other (w t.other).length)
  old : ∀ n ∈ V, ∀ t, (w t).updateAt < s.done t →
    s.rows n = s.max t ∨ ((w t.other).updateAt < s.done t.other ∧ s.rows n = s.max t.other ∧
      ¬ Follows s.past t (w t).snapshotAt t.other (w t.other).length)
  followed : ∀ t, (w t).insertAt < s.done t → (w t.other).updateAt < s.done t.other →
    Follows s.past t.other (w t.other).snapshotAt t (w t).length →
    s.rows (w t).version = s.max t.other
  own : ∀ t, (w t).insertAt < s.done t → ¬ ((w t.other).updateAt < s.done t.other ∧
    Follows s.past t.other (w t.other).snapshotAt t (w t).length) →
    ((w t).updateAt < s.done t ∧ (w t).insertsFirst ∧ s.rows (w t).version = s.max t) ∨
    (¬ ((w t).updateAt < s.done t ∧ (w t).insertsFirst) ∧
      s.rows (w t).version = some (w t).version)

variable {w}

/-! ### Order of steps -/

theorem State.done_next_self (s : State) (t : Tx) (rows : ℤ → Option ℤ) (max : Tx → Option ℤ)
    (targets : Tx → Set ℤ) : (s.next t rows max targets).done t = s.done t + 1 := by
  unfold State.next State.done
  rw [List.count_append, List.count_singleton_self]

theorem State.done_next_other (s : State) (t : Tx) (rows : ℤ → Option ℤ) (max : Tx → Option ℤ)
    (targets : Tx → Set ℤ) : (s.next t rows max targets).done t.other = s.done t.other := by
  unfold State.next State.done
  rw [List.count_append, List.count_singleton, if_neg]
  · rfl
  · simpa using t.other_ne.symm

/-- A relation that gives every version at most one copy is a function. -/
theorem exists_rows {R : ℤ → ℤ → Prop} (h : ∀ n m m', R n m → R n m' → m = m') :
    ∃ rows : ℤ → Option ℤ, ∀ n m, rows n = some m ↔ R n m := by
  classical
  refine ⟨fun n => if hn : ∃ m, R n m then some hn.choose else none, fun n m => ?_⟩
  beta_reduce
  by_cases hn : ∃ m, R n m
  · rw [dif_pos hn, Option.some_inj]
    exact ⟨fun hm => hm ▸ hn.choose_spec, h n _ _ hn.choose_spec⟩
  · rw [dif_neg hn]
    exact iff_of_false (by simp) fun hm => hn ⟨m, hm⟩

theorem Follows.lt {l : List Tx} {t u : Tx} {j n : ℕ} (h : Follows l t j u n) :
    j < l.count t ∧ n ≤ l.count u := by
  obtain ⟨p, q, rfl, rfl, rfl⟩ := h
  simp only [List.count_append, List.count_cons_self]
  omega

/-- One more step. -/
theorem follows_concat {l : List Tx} {x t u : Tx} {j n : ℕ} :
    Follows (l ++ [x]) t j u n ↔ Follows l t j u n ∨ (x = t ∧ l.count t = j ∧ l.count u = n) := by
  constructor
  · rintro ⟨p, q, h, hj, hn⟩
    rcases List.eq_nil_or_concat q with rfl | ⟨q, y, rfl⟩
    · obtain ⟨rfl, h⟩ := List.append_inj' h rfl
      obtain rfl : x = t := by simpa using h
      exact Or.inr ⟨rfl, hj, hn⟩
    · have h' : l ++ [x] = (p ++ t :: q) ++ [y] := by simpa using h
      obtain ⟨rfl, _⟩ := List.append_inj' h' rfl
      exact Or.inl ⟨p, q, rfl, hj, hn⟩
  · rintro (⟨p, q, rfl, hj, hn⟩ | ⟨rfl, hj, hn⟩)
    · exact ⟨p, q ++ [x], by simp, hj, hn⟩
    · exact ⟨l, [], rfl, hj, hn⟩

/-- A list without one of the two transactions. -/
theorem eq_replicate_of_count {l : List Tx} {t : Tx} (h : l.count t = 0) :
    l = List.replicate (l.count t.other) t.other := by
  have hall : ∀ u ∈ l, u = t.other := fun u hu => by
    have hne : u ≠ t := fun hut => List.count_eq_zero.1 h (hut ▸ hu)
    revert hne
    cases t <;> cases u <;> simp [Tx.other]
  rw [List.eq_replicate_of_mem hall, List.count_replicate_self]

/-- The first statement of `t` comes after all of the other one when the two run one after the other. -/
theorem follows_all_iff {l : List Tx} {t : Tx} (hpos : l.count t ≠ 0) :
    Follows l t 0 t.other (l.count t.other) ↔
      l = List.replicate (l.count t.other) t.other ++ List.replicate (l.count t) t := by
  constructor
  · rintro ⟨p, q, rfl, hp, hn⟩
    rw [List.count_append, List.count_cons_of_ne t.other_ne.symm] at hn ⊢
    have hq : q = List.replicate (q.count t) t := by
      have := eq_replicate_of_count (l := q) (t := t.other) (by omega)
      rwa [t.other_other] at this
    have hq0 : q.count t.other = 0 := by omega
    rw [List.count_append, List.count_cons_self, hp, zero_add, hq0, add_zero, List.replicate_succ,
      ← hq, ← eq_replicate_of_count hp]
  · intro h
    obtain ⟨n, hn⟩ := Nat.exists_eq_succ_of_ne_zero hpos
    rw [hn, List.replicate_succ] at h
    exact ⟨_, _, h, List.count_eq_zero.2 fun hc => t.other_ne (List.eq_of_mem_replicate hc).symm,
      List.count_replicate_self⟩

section Steps
variable {V : Set ℤ} {s s' : State} {t : Tx} (hne : ∀ t, (w t).version ≠ (w t.other).version)

/-- A statement that neither inserts, selects, collects nor updates. -/
theorem Step.quiet (hrun : s.done t < (w t).length) (hins : s.done t ≠ (w t).insertAt)
    (hsel : s.done t ≠ (w t).selectAt) (hsnap : s.done t ≠ (w t).snapshotAt)
    (hup : s.done t ≠ (w t).updateAt) : Step w s t (s.next t s.rows s.max s.targets) where
  running := hrun
  past := rfl
  inserts h := absurd h hins
  sets h := absurd h hup
  rows _ _ _ := rfl
  selects h := absurd h hsel
  max _ _ := rfl
  collects h := absurd h hsnap
  targets _ _ := rfl

theorem Step.done_self (h : Step w s t s') : s'.done t = s.done t + 1 := by
  unfold State.done
  rw [h.past, List.count_append, List.count_singleton_self]

theorem Step.done_other (h : Step w s t s') : s'.done t.other = s.done t.other := by
  unfold State.done
  rw [h.past, List.count_append, List.count_singleton, if_neg]
  · rfl
  · simpa using t.other_ne.symm

theorem Step.follows_self (h : Step w s t s') {j n : ℕ} :
    Follows s'.past t j t.other n ↔
      Follows s.past t j t.other n ∨ (s.done t = j ∧ s.done t.other = n) := by
  rw [h.past, follows_concat]
  exact or_congr_right (and_iff_right rfl)

theorem Step.follows_other (h : Step w s t s') {j n : ℕ} :
    Follows s'.past t.other j t n ↔ Follows s.past t.other j t n := by
  rw [h.past, follows_concat, or_iff_left fun h => t.other_ne h.1.symm]

/-- Nothing follows a writer that has not committed. -/
theorem Step.not_follows (h : Step w s t s') {j : ℕ} :
    ¬ Follows s.past t.other j t (w t).length := fun hf =>
  absurd h.running (not_lt.2 hf.lt.2)

include hne in
/-- What a statement sees. -/
theorem Inv.visible_eq (h : Inv w V s) (t : Tx) :
    visible w s t = seen w V t ((w t).insertAt < s.done t)
      (s.done t.other = (w t.other).length) := by
  have hle := h.done_le t.other
  have hins := (w t.other).insert_lt
  ext n
  unfold visible seen
  rw [Set.mem_ofPred_eq, Set.mem_ofPred_eq, h.dom, Tx.exists_iff t]
  constructor
  · rintro ⟨hV | ⟨hown, rfl⟩ | ⟨hother, rfl⟩, hvis⟩
    · exact Or.inl hV
    · exact Or.inr (Or.inl ⟨hown, rfl⟩)
    · refine Or.inr (Or.inr ⟨?_, rfl⟩)
      by_contra hlt
      exact hvis ⟨rfl, hother, by omega⟩
  · rintro (hV | ⟨hown, rfl⟩ | ⟨hother, rfl⟩)
    · exact ⟨Or.inl hV, fun ⟨hn, hi, _⟩ => h.fresh t.other hi (hn ▸ hV)⟩
    · exact ⟨Or.inr (Or.inl ⟨hown, rfl⟩), fun ⟨hn, _⟩ => hne t hn⟩
    · exact ⟨Or.inr (Or.inr ⟨by omega, rfl⟩), fun ⟨_, _, hlt⟩ => by omega⟩

/-- The rows of the other versions are left alone, except by an update. -/
theorem Step.row_isSome (h : Step w s t s') (n : ℤ)
    (hn : ¬ (s.done t = (w t).insertAt ∧ n = (w t).version)) :
    (s'.rows n).isSome = (s.rows n).isSome := by
  by_cases hup : s.done t = (w t).updateAt ∧ n ∈ s.targets t ∧ (s.rows n).isSome
  · obtain ⟨hat, hmem, hsome⟩ := hup
    obtain ⟨hmax, hset⟩ := h.sets hat
    rw [hset n hmem hsome, hmax, hsome]
  · rw [h.rows n hn hup]

theorem Inv.dom_step (h : Inv w V s) (hs : Step w s t s') (n : ℤ) :
    (s'.rows n).isSome ↔ n ∈ V ∨ ∃ u, (w u).insertAt < s'.done u ∧ n = (w u).version := by
  have hdom := h.dom n
  rw [Tx.exists_iff t] at hdom ⊢
  rw [hs.done_self, hs.done_other]
  by_cases hins : s.done t = (w t).insertAt ∧ n = (w t).version
  · obtain ⟨hat, rfl⟩ := hins
    rw [(hs.inserts hat).2]
    exact iff_of_true rfl (Or.inr (Or.inl ⟨by omega, rfl⟩))
  · rw [hs.row_isSome n hins, hdom]
    refine or_congr_right (or_congr_left ⟨fun ⟨h, hn⟩ => ⟨by omega, hn⟩, fun ⟨h, hn⟩ => ⟨?_, hn⟩⟩)
    have : s.done t ≠ (w t).insertAt := fun hat => hins ⟨hat, hn⟩
    omega

theorem Inv.fresh_step (h : Inv w V s) (hs : Step w s t s') :
    ∀ u, (w u).insertAt < s'.done u → (w u).version ∉ V := by
  rw [Tx.forall_iff t, hs.done_self, hs.done_other]
  refine ⟨fun hins => ?_, h.fresh t.other⟩
  by_cases hat : s.done t = (w t).insertAt
  · intro hV
    have := (h.dom _).2 (Or.inl hV)
    rw [(hs.inserts hat).1] at this
    cases this
  · exact h.fresh t (by omega)

include hne in
theorem Inv.max_step (h : Inv w V s) (hs : Step w s t s') :
    ∀ u m, s'.max u = some m → (w u).chooses (seen w V u (w u).insertsFirst
      (Follows s'.past u (w u).selectAt u.other (w u.other).length)) m := by
  rw [Tx.forall_iff t, hs.follows_self, t.other_other, hs.follows_other]
  refine ⟨fun m hm => ?_, fun m hm => ?_⟩
  · by_cases hat : s.done t = (w t).selectAt
    · have hch := hs.selects hat m hm
      rw [h.visible_eq hne, hat] at hch
      rwa [or_iff_right fun hf => absurd hf.lt.1 (not_lt.2 (le_of_eq hat)), and_iff_right hat]
    · rw [hs.max t fun hc => hat hc.2] at hm
      rw [or_iff_left fun hc => hat hc.1]
      exact h.max t m hm
  · rw [hs.max _ fun hc => t.other_ne hc.1] at hm
    have := h.max t.other m hm
    rwa [t.other_other] at this

theorem Inv.updated_step (h : Inv w V s) (hs : Step w s t s') :
    ∀ u, (w u).updateAt < s'.done u → (s'.max u).isSome := by
  have hle := (w t).select_le
  have hlt := (w t).snapshot_lt
  rw [Tx.forall_iff t, hs.done_self, hs.done_other]
  refine ⟨fun hup => ?_, fun hup => ?_⟩
  · rw [hs.max t fun hc => by omega]
    by_cases hat : s.done t = (w t).updateAt
    · exact (hs.sets hat).1
    · exact h.updated t (by omega)
  · rw [hs.max _ fun hc => t.other_ne hc.1]
    exact h.updated _ hup

include hne in
theorem Inv.targets_step (h : Inv w V s) (hs : Step w s t s') :
    ∀ u, (w u).snapshotAt < s'.done u → s'.targets u = seen w V u (w u).insertsFirst
      (Follows s'.past u (w u).snapshotAt u.other (w u.other).length) := by
  rw [Tx.forall_iff t, hs.done_self, hs.done_other, hs.follows_self, t.other_other, hs.follows_other]
  refine ⟨fun hsnap => ?_, fun hsnap => ?_⟩
  · by_cases hat : s.done t = (w t).snapshotAt
    · have hfirst : (w t).insertAt < s.done t ↔ (w t).insertsFirst := by
        have := (w t).select_le
        have := (w t).snapshot_lt
        have := (w t).insert_apart
        unfold Writer.insertsFirst
        omega
      rw [hs.collects hat, h.visible_eq hne, or_iff_right fun hf => absurd hf.lt.1
        (not_lt.2 (le_of_eq hat)), and_iff_right hat]
      unfold seen
      rw [hfirst]
    · rw [hs.targets t fun hc => hat hc.2, or_iff_left fun hc => hat hc.1]
      exact h.targets t (by omega)
  · rw [hs.targets _ fun hc => t.other_ne hc.1, h.targets _ hsnap, t.other_other]

/-- What a writer selected stays when it has updated. -/
theorem Step.max_updated (hs : Step w s t s') (u : Tx) (hup : (w u).updateAt < s'.done u) :
    s'.max u = s.max u := by
  refine hs.max u fun ⟨hu, hat⟩ => ?_
  have hle := (w t).select_le
  have hlt := (w t).snapshot_lt
  rw [hu, hs.done_self] at hup
  omega

/-- A row that is neither inserted nor updated in a step. -/
theorem Step.row_same (hs : Step w s t s') (hup : s.done t ≠ (w t).updateAt) {n : ℤ}
    (hn : n ≠ (w t).version) : s'.rows n = s.rows n :=
  hs.rows n (fun hc => hn hc.2) fun hc => hup hc.1

theorem Inv.old_step (h : Inv w V s) (hs : Step w s t s') :
    ∀ n ∈ V, ∀ u, (w u).updateAt < s'.done u →
      s'.rows n = s'.max u ∨ ((w u.other).updateAt < s'.done u.other ∧ s'.rows n = s'.max u.other ∧
        ¬ Follows s'.past u (w u).snapshotAt u.other (w u.other).length) := by
  intro n hn
  have hsome : (s.rows n).isSome := (h.dom n).2 (Or.inl hn)
  have hlt := (w t).snapshot_lt
  have hself := hs.done_self
  have hother := hs.done_other
  rw [Tx.forall_iff t, t.other_other, hs.follows_self, hs.follows_other]
  by_cases hat : s.done t = (w t).updateAt
  · have hmem : n ∈ s.targets t := by
      rw [h.targets t (by omega)]
      exact Or.inl hn
    have hrow : s'.rows n = s'.max t := by
      rw [(hs.sets hat).2 n hmem hsome, hs.max_updated t (by omega)]
    exact ⟨fun _ => Or.inl hrow, fun _ => Or.inr ⟨by omega, hrow, hs.not_follows⟩⟩
  · have hrow : s'.rows n = s.rows n := by
      refine hs.rows n (fun ⟨hins, hv⟩ => ?_) fun hc => hat hc.1
      rw [hv, (hs.inserts hins).1] at hsome
      cases hsome
    rw [hrow]
    refine ⟨fun hup => ?_, fun hup => ?_⟩
    · rw [hs.max_updated t hup]
      refine (h.old n hn t (by omega)).imp_right fun ⟨hup', hmax, hf⟩ => ⟨by omega, ?_, ?_⟩
      · rw [hmax, hs.max_updated t.other (by omega)]
      · rw [or_iff_left fun hc => by omega]
        exact hf
    · rw [hs.max_updated t.other hup]
      have := h.old n hn t.other (by omega)
      rw [t.other_other] at this
      refine this.imp_right fun ⟨hup', hmax, hf⟩ => ⟨by omega, ?_, hf⟩
      rw [hmax, hs.max_updated t (by omega)]

include hne in
theorem Inv.followed_step (h : Inv w V s) (hs : Step w s t s') :
    ∀ u, (w u).insertAt < s'.done u → (w u.other).updateAt < s'.done u.other →
      Follows s'.past u.other (w u.other).snapshotAt u (w u).length →
      s'.rows (w u).version = s'.max u.other := by
  have hlt := (w t).snapshot_lt
  have hself := hs.done_self
  have hother := hs.done_other
  rw [Tx.forall_iff t, t.other_other, hs.follows_other, hs.follows_self]
  refine ⟨fun _ _ hf => absurd hf hs.not_follows, fun hins hup hf => ?_⟩
  rw [hs.max_updated t hup]
  replace hf := hf.resolve_right fun hc => by omega
  by_cases hat : s.done t = (w t).updateAt
  · have hmem : (w t.other).version ∈ s.targets t := by
      rw [h.targets t (by omega)]
      exact Or.inr (Or.inr ⟨hf, rfl⟩)
    exact (hs.sets hat).2 _ hmem ((h.dom _).2 (Or.inr ⟨t.other, by omega, rfl⟩))
  · rw [hs.row_same hat (hne t).symm]
    have := h.followed t.other (by omega)
    rw [t.other_other] at this
    exact this (by omega) hf

include hne in
theorem Inv.own_step (h : Inv w V s) (hs : Step w s t s') :
    ∀ u, (w u).insertAt < s'.done u → ¬ ((w u.other).updateAt < s'.done u.other ∧
      Follows s'.past u.other (w u.other).snapshotAt u (w u).length) →
      ((w u).updateAt < s'.done u ∧ (w u).insertsFirst ∧ s'.rows (w u).version = s'.max u) ∨
      (¬ ((w u).updateAt < s'.done u ∧ (w u).insertsFirst) ∧
        s'.rows (w u).version = some (w u).version) := by
  have hle := (w t).select_le
  have hlt := (w t).snapshot_lt
  have hapart := (w t).insert_apart
  have hself := hs.done_self
  have hother := hs.done_other
  rw [Tx.forall_iff t, t.other_other, hs.follows_other, hs.follows_self]
  refine ⟨fun hins _ => ?_, fun hins hnot => ?_⟩
  · by_cases hat : s.done t = (w t).insertAt
    · refine Or.inr ⟨fun ⟨hup, hfirst⟩ => ?_, (hs.inserts hat).2⟩
      unfold Writer.insertsFirst at hfirst
      omega
    have hown := h.own t (by omega) fun hc => hs.not_follows hc.2
    by_cases hup : s.done t = (w t).updateAt
    · have hfirst : (w t).insertsFirst := by
        unfold Writer.insertsFirst
        omega
      have hmem : (w t).version ∈ s.targets t := by
        rw [h.targets t (by omega)]
        exact Or.inr (Or.inl ⟨hfirst, rfl⟩)
      refine Or.inl ⟨by omega, hfirst, ?_⟩
      rw [(hs.sets hup).2 _ hmem ((h.dom _).2 (Or.inr ⟨t, by omega, rfl⟩)),
        hs.max_updated t (by omega)]
    · rw [hs.rows _ (fun hc => hat hc.1) fun hc => hup hc.1]
      rcases hown with ⟨hup', hfirst, hmax⟩ | ⟨hup', hrow⟩
      · exact Or.inl ⟨by omega, hfirst, hmax.trans (hs.max_updated t (by omega)).symm⟩
      · exact Or.inr ⟨fun ⟨hc, hfirst⟩ => hup' ⟨by omega, hfirst⟩, hrow⟩
  · have hnot' : ¬ ((w t).updateAt < s.done t ∧
        Follows s.past t (w t).snapshotAt t.other (w t.other).length) := fun ⟨hup, hf⟩ =>
      hnot ⟨by omega, Or.inl hf⟩
    have hrow : s'.rows (w t.other).version = s.rows (w t.other).version := by
      refine hs.rows _ (fun hc => hne t hc.2.symm) fun ⟨hat, hmem, _⟩ => ?_
      -- an update that did not follow the other one's commit has not collected its row
      rw [h.targets t (by omega)] at hmem
      rcases hmem with hV | ⟨_, hn⟩ | ⟨hf, _⟩
      · exact h.fresh t.other (by omega) hV
      · exact hne t hn.symm
      · exact hnot ⟨by omega, Or.inl hf⟩
    have hown := h.own t.other (by omega)
    rw [t.other_other] at hown
    rw [hrow]
    rcases hown hnot' with ⟨hup', hfirst, hmax⟩ | ⟨hup', hr⟩
    · exact Or.inl ⟨by omega, hfirst, hmax.trans (hs.max_updated t.other (by omega)).symm⟩
    · exact Or.inr ⟨fun ⟨hc, hfirst⟩ => hup' ⟨by omega, hfirst⟩, hr⟩

include hne in
/-- Every step keeps the invariant. -/
theorem inv_step (h : Inv w V s) (hs : Step w s t s') : Inv w V s' where
  done_le := by
    rw [Tx.forall_iff t, hs.done_self, hs.done_other]
    exact ⟨hs.running, h.done_le _⟩
  dom := h.dom_step hs
  fresh := h.fresh_step hs
  max := h.max_step hne hs
  updated := h.updated_step hs
  targets := h.targets_step hne hs
  old := h.old_step hs
  followed := h.followed_step hne hs
  own := h.own_step hne hs

include hne in
/-- What holds in every state that is reached. -/
theorem Reaches.inv {rows : ℤ → Option ℤ} (h : Reaches w rows s) :
    Inv w {n | (rows n).isSome} s := by
  induction h with
  | init =>
    have hnone : ∀ {j : ℕ} (u : Tx), ¬ j < (⟨[], rows, fun _ => none, fun _ => ∅⟩ : State).done u :=
      fun _ => Nat.not_lt_zero _
    exact {
      done_le := fun _ => Nat.zero_le _
      dom := fun n => (or_iff_left fun ⟨u, h, _⟩ => hnone u h).symm
      fresh := fun u h => absurd h (hnone u)
      max := fun _ _ h => nomatch h
      updated := fun u h => absurd h (hnone u)
      targets := fun u h => absurd h (hnone u)
      old := fun _ _ u h => absurd h (hnone u)
      followed := fun u h => absurd h (hnone u)
      own := fun u h => absurd h (hnone u) }
  | step _ hs ih => exact inv_step hne ih hs

/-- Two updates do not both follow the commit of the other one. -/
theorem Inv.not_both (h : Inv w V s) (t : Tx) {i j : ℕ}
    (hi : i < (w t).length) (hf : Follows s.past t i t.other (w t.other).length) :
    ¬ Follows s.past t.other j t (w t).length := by
  rintro ⟨p, q, hp, hj, hn⟩
  obtain ⟨p', q', hp', hi', hn'⟩ := hf
  have hle := h.done_le t
  have hle' := h.done_le t.other
  unfold State.done at hle hle'
  -- the earlier of the two statements is made before the commit that it follows
  rcases List.prefix_or_prefix_of_prefix ⟨t.other :: q, hp.symm⟩ ⟨t :: q', hp'.symm⟩ with hpre | hpre
  · have := hpre.sublist.count_le t
    omega
  · have h1 := hpre.sublist.count_le t.other
    rw [hp, List.count_append, List.count_cons_self] at hle'
    omega

include hne in
/-- When both have committed, the copies are right exactly when a writer whose update followed the other
    one's commit has chosen the greatest version, or both have. A writer that reads before it inserts
    chooses its own version, and one that does not update has the lower version. -/
theorem Inv.greatest_iff (h : Inv w V s) (hdone : ∀ t, s.done t = (w t).length) {g : ℤ}
    (hg : IsGreatest {n | (s.rows n).isSome} g)
    (hown : ∀ t V m, ¬ (w t).insertsFirst → (w t).chooses V m → m = (w t).version)
    (hlow : ∀ t, (w t).updates ∧ (w t).insertsFirst →
      ¬ ((w t.other).updates ∧ (w t.other).insertsFirst) →
      (w t.other).version < (w t).version) :
    (∀ n m, s.rows n = some m → m = g) ↔
      (∃ t, (w t).updates ∧ Follows s.past t (w t).snapshotAt t.other (w t.other).length ∧
        s.max t = some g) ∨
      ∀ t, (w t).updates ∧ (w t).insertsFirst ∧ s.max t = some g := by
  have hins : ∀ t, (w t).insertAt < s.done t := fun t => by
    rw [hdone]
    exact (w t).insert_lt
  have hstored : ∀ t, (s.rows (w t).version).isSome := fun t => (h.dom _).2 (Or.inr ⟨t, hins t, rfl⟩)
  have hup : ∀ t, (w t).updateAt < s.done t ↔ (w t).updates := fun t => by rw [hdone]; rfl
  have hrow : ∀ t, (w t.other).updates →
      Follows s.past t.other (w t.other).snapshotAt t (w t).length →
      s.rows (w t).version = s.max t.other := fun t hu hf => h.followed t (hins t) ((hup _).2 hu) hf
  have hlone : ∀ t, ¬ ((w t.other).updates ∧
      Follows s.past t.other (w t.other).snapshotAt t (w t).length) →
      ((w t).updates ∧ (w t).insertsFirst ∧ s.rows (w t).version = s.max t) ∨
      (¬ ((w t).updates ∧ (w t).insertsFirst) ∧
        s.rows (w t).version = some (w t).version) := fun t => by
    have := h.own t (hins t)
    rwa [hup, hup] at this
  constructor
  · intro hall
    have hgrow : ∀ t, s.rows (w t).version = some g := fun t => by
      obtain ⟨m, hm⟩ := Option.isSome_iff_exists.1 (hstored t)
      rw [hm, hall _ m hm]
    by_cases hfollow : ∃ t, (w t).updates ∧
        Follows s.past t (w t).snapshotAt t.other (w t.other).length
    · obtain ⟨t, hu, hf⟩ := hfollow
      refine Or.inl ⟨t, hu, hf, ?_⟩
      have := hrow t.other
      rw [t.other_other] at this
      rw [← this hu hf]
      exact hgrow t.other
    · -- no update reached the row of the other writer, so that each set its own or left it alone
      have hlone' : ∀ t, ((w t).updates ∧ (w t).insertsFirst ∧ s.max t = some g) ∨
          (¬ ((w t).updates ∧ (w t).insertsFirst) ∧ (w t).version = g) := fun t => by
        have hno : ¬ ((w t.other).updates ∧
            Follows s.past t.other (w t.other).snapshotAt t (w t).length) := fun hc =>
          hfollow ⟨t.other, by rwa [t.other_other]⟩
        rcases hlone t hno with ⟨hu, hfirst, hmax⟩ | ⟨hu, hver⟩
        · exact Or.inl ⟨hu, hfirst, hmax.symm.trans (hgrow t)⟩
        · exact Or.inr ⟨hu, Option.some_inj.1 (hver.symm.trans (hgrow t))⟩
      refine Or.inr fun t => (hlone' t).resolve_right fun ⟨hu, hver⟩ => ?_
      rcases hlone' t.other with ⟨hu', hfirst', _⟩ | ⟨_, hver'⟩
      · have hlt := hlow t.other ⟨hu', hfirst'⟩ (by rwa [t.other_other])
        rw [t.other_other, hver] at hlt
        exact absurd (hg.2 (hstored t.other)) (not_le.2 hlt)
      · exact hne t (hver.trans hver'.symm)
  · rintro (⟨t, hu, hf, hmax⟩ | hboth) n m hnm
    · have hlen : (w t).snapshotAt < (w t).length := (w t).snapshot_lt.trans hu
      rcases (h.dom n).1 (by rw [hnm]; rfl) with hV | ⟨u, _, rfl⟩
      · rcases h.old n hV t ((hup t).2 hu) with hold | ⟨_, _, hnf⟩
        · rw [hnm, hmax, Option.some_inj] at hold
          exact hold
        · exact absurd hf hnf
      · revert u
        rw [Tx.forall_iff t]
        refine ⟨fun _ hnm => ?_, fun _ hnm => ?_⟩
        · rcases hlone t fun hc => h.not_both t hlen hf hc.2 with ⟨_, _, hr⟩ | ⟨hu', hr⟩
          · rw [hnm, hmax, Option.some_inj] at hr
            exact hr
          · have hch := hown t _ g (fun hfirst => hu' ⟨hu, hfirst⟩) (h.max t g hmax)
            rw [hnm, Option.some_inj] at hr
            exact hr.trans hch.symm
        · have := hrow t.other
          rw [t.other_other] at this
          rw [this hu hf, hmax, Option.some_inj] at hnm
          exact hnm.symm
    · have hmax : ∀ t, s.max t = some g := fun t => (hboth t).2.2
      rcases (h.dom n).1 (by rw [hnm]; rfl) with hV | ⟨u, _, rfl⟩
      · rcases h.old n hV .first ((hup _).2 (hboth _).1) with hold | ⟨_, hold, _⟩
        · rw [hnm, hmax, Option.some_inj] at hold
          exact hold
        · rw [hnm, hmax, Option.some_inj] at hold
          exact hold
      · by_cases hf : Follows s.past u.other (w u.other).snapshotAt u (w u).length
        · rw [hrow u (hboth _).1 hf, hmax, Option.some_inj] at hnm
          exact hnm.symm
        · rcases hlone u fun hc => hf hc.2 with ⟨_, _, hr⟩ | ⟨hu', _⟩
          · rw [hnm, hmax, Option.some_inj] at hr
            exact hr
          · exact absurd ⟨(hboth u).1, (hboth u).2.1⟩ hu'

end Steps

end Machine

end ReadCommitted
