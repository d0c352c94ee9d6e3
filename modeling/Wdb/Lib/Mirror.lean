import Mathlib

/-! Copies of a view that are maintained key by key.

    A mirror holds the rows of a view. An action on one key replaces the rows of that key by those of
    the view, or removes them; an action on all keys copies the view anew. When the view has changed
    and a list of actions has been made, what the mirror holds for a key is decided by the last action
    that touches the key. -/

namespace Mirror

variable {ρ κ : Type*} [DecidableEq κ]

/-- What a maintenance step does to a mirror. -/
inductive Action (κ : Type*) where
  | refresh (k : κ) | clear (k : κ) | refreshAll
  deriving DecidableEq

section Key
variable (key : ρ → κ)

/-- The rows of one key. -/
def fibre (k : κ) (l : List ρ) : List ρ := l.filter fun a => key a = k

/-- The rows of all other keys. -/
def without (k : κ) (l : List ρ) : List ρ := l.filter fun a => key a ≠ k

/-- One maintenance step. -/
def apply (view mirror : List ρ) : Action κ → List ρ
  | .refresh k => without key k mirror ++ fibre key k view
  | .clear k => without key k mirror
  | .refreshAll => view

/-- A list of maintenance steps. -/
def replay (view mirror : List ρ) (actions : List (Action κ)) : List ρ :=
  actions.foldl (apply key view) mirror

end Key

/-- What an action does to a key: copy its rows, remove them, or nothing. -/
def Action.on (k : κ) : Action κ → Option Bool
  | .refresh j => if j = k then some true else none
  | .clear j => if j = k then some false else none
  | .refreshAll => some true

/-- What the last action that touches a key does to it. -/
def lastOn (k : κ) (actions : List (Action κ)) : Option Bool :=
  actions.foldl (fun last a => (a.on k).or last) none

section Lemmas
variable {key : ρ → κ} {k j : κ} {l l' view mirror : List ρ} {actions : List (Action κ)}

@[simp] theorem fibre_nil : fibre key k [] = [] := rfl

@[simp] theorem fibre_append : fibre key k (l ++ l') = fibre key k l ++ fibre key k l' :=
  List.filter_append l l'

@[simp] theorem fibre_without_self : fibre key k (without key k l) = [] := by
  simp [fibre, without, List.filter_filter]

theorem fibre_without (h : j ≠ k) : fibre key k (without key j l) = fibre key k l := by
  unfold fibre without
  rw [List.filter_filter]
  refine List.filter_congr fun a _ => ?_
  by_cases ha : key a = k
  · simp [ha, Ne.symm h]
  · simp [ha]

@[simp] theorem fibre_fibre_self : fibre key k (fibre key k l) = fibre key k l := by
  simp [fibre, List.filter_filter]

theorem fibre_fibre (h : j ≠ k) : fibre key k (fibre key j l) = [] := by
  unfold fibre
  rw [List.filter_filter, List.filter_eq_nil_iff]
  intro a _
  by_cases ha : key a = k
  · simp [ha, Ne.symm h]
  · simp [ha]

/-- Two lists hold the same rows when they do so for every key. -/
theorem perm_iff_fibres (key : ρ → κ) : l.Perm l' ↔ ∀ k, (fibre key k l).Perm (fibre key k l') := by
  refine ⟨fun h k => h.filter _, fun h => ?_⟩
  classical
  rw [List.perm_iff_count]
  intro a
  have hcount : ∀ m : List ρ, (fibre key (key a) m).count a = m.count a := fun m =>
    List.count_filter (by simp)
  rw [← hcount l, ← hcount l', (h (key a)).count_eq]

theorem fibre_apply (a : Action κ) : fibre key k (apply key view mirror a) =
    match a.on k with
    | some true => fibre key k view
    | some false => []
    | none => fibre key k mirror := by
  cases a with
  | refresh j =>
    by_cases h : j = k
    · subst h; simp [apply, Action.on]
    · simp [apply, Action.on, h, fibre_without h, fibre_fibre h]
  | clear j =>
    by_cases h : j = k
    · subst h; simp [apply, Action.on]
    · simp [apply, Action.on, h, fibre_without h]
  | refreshAll => rfl

theorem replay_concat (a : Action κ) : replay key view mirror (actions ++ [a]) =
    apply key view (replay key view mirror actions) a := by
  simp [replay]

theorem lastOn_concat (a : Action κ) :
    lastOn k (actions ++ [a]) = (a.on k).or (lastOn k actions) := by
  simp [lastOn]

/-- The rows of a key after a list of actions. -/
theorem fibre_replay : fibre key k (replay key view mirror actions) =
    match lastOn k actions with
    | some true => fibre key k view
    | some false => []
    | none => fibre key k mirror := by
  induction actions using List.reverseRecOn with
  | nil => rfl
  | append_singleton l a ih =>
    rw [replay_concat, lastOn_concat, fibre_apply, ih]
    cases a.on k with
    | none => rfl
    | some b => cases b <;> rfl

/-- Actions that remove nothing copy the keys that they name, or all of them. -/
theorem lastOn_of_noClear (h : ∀ j, Action.clear j ∉ actions) : lastOn k actions =
    if Action.refresh k ∈ actions ∨ Action.refreshAll ∈ actions then some true else none := by
  induction actions using List.reverseRecOn with
  | nil => simp [lastOn]
  | append_singleton l a ih =>
    have hl : ∀ j, Action.clear j ∉ l := fun j hj => h j (List.mem_append_left _ hj)
    rw [lastOn_concat, ih hl]
    cases a with
    | refresh j =>
      by_cases hj : j = k
      · simp [Action.on, hj]
      · simp [Action.on, hj, Ne.symm hj]
    | clear j => exact absurd (List.mem_append_right _ List.mem_cons_self) (h j)
    | refreshAll => simp [Action.on]

/-- Actions that only remove do so at the keys that they name. -/
theorem lastOn_of_clear (h : ∀ a ∈ actions, ∃ j, a = .clear j) : lastOn k actions =
    if Action.clear k ∈ actions then some false else none := by
  induction actions using List.reverseRecOn with
  | nil => simp [lastOn]
  | append_singleton l a ih =>
    have hl : ∀ a ∈ l, ∃ j, a = .clear j := fun a ha => h a (List.mem_append_left _ ha)
    obtain ⟨j, rfl⟩ := h a (List.mem_append_right _ List.mem_cons_self)
    rw [lastOn_concat, ih hl]
    by_cases hj : j = k
    · simp [Action.on, hj]
    · simp [Action.on, hj, Ne.symm hj]

end Lemmas

end Mirror
