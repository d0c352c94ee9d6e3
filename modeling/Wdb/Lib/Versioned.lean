import Wdb.Lib.Table

/-! Rows with versions, each with a copy of the greatest version of its key.

    A row has a key and a version, and a column that is meant to hold the greatest version stored for
    the key. `MaxCorrect` says that it does, and then the rows whose version equals the column are the
    newest of their keys. The lemmas say what writing and deleting do to it. -/

namespace Versioned

variable {α κ : Type*} (key : α → κ) (version maxVersion : α → ℤ)

/-- No row of the key has a higher version. -/
def Newest (l : List α) (a : α) : Prop := ∀ b ∈ l, key b = key a → version b ≤ version a

/-- The column of every row is the greatest version of its key. -/
def MaxCorrect (l : List α) : Prop :=
  ∀ a ∈ l, (∃ b ∈ l, key b = key a ∧ version b = maxVersion a) ∧
    ∀ b ∈ l, key b = key a → version b ≤ maxVersion a

instance [DecidableEq κ] (l : List α) (a : α) : Decidable (Newest key version l a) :=
  inferInstanceAs (Decidable (∀ b ∈ l, _))

instance [DecidableEq κ] (l : List α) : Decidable (MaxCorrect key version maxVersion l) :=
  inferInstanceAs (Decidable (∀ a ∈ l, _))

variable {key version maxVersion} {l : List α} {a : α}

variable (key version) in
/-- Every key that is stored has a newest row. -/
theorem exists_newest (ha : a ∈ l) : ∃ b ∈ l, key b = key a ∧ Newest key version l b := by
  obtain ⟨b, hb, hkey, hmax⟩ := Relational.exists_greatest version (p := fun b => key b = key a) ⟨a, ha, rfl⟩
  exact ⟨b, hb, hkey, fun c hc hcb => hmax c hc (hcb.trans hkey)⟩

/-- With a correct column, a row is the newest of its key when its version equals the column. -/
theorem newest_iff (h : MaxCorrect key version maxVersion l) (ha : a ∈ l) :
    Newest key version l a ↔ version a = maxVersion a := by
  obtain ⟨⟨b, hb, hkey, hver⟩, hle⟩ := h a ha
  constructor
  · intro hnew
    exact le_antisymm (hle a ha rfl) (hver ▸ hnew b hb hkey)
  · intro heq c hc hca
    rw [heq]
    exact hle c hc hca

/-- The columns of two rows of one key are equal. -/
theorem max_eq (h : MaxCorrect key version maxVersion l) {b : α} (ha : a ∈ l) (hb : b ∈ l)
    (hkey : key b = key a) : maxVersion b = maxVersion a := by
  obtain ⟨⟨c, hc, hca, hcm⟩, hla⟩ := h a ha
  obtain ⟨⟨d, hd, hdb, hdm⟩, hlb⟩ := h b hb
  refine le_antisymm ?_ ?_
  · rw [← hdm]; exact hla d hd (hdb.trans hkey)
  · rw [← hcm]; exact hlb c hc (hca.trans hkey.symm)

/-- Storing a row and setting the column of its key keeps the columns correct exactly when the column
    becomes the greatest version of the key. -/
theorem maxCorrect_write [DecidableEq κ] {k : κ} {m : ℤ} {f : α → α} {b : α}
    (hkey : ∀ a, key (f a) = key a) (hver : ∀ a, version (f a) = version a)
    (hmax : ∀ a, maxVersion (f a) = if key a = k then m else maxVersion a)
    (hbk : key b = k) (hbm : maxVersion b = m) (h : MaxCorrect key version maxVersion l) :
    MaxCorrect key version maxVersion (l.map f ++ [b]) ↔
      (version b = m ∨ ∃ a ∈ l, key a = k ∧ version a = m) ∧ version b ≤ m ∧
        ∀ a ∈ l, key a = k → version a ≤ m := by
  have hall : ∀ {p : α → Prop}, (∀ c ∈ l.map f ++ [b], p c) ↔ (∀ a ∈ l, p (f a)) ∧ p b := by
    intro p
    simp only [List.forall_mem_append, List.forall_mem_map, List.forall_mem_singleton]
  have hb : b ∈ l.map f ++ [b] := by simp
  have hf : ∀ {a}, a ∈ l → f a ∈ l.map f ++ [b] := fun ha =>
    List.mem_append_left _ (List.mem_map_of_mem ha)
  constructor
  · intro hc
    obtain ⟨⟨c, hc', hck, hcm⟩, hle⟩ := hc b hb
    rw [hbk] at hck hle
    rw [hbm] at hcm hle
    refine ⟨?_, hle b hb hbk, fun a ha hak => ?_⟩
    · rcases List.mem_append.1 hc' with hc' | hc'
      · obtain ⟨a, ha, rfl⟩ := List.mem_map.1 hc'
        exact Or.inr ⟨a, ha, (hkey a).symm.trans hck, (hver a).symm.trans hcm⟩
      · rw [List.mem_singleton.1 hc'] at hcm
        exact Or.inl hcm
    · have := hle (f a) (hf ha) ((hkey a).trans hak)
      rwa [hver] at this
  · rintro ⟨hatt, hbm', hle⟩
    -- the greatest version of the key of `b` is now in the column of all its rows
    have hgreatest : (∃ c ∈ l.map f ++ [b], key c = k ∧ version c = m) ∧
        ∀ c ∈ l.map f ++ [b], key c = k → version c ≤ m := by
      refine ⟨?_, hall.2 ⟨fun a ha hak => ?_, fun _ => hbm'⟩⟩
      · rcases hatt with hatt | ⟨a, ha, hak, ham⟩
        · exact ⟨b, hb, hbk, hatt⟩
        · exact ⟨f a, hf ha, (hkey a).trans hak, (hver a).trans ham⟩
      · rw [hver]
        exact hle a ha ((hkey a).symm.trans hak)
    refine hall.2 ⟨fun a ha => ?_, by rw [hbk, hbm]; exact hgreatest⟩
    rw [hmax, hkey]
    split
    · next hak => rw [hak]; exact hgreatest
    · next hak =>
      obtain ⟨⟨c, hc, hca, hcm⟩, hla⟩ := h a ha
      refine ⟨⟨f c, hf hc, (hkey c).trans hca, (hver c).trans hcm⟩,
        hall.2 ⟨fun c hc hck => ?_, fun hba => absurd (hba.symm.trans hbk) hak⟩⟩
      rw [hver]
      exact hla c hc ((hkey c).symm.trans hck)

/-- Deleting rows keeps the columns correct exactly when a key loses its newest row only with all its
    rows. -/
theorem maxCorrect_filter (huniq : ∀ a ∈ l, ∀ b ∈ l, key a = key b → version a = version b → a = b)
    (keep : α → Bool) (h : MaxCorrect key version maxVersion l) :
    MaxCorrect key version maxVersion (l.filter keep) ↔
      ∀ a ∈ l, Newest key version l a → keep a = false →
        ∀ b ∈ l, key b = key a → keep b = false := by
  constructor
  · intro hc a ha hnew hdel b hb hba
    by_contra hkeep
    rw [Bool.not_eq_false] at hkeep
    obtain ⟨c, hc, hcb, hcm⟩ := (hc b (List.mem_filter.2 ⟨hb, hkeep⟩)).1
    obtain ⟨hcl, hckeep⟩ := List.mem_filter.1 hc
    have hver : version c = version a := by
      rw [hcm, max_eq h ha hb hba, (newest_iff h ha).1 hnew]
    rw [huniq c hcl a ha (hcb.trans hba) hver, hdel] at hckeep
    cases hckeep
  · intro hall b hb
    obtain ⟨hbl, hbkeep⟩ := List.mem_filter.1 hb
    obtain ⟨a, ha, hab, hnew⟩ := exists_newest key version hbl
    have hakeep : keep a = true := by
      by_contra hdel
      rw [Bool.not_eq_true] at hdel
      rw [hall a ha hnew hdel b hbl hab.symm] at hbkeep
      cases hbkeep
    refine ⟨⟨a, List.mem_filter.2 ⟨ha, hakeep⟩, hab, ?_⟩, fun c hc =>
      (h b hbl).2 c (List.mem_of_mem_filter hc)⟩
    rw [(newest_iff h ha).1 hnew, max_eq h hbl ha hab]

end Versioned
