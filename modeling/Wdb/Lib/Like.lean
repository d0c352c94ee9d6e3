import Wdb.Lib.SqlTypes

/-! Which texts a `LIKE` pattern matches.

    A character that is neither a wildcard nor the escape stands for itself wherever it is in a pattern,
    escaped or not: a run of such characters is found again in every text that the pattern matches, and a
    pattern of such characters matches itself only. A pattern without the escape character matches itself. -/

namespace SqlTypes

/-- A character with no meaning of its own in a pattern. -/
def Plain (c : Char) : Prop := c ≠ '%' ∧ c ≠ '_' ∧ c ≠ '\\'

instance (c : Char) : Decidable (Plain c) := inferInstanceAs (Decidable (_ ∧ _))

/-! ### Reading a pattern -/

theorem likeTokens_cons {c : Char} (hc : Plain c) (p : List Char) :
    likeTokens (c :: p) = (likeTokens p).map (LikeToken.char c :: ·) := by
  obtain ⟨hany, hone, hesc⟩ := hc
  rw [likeTokens]
  · exact hany
  · exact hone
  · exact fun h _ => hesc h
  · exact fun _ _ h _ => hesc h

/-- A run of plain characters at the front of a pattern. -/
theorem likeTokens_append {w : List Char} (hw : ∀ c ∈ w, Plain c) (p : List Char) :
    likeTokens (w ++ p) = (likeTokens p).map (w.map LikeToken.char ++ ·) := by
  induction w with
  | nil => simp
  | cons c w ih =>
    rw [List.cons_append, likeTokens_cons (hw c List.mem_cons_self),
      ih fun d hd => hw d (List.mem_cons_of_mem c hd), Option.map_map]
    rfl

/-- A run of plain characters inside a pattern stays a run of its elements, even behind an escape. -/
theorem likeTokens_isInfix {w : List Char} (hw : ∀ c ∈ w, Plain c) (hne : w ≠ []) (p₂ : List Char) :
    ∀ (p₁ : List Char) {P : List LikeToken}, likeTokens (p₁ ++ (w ++ p₂)) = some P →
      w.map LikeToken.char <:+: P := by
  intro p₁
  induction p₁ using likeTokens.induct with
  | case1 =>
    intro P h
    rw [List.nil_append, likeTokens_append hw] at h
    obtain ⟨Q, _, rfl⟩ := Option.map_eq_some_iff.1 h
    exact ⟨[], Q, rfl⟩
  | case2 p ih | case3 p ih =>
    intro P h
    rw [List.cons_append, likeTokens] at h
    obtain ⟨Q, hQ, rfl⟩ := Option.map_eq_some_iff.1 h
    exact List.infix_cons (ih hQ)
  | case4 =>
    intro P h
    obtain ⟨c, w, rfl⟩ := List.exists_cons_of_ne_nil hne
    rw [List.cons_append, List.nil_append, List.cons_append, likeTokens,
      likeTokens_append fun d hd => hw d (List.mem_cons_of_mem c hd)] at h
    obtain ⟨Q, hQ, rfl⟩ := Option.map_eq_some_iff.1 h
    obtain ⟨R, _, rfl⟩ := Option.map_eq_some_iff.1 hQ
    exact ⟨[], R, rfl⟩
  | case5 c p ih =>
    intro P h
    rw [List.cons_append, List.cons_append, likeTokens] at h
    obtain ⟨Q, hQ, rfl⟩ := Option.map_eq_some_iff.1 h
    exact List.infix_cons (ih hQ)
  | case6 c p hany hone hend hesc ih =>
    intro P h
    have hc : Plain c := by
      refine ⟨hany, hone, fun hc => ?_⟩
      cases p with
      | nil => exact hend hc rfl
      | cons d p => exact hesc d p hc rfl
    rw [List.cons_append, likeTokens_cons hc] at h
    obtain ⟨Q, hQ, rfl⟩ := Option.map_eq_some_iff.1 h
    exact List.infix_cons (ih hQ)

/-! ### Matching -/

/-- Characters at the front of a pattern are those at the front of the text. -/
theorem likeMatch_append (w : List Char) (P : List LikeToken) (t : List Char) :
    likeMatch (w.map LikeToken.char ++ P) t = true ↔ ∃ r, t = w ++ r ∧ likeMatch P r = true := by
  induction w generalizing t with
  | nil => simp
  | cons c w ih =>
    cases t with
    | nil => simp [likeMatch]
    | cons d t =>
      rw [List.map_cons, List.cons_append, likeMatch, Bool.and_eq_true, decide_eq_true_eq, ih]
      constructor
      · rintro ⟨rfl, r, rfl, hr⟩
        exact ⟨r, rfl, hr⟩
      · rintro ⟨r, h, hr⟩
        obtain ⟨rfl, rfl⟩ := List.cons.inj h
        exact ⟨rfl, r, rfl, hr⟩

/-- Characters inside a pattern are found in the text. -/
theorem infix_of_likeMatch {w : List Char} {P : List LikeToken} (h : w.map LikeToken.char <:+: P) :
    ∀ {t : List Char}, likeMatch P t = true → w <:+: t := by
  obtain ⟨P₁, P₂, rfl⟩ := h
  rw [List.append_assoc]
  induction P₁ with
  | nil =>
    intro t ht
    obtain ⟨r, rfl, _⟩ := (likeMatch_append w P₂ t).1 ht
    exact ⟨[], r, rfl⟩
  | cons a P₁ ih =>
    intro t ht
    rw [List.cons_append] at ht
    cases a with
    | any =>
      rw [likeMatch, List.any_eq_true] at ht
      obtain ⟨r, hr, ht⟩ := ht
      exact (ih ht).trans (List.mem_tails r t |>.1 hr).isInfix
    | one | char d =>
      cases t with
      | nil => simp [likeMatch] at ht
      | cons c t =>
        simp only [likeMatch, Bool.and_eq_true] at ht
        first
        | exact List.infix_cons (ih ht)
        | exact List.infix_cons (ih ht.2)

/-- A pattern that starts with plain characters does not match what follows them. -/
theorem likeMatch_dropped {w : List Char} (hw : ∀ c ∈ w, Plain c) (hne : w ≠ []) (z : List Char)
    {P : List LikeToken} (h : likeTokens (w ++ z) = some P) : likeMatch P z = false := by
  rw [likeTokens_append hw] at h
  obtain ⟨Q, hQ, rfl⟩ := Option.map_eq_some_iff.1 h
  by_contra hmatch
  rw [Bool.not_eq_false, likeMatch_append] at hmatch
  -- the text starts with `w` again, and the same holds of the shorter text
  obtain ⟨r, rfl, hr⟩ := hmatch
  have hlt : r.length < (w ++ r).length := by
    have := List.length_pos_of_ne_nil hne
    simp [this]
  rw [likeMatch_dropped hw hne r hQ] at hr
  cases hr
termination_by z.length

/-- A pattern without the escape character matches itself. -/
theorem like_self : ∀ {p : List Char}, '\\' ∉ p →
    ∃ P, likeTokens p = some P ∧ likeMatch P p = true
  | [], _ => ⟨[], rfl, rfl⟩
  | c :: p, h => by
    obtain ⟨P, hP, hmatch⟩ := like_self fun hp => h (List.mem_cons_of_mem c hp)
    by_cases hany : c = '%'
    · subst hany
      refine ⟨.any :: P, by rw [likeTokens, hP]; rfl, ?_⟩
      rw [likeMatch, List.any_eq_true]
      exact ⟨p, (List.mem_tails _ _).2 (List.suffix_cons _ _), hmatch⟩
    by_cases hone : c = '_'
    · subst hone
      exact ⟨.one :: P, by rw [likeTokens, hP]; rfl, by rw [likeMatch, hmatch]⟩
    · have hc : Plain c := ⟨hany, hone, fun hc => h (hc ▸ List.mem_cons_self)⟩
      exact ⟨.char c :: P, by rw [likeTokens_cons hc, hP]; rfl, by simp [likeMatch, hmatch]⟩

/-! ### Patterns as texts -/

/-- A pattern of plain characters is compared with. -/
theorem like_plain {p : String} (hp : ∀ c ∈ p.toList, Plain c) (s : String) :
    like s p = some (decide (s = p)) := by
  have htokens := likeTokens_append hp []
  rw [List.append_nil, likeTokens, Option.map_some] at htokens
  rw [like_of_tokens htokens, Option.some_inj, Bool.eq_iff_iff, likeMatch_append, decide_eq_true_iff]
  constructor
  · rintro ⟨r, hs, hr⟩
    have hr : r = [] := List.isEmpty_iff.1 hr
    rw [hr, List.append_nil] at hs
    exact String.toList_inj.1 hs
  · rintro rfl
    exact ⟨[], (List.append_nil _).symm, rfl⟩

/-- A pattern without the escape character raises for no text, and matches itself. -/
theorem like_of_unescaped {p : String} (hp : '\\' ∉ p.toList) :
    (∀ s, like s p ≠ none) ∧ like p p = some true := by
  obtain ⟨P, hP, hmatch⟩ := like_self hp
  refine ⟨fun s => ?_, ?_⟩
  · rw [like_of_tokens hP]
    exact nofun
  · rw [like_of_tokens hP, hmatch]

theorem plain_toLower {c : Char} : Plain c.toLower ↔ Plain c := by
  unfold Plain
  rw [ne_eq, ne_eq, ne_eq, toLower_eq_iff (d := '%') (by decide), toLower_eq_iff (d := '_') (by decide),
    toLower_eq_iff (d := '\\') (by decide)]

theorem plain_lower {s : String} (hs : ∀ c ∈ s.toList, Plain c) : ∀ c ∈ (lower s).toList, Plain c := by
  intro c hc
  rw [lower, String.toList_ofList, List.mem_map] at hc
  obtain ⟨d, hd, rfl⟩ := hc
  exact plain_toLower.2 (hs d hd)

theorem unescaped_lower {s : String} (hs : '\\' ∉ s.toList) : '\\' ∉ (lower s).toList := by
  rw [lower, String.toList_ofList, List.mem_map]
  rintro ⟨d, hd, hlower⟩
  rw [toLower_eq_iff (by decide)] at hlower
  exact hs (hlower ▸ hd)

end SqlTypes
