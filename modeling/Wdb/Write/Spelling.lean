import Wdb.Lib.Like
import Wdb.Store.Read
import Wdb.Write.ParameterType

/-! Which spellings of a parameter normalization keeps.

    A spelling is kept when its white space is single blanks and it does not start with the word that is
    removed. Nothing else is found again: a pattern in any other spelling does not match the text that it
    is normalized to. -/

namespace Wdb.Write
open SqlTypes Store

/-- The only white space is blanks, no two of them next to each other. -/
structure Single (s : List Char) : Prop where
  blank : ∀ c ∈ s, isSpace c = true → c = ' '
  apart : ¬ [' ', ' '] <:+: s

theorem single_iff {s : List Char} :
    (s.all (fun c => !isSpace c || c = ' ') = true ∧ ¬ [' ', ' '] <:+: s) ↔ Single s := by
  rw [List.all_eq_true]
  constructor
  · rintro ⟨hblank, hapart⟩
    exact ⟨fun c hc hspace => by simpa [hspace] using hblank c hc, hapart⟩
  · rintro ⟨hblank, hapart⟩
    refine ⟨fun c hc => ?_, hapart⟩
    cases hspace : isSpace c with
    | false => rfl
    | true => simpa using hblank c hc hspace

instance (s : List Char) : Decidable (Single s) := decidable_of_iff _ single_iff

theorem Single.of_isInfix {s t : List Char} (h : Single t) (hs : s <:+: t) : Single s :=
  ⟨fun c hc => h.blank c (hs.subset hc), fun h' => h.apart (h'.trans hs)⟩

/-! ### Collapsing white space -/

theorem collapse_length_le (b : Bool) (s : List Char) : (collapse b s).length ≤ s.length := by
  induction s generalizing b with
  | nil => exact le_rfl
  | cons c s ih =>
    have htrue := ih true
    have hfalse := ih false
    rw [collapse]
    split_ifs <;> simp only [List.length_cons] <;> omega

/-- The first character stays, white space as a blank. -/
theorem collapse_head? (s : List Char) :
    (collapse false s).head? = s.head?.map fun c => if isSpace c then ' ' else c := by
  cases s with
  | nil => rfl
  | cons c s =>
    rw [collapse]
    split <;> simp [*]

/-- White space at the end stays a blank, unless all of it is in a run that began before. -/
theorem collapse_concat {c : Char} (hc : isSpace c = true) (b : Bool) (s : List Char) :
    (b = true ∧ collapse b (s ++ [c]) = []) ∨ (collapse b (s ++ [c])).getLast? = some ' ' := by
  induction s generalizing b with
  | nil => cases b <;> simp [collapse, hc]
  | cons d s ih =>
    rw [List.cons_append, collapse]
    have hcons : ∀ {e : Char} {t : List Char} {b : Bool},
        (b = true ∧ t = []) ∨ t.getLast? = some ' ' → (b = true → e = ' ') →
          (e :: t).getLast? = some ' ' := by
      rintro e t b (⟨rfl, rfl⟩ | h) he
      · simp [he rfl]
      · rw [List.getLast?_cons, h]
        rfl
    split
    · split
      · next hb =>
        subst hb
        exact ih true
      · exact Or.inr (hcons (ih true) fun _ => rfl)
    · exact Or.inr (hcons (ih false) (by simp))

/-- Within a run no blank comes first. -/
theorem collapse_true_head? (s : List Char) : (collapse true s).head? ≠ some ' ' := by
  induction s with
  | nil => simp [collapse]
  | cons c s ih =>
    rw [collapse]
    split
    · exact ih
    · next hc =>
      rw [List.head?_cons]
      rintro h
      rw [Option.some_inj.1 h] at hc
      exact hc rfl

/-- What is left has single blanks only. -/
theorem collapse_single (b : Bool) (s : List Char) : Single (collapse b s) := by
  induction s generalizing b with
  | nil => exact ⟨fun _ h => (nomatch h), fun h => by simpa [collapse] using h.length_le⟩
  | cons c s ih =>
    have hcons : ∀ {d : Char} {t : List Char}, Single t → (isSpace d = true → d = ' ') →
        (d = ' ' → t.head? ≠ some ' ') → Single (d :: t) := by
      intro d t ht hd hhead
      refine ⟨fun e he hspace => ?_, fun h => ?_⟩
      · rcases List.mem_cons.1 he with rfl | he
        · exact hd hspace
        · exact ht.blank e he hspace
      · rcases List.infix_cons_iff.1 h with ⟨t, ht⟩ | h
        · obtain ⟨rfl, rfl⟩ := List.cons.inj ht
          exact hhead rfl rfl
        · exact ht.apart h
    rw [collapse]
    split
    · split
      · exact ih true
      · exact hcons (ih true) (fun _ => rfl) fun _ => collapse_true_head? s
    · next hc => exact hcons (ih false) (fun h => absurd h hc) fun h => absurd (h ▸ rfl) hc

/-- A text with single blanks only is left alone. -/
theorem collapse_of_single {s : List Char} (h : Single s) :
    ∀ b : Bool, (b = true → s.head? ≠ some ' ') → collapse b s = s := by
  induction s with
  | nil => exact fun _ _ => rfl
  | cons c s ih =>
    intro b hb
    have hs : Single s := h.of_isInfix (List.suffix_cons c s).isInfix
    rw [collapse]
    split
    · next hc =>
      obtain rfl := h.blank c List.mem_cons_self hc
      rw [if_neg fun hb' => hb hb' rfl, ih hs]
      intro _ hhead
      obtain ⟨t, rfl⟩ := List.head?_eq_some_iff.1 hhead
      exact h.apart ⟨[], t, rfl⟩
    · rw [ih hs false (by simp)]

theorem collapse_eq_self_iff {s : List Char} : collapse false s = s ↔ Single s :=
  ⟨fun h => h ▸ collapse_single false s, fun h => collapse_of_single h false fun h => nomatch h⟩

/-! ### The word in front -/

theorem length_instant : instant.length = 8 := rfl

theorem plain_instant : ∀ c ∈ instant, Plain c := by
  have hchars : instant = ['i', 'n', 's', 't', 'a', 'n', 't', ' '] := rfl
  simp [hchars, Plain]

theorem eraseInstant_append (s : List Char) : eraseInstant (instant ++ s) = s := by
  rw [eraseInstant, if_pos (List.take_left' length_instant), List.drop_left' length_instant]

theorem eraseInstant_of_not_isPrefix {s : List Char} (h : ¬ instant <+: s) : eraseInstant s = s := by
  have htake : s.take 8 ≠ instant := fun htake => h ⟨s.drop 8, by rw [← htake, List.take_append_drop]⟩
  rw [eraseInstant, if_neg htake]

theorem eraseInstant_isInfix (s : List Char) : eraseInstant s <:+: s := by
  unfold eraseInstant
  split
  · exact (List.drop_suffix 8 s).isInfix
  · exact List.infix_rfl

/-- What a spelling is normalized to is the spelling itself when it is kept. -/
theorem eraseInstant_collapse {s : List Char} (h : Single s) (hinstant : ¬ instant <+: s) :
    eraseInstant (collapse false s) = s := by
  rw [collapse_eq_self_iff.2 h, eraseInstant_of_not_isPrefix hinstant]

/-- White space at the end stays a blank. -/
theorem collapse_getLast? {s : List Char} (h : s.getLast? = some ' ') :
    (collapse false s).getLast? = some ' ' := by
  obtain ⟨t, rfl⟩ := List.getLast?_eq_some_iff.1 h
  exact (collapse_concat rfl false t).resolve_left fun h => nomatch h.1

/-- Normalizing a text and trimming it come to the same only where neither does anything. -/
theorem normalized_eq_btrim_iff (s : String) :
    eraseInstant (collapse false s.toList) = (btrim s).toList ↔
      Single s.toList ∧ ¬ instant <+: s.toList ∧ btrim s = s := by
  constructor
  · intro h
    by_cases hinstant : instant <+: collapse false s.toList
    · -- what follows the word ends as the text does, and is shorter than it
      exfalso
      obtain ⟨d, hd⟩ := hinstant
      rw [← hd, eraseInstant_append] at h
      have hhead : s.toList.head? ≠ some ' ' := by
        intro hhead
        have hcollapsed := collapse_head? s.toList
        have hword : (instant ++ d).head? = some 'i' := rfl
        rw [hhead, ← hd, hword] at hcollapsed
        simp [isSpace] at hcollapsed
      have hlast : s.toList.getLast? ≠ some ' ' := by
        intro hlast
        have hcollapsed := collapse_getLast? hlast
        rw [← hd, h, List.getLast?_append] at hcollapsed
        rcases hempty : (btrim s).toList.getLast? with _ | c
        · have hblanks := eq_blank_of_btrim_eq_nil (List.getLast?_eq_none_iff.1 hempty)
          have hne : s.toList ≠ [] := fun hnil => by rw [hnil] at hlast; cases hlast
          obtain ⟨c, u, hcu⟩ := List.exists_cons_of_ne_nil hne
          refine hhead ?_
          rw [hcu, List.head?_cons, hblanks c (hcu ▸ List.mem_cons_self)]
        · rw [hempty, Option.some_or] at hcollapsed
          exact btrim_getLast? s (hempty.trans hcollapsed)
      rw [btrim_eq_self_iff.2 ⟨hhead, hlast⟩] at h
      have hlength := collapse_length_le false s.toList
      rw [← hd, h, List.length_append, length_instant] at hlength
      omega
    · rw [eraseInstant_of_not_isPrefix hinstant] at h
      have hself : btrim s = s := by
        refine btrim_eq_self_iff.2 ⟨fun hhead => ?_, fun hlast => ?_⟩
        · have hcollapsed := collapse_head? s.toList
          rw [hhead, h] at hcollapsed
          exact btrim_head? s hcollapsed
        · have hcollapsed := collapse_getLast? hlast
          rw [h] at hcollapsed
          exact btrim_getLast? s hcollapsed
      rw [hself] at h
      exact ⟨collapse_eq_self_iff.1 h, h ▸ hinstant, hself⟩
  · rintro ⟨hsingle, hinstant, hself⟩
    rw [eraseInstant_collapse hsingle hinstant, hself]

/-! ### What a pattern finds -/

/-- A pattern that matches a text with single blanks only has single blanks only. -/
theorem single_of_likeMatch {s t : List Char} {P : List LikeToken} (hP : likeTokens s = some P)
    (hmatch : likeMatch P t = true) (ht : Single t) : Single s := by
  have hfound : ∀ w : List Char, (∀ c ∈ w, Plain c) → w ≠ [] → w <:+: s → w <:+: t := by
    rintro w hw hne ⟨s₁, s₂, rfl⟩
    rw [List.append_assoc] at hP
    exact infix_of_likeMatch (likeTokens_isInfix hw hne s₂ s₁ hP) hmatch
  refine ⟨fun c hc hspace => ?_, fun h => ?_⟩
  · have hplain : Plain c := by
      refine ⟨?_, ?_, ?_⟩ <;>
        · rintro rfl
          exact absurd hspace (by decide)
    have hinfix : [c] <:+: t := hfound [c] (fun d hd => List.mem_singleton.1 hd ▸ hplain)
      (List.cons_ne_nil _ _) ((List.singleton_infix_iff _ _).2 hc)
    exact ht.blank c ((List.singleton_infix_iff _ _).1 hinfix) hspace
  · have hplain : ∀ c ∈ [' ', ' '], Plain c := by simp [Plain]
    exact ht.apart (hfound _ hplain (List.cons_ne_nil _ _) h)

/-- A name matches a pattern when the elements of the pattern in lower case match it. -/
theorem nameLike_iff {s : List Char} {pattern : String} : nameLike (String.ofList s) pattern = true ↔
    ∃ P, likeTokens (lower pattern).toList = some P ∧ likeMatch P s = true := by
  simp [nameLike, like_eq_true_iff]

/-- A spelling, read as a pattern, matches what it is normalized to exactly when it is kept and matches
    itself. -/
theorem nameLike_normalized_iff (v : String) :
    nameLike (String.ofList (eraseInstant (collapse false (lower v).toList))) v = true ↔
      Single (lower v).toList ∧ ¬ instant <+: (lower v).toList ∧ nameLike (lower v) v = true := by
  constructor
  · intro h
    obtain ⟨P, hP, hmatch⟩ := nameLike_iff.1 h
    have hsingle : Single (lower v).toList :=
      single_of_likeMatch hP hmatch ((collapse_single false _).of_isInfix (eraseInstant_isInfix _))
    rw [collapse_eq_self_iff.2 hsingle] at h hmatch
    have hinstant : ¬ instant <+: (lower v).toList := by
      rintro ⟨z, hz⟩
      rw [← hz] at hP hmatch
      rw [eraseInstant_append, likeMatch_dropped plain_instant (List.cons_ne_nil _ _) z hP] at hmatch
      cases hmatch
    rw [eraseInstant_of_not_isPrefix hinstant, String.ofList_toList] at h
    exact ⟨hsingle, hinstant, h⟩
  · rintro ⟨hsingle, hinstant, h⟩
    rwa [eraseInstant_collapse hsingle hinstant, String.ofList_toList]

/-- The same without the word that is removed. -/
theorem nameLike_collapse_iff (l : String) :
    nameLike (String.ofList (collapse false (lower l).toList)) l = true ↔
      Single (lower l).toList ∧ nameLike (lower l) l = true := by
  constructor
  · intro h
    obtain ⟨P, hP, hmatch⟩ := nameLike_iff.1 h
    have hsingle : Single (lower l).toList := single_of_likeMatch hP hmatch (collapse_single false _)
    rw [collapse_eq_self_iff.2 hsingle, String.ofList_toList] at h
    exact ⟨hsingle, h⟩
  · rintro ⟨hsingle, h⟩
    rwa [collapse_eq_self_iff.2 hsingle, String.ofList_toList]

/-- A spelling without the escape character matches itself. -/
theorem nameLike_lower {v : String} (h : '\\' ∉ (lower v).toList) : nameLike (lower v) v = true := by
  obtain ⟨P, hP, hmatch⟩ := like_self h
  rw [← String.ofList_toList (s := lower v)]
  exact nameLike_iff.2 ⟨P, hP, hmatch⟩

end Wdb.Write
