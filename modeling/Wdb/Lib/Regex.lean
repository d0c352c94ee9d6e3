import Mathlib

/-! Perl regular expressions with capture groups, matched by backtracking.

    An expression has a list of results on a text, in the order in which a backtracking matcher tries
    them: what the groups hold, and the rest of the text. A match of the whole text is the first result
    that leaves nothing. A repetition is of a class of characters, greedy or lazy. -/

namespace Perl

/-- A regular expression. -/
inductive Regex where
  | empty
  | char (p : Char → Bool)
  | star (p : Char → Bool)
  | lazyStar (p : Char → Bool)
  | seq (r s : Regex)
  | alt (r s : Regex)
  | group (n : ℕ) (r : Regex)

/-- `p+`. -/
def plus (p : Char → Bool) : Regex := .seq (.char p) (.star p)

/-- `r?`. -/
def opt (r : Regex) : Regex := .alt r .empty

/-- A word in either case. -/
def word (w : String) : Regex :=
  w.toList.foldr (fun c r => .seq (.char fun d => d.toLower = c.toLower) r) .empty

/-- The expressions one after the other. -/
def seqs : List Regex → Regex := List.foldr .seq .empty

/-- A character of each of the classes, one after the other. -/
def classes (ps : List (Char → Bool)) : Regex := seqs (ps.map .char)

/-- One of the expressions, the first before the others. -/
def alts : List Regex → Regex
  | [] => .empty
  | [r] => r
  | r :: rs => .alt r (alts rs)

/-- A result: the groups, the last one that was closed first, and the rest of the text. -/
structure Result where
  groups : List (ℕ × List Char)
  rest : List Char
  deriving DecidableEq

/-- What a group holds; one that took no part is empty. -/
def Result.group (x : Result) (n : ℕ) : List Char := (x.groups.lookup n).getD []

/-- What a greedy repetition may leave, the shortest first. -/
def greedy (p : Char → Bool) : List Char → List (List Char)
  | [] => [[]]
  | c :: t => if p c then greedy p t ++ [c :: t] else [c :: t]

/-- The results of an expression on a text. -/
@[grind =] def Regex.results : Regex → List Char → List Result
  | .empty, t => [⟨[], t⟩]
  | .char _, [] => []
  | .char p, c :: t => if p c then [⟨[], t⟩] else []
  | .star p, t => (greedy p t).map (⟨[], ·⟩)
  | .lazyStar p, t => (greedy p t).reverse.map (⟨[], ·⟩)
  | .seq r s, t => (r.results t).flatMap fun x =>
      (s.results x.rest).map fun y => ⟨y.groups ++ x.groups, y.rest⟩
  | .alt r s, t => r.results t ++ s.results t
  | .group n r, t => (r.results t).map fun x =>
      ⟨(n, t.take (t.length - x.rest.length)) :: x.groups, x.rest⟩

/-- `regex_match`: the first result on the whole text. -/
def regexMatch (r : Regex) (t : List Char) : Option Result :=
  (r.results t).find? (·.rest.isEmpty)

/-! ### The first result -/

/-- The result that is tried first. -/
def Regex.first (r : Regex) (t : List Char) : Option Result := (r.results t).head?

/-- The first result of a sequence, when the first result of its first part can be continued. -/
theorem Regex.first_seq {r s : Regex} {t : List Char} {x y : Result} (hx : r.first t = some x)
    (hy : s.first x.rest = some y) : (Regex.seq r s).first t = some ⟨y.groups ++ x.groups, y.rest⟩ := by
  obtain ⟨xs, hxs⟩ := List.head?_eq_some_iff.1 hx
  obtain ⟨ys, hys⟩ := List.head?_eq_some_iff.1 hy
  rw [Regex.first, Regex.results, hxs, List.flatMap_cons, hys, List.map_cons, List.cons_append,
    List.head?_cons]

theorem first_seqs_nil (t : List Char) : (seqs []).first t = some ⟨[], t⟩ := rfl

theorem first_seqs_cons {r : Regex} {rs : List Regex} {t : List Char} {x y : Result}
    (hx : r.first t = some x) (hy : (seqs rs).first x.rest = some y) :
    (seqs (r :: rs)).first t = some ⟨y.groups ++ x.groups, y.rest⟩ := Regex.first_seq hx hy

/-- The left alternative comes first. -/
theorem Regex.first_alt {r s : Regex} {t : List Char} {x : Result} (hx : r.first t = some x) :
    (Regex.alt r s).first t = some x := by
  obtain ⟨xs, hxs⟩ := List.head?_eq_some_iff.1 hx
  rw [Regex.first, Regex.results, hxs, List.cons_append, List.head?_cons]

/-- An optional part that does not match is left out. -/
theorem Regex.first_opt_of_nil {r : Regex} {t : List Char} (h : r.results t = []) :
    (opt r).first t = some ⟨[], t⟩ := by
  rw [opt, Regex.first, Regex.results, h]
  rfl

theorem Regex.first_group {n : ℕ} {r : Regex} {t : List Char} {x : Result} (hx : r.first t = some x) :
    (Regex.group n r).first t =
      some ⟨(n, t.take (t.length - x.rest.length)) :: x.groups, x.rest⟩ := by
  obtain ⟨xs, hxs⟩ := List.head?_eq_some_iff.1 hx
  rw [Regex.first, Regex.results, hxs, List.map_cons, List.head?_cons]

/-- A group holds what its first result has taken. -/
theorem Regex.first_group_append {n : ℕ} {r : Regex} {u t : List Char} {gs : List (ℕ × List Char)}
    (hx : r.first (u ++ t) = some ⟨gs, t⟩) : (Regex.group n r).first (u ++ t) = some ⟨(n, u) :: gs, t⟩ := by
  rw [Regex.first_group hx, List.length_append, Nat.add_sub_cancel, List.take_left]

/-- A greedy repetition tries to take all it can. -/
theorem greedy_head (p : Char → Bool) (t : List Char) : (greedy p t).head? = some (t.dropWhile p) := by
  induction t with
  | nil => rfl
  | cons c t ih =>
    rw [greedy, List.dropWhile_cons]
    split
    · rw [List.head?_append, ih, Option.some_or]
    · rfl

theorem Regex.first_star (p : Char → Bool) (t : List Char) :
    (Regex.star p).first t = some ⟨[], t.dropWhile p⟩ := by
  rw [Regex.first, Regex.results, List.head?_map, greedy_head, Option.map_some]

/-- One character and then all it can. -/
theorem Regex.first_plus {p : Char → Bool} {c : Char} (hc : p c = true) (t : List Char) :
    (plus p).first (c :: t) = some ⟨[], t.dropWhile p⟩ :=
  Regex.first_seq (x := ⟨[], t⟩) (by rw [Regex.first, Regex.results, if_pos hc]; rfl)
    (Regex.first_star p t)

/-- After all it can, a repetition gives back the last character. -/
theorem greedy_append {p : Char → Bool} {s : List Char} {c : Char} (hs : ∀ d ∈ s, p d = true)
    (hc : p c = true) {t : List Char} (ht : t.dropWhile p = t) :
    ∃ ts, greedy p (s ++ c :: t) = t :: (c :: t) :: ts := by
  induction s with
  | nil =>
    have hgreedy : greedy p t = [t] := by
      cases t with
      | nil => rfl
      | cons d t =>
        rw [List.dropWhile_cons] at ht
        split at ht
        · have hle := (List.dropWhile_suffix (l := t) p).length_le
          rw [ht, List.length_cons] at hle
          omega
        · next hd => rw [greedy, if_neg hd]
    exact ⟨[], by rw [List.nil_append, greedy, if_pos hc, hgreedy]; rfl⟩
  | cons d s ih =>
    obtain ⟨ts, hts⟩ := ih fun e he => hs e (List.mem_cons_of_mem d he)
    exact ⟨ts ++ [d :: (s ++ c :: t)], by
      rw [List.cons_append, greedy, if_pos (hs d List.mem_cons_self), hts]; rfl⟩

/-- A word does not match a text that starts with another letter. -/
theorem results_word {w : String} {c d : Char} {v : List Char} (hw : w.toList = c :: v)
    (h : d.toLower ≠ c.toLower) (t : List Char) : (word w).results (d :: t) = [] := by
  rw [word, hw, List.foldr_cons, Regex.results, Regex.results, if_neg (by simpa using h)]
  rfl

/-- A first result on the whole text is the match. -/
theorem regexMatch_of_first {r : Regex} {t : List Char} {x : Result} (h : r.first t = some x)
    (hrest : x.rest = []) : regexMatch r t = some x := by
  obtain ⟨xs, hxs⟩ := List.head?_eq_some_iff.1 h
  rw [regexMatch, hxs, List.find?_cons_of_pos (by rw [hrest]; rfl)]

/-! ### What a group holds -/

/-- Whatever a group takes meets a condition. -/
def Regex.Holds (n : ℕ) (P : List Char → Prop) : Regex → Prop
  | .seq r s => r.Holds n P ∧ s.Holds n P
  | .alt r s => r.Holds n P ∧ s.Holds n P
  | .group m r =>
    (m = n → ∀ t, ∀ x ∈ r.results t, P (t.take (t.length - x.rest.length))) ∧ r.Holds n P
  | _ => True

section Holds
variable {n : ℕ} {P : List Char → Prop}

theorem Regex.Holds.groups {r : Regex} (h : r.Holds n P) {t : List Char} {x : Result}
    (hx : x ∈ r.results t) : ∀ g, (n, g) ∈ x.groups → P g := by
  induction r generalizing t x with
  | empty =>
    rw [List.mem_singleton.1 hx]
    simp
  | char p =>
    cases t with
    | nil => cases hx
    | cons c t =>
      rw [Regex.results] at hx
      split at hx
      · rw [List.mem_singleton.1 hx]
        simp
      · cases hx
  | star p =>
    obtain ⟨s, _, rfl⟩ := List.mem_map.1 hx
    simp
  | lazyStar p =>
    obtain ⟨s, _, rfl⟩ := List.mem_map.1 hx
    simp
  | seq r s ihr ihs =>
    obtain ⟨y, hy, hx⟩ := List.mem_flatMap.1 hx
    obtain ⟨z, hz, rfl⟩ := List.mem_map.1 hx
    intro g hg
    rcases List.mem_append.1 hg with hg | hg
    · exact ihs h.2 hz g hg
    · exact ihr h.1 hy g hg
  | alt r s ihr ihs =>
    rcases List.mem_append.1 hx with hx | hx
    · exact ihr h.1 hx
    · exact ihs h.2 hx
  | group m r ih =>
    obtain ⟨y, hy, rfl⟩ := List.mem_map.1 hx
    intro g hg
    rcases List.mem_cons.1 hg with heq | hg
    · obtain ⟨rfl, rfl⟩ := Prod.mk.inj heq
      exact h.1 rfl t y hy
    · exact ih h.2 hy g hg

/-- In a match a group is empty or meets its condition. -/
theorem group_of_holds {r : Regex} (h : r.Holds n P) {t : List Char} {x : Result}
    (hx : regexMatch r t = some x) : x.group n = [] ∨ P (x.group n) := by
  rw [Result.group]
  cases hlookup : x.groups.lookup n with
  | none => exact Or.inl rfl
  | some g =>
    obtain ⟨l₁, l₂, hsplit, _⟩ := List.lookup_eq_some_iff.1 hlookup
    refine Or.inr (h.groups (List.mem_of_find?_eq_some hx) g ?_)
    rw [hsplit]
    simp

theorem mem_results_word {w : String} {t : List Char} {x : Result} (h : x ∈ (word w).results t) :
    ∃ u, t = u ++ x.rest ∧ u.map Char.toLower = w.toList.map Char.toLower := by
  unfold word at h
  generalize w.toList = cs at h ⊢
  induction cs generalizing t x with
  | nil =>
    rw [List.foldr_nil, Regex.results] at h
    rw [List.mem_singleton.1 h]
    exact ⟨[], rfl, rfl⟩
  | cons c cs ih =>
    rw [List.foldr_cons, Regex.results] at h
    obtain ⟨y, hy, hx⟩ := List.mem_flatMap.1 h
    obtain ⟨z, hz, rfl⟩ := List.mem_map.1 hx
    cases t with
    | nil => cases hy
    | cons d t =>
      rw [Regex.results] at hy
      split at hy
      · next hd =>
        rw [List.mem_singleton.1 hy] at hz
        obtain ⟨u, rfl, hu⟩ := ih hz
        exact ⟨d :: u, rfl, by rw [List.map_cons, List.map_cons, hu, of_decide_eq_true hd]⟩
      · cases hy

theorem mem_results_alts {rs : List Regex} (hne : rs ≠ []) {t : List Char} {x : Result}
    (h : x ∈ (alts rs).results t) : ∃ r ∈ rs, x ∈ r.results t := by
  induction rs with
  | nil => exact absurd rfl hne
  | cons r rs ih =>
    cases rs with
    | nil => exact ⟨r, List.mem_cons_self, h⟩
    | cons s rs =>
      rcases List.mem_append.1 h with h | h
      · exact ⟨r, List.mem_cons_self, h⟩
      · obtain ⟨r', hr', hx⟩ := ih (List.cons_ne_nil s rs) h
        exact ⟨r', List.mem_cons_of_mem r hr', hx⟩

/-- What one of several words in either case takes is one of them, in lower case. -/
theorem taken_words {ws : List String} (hne : ws ≠ []) {t : List Char} {x : Result}
    (h : x ∈ (alts (ws.map word)).results t) :
    (t.take (t.length - x.rest.length)).map Char.toLower ∈ ws.map fun w => w.toList.map Char.toLower := by
  obtain ⟨r, hr, hx⟩ := mem_results_alts (mt List.map_eq_nil_iff.1 hne) h
  obtain ⟨w, hw, rfl⟩ := List.mem_map.1 hr
  obtain ⟨u, rfl, hu⟩ := mem_results_word hx
  refine List.mem_map.2 ⟨w, hw, ?_⟩
  rw [List.length_append, Nat.add_sub_cancel, List.take_left, hu]

end Holds

/-! ### The match of a sequence -/

section Sequence
variable {r s : Regex} {t : List Char} {x y : Result}

theorem regexMatch_seq : regexMatch (.seq r s) t = (r.results t).findSome? fun x =>
    (regexMatch s x.rest).map fun y => ⟨y.groups ++ x.groups, y.rest⟩ := by
  rw [regexMatch, Regex.results, List.find?_flatMap]
  congr 1
  funext x
  rw [List.find?_map, regexMatch]
  rfl

/-- The results before the first one that can be continued do not matter. -/
theorem regexMatch_seq_of_split {pre post : List Result} (hr : r.results t = pre ++ x :: post)
    (hpre : ∀ z ∈ pre, regexMatch s z.rest = none) (hs : regexMatch s x.rest = some y) :
    regexMatch (.seq r s) t = some ⟨y.groups ++ x.groups, y.rest⟩ := by
  have hnone : pre.findSome? (fun x => (regexMatch s x.rest).map fun y =>
      (⟨y.groups ++ x.groups, y.rest⟩ : Result)) = none := by
    rw [List.findSome?_eq_none_iff]
    intro z hz
    rw [hpre z hz, Option.map_none]
  rw [regexMatch_seq, hr, List.findSome?_append, hnone, Option.none_or, List.findSome?_cons, hs]
  rfl

/-- When a result can be continued, the match continues it or one before it. -/
theorem exists_regexMatch_seq {pre post : List Result} (hr : r.results t = pre ++ x :: post)
    (hs : regexMatch s x.rest = some y) : ∃ x' ∈ pre ++ [x], ∃ y', regexMatch s x'.rest = some y' ∧
      regexMatch (.seq r s) t = some ⟨y'.groups ++ x'.groups, y'.rest⟩ := by
  rw [regexMatch_seq, hr, List.findSome?_append, List.findSome?_cons, hs]
  cases hpre : pre.findSome? fun x => (regexMatch s x.rest).map fun y =>
      (⟨y.groups ++ x.groups, y.rest⟩ : Result) with
  | none => exact ⟨x, by simp, y, hs, rfl⟩
  | some z =>
    obtain ⟨x', hx', hz⟩ := List.exists_of_findSome?_eq_some hpre
    obtain ⟨y', hy', rfl⟩ := Option.map_eq_some_iff.1 hz
    exact ⟨x', List.mem_append_left _ hx', y', hy', rfl⟩

theorem regexMatch_group_of_split {n : ℕ} {pre post : List Result} (hr : r.results t = pre ++ x :: post)
    (hpre : ∀ z ∈ pre, regexMatch s z.rest = none) (hs : regexMatch s x.rest = some y) :
    regexMatch (.seq (.group n r) s) t =
      some ⟨y.groups ++ (n, t.take (t.length - x.rest.length)) :: x.groups, y.rest⟩ := by
  have hgroup : ∃ pre' post', (Regex.group n r).results t = pre' ++
      ⟨(n, t.take (t.length - x.rest.length)) :: x.groups, x.rest⟩ :: post' ∧
        ∀ z' ∈ pre', ∃ z ∈ pre, z'.rest = z.rest := by
    rw [Regex.results, hr, List.map_append, List.map_cons]
    refine ⟨_, _, rfl, fun z' hz' => ?_⟩
    obtain ⟨z, hz, rfl⟩ := List.mem_map.1 hz'
    exact ⟨z, hz, rfl⟩
  obtain ⟨pre', post', hresults, hpre'⟩ := hgroup
  refine regexMatch_seq_of_split hresults (fun z' hz' => ?_) hs
  obtain ⟨z, hz, hrest⟩ := hpre' z' hz'
  rw [hrest, hpre z hz]

theorem regexMatch_seqs_of_first {rs : List Regex} (hx : r.first t = some x)
    (hy : regexMatch (seqs rs) x.rest = some y) :
    regexMatch (seqs (r :: rs)) t = some ⟨y.groups ++ x.groups, y.rest⟩ := by
  obtain ⟨xs, hxs⟩ := List.head?_eq_some_iff.1 hx
  rw [← List.nil_append (x :: xs)] at hxs
  exact regexMatch_seq_of_split hxs (by simp) hy

theorem rest_of_regexMatch (h : regexMatch r t = some x) : x ∈ r.results t ∧ x.rest = [] := by
  have hrest : x.rest.isEmpty = true := List.find?_some (p := fun x : Result => x.rest.isEmpty) h
  exact ⟨List.mem_of_find?_eq_some h, List.isEmpty_iff.1 hrest⟩

/-- A group that was found stays found. -/
theorem group_append {n : ℕ} {gs : List (ℕ × List Char)} {u : List Char} (h : x.group n ≠ []) :
    (Result.mk (x.groups ++ gs) u).group n = x.group n := by
  have hlookup : x.groups.lookup n ≠ none := by
    intro hnone
    rw [Result.group, hnone] at h
    exact h rfl
  obtain ⟨g, hg⟩ := Option.ne_none_iff_exists'.1 hlookup
  rw [Result.group, Result.group, List.lookup_append, hg]
  rfl

theorem exists_regexMatch (hx : x ∈ r.results t) (hrest : x.rest = []) :
    ∃ y, regexMatch r t = some y :=
  Option.isSome_iff_exists.1 (List.find?_isSome.2 ⟨x, hx, by simp [hrest]⟩)

theorem regexMatch_eq_none (h : ∀ x ∈ r.results t, x.rest ≠ []) : regexMatch r t = none := by
  rw [regexMatch, List.find?_eq_none]
  intro x hx
  simpa using h x hx

/-- A word matches itself in either case, and nothing else. -/
theorem results_word_append {w : String} {u : List Char} (h : u.map Char.toLower = w.toList.map Char.toLower)
    (t : List Char) : (word w).results (u ++ t) = [⟨[], t⟩] := by
  unfold word
  generalize w.toList = cs at h ⊢
  induction cs generalizing u with
  | nil =>
    rw [List.map_eq_nil_iff.1 h]
    rfl
  | cons c cs ih =>
    cases u with
    | nil => cases h
    | cons d u =>
      obtain ⟨hd, hu⟩ := List.cons.inj h
      rw [List.foldr_cons, List.cons_append, Regex.results, Regex.results, if_pos (decide_eq_true hd)]
      simp [ih hu]

/-- A word that starts with another letter does not match. -/
theorem results_word_of_ne {v w : String} {u : List Char} (h : u.map Char.toLower = v.toList.map Char.toLower)
    (hv : v.toList ≠ []) (hne : (v.toList.map Char.toLower).head? ≠ (w.toList.map Char.toLower).head?)
    (hw : w.toList ≠ []) (t : List Char) : (word w).results (u ++ t) = [] := by
  obtain ⟨c, cs, hcs⟩ := List.exists_cons_of_ne_nil hw
  obtain ⟨b, bs, hbs⟩ := List.exists_cons_of_ne_nil hv
  cases u with
  | nil =>
    rw [hbs] at h
    cases h
  | cons d u =>
    rw [hbs] at h
    obtain ⟨hd, -⟩ := List.cons.inj h
    refine results_word hcs (fun heq => hne ?_) (u ++ t)
    rw [hbs, hcs, List.map_cons, List.map_cons, List.head?_cons, List.head?_cons, ← hd, heq]

theorem results_alts {rs : List Regex} (hne : rs ≠ []) (t : List Char) :
    (alts rs).results t = rs.flatMap fun r => r.results t := by
  induction rs with
  | nil => exact absurd rfl hne
  | cons r rs ih =>
    cases rs with
    | nil => simp [alts]
    | cons s rs =>
      have hrest := ih (List.cons_ne_nil s rs)
      rw [alts, Regex.results, hrest, List.flatMap_cons]
      · rfl
      · exact List.cons_ne_nil s rs

/-- Of several words with different initials one matches. -/
theorem results_words {ws : List String} {w : String} {u : List Char} (hw : w ∈ ws)
    (hws : ws.Pairwise fun v w => (v.toList.map Char.toLower).head? ≠ (w.toList.map Char.toLower).head?)
    (hne : ∀ w ∈ ws, w.toList ≠ []) (h : u.map Char.toLower = w.toList.map Char.toLower) (t : List Char) :
    (alts (ws.map word)).results (u ++ t) = [⟨[], t⟩] := by
  rw [results_alts (by simpa using List.ne_nil_of_mem hw), List.flatMap_map]
  obtain ⟨ws₁, ws₂, rfl⟩ := List.append_of_mem hw
  have hother : ∀ v ∈ ws₁ ++ ws₂, (word v).results (u ++ t) = [] := by
    intro v hv
    rw [List.pairwise_append, List.pairwise_cons] at hws
    rcases List.mem_append.1 hv with hv | hv
    · exact results_word_of_ne h (hne w hw) (hws.2.2 v hv w List.mem_cons_self).symm
        (hne v (List.mem_append_left _ hv)) t
    · exact results_word_of_ne h (hne w hw) (hws.2.1.1 v hv)
        (hne v (List.mem_append_right _ (List.mem_cons_of_mem w hv))) t
  have hnil : ∀ vs : List String, (∀ v ∈ vs, (word v).results (u ++ t) = []) →
      vs.flatMap (fun v => (word v).results (u ++ t)) = [] := fun vs hvs => List.flatMap_eq_nil_iff.2 hvs
  rw [List.flatMap_append, List.flatMap_cons, results_word_append h,
    hnil ws₁ fun v hv => hother v (List.mem_append_left _ hv),
    hnil ws₂ fun v hv => hother v (List.mem_append_right _ hv)]
  rfl

/-- The word at the start is found first when the words before it have other initials. -/
theorem first_words (ws₁ ws₂ : List String) {w : String} {u : List Char}
    (hws : ∀ v ∈ ws₁, v.toList ≠ [] ∧ (w.toList.map Char.toLower).head? ≠ (v.toList.map Char.toLower).head?)
    (hw : w.toList ≠ []) (h : u.map Char.toLower = w.toList.map Char.toLower) (t : List Char) :
    (alts ((ws₁ ++ w :: ws₂).map word)).first (u ++ t) = some ⟨[], t⟩ := by
  have hnil : ws₁.flatMap (fun v => (word v).results (u ++ t)) = [] :=
    List.flatMap_eq_nil_iff.2 fun v hv => results_word_of_ne h hw (hws v hv).2 (hws v hv).1 t
  rw [Regex.first, results_alts (by simp), List.flatMap_map, List.flatMap_append, hnil, List.nil_append,
    List.flatMap_cons, results_word_append h]
  rfl

/-! ### What is taken -/

theorem greedy_suffix {p : Char → Bool} {u : List Char} (h : u ∈ greedy p t) :
    ∃ v, t = v ++ u ∧ ∀ c ∈ v, p c := by
  induction t with
  | nil => exact ⟨[], by simpa [greedy, eq_comm] using h, by simp⟩
  | cons c t ih =>
    rw [greedy] at h
    split at h
    · next hc =>
      rcases List.mem_append.1 h with h | h
      · obtain ⟨v, rfl, hv⟩ := ih h
        exact ⟨c :: v, rfl, List.forall_mem_cons.2 ⟨hc, hv⟩⟩
      · exact ⟨[], (List.mem_singleton.1 h).symm, by simp⟩
    · exact ⟨[], (List.mem_singleton.1 h).symm, by simp⟩

theorem mem_results_star {p : Char → Bool} (h : x ∈ (Regex.star p).results t) :
    ∃ v, t = v ++ x.rest ∧ x.groups = [] ∧ ∀ c ∈ v, p c := by
  obtain ⟨u, hu, rfl⟩ := List.mem_map.1 h
  obtain ⟨v, hv, hp⟩ := greedy_suffix hu
  exact ⟨v, hv, rfl, hp⟩

theorem mem_results_char {p : Char → Bool} (h : x ∈ (Regex.char p).results t) :
    ∃ c, t = c :: x.rest ∧ x.groups = [] ∧ p c := by
  cases t with
  | nil => cases h
  | cons c t =>
    rw [Regex.results] at h
    split at h
    · next hc =>
      rw [List.mem_singleton.1 h]
      exact ⟨c, rfl, rfl, hc⟩
    · cases h

theorem mem_results_seq (h : x ∈ (Regex.seq r s).results t) : ∃ y ∈ r.results t, ∃ z ∈ s.results y.rest,
    x = ⟨z.groups ++ y.groups, z.rest⟩ := by
  obtain ⟨y, hy, h⟩ := List.mem_flatMap.1 h
  obtain ⟨z, hz, rfl⟩ := List.mem_map.1 h
  exact ⟨y, hy, z, hz, rfl⟩

theorem seq_mem_results {y : Result} (hx : x ∈ r.results t) (hy : y ∈ s.results x.rest) :
    ⟨y.groups ++ x.groups, y.rest⟩ ∈ (Regex.seq r s).results t :=
  List.mem_flatMap.2 ⟨x, hx, List.mem_map.2 ⟨y, hy, rfl⟩⟩

theorem group_mem_results (n : ℕ) (hx : x ∈ r.results t) :
    ∃ y ∈ (Regex.group n r).results t, y.rest = x.rest :=
  ⟨_, List.mem_map.2 ⟨x, hx, rfl⟩, rfl⟩

theorem mem_results_plus {p : Char → Bool} (h : x ∈ (plus p).results t) :
    ∃ v, v ≠ [] ∧ t = v ++ x.rest ∧ x.groups = [] ∧ ∀ c ∈ v, p c := by
  obtain ⟨y, hy, z, hz, rfl⟩ := mem_results_seq h
  obtain ⟨c, rfl, hgroups, hc⟩ := mem_results_char hy
  obtain ⟨v, hv, hgroups', hp⟩ := mem_results_star hz
  refine ⟨c :: v, List.cons_ne_nil c v, by rw [hv]; rfl, ?_, List.forall_mem_cons.2 ⟨hc, hp⟩⟩
  rw [hgroups, hgroups', List.append_nil]

/-- What is left is the end of the text. -/
theorem Regex.rest_suffix (h : x ∈ r.results t) : ∃ v, t = v ++ x.rest := by
  induction r generalizing t x with
  | empty =>
    rw [List.mem_singleton.1 h]
    exact ⟨[], rfl⟩
  | char p =>
    obtain ⟨c, hc, -⟩ := mem_results_char h
    exact ⟨[c], hc⟩
  | star p =>
    obtain ⟨v, hv, -⟩ := mem_results_star h
    exact ⟨v, hv⟩
  | lazyStar p =>
    obtain ⟨u, hu, rfl⟩ := List.mem_map.1 h
    obtain ⟨v, hv, -⟩ := greedy_suffix (List.mem_reverse.1 hu)
    exact ⟨v, hv⟩
  | seq r s ihr ihs =>
    obtain ⟨y, hy, z, hz, rfl⟩ := mem_results_seq h
    obtain ⟨v, hv⟩ := ihr hy
    obtain ⟨w, hw⟩ := ihs hz
    exact ⟨v ++ w, by rw [hv, hw, List.append_assoc]⟩
  | alt r s ihr ihs =>
    rcases List.mem_append.1 h with h | h
    · exact ihr h
    · exact ihs h
  | group n r ih =>
    obtain ⟨y, hy, rfl⟩ := List.mem_map.1 h
    exact ih (x := y) hy

/-- A group holds what its expression takes. -/
theorem mem_results_group {n : ℕ} (h : x ∈ (Regex.group n r).results t) : ∃ v, ∃ y ∈ r.results t,
    t = v ++ x.rest ∧ y.rest = x.rest ∧ x.groups = (n, v) :: y.groups := by
  obtain ⟨y, hy, rfl⟩ := List.mem_map.1 h
  obtain ⟨v, hv⟩ := Regex.rest_suffix hy
  refine ⟨v, y, hy, hv, rfl, ?_⟩
  rw [hv, List.length_append, Nat.add_sub_cancel, List.take_left]

/-- Classes take a character each. -/
theorem mem_results_classes {ps : List (Char → Bool)} : x ∈ (classes ps).results t ↔
    ∃ v, t = v ++ x.rest ∧ x.groups = [] ∧ List.Forall₂ (fun p c => p c = true) ps v := by
  induction ps generalizing t x with
  | nil =>
    constructor
    · intro h
      rw [List.mem_singleton.1 h]
      exact ⟨[], rfl, rfl, List.Forall₂.nil⟩
    · rintro ⟨v, rfl, hgroups, hv⟩
      rw [List.forall₂_nil_left_iff.1 hv]
      exact List.mem_singleton.2 (by cases x; simp_all)
  | cons p ps ih =>
    constructor
    · intro h
      obtain ⟨y, hy, z, hz, rfl⟩ := mem_results_seq h
      obtain ⟨c, rfl, hgroups, hc⟩ := mem_results_char hy
      obtain ⟨v, hv, hgroups', hps⟩ := ih.1 hz
      exact ⟨c :: v, by rw [hv]; rfl, by rw [hgroups, hgroups', List.append_nil], List.Forall₂.cons hc hps⟩
    · rintro ⟨v, rfl, hgroups, hv⟩
      obtain ⟨c, v, hc, hps, rfl⟩ := List.forall₂_cons_left_iff.1 hv
      refine List.mem_flatMap.2 ⟨⟨[], v ++ x.rest⟩, by simp [Regex.results, hc], ?_⟩
      exact List.mem_map.2 ⟨x, ih.2 ⟨v, rfl, hgroups, hps⟩, by cases x; simp_all⟩

/-- A repetition of any character may leave any end of the text. -/
theorem append_mem_greedy (u v : List Char) : v ∈ greedy (fun _ => true) (u ++ v) := by
  induction u with
  | nil => cases v <;> simp [greedy]
  | cons c u ih =>
    rw [List.cons_append, greedy, if_pos rfl]
    exact List.mem_append_left _ ih

end Sequence

/-- An expression without groups. -/
def Regex.Flat : Regex → Prop
  | .seq r s => r.Flat ∧ s.Flat
  | .alt r s => r.Flat ∧ s.Flat
  | .group _ _ => False
  | _ => True

theorem Regex.Flat.groups {r : Regex} (hr : r.Flat) {t : List Char} {x : Result} (h : x ∈ r.results t) :
    x.groups = [] := by
  induction r generalizing t x with
  | empty => rw [List.mem_singleton.1 h]
  | char p =>
    obtain ⟨_, _, hgroups, _⟩ := mem_results_char h
    exact hgroups
  | star p =>
    obtain ⟨_, _, hgroups, _⟩ := mem_results_star h
    exact hgroups
  | lazyStar p =>
    obtain ⟨u, _, rfl⟩ := List.mem_map.1 h
    rfl
  | seq r s ihr ihs =>
    obtain ⟨y, hy, z, hz, rfl⟩ := mem_results_seq h
    rw [ihr hr.1 hy, ihs hr.2 hz, List.append_nil]
  | alt r s ihr ihs =>
    rcases List.mem_append.1 h with h | h
    · exact ihr hr.1 h
    · exact ihs hr.2 h
  | group n r => exact absurd hr id

theorem flat_word (w : String) : (word w).Flat := by
  unfold word
  induction w.toList with
  | nil => trivial
  | cons c cs ih => exact ⟨trivial, ih⟩

theorem flat_alts {rs : List Regex} (h : ∀ r ∈ rs, r.Flat) : (alts rs).Flat := by
  induction rs with
  | nil => trivial
  | cons r rs ih =>
    cases rs with
    | nil => exact h r List.mem_cons_self
    | cons s rs => exact ⟨h r List.mem_cons_self, ih fun q hq => h q (List.mem_cons_of_mem r hq)⟩

theorem flat_words (ws : List String) : (alts (ws.map word)).Flat := by
  refine flat_alts fun r hr => ?_
  obtain ⟨w, -, rfl⟩ := List.mem_map.1 hr
  exact flat_word w

/-! ### Texts that differ in case only -/

section Case
variable {f : Char → Char}

def Result.map (f : Char → Char) (x : Result) : Result :=
  ⟨x.groups.map fun g => (g.1, g.2.map f), x.rest.map f⟩

/-- The classes of an expression do not tell a character from its image. -/
def Regex.Blind (f : Char → Char) : Regex → Prop
  | .empty => True
  | .char p => ∀ c, p (f c) = p c
  | .star p => ∀ c, p (f c) = p c
  | .lazyStar p => ∀ c, p (f c) = p c
  | .seq r s => r.Blind f ∧ s.Blind f
  | .alt r s => r.Blind f ∧ s.Blind f
  | .group _ r => r.Blind f

theorem greedy_map {p : Char → Bool} (h : ∀ c, p (f c) = p c) (t : List Char) :
    greedy p (t.map f) = (greedy p t).map (List.map f) := by
  induction t with
  | nil => rfl
  | cons c t ih =>
    rw [List.map_cons, greedy, greedy, h]
    split
    · rw [ih, List.map_append]
      rfl
    · rfl

/-- The results on the image of a text are the images of its results. -/
theorem Regex.Blind.results {r : Regex} (h : r.Blind f) (t : List Char) :
    r.results (t.map f) = (r.results t).map (Result.map f) := by
  induction r generalizing t with
  | empty => rfl
  | char p =>
    cases t with
    | nil => rfl
    | cons c t =>
      rw [List.map_cons, Regex.results, Regex.results, h c]
      split <;> rfl
  | star p =>
    rw [Regex.results, Regex.results, greedy_map h, List.map_map, List.map_map]
    rfl
  | lazyStar p =>
    rw [Regex.results, Regex.results, greedy_map h, ← List.map_reverse, List.map_map, List.map_map]
    rfl
  | seq r s ihr ihs =>
    rw [Regex.results, Regex.results, ihr h.1, List.flatMap_map, List.map_flatMap]
    refine List.flatMap_congr fun x _ => ?_
    have hrest : (Result.map f x).rest = x.rest.map f := rfl
    rw [hrest, ihs h.2, List.map_map, List.map_map]
    refine List.map_congr_left fun y _ => ?_
    simp [Result.map]
  | alt r s ihr ihs => rw [Regex.results, Regex.results, ihr h.1, ihs h.2, List.map_append]
  | group n r ih =>
    rw [Regex.results, Regex.results, ih h, List.map_map, List.map_map]
    refine List.map_congr_left fun x _ => ?_
    simp [Result.map, List.map_take]

theorem regexMatch_map {r : Regex} (h : r.Blind f) (t : List Char) :
    regexMatch r (t.map f) = (regexMatch r t).map (Result.map f) := by
  have hempty : (fun x : Result => x.rest.isEmpty) ∘ Result.map f = fun x => x.rest.isEmpty := by
    funext x
    simp [Result.map]
  rw [regexMatch, regexMatch, h.results, List.find?_map, hempty]

theorem Result.group_map (x : Result) (n : ℕ) : (x.map f).group n = (x.group n).map f := by
  have hlookup : ∀ gs : List (ℕ × List Char),
      (gs.map fun g => (g.1, g.2.map f)).lookup n = (gs.lookup n).map (List.map f) := by
    intro gs
    induction gs with
    | nil => rfl
    | cons g gs ih =>
      rw [List.map_cons, List.lookup_cons, List.lookup_cons, ih]
      cases n == g.1 <;> rfl
  rw [Result.group, Result.map, hlookup, Result.group]
  cases x.groups.lookup n <;> rfl

end Case

end Perl
