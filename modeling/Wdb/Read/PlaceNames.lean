import Wdb.Read.Location

/-! Which names of places a location is read with.

    A keyword is taken from the start of a text wherever its letters stand there, also when they are the
    first letters of a longer word, and a number in brackets is taken from a name that follows `surround`. -/

namespace Wdb.Read
open Spirit

namespace Location

/-! ### The keywords -/

def keywords : List (String × InterpolationType) :=
  [("exact", .exact), ("nearest", .nearest), ("surround", .surround), ("bilinear", .bilinear)]

/-- A keyword in any case, or `surround(n)`, with what it means. -/
def IsKeyword (k : List Char) (type : InterpolationType) (n : ℤ) : Prop :=
  (∃ w, (w, type) ∈ keywords ∧ k.map Char.toLower = w.toList ∧ n = 1) ∨
    type = .surround ∧ (-2 ^ 31 ≤ n ∧ n < 2 ^ 31) ∧
      ∃ v, v.map Char.toLower = "surround".toList ∧ k = v ++ '(' :: ((toString n).toList ++ [')'])

/-- A character that goes on with a word; letters beyond ASCII do. -/
def inWord (c : Char) : Bool := c.isAlphanum || c = '_' || 128 ≤ c.toNat

/-- The letters of a keyword are at the start of a text, before the rest. -/
def Begins (t rest : List Char) : Prop :=
  ∃ v, t = v ++ rest ∧ ∃ w ∈ keywords.map Prod.fst, v.map Char.toLower = w.toList

/-- The keyword is a word of its own. -/
def WholeWord (rest : List Char) : Prop := ∀ c ∈ rest.head?, inWord c = false

/-- A name without white space around it. -/
structure Name (p : List Char) : Prop where
  ne_nil : p ≠ []
  head : ∀ c ∈ p.head?, space c = false
  ends : Ends p

/-! ### The place -/

section Place
variable {p s : List Char} {loc : Location}

/-- The words of geometries. -/
def geometryWords : Rec := alts [str "POINT", str "POLYGON", str "MULTIPOINT", str "MULTIPOLYGON"]

theorem geometryLike_eq : geometryLike = (star (char fun c => c.isLower || c = '(' || c = ')') >=>
    geometryWords) >=> star (char fun _ => true) := rfl

theorem geometryLike_blank (s : List Char) : geometryLike (' ' :: s) = geometryLike s := by
  have hwords : ∀ s, geometryWords (' ' :: s) = geometryWords s := by
    intro s
    simp only [geometryWords, alts, List.findSome?_cons, List.findSome?_nil, str_blank]
  have hseq := star_seq_blank (progresses_char fun c => c.isLower || c = '(' || c = ')')
    (fun s => char_blank _ s) hwords s
  rw [geometryLike_eq]
  exact congrArg (Option.bind · _) hseq

/-- A text that starts with the word of a geometry looks like one. -/
theorem geometryLike_of_str {w : String} (hw : w ∈ ["POINT", "POLYGON", "MULTIPOINT", "MULTIPOLYGON"])
    (h : str w s ≠ none) : geometryLike s ≠ none := by
  obtain ⟨rest, hrest⟩ := Option.ne_none_iff_exists'.1 h
  have hupper : char (fun c => c.isLower || c = '(' || c = ')') s = none := by
    obtain ⟨v, hv, hmap⟩ := afterWord_eq_some_iff.1 hrest
    rw [List.map_id] at hmap
    have hfirst : ∀ w ∈ ["POINT", "POLYGON", "MULTIPOINT", "MULTIPOLYGON"], ∃ c cs, w.toList = c :: cs ∧
        (c.isLower || c = '(' || c = ')') = false := by
      simp
    obtain ⟨c, cs, hcs, hc⟩ := hfirst w hw
    rw [hmap, hcs, List.cons_append] at hv
    rw [char_of_skip hv, if_neg (by simpa using hc)]
  have hwords : geometryWords s ≠ none := by
    intro hnone
    rw [geometryWords, alts, List.findSome?_eq_none_iff] at hnone
    refine h (hnone (str w) ?_)
    simp only [List.mem_cons, List.not_mem_nil, or_false] at hw ⊢
    rcases hw with rfl | rfl | rfl | rfl <;> simp
  obtain ⟨rest', hrest'⟩ := Option.ne_none_iff_exists'.1 hwords
  rw [geometryLike_eq]
  change (((star _ s).bind geometryWords).bind _) ≠ none
  rw [star_of_none hupper, Option.bind_some, hrest', Option.bind_some]
  exact nofun

/-- A text of which a geometry is read looks like one. -/
theorem geometryType_eq_none (h : geometryLike s = none) : geometryType s = none := by
  have hword : ∀ w ∈ ["POINT", "POLYGON", "MULTIPOINT", "MULTIPOLYGON"], str w s = none := by
    intro w hw
    by_contra hne
    exact geometryLike_of_str hw hne h
  have hseq : ∀ (w : String) (r : Rec), str w s = none → (str w >=> r) s = none := by
    intro w r hw
    change (str w s).bind r = none
    rw [hw, Option.bind_none]
  have hpoint : pointRule s = none := hseq "POINT" _ (hword _ (by simp))
  have hpolygon : polygonRule s = none := hseq "POLYGON" _ (hword _ (by simp))
  have hmulti : multipolygonRule s = none := hseq "MULTIPOLYGON" _ (hword _ (by simp))
  rw [geometryType, hpoint, hpolygon, hmulti]
  rfl

theorem Name.skip (h : Name p) : Spirit.skip p = p := skip_of_head h.head

/-- What looks like a geometry does so to its end. -/
theorem geometryLike_end {rest : List Char} (hends : Ends s) (h : geometryLike s = some rest) : rest = [] := by
  have htakes : Takes (fun _ => True) (star (char fun c => c.isLower || c = '(' || c = ')') >=> geometryWords) := by
    refine Takes.seq (Takes.star (takes_char (fun _ _ => trivial) fun _ _ => trivial)) (takes_alts fun r hr => ?_)
    simp only [List.mem_cons, List.not_mem_nil, or_false] at hr
    rcases hr with rfl | rfl | rfl | rfl <;> exact takes_str (fun _ _ => trivial) fun _ _ => trivial
  rw [geometryLike_eq] at h
  obtain ⟨mid, hmid, hrest⟩ := Option.bind_eq_some_iff.1 h
  obtain ⟨t, rfl, -⟩ := htakes _ _ hmid
  rw [star_any hends.of_append] at hrest
  exact (Option.some.inj hrest).symm

/-- A name is taken as a whole, unless it looks like a geometry. -/
theorem nameRule_name (hp : Name p) (hs : s = p ∨ s = ' ' :: p) : nameRule loc s =
    if geometryLike p = none then some ({ loc with placeName := String.ofList p }, []) else none := by
  have hskip : Spirit.skip s = p := by
    rcases hs with rfl | rfl
    · exact hp.skip
    · rw [skip_blank, hp.skip]
  have hlike : geometryLike s = geometryLike p := by
    rcases hs with rfl | rfl
    · rfl
    · exact geometryLike_blank p
  obtain ⟨c, t, hct⟩ := List.exists_cons_of_ne_nil hp.ne_nil
  have hall : anyChars s = some [] := by
    have hends : Ends t := Ends.of_append (a := [c]) (by
      rw [List.singleton_append, ← hct]
      exact hp.ends)
    change (char _ s).bind (star _) = some []
    rw [char_of_skip (hskip.trans hct), if_pos rfl, Option.bind_some, star_any hends]
  have hmatched : matched s [] = p := by
    rw [matched, hskip, List.length_nil, Nat.sub_zero, List.take_length]
  rw [nameRule, diff, hall, Option.bind_some, hlike]
  cases hgeometry : geometryLike p with
  | none => simp [hmatched]
  | some rest =>
    simp [geometryLike_end hp.ends hgeometry]

/-- The place of a name: the name, unless it looks like a geometry. -/
theorem place_name (hp : Name p) (hs : s = p ∨ s = ' ' :: p) (h : geometryLike p = none) :
    (geometryRule loc s).or (nameRule loc s) = some ({ loc with placeName := String.ofList p }, []) := by
  have hlike : geometryLike s = none := by
    rcases hs with rfl | rfl
    · exact h
    · rwa [geometryLike_blank]
  rw [geometryRule, geometryType_eq_none hlike, Option.map_none, Option.none_or, nameRule_name hp hs, if_pos h]

/-- A name is there only when the rule for names has taken it. -/
theorem placeName_of_rule {loc' : Location} (h : rule s = some loc') : loc'.placeName = "" ∨
    ∃ rest, diff anyChars geometryLike (interpolationRule {} s).2 = some rest ∧
      loc'.placeName = String.ofList (matched (interpolationRule {} s).2 rest) := by
  obtain ⟨⟨place, rest⟩, hplace, hloc⟩ := Option.bind_eq_some_iff.1 h
  split at hloc
  · obtain rfl := Option.some.inj hloc
    rcases Option.or_eq_some_iff.1 hplace with hgeometry | ⟨_, hname⟩
    · obtain ⟨x, _, hx⟩ := Option.map_eq_some_iff.1 hgeometry
      rw [Prod.mk.injEq] at hx
      rw [← hx.1]
      exact Or.inl (interpolationRule_place {} s).2
    · obtain ⟨rest', hrest, hx⟩ := Option.map_eq_some_iff.1 hname
      rw [Prod.mk.injEq] at hx
      rw [← hx.1]
      exact Or.inr ⟨rest', hrest, rfl⟩
  · cases hloc

/-- What a name is taken from is as long at least. -/
theorem length_placeName_le {loc' : Location} (h : rule s = some loc') :
    loc'.placeName.toList.length ≤ (interpolationRule {} s).2.length := by
  rcases placeName_of_rule h with hnone | ⟨rest, -, hname⟩
  · rw [hnone]
    exact Nat.zero_le _
  · rw [hname, String.toList_ofList, matched, List.length_take]
    exact (Nat.min_le_right _ _).trans (List.dropWhile_suffix _).length_le

end Place

/-! ### The interpolation -/

section Interpolation
variable {k p t rest : List Char} {w : String}

/-- A keyword is taken where its letters are at the start. -/
theorem strLower_eq_some_iff (hhead : ∀ c ∈ t.head?, space c = false) :
    strLower w t = some rest ↔ ∃ v, t = v ++ rest ∧ v.map Char.toLower = w.toList := by
  rw [strLower, skip_of_head hhead, afterWord_eq_some_iff]

/-- No other keyword stands where one does. -/
theorem strLower_other {v : String} (hw : w ∈ keywords.map Prod.fst) (hv : v ∈ keywords.map Prod.fst)
    (hne : v ≠ w) (h : strLower w t = some rest) : strLower v t = none := by
  have hinitials : ∀ w ∈ keywords.map Prod.fst, ∀ v ∈ keywords.map Prod.fst, v ≠ w →
      ∃ c d, w.toList.head? = some c ∧ v.toList.head? = some d ∧ c ≠ d := by
    simp [keywords]
  obtain ⟨c, d, hc, hd, hcd⟩ := hinitials w hw v hv hne
  exact strLower_unique hc hd hcd h

/-- A keyword without a number. -/
theorem interpolationRule_keyword {type : InterpolationType} (hw : (w, type) ∈ keywords) (hne : w ≠ "surround")
    (h : strLower w t = some rest) : interpolationRule {} t = ({ interpolationType := type }, rest) := by
  have hmem := List.mem_map_of_mem (f := Prod.fst) hw
  have hother := fun v hv hne => strLower_other (v := v) hmem hv hne h
  simp only [keywords, List.mem_cons, Prod.mk.injEq, List.not_mem_nil, or_false] at hw
  unfold interpolationRule
  rcases hw with ⟨rfl, rfl⟩ | ⟨rfl, rfl⟩ | ⟨rfl, rfl⟩ | ⟨rfl, rfl⟩
  · simp only [h]
  · simp only [h, hother "exact" (by decide) (by decide)]
  · exact absurd rfl hne
  · simp only [h, hother "exact" (by decide) (by decide), hother "nearest" (by decide) (by decide),
      hother "surround" (by decide) (by decide)]

theorem interpolationRule_surround (h : strLower "surround" t = some rest) : interpolationRule {} t =
    ({ (surroundParameter {} rest).1 with interpolationType := .surround }, (surroundParameter {} rest).2) := by
  have hmem : "surround" ∈ keywords.map Prod.fst := by decide
  have hother := fun v hv hne => strLower_other (v := v) hmem hv hne h
  unfold interpolationRule
  simp only [h, hother "exact" (by decide) (by decide), hother "nearest" (by decide) (by decide)]

theorem interpolationRule_none (h : ∀ w ∈ keywords.map Prod.fst, strLower w t = none) :
    interpolationRule {} t = ({}, t) := by
  unfold interpolationRule
  simp only [h "exact" (by decide), h "nearest" (by decide), h "surround" (by decide), h "bilinear" (by decide)]

theorem space_of_isAlpha {c : Char} (h : c.isAlpha) : space c = false := by
  refine not_space_of_le ?_
  have hupper : 'A'.val.toNat = 65 := rfl
  have hlower : 'a'.val.toNat = 97 := rfl
  have hc : c.toNat = c.val.toNat := rfl
  simp only [Char.isAlpha, Char.isUpper, Char.isLower, Bool.or_eq_true, Bool.and_eq_true, decide_eq_true_eq,
    ge_iff_le, UInt32.le_iff_toNat_le] at h
  omega

/-- A keyword starts with a letter. -/
theorem head_keyword (hw : w ∈ keywords.map Prod.fst) (hk : k.map Char.toLower = w.toList) (t : List Char) :
    ∀ c ∈ (k ++ t).head?, space c = false := by
  have hletters : ∀ w ∈ keywords.map Prod.fst, ∃ c cs, w.toList = c :: cs ∧ c.isAlpha := by
    simp [keywords]
  obtain ⟨c, cs, hcs, hc⟩ := hletters w hw
  cases k with
  | nil =>
    rw [hcs] at hk
    cases hk
  | cons d k =>
    rw [hcs] at hk
    obtain ⟨hd, -⟩ := List.cons.inj hk
    rintro e he
    obtain rfl := Option.some.inj he
    refine space_of_isAlpha ?_
    rw [← Char.isAlpha_toLower_eq_isAlpha, hd, hc]

theorem strLower_keyword (hw : w ∈ keywords.map Prod.fst) (hk : k.map Char.toLower = w.toList) (t : List Char) :
    strLower w (k ++ t) = some t :=
  (strLower_eq_some_iff (head_keyword hw hk t)).2 ⟨k, rfl, hk⟩

end Interpolation

/-! ### The text -/

/-- What a text is read as. -/
def Parses (text : String) (type : InterpolationType) (n : ℤ) (placeName : String) : Prop :=
  ∃ loc, parseWithSpirit_ text = .ok loc ∧ loc.interpolationType = type ∧ loc.interpolationParameter = n ∧
    loc.placeName = placeName

section Text
variable {p text : String} {type : InterpolationType} {n : ℤ}

/-- What a text is read as when a name is left of it. -/
theorem parses_of_interpolation {loc : Location} {s : List Char} (hp : Name p.toList)
    (h : interpolationRule {} text.toList = (loc, s)) (hs : s = p.toList ∨ s = ' ' :: p.toList)
    (hgeometry : geometryLike p.toList = none) :
    Parses text loc.interpolationType loc.interpolationParameter p.toLower := by
  have hrule : rule text.toList = some { loc with
      interpolation := String.ofList (matched text.toList s), placeName := p } := by
    rw [rule, h]
    simp only [place_name hp hs hgeometry, Option.bind_some, String.ofList_toList]
    rfl
  refine ⟨{ loc with
    interpolation := (String.ofList (matched text.toList s)).toLower
    placeName := p.toLower }, ?_, rfl, rfl, rfl⟩
  rw [parseWithSpirit_, hrule]

theorem of_parses {placeName : String} (h : Parses text type n placeName) : ∃ loc, rule text.toList = some loc ∧
    type = (interpolationRule {} text.toList).1.interpolationType ∧
    n = (interpolationRule {} text.toList).1.interpolationParameter ∧ loc.placeName.toLower = placeName := by
  obtain ⟨loc, hloc, rfl, rfl, rfl⟩ := h
  obtain ⟨loc', hrule, rfl⟩ := parseWithSpirit_rule hloc
  obtain ⟨htype, hn⟩ := rule_interpolation hrule
  exact ⟨loc', hrule, htype, hn, rfl⟩

/-- A name is not longer than what is left after the interpolation. -/
theorem length_le_of_parses (h : Parses text type n p.toLower) :
    p.toList.length ≤ (interpolationRule {} text.toList).2.length := by
  obtain ⟨loc, hrule, -, -, hname⟩ := of_parses h
  have hlength := length_placeName_le hrule
  have hlower : loc.placeName.toList.length = p.toList.length := by
    have hlist := congrArg (fun s : String => s.toList.length) hname
    simpa [String.toLower] using hlist
  omega

end Text

/-- For every keyword a text is read as the keyword and a name; alone the name is read as itself, unless it
    starts with a keyword that is a word of its own. -/
structure ReadAsName (p : String) : Prop where
  keyword : ∀ k type n, IsKeyword k.toList type n → Parses (k ++ " " ++ p) type n p.toLower
  plain : (¬ ∃ rest, Begins p.toList rest ∧ WholeWord rest) → Parses p .exact 1 p.toLower

/-- A name that is told from what else could be there. -/
structure Plain (p : List Char) : Prop where
  geometry : geometryLike p = none
  number : ∀ n t, (ch '(' p).bind Spirit.int = some (n, t) → n = 1 ∧ ch ')' t = none
  word : ∀ rest, Begins p rest → WholeWord rest

section Theorem
variable {p k : String} {type : InterpolationType} {n : ℤ}

theorem toList_keyword (k p : String) : (k ++ " " ++ p).toList = k.toList ++ ' ' :: p.toList := by simp

/-- A keyword and a name. -/
theorem Plain.keyword {w : String} (h : Plain p.toList) (hp : Name p.toList) (hw : (w, type) ∈ keywords)
    (hk : k.toList.map Char.toLower = w.toList) : Parses (k ++ " " ++ p) type 1 p.toLower := by
  have hmem := List.mem_map_of_mem (f := Prod.fst) hw
  have htaken := strLower_keyword hmem hk (' ' :: p.toList)
  rw [← toList_keyword] at htaken
  by_cases hne : w = "surround"
  · subst hne
    have htype : type = .surround := by
      simp [keywords] at hw
      exact hw
    have hparameter : surroundParameter {} (' ' :: p.toList) = ({}, ' ' :: p.toList) := by
      rw [surroundParameter, ch, char_blank]
      cases hnumber : (ch '(' p.toList).bind Spirit.int with
      | none =>
        rw [ch] at hnumber
        rw [hnumber]
      | some x =>
        obtain ⟨m, t⟩ := x
        obtain ⟨rfl, hclose⟩ := h.number m t hnumber
        rw [ch] at hnumber hclose
        simp only [hnumber, ch, hclose, Option.elim_none]
    have hrule := interpolationRule_surround htaken
    rw [hparameter] at hrule
    rw [htype]
    exact parses_of_interpolation hp hrule (Or.inr rfl) h.geometry
  · exact parses_of_interpolation hp (interpolationRule_keyword hw hne htaken) (Or.inr rfl) h.geometry

/-- `surround(n)` and a name. -/
theorem Plain.surround {v : List Char} (h : Plain p.toList) (hp : Name p.toList) (hn : -2 ^ 31 ≤ n ∧ n < 2 ^ 31)
    (hv : v.map Char.toLower = "surround".toList) (hk : k.toList = v ++ '(' :: ((toString n).toList ++ [')'])) :
    Parses (k ++ " " ++ p) .surround n p.toLower := by
  have htext : (k ++ " " ++ p).toList = v ++ '(' :: ((toString n).toList ++ ')' :: ' ' :: p.toList) := by
    rw [toList_keyword, hk]
    simp
  have htaken := strLower_keyword (by decide) hv ('(' :: ((toString n).toList ++ ')' :: ' ' :: p.toList))
  rw [← htext] at htaken
  have hopen : ∀ t, ch '(' ('(' :: t) = some t := fun t => rfl
  have hclose : ∀ t, ch ')' (')' :: t) = some t := fun t => rfl
  have hnumber := int_toString hn.1 hn.2 (t := ')' :: ' ' :: p.toList) (by
    rintro c hc
    obtain rfl := Option.some.inj hc
    decide)
  have hrule := interpolationRule_surround htaken
  rw [surroundParameter, hopen, Option.bind_some, hnumber] at hrule
  simp only [hclose, Option.elim_some] at hrule
  exact parses_of_interpolation hp hrule (Or.inr rfl) h.geometry

/-- What looks like a geometry is not read as a name. -/
theorem ReadAsName.geometry (h : ReadAsName p) (hp : Name p.toList) : geometryLike p.toList = none := by
  obtain ⟨loc, hrule, -, -, hname⟩ := of_parses (h.keyword "exact" .exact 1 (Or.inl ⟨"exact", by decide, rfl, rfl⟩))
  have htaken := strLower_keyword (w := "exact") (k := "exact".toList) (by decide) rfl (' ' :: p.toList)
  rw [← toList_keyword] at htaken
  have hexact : ("exact", InterpolationType.exact) ∈ keywords := by decide
  have hinterpolation := interpolationRule_keyword hexact (by decide) htaken
  rcases placeName_of_rule hrule with hnone | ⟨rest, hrest, -⟩
  · rw [hnone] at hname
    have hlength := congrArg (fun s : String => s.toList.length) hname
    have hempty : p.toList.length = 0 := by simpa [String.toLower] using hlength.symm
    exact absurd (List.length_eq_zero_iff.1 hempty) hp.ne_nil
  · rw [hinterpolation] at hrest
    by_contra hlike
    have hrule : nameRule {} (' ' :: p.toList) = _ := nameRule_name hp (Or.inr rfl)
    rw [if_neg hlike, nameRule, hrest] at hrule
    cases hrule

theorem length_surroundParameter (loc : Location) (s : List Char) :
    (surroundParameter loc s).2.length ≤ s.length := by
  unfold surroundParameter
  cases hnumber : (ch '(' s).bind Spirit.int with
  | none => exact le_rfl
  | some x =>
    obtain ⟨n, t⟩ := x
    cases hclose : ch ')' t with
    | none => simp [hclose]
    | some rest =>
      obtain ⟨a, ha, hint⟩ := Option.bind_eq_some_iff.1 hnumber
      have hopen := progresses_char _ _ _ ha
      have hnumber' := length_of_int hint
      have hrest := progresses_char _ _ _ hclose
      simp only [hclose, Option.elim_some]
      omega

/-- A number in brackets is not read as a name. -/
theorem ReadAsName.number {t : List Char} (h : ReadAsName p) (hnumber : (ch '(' p.toList).bind Spirit.int = some (n, t)) :
    n = 1 ∧ ch ')' t = none := by
  have hparses := h.keyword "surround" .surround 1 (Or.inl ⟨"surround", by decide, rfl, rfl⟩)
  obtain ⟨loc, hrule, -, hone, -⟩ := of_parses hparses
  have hlength := length_le_of_parses hparses
  have htaken := strLower_keyword (w := "surround") (k := "surround".toList) (by decide) rfl (' ' :: p.toList)
  rw [← toList_keyword] at htaken
  rw [interpolationRule_surround htaken] at hone hlength
  have hblank : ch '(' (' ' :: p.toList) = ch '(' p.toList := char_blank _ _
  rw [surroundParameter, hblank, hnumber] at hone hlength
  cases hclose : ch ')' t with
  | none =>
    simp only [hclose, Option.elim_none] at hone
    exact ⟨hone.symm, rfl⟩
  | some rest =>
    simp only [hclose, Option.elim_some] at hlength
    obtain ⟨a, ha, hint⟩ := Option.bind_eq_some_iff.1 hnumber
    have hopen := progresses_char _ _ _ ha
    have hnumber' := length_of_int hint
    have hrest := progresses_char _ _ _ hclose
    omega

/-- The start of a word that is no keyword is not read as a name. -/
theorem ReadAsName.word {rest : List Char} (h : ReadAsName p) (hp : Name p.toList) (hbegins : Begins p.toList rest) :
    WholeWord rest := by
  by_contra hword
  obtain ⟨v, hv, w, hw, hmap⟩ := hbegins
  have htaken := (strLower_eq_some_iff hp.head).2 ⟨v, hv, hmap⟩
  have hplain : ¬ ∃ rest, Begins p.toList rest ∧ WholeWord rest := by
    rintro ⟨rest', ⟨v', hv', w', hw', hmap'⟩, hword'⟩
    have htaken' := (strLower_eq_some_iff hp.head).2 ⟨v', hv', hmap'⟩
    by_cases hne : w' = w
    · rw [hne, htaken] at htaken'
      exact hword (Option.some.inj htaken' ▸ hword')
    · rw [strLower_other hw hw' hne htaken] at htaken'
      cases htaken'
  have hlength := length_le_of_parses (h.plain hplain)
  have hshort : rest.length < p.toList.length := by
    have hpos : 0 < v.length := by
      refine List.length_pos_of_ne_nil fun hnil => ?_
      rw [hnil] at hmap
      have hletters : ∀ w ∈ keywords.map Prod.fst, w.toList ≠ [] := by decide
      exact hletters w hw hmap.symm
    rw [hv, List.length_append]
    omega
  by_cases hsurround : w = "surround"
  · subst hsurround
    rw [interpolationRule_surround htaken] at hlength
    have hle := length_surroundParameter {} rest
    simp only at hlength
    omega
  · obtain ⟨⟨w, type⟩, htype, rfl⟩ := List.mem_map.1 hw
    rw [interpolationRule_keyword htype hsurround htaken] at hlength
    simp only at hlength
    omega

/-- A text is read as a keyword and a name for every keyword, and as a name alone, exactly when the name is
    told from what else could be there. -/
theorem readAsName_iff (hp : Name p.toList) : ReadAsName p ↔ Plain p.toList := by
  constructor
  · exact fun h => ⟨h.geometry hp, fun n t => h.number, fun rest => h.word hp⟩
  · intro h
    refine ⟨fun k type n hk => ?_, fun hno => ?_⟩
    · rcases hk with ⟨w, hw, hk, rfl⟩ | ⟨rfl, hn, v, hv, hk⟩
      · exact h.keyword hp hw hk
      · exact h.surround hp hn hv hk
    · have hnone : ∀ w ∈ keywords.map Prod.fst, strLower w p.toList = none := by
        intro w hw
        by_contra hne
        obtain ⟨rest, hrest⟩ := Option.ne_none_iff_exists'.1 hne
        obtain ⟨v, hv, hmap⟩ := (strLower_eq_some_iff hp.head).1 hrest
        have hbegins : Begins p.toList rest := ⟨v, hv, w, hw, hmap⟩
        exact hno ⟨rest, hbegins, h.word rest hbegins⟩
      exact parses_of_interpolation hp (interpolationRule_none hnone) (Or.inl rfl) h.geometry

end Theorem

theorem readAsName_iff_oslo : ReadAsName "Oslo" := by
  have hname : Name "Oslo".toList := ⟨by decide, by simp [space], by simp [Ends, space]⟩
  refine (readAsName_iff hname).2 ⟨by decide +kernel, fun n t h => ?_, fun rest h => ?_⟩
  · have hnone : (ch '(' "Oslo".toList).bind Spirit.int = none := by decide +kernel
    rw [hnone] at h
    cases h
  · obtain ⟨v, hv, w, hw, hmap⟩ := h
    have htaken := (strLower_eq_some_iff hname.head).2 ⟨v, hv, hmap⟩
    have hnone : ∀ w ∈ keywords.map Prod.fst, strLower w "Oslo".toList = none := by decide +kernel
    rw [hnone w hw] at htaken
    cases htaken

/-- The first letters of `exactly` are taken for the keyword. -/
theorem not_readAsName_exactly : Name "exactly".toList ∧ geometryLike "exactly".toList = none ∧
    ¬ ReadAsName "exactly" := by
  have hname : Name "exactly".toList := ⟨by decide, by simp [space], by simp [Ends, space]⟩
  refine ⟨hname, by decide +kernel, fun h => ?_⟩
  have hplain : ¬ ∃ rest, Begins "exactly".toList rest ∧ WholeWord rest := by
    rintro ⟨rest, ⟨v, hv, w, hw, hmap⟩, hword⟩
    have htaken := (strLower_eq_some_iff hname.head).2 ⟨v, hv, hmap⟩
    have hexact : strLower "exact" "exactly".toList = some "ly".toList := by decide
    by_cases hne : w = "exact"
    · rw [hne, hexact] at htaken
      obtain rfl := Option.some.inj htaken
      exact absurd (hword 'l' (by decide)) (by decide)
    · rw [strLower_other (by decide) hw hne hexact] at htaken
      cases htaken
  obtain ⟨loc, hloc, -, -, hplaceName⟩ := h.plain hplain
  have hread : (parseWithSpirit_ "exactly").toOption.map (·.placeName) = some "ly" := by decide +kernel
  rw [hloc] at hread
  have hsame : "exactly".toLower = "ly" := hplaceName.symm.trans (Option.some.inj hread)
  exact absurd hsame (by decide +kernel)

end Location

end Wdb.Read
