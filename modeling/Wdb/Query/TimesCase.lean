import Wdb.Query.Times

/-! The letter case of the words of a time.

    A text and one that differs in case only are split at the same places. The words are compared as they
    are written, so a text with a word has one that is read in another way, or is not read at all. -/

namespace Wdb.Query
open SqlText SqlTypes Perl Wdb.Write Wdb.Read

/-! ### How a text is split -/

/-- What the groups of a match are. -/
structure Split (t : List Char) (m : Result) (gap gap1 gap2 : List Char) : Prop where
  text : t = m.group 1 ++ gap ++ m.group 2 ++ gap1 ++ m.group 4 ++ gap2 ++ m.group 5
  space : ∀ c ∈ gap, isSpace c
  code : m.group 1 = [] ∨ IsCode (m.group 1)
  from_ : Delimited (m.group 2)
  range : m.group 3 = gap1 ++ m.group 4 ++ gap2 ++ m.group 5
  qualifier : m.group 4 = [] ∧ m.group 3 = [] ∨ IsRange (m.group 3) gap1 (m.group 4) gap2 (m.group 5)

theorem split_of_match {t : List Char} {m : Result} (h : regexMatch timeRe t = some m) :
    ∃ gap gap1 gap2, Split t m gap gap1 gap2 := by
  obtain ⟨hmem, hrest⟩ := rest_of_regexMatch h
  obtain ⟨y1, hy1, z1, hz1, rfl⟩ := mem_results_seq hmem
  obtain ⟨y2, hy2, z2, hz2, rfl⟩ := mem_results_seq hz1
  obtain ⟨y3, hy3, z3, hz3, rfl⟩ := mem_results_seq hz2
  obtain ⟨y4, hy4, z4, hz4, rfl⟩ := mem_results_seq hz3
  obtain rfl := List.mem_singleton.1 hz4
  obtain ⟨gap, hgap, hgap', hspace⟩ := mem_results_star hy2
  obtain ⟨f, x, hx, hf, hxrest, hfgroups⟩ := mem_results_group hy3
  obtain ⟨f', hf', hfrom, hxgroups⟩ := mem_results_time (r := .lazyStar fun _ => true) trivial hx
  obtain rfl : f' = f := List.append_cancel_right (hf'.symm.trans (hxrest ▸ hf))
  rw [hxgroups] at hfgroups
  have hcode : ∃ v, t = v ++ y1.rest ∧ (v = [] ∧ y1.groups = [] ∨ IsCode v ∧ y1.groups = [(1, v)]) := by
    rcases List.mem_append.1 hy1 with hy1 | hy1
    · obtain ⟨v, hv, hgroups, hcode⟩ := mem_timeCode hy1
      exact ⟨v, hv, Or.inr ⟨hcode, hgroups⟩⟩
    · obtain rfl := List.mem_singleton.1 hy1
      exact ⟨[], rfl, Or.inl ⟨rfl, rfl⟩⟩
  obtain ⟨v, hv, hcode⟩ := hcode
  have hmatch : ∀ r gap1 q gap2 o, y3.rest = r → r = gap1 ++ q ++ gap2 ++ o →
      (q = [] ∧ r = [] ∨ IsRange r gap1 q gap2 o) → ∀ m : Result, m.group 1 = v → m.group 2 = f' →
      m.group 3 = r → m.group 4 = q → m.group 5 = o → ∃ gap gap1 gap2, Split t m gap gap1 gap2 := by
    rintro r gap1 q gap2 o hr hsplit hq m rfl rfl rfl rfl rfl
    refine ⟨gap, gap1, gap2, ?_, hspace, hcode.imp And.left And.left, hfrom, hsplit, hq⟩
    rw [hv, hgap, hf, hr, hsplit]
    simp
  have hend : y4.rest = [] := hrest
  rcases mem_timeRange hy4 with rfl | ⟨r, gap1, q, gap2, o, htext, hr, hgroups⟩
  · refine hmatch [] [] [] [] [] hend rfl (Or.inl ⟨rfl, rfl⟩) _ ?_ ?_ ?_ ?_ ?_ <;>
      rcases hcode with ⟨rfl, hy⟩ | ⟨-, hy⟩ <;> rw [hgap', hfgroups, hy] <;> rfl
  · rw [hend, List.append_nil] at htext
    refine hmatch r gap1 q gap2 o htext hr.text (Or.inr hr) _ ?_ ?_ ?_ ?_ ?_
    all_goals rcases hcode with ⟨rfl, hy⟩ | ⟨-, hy⟩ <;> rw [hgap', hfgroups, hgroups, hy] <;> rfl

/-! ### Words in a text -/

theorem IsCode.ne_nil {w : List Char} (h : IsCode w) : w ≠ [] := by
  rintro rfl
  simp [IsCode, timeCodes] at h

/-- A text can be read with an indeterminate word or with a range. -/
def Worded (t : List Char) : Prop :=
  ∃ w gap f r, t = w ++ (gap ++ (f ++ r)) ∧ (∀ c ∈ gap, isSpace c) ∧ Delimited f ∧
    (w = [] ∨ IsCode w) ∧ (r = [] ∨ ∃ gap1 q gap2 o, IsRange r gap1 q gap2 o) ∧ (w ≠ [] ∨ r ≠ [])

theorem Split.worded {t : List Char} {m : Result} {gap gap1 gap2 : List Char} (h : Split t m gap gap1 gap2)
    (hne : m.group 1 ≠ [] ∨ m.group 4 ≠ []) : Worded t := by
  refine ⟨m.group 1, gap, m.group 2, m.group 3, ?_, h.space, h.from_, h.code,
    h.qualifier.imp And.right fun hr => ⟨_, _, _, _, hr⟩, hne.imp_right fun hfour hthree => ?_⟩
  · rw [h.range]
    simpa only [List.append_assoc] using h.text
  · rcases h.qualifier with hnil | hr
    · exact hfour hnil.1
    · rw [hr.text] at hthree
      simp [hr.gap_ne] at hthree

section Worded
variable {t f r : List Char}

/-- What is left of a text is taken by a range. -/
theorem group_four_of_match {z : Result} (hne : r ≠ []) (h : regexMatch (seqs [timeRange]) r = some z) :
    z.group 4 ≠ [] := by
  obtain ⟨hmem, hrest⟩ := rest_of_regexMatch h
  obtain ⟨y, hy, w, hw, rfl⟩ := mem_results_seq hmem
  obtain rfl := List.mem_singleton.1 hw
  rcases mem_timeRange hy with rfl | ⟨r', gap, q, gap', o, -, hr, hgroups⟩
  · exact absurd hrest hne
  · rw [hgroups]
    exact hr.qualifier.ne_nil

/-- The match of a time and what follows; a range is found when there is one. -/
theorem match_time (hf : Delimited f) (hr : r = [] ∨ ∃ gap1 q gap2 o, IsRange r gap1 q gap2 o) :
    ∃ z, regexMatch (seqs [.group 2 timeFrom, timeRange]) (f ++ r) = some z ∧
      (r ≠ [] → z.group 4 ≠ []) := by
  obtain ⟨u, c, mid, d, rfl, hu, hc, hd⟩ := hf
  obtain ⟨pre, post, hresults, hpre⟩ : ∃ pre post, lastWord.results (mid ++ d :: r) =
      pre ++ ⟨[], r⟩ :: post ∧ ∀ x ∈ pre, ∃ a m, mid = a ++ m ∧ x.rest = m ++ d :: r := lastWord_results hd
  have htext : u ++ c :: (mid ++ [d]) ++ r = u ++ c :: (mid ++ d :: r) := by simp
  obtain ⟨z, hz⟩ : ∃ z, regexMatch (seqs [timeRange]) r = some z := by
    rcases hr with rfl | ⟨gap1, q, gap2, o, hr⟩
    · exact ⟨_, regexMatch_timeRange_nil⟩
    · exact ⟨_, hr.regexMatch⟩
  have hgroup : ∃ pre' x post', (Regex.group 2 timeFrom).results (u ++ c :: (mid ++ d :: r)) =
      pre' ++ x :: post' ∧ x.rest = r ∧ ∀ y ∈ pre', y.rest ≠ [] := by
    rw [Regex.results, timeFrom_results hu hc, hresults, List.map_append, List.map_cons]
    refine ⟨_, _, _, rfl, rfl, fun y hy => ?_⟩
    obtain ⟨x, hx, rfl⟩ := List.mem_map.1 hy
    obtain ⟨a, m, -, hrest⟩ := hpre x hx
    change x.rest ≠ []
    simp [hrest]
  obtain ⟨pre', x, post', hgroup, hx, hpre'⟩ := hgroup
  obtain ⟨x', hx', y, hy, hmatch⟩ := exists_regexMatch_seq (s := seqs [timeRange]) (y := z) hgroup (by rwa [hx])
  rw [htext]
  refine ⟨_, hmatch, fun hne => ?_⟩
  have hrest : x'.rest ≠ [] := by
    rcases List.mem_append.1 hx' with hx' | hx'
    · exact hpre' x' hx'
    · rwa [List.mem_singleton.1 hx', hx]
  have hfour := group_four_of_match hrest hy
  rwa [group_append hfour]

/-- Behind the indeterminate word no group has its number. -/
theorem not_mem_groups {z : Result} (h : regexMatch (seqs [.star isSpace, .group 2 timeFrom, timeRange]) t = some z) :
    z.groups.lookup 1 = none := by
  have hholds : (seqs [.star isSpace, .group 2 timeFrom, timeRange]).Holds 1 fun _ => False := by
    simp [seqs, plus, opt, timeFrom, timeRange, timeOther, alts, word, Regex.Holds]
  cases hlookup : z.groups.lookup 1 with
  | none => rfl
  | some g =>
    obtain ⟨l₁, l₂, hsplit, _⟩ := List.lookup_eq_some_iff.1 hlookup
    exact (hholds.groups (rest_of_regexMatch h).1 g (by rw [hsplit]; simp)).elim

/-- A text that can be read with a word or a range is. -/
theorem Worded.match {m : Result} (h : Worded t) (hm : regexMatch timeRe t = some m) :
    m.group 1 ≠ [] ∨ m.group 4 ≠ [] := by
  obtain ⟨w, gap, f, r, rfl, hgap, hf, hw, hr, hne⟩ := h
  obtain ⟨z, hz, hfour⟩ := match_time hf hr
  have hblank : (Regex.star isSpace).first (gap ++ (f ++ r)) = some ⟨[], f ++ r⟩ := by
    rw [Regex.first_star, dropWhile_spaces hgap, hf.dropWhile]
  have hrest := regexMatch_seqs_of_first hblank hz
  have hone : ∀ {u z' v}, regexMatch (seqs [.star isSpace, .group 2 timeFrom, timeRange]) u = some z' →
      (Result.mk (z'.groups ++ [(1, v)]) z'.rest).group 1 = v := by
    intro u z' v hz'
    rw [Result.group, List.lookup_append, not_mem_groups hz']
    rfl
  rw [timeRe_eq] at hm
  rcases hw with rfl | hcode
  · have hresults : (opt (.group 1 (alts (timeCodes.map word)))).results (gap ++ (f ++ r)) =
        (Regex.group 1 (alts (timeCodes.map word))).results (gap ++ (f ++ r)) ++ [⟨[], gap ++ (f ++ r)⟩] := rfl
    obtain ⟨x', hx', y, hy, hmatch⟩ := exists_regexMatch_seq hresults hrest
    obtain rfl := Option.some.inj (hmatch.symm.trans hm)
    rcases List.mem_append.1 hx' with hx' | hx'
    · obtain ⟨v, -, hgroups, hcode⟩ := mem_timeCode hx'
      rw [hgroups, hone hy]
      exact Or.inl hcode.ne_nil
    · obtain rfl := List.mem_singleton.1 hx'
      obtain rfl := Option.some.inj (hrest.symm.trans hy)
      simp only [List.append_nil]
      exact Or.inr (hfour (hne.resolve_left fun hno => hno rfl))
  · have hmatch := regexMatch_seqs_of_first (timeCode_first hcode (gap ++ (f ++ r))) hrest
    obtain rfl := Option.some.inj (hmatch.symm.trans hm)
    rw [hone hrest]
    exact Or.inl hcode.ne_nil

end Worded

/-! ### Texts that differ in case -/

theorem blind_word (w : String) : (word w).Blind Char.toLower := by
  unfold word
  induction w.toList with
  | nil => trivial
  | cons c cs ih => exact ⟨fun d => by simp, ih⟩

theorem blind_alts {rs : List Regex} (h : ∀ r ∈ rs, r.Blind Char.toLower) : (alts rs).Blind Char.toLower := by
  induction rs with
  | nil => trivial
  | cons r rs ih =>
    cases rs with
    | nil => exact h r List.mem_cons_self
    | cons s rs => exact ⟨h r List.mem_cons_self, ih fun q hq => h q (List.mem_cons_of_mem r hq)⟩

theorem blind_words (ws : List String) : (alts (ws.map word)).Blind Char.toLower := by
  refine blind_alts fun r hr => ?_
  obtain ⟨w, -, rfl⟩ := List.mem_map.1 hr
  exact blind_word w

/-- The expression does not tell cases apart. -/
theorem blind_timeRe : timeRe.Blind Char.toLower := by
  have hdash : ∀ c : Char, decide (c.toLower = '-') = decide (c = '-') := by
    refine toLower_blind (p := fun c => decide (c = '-')) (b := false) fun c hc => ?_
    have hne : c ≠ '-' := by
      rintro rfl
      exact absurd hc (by decide)
    simp [hne]
  have hall : ∀ c : Char, (fun _ => true) c.toLower = (fun _ => true) c := fun _ => rfl
  exact ⟨⟨blind_words _, trivial⟩, isSpace_toLower,
    ⟨⟨hdash, trivial⟩, isWord_toLower, hall, isWord_toLower, trivial⟩,
    ⟨⟨⟨isSpace_toLower, isSpace_toLower⟩, blind_words _, ⟨isSpace_toLower, isSpace_toLower⟩,
      ⟨⟨hdash, trivial⟩, isWord_toLower, hall, isWord_toLower, trivial⟩, trivial⟩, trivial⟩, trivial⟩

/-- Texts that differ in case have matches that do. -/
theorem regexMatch_of_case {t t' : List Char} {m : Result} (h : regexMatch timeRe t = some m)
    (hcase : t'.map Char.toLower = t.map Char.toLower) : ∃ m', regexMatch timeRe t' = some m' ∧
      ∀ n, (m'.group n).map Char.toLower = (m.group n).map Char.toLower := by
  have hmap := regexMatch_map blind_timeRe t'
  rw [hcase, regexMatch_map blind_timeRe t, h, Option.map_some] at hmap
  obtain ⟨m', hm', heq⟩ := Option.map_eq_some_iff.1 hmap.symm
  refine ⟨m', hm', fun n => ?_⟩
  rw [← Result.group_map, ← Result.group_map, heq]

/-- White space before a text that starts with none is as long in all ways to split it. -/
theorem spaces_inj {a b x y : List Char} (ha : ∀ c ∈ a, isSpace c) (hb : ∀ c ∈ b, isSpace c)
    (hx : ∀ c ∈ x.head?, isSpace c = false) (hy : ∀ c ∈ y.head?, isSpace c = false)
    (hx' : x ≠ []) (hy' : y ≠ []) (h : a ++ x = b ++ y) : a = b ∧ x = y := by
  obtain ⟨c, x, rfl⟩ := List.exists_cons_of_ne_nil hx'
  obtain ⟨d, y, rfl⟩ := List.exists_cons_of_ne_nil hy'
  have hc := hx c rfl
  have hd := hy d rfl
  induction a generalizing b with
  | nil =>
    cases b with
    | nil => exact ⟨rfl, h⟩
    | cons e b =>
      obtain ⟨rfl, -⟩ := List.cons.inj h
      exact absurd (hb c List.mem_cons_self) (by simp [hc])
  | cons e a ih =>
    cases b with
    | nil =>
      obtain ⟨rfl, -⟩ := List.cons.inj h
      exact absurd (ha e List.mem_cons_self) (by simp [hd])
    | cons f b =>
      obtain ⟨rfl, htail⟩ := List.cons.inj h
      obtain ⟨rfl, hrest⟩ := ih (fun g hg => ha g (List.mem_cons_of_mem _ hg))
        (fun g hg => hb g (List.mem_cons_of_mem _ hg)) htail
      exact ⟨rfl, hrest⟩

section Recased
variable {t : List Char} {m : Result} {gap gap1 gap2 code' range' : List Char}

theorem length_eq_of_case {a b : List Char} (h : a.map Char.toLower = b.map Char.toLower) :
    a.length = b.length := by
  have hlength := congrArg List.length h
  rwa [List.length_map, List.length_map] at hlength

theorem head_of_isQualifier {w : List Char} (h : IsQualifier w) (u : List Char) :
    (∀ c ∈ (w ++ u).head?, isSpace c = false) ∧ w ++ u ≠ [] := by
  obtain ⟨c, v, rfl⟩ := List.exists_cons_of_ne_nil h.ne_nil
  refine ⟨fun d hd => ?_, by simp⟩
  obtain rfl := Option.some.inj hd
  exact not_isSpace_of_isQualifier h _ List.mem_cons_self

/-- With its words in another case a text is split at the same places. -/
theorem Split.recased (hs : Split t m gap gap1 gap2) (hm : regexMatch timeRe t = some m)
    (hcode : code'.map Char.toLower = (m.group 1).map Char.toLower)
    (hrange : range'.map Char.toLower = (m.group 4).map Char.toLower) :
    ∃ m', regexMatch timeRe (code' ++ gap ++ m.group 2 ++ gap1 ++ range' ++ gap2 ++ m.group 5) = some m' ∧
      m'.group 1 = code' ∧ m'.group 4 = range' := by
  have htext : (code' ++ gap ++ m.group 2 ++ gap1 ++ range' ++ gap2 ++ m.group 5).map Char.toLower =
      t.map Char.toLower := by
    rw [hs.text]
    simp [hcode, hrange]
  obtain ⟨m', hm', hgroups⟩ := regexMatch_of_case hm htext
  obtain ⟨gap', gap1', gap2', hs'⟩ := split_of_match hm'
  refine ⟨m', hm', ?_, ?_⟩
  · have htext := hs'.text
    simp only [List.append_assoc] at htext
    exact (List.append_inj htext (length_eq_of_case (hcode.trans (hgroups 1).symm))).1.symm
  · have hfour : (m'.group 4).map Char.toLower = range'.map Char.toLower := (hgroups 4).trans hrange.symm
    have hlength : (gap1' ++ m'.group 4 ++ gap2' ++ m'.group 5).length =
        (gap1 ++ range' ++ gap2 ++ m.group 5).length := by
      have hthree := length_eq_of_case (hgroups 3)
      rw [hs'.range, hs.range] at hthree
      simp only [List.length_append] at hthree ⊢
      have hrangelength := length_eq_of_case hrange
      omega
    have htext : m'.group 1 ++ gap' ++ m'.group 2 ++ (gap1' ++ m'.group 4 ++ gap2' ++ m'.group 5) =
        code' ++ gap ++ m.group 2 ++ (gap1 ++ range' ++ gap2 ++ m.group 5) := by
      simpa only [List.append_assoc] using hs'.text.symm
    have htail := List.append_inj_right' htext hlength
    rcases hs.qualifier with ⟨hnil, -⟩ | hr
    · rw [hnil] at hrange
      rw [List.map_eq_nil_iff.1 hrange] at hfour ⊢
      exact List.map_eq_nil_iff.1 hfour
    · have hq : IsQualifier range' := by
        rw [IsQualifier, hrange]
        exact hr.qualifier
      have hq' : IsQualifier (m'.group 4) := by rwa [IsQualifier, hfour]
      have hr' := hs'.qualifier.resolve_left fun hnil => hq'.ne_nil hnil.1
      simp only [List.append_assoc] at htail
      obtain ⟨-, hwords⟩ := spaces_inj hr'.gap_space hr.gap_space (head_of_isQualifier hq' _).1
        (head_of_isQualifier hq _).1 (head_of_isQualifier hq' _).2 (head_of_isQualifier hq _).2 htail
      exact (List.append_inj hwords (length_eq_of_case hfour)).1

end Recased

/-! ### The clauses -/

/-- The clauses that are added for a specification. -/
def clauses (add : Builder → Option String → Except Failure Builder) (spec : String) :
    Except Failure (List (List Char)) :=
  (add {} (some spec)).map fun builder => builder.where_.map characters

/-- A specification with its words in other cases. -/
def Recased (spec spec' : String) : Prop :=
  ∃ m gap gap1 gap2 code' range', regexMatch timeRe spec.toList = some m ∧
    Split spec.toList m gap gap1 gap2 ∧ code'.map Char.toLower = (m.group 1).map Char.toLower ∧
    range'.map Char.toLower = (m.group 4).map Char.toLower ∧
    spec'.toList = code' ++ gap ++ m.group 2 ++ gap1 ++ range' ++ gap2 ++ m.group 5

/-- A specification is accepted, and has the clauses of another one. -/
structure SameClauses (spec spec' : String) : Prop where
  accepted : ∃ ts, TimeSpecification.parse spec' = .ok ts
  referenceTime : clauses addReferenceTimeQuery spec' = clauses addReferenceTimeQuery spec
  validTime : clauses addValidTimeQuery spec' = clauses addValidTimeQuery spec

def CaseInsensitive (spec : String) : Prop := ∀ spec', Recased spec spec' → SameClauses spec spec'

section Clauses
variable {spec : String} {ts : TimeSpecification} {m : Result}

/-- What an accepted specification is read from. -/
theorem parse_match (h : TimeSpecification.parse spec = .ok ts) : ∃ m,
    regexMatch timeRe spec.toList = some m ∧ String.ofList (m.group 4) ∈ ["FOR", "TO", ""] ∧
      ts.indeterminate_ =
        if String.ofList (m.group 1) = "" then "exact" else String.ofList (m.group 1) := by
  unfold TimeSpecification.parse at h
  cases hm : regexMatch timeRe spec.toList with
  | none => simp [hm] at h
  | some m =>
    simp only [hm, Bool.or_eq_true, decide_eq_true_eq] at h
    split at h
    · next hfor =>
      obtain rfl := Except.ok.inj h
      exact ⟨m, rfl, by simp [hfor], rfl⟩
    · split at h
      · next hto =>
        obtain rfl := Except.ok.inj h
        exact ⟨m, rfl, by simpa using Or.inr hto, rfl⟩
      · cases h

/-- The keywords that `addValidTimeQuery` knows. -/
def validCodes : List String := ["exact", "inside", "contains", "before", "after", "any"]

/-- There is a clause for a valid time exactly when its keyword is known as it is written. -/
theorem isOk_clauses (h : TimeSpecification.parse spec = .ok ts) :
    (clauses addValidTimeQuery spec).isOk = decide (ts.indeterminate_ ∈ validCodes) := by
  have hquery : clauses addValidTimeQuery spec = (validTime ts).map fun q =>
      [characters (code "(" ++ q ++ code ")")] := by
    simp only [clauses, addValidTimeQuery, h, bind, Except.bind]
    cases validTime ts <;> rfl
  have hok : (validTime ts).isOk = decide (ts.indeterminate_ ∈ validCodes) := by
    unfold validTime
    simp only
    split_ifs <;> simp_all [validCodes, Except.isOk, Except.toBool]
  rw [hquery, ← hok]
  cases validTime ts <;> rfl

/-- In lower case a word is known. -/
theorem lower_mem_validCodes : ∀ w ∈ timeCodes.map String.toList, String.ofList w ∈ validCodes ∧ w ≠ [] := by
  decide

/-- In upper case it is not. -/
theorem upper_not_mem_validCodes : ∀ w ∈ timeCodes.map String.toList,
    String.ofList (w.map Char.toUpper) ∉ validCodes ∧ w.map Char.toUpper ≠ [] := by
  decide

/-- A word can be written so that one of both ways is known. -/
theorem exists_recased {w : List Char} (h : IsCode w) : ∃ w' : List Char,
    w'.map Char.toLower = w.map Char.toLower ∧ w' ≠ [] ∧
      ¬ (String.ofList w' ∈ validCodes ↔ String.ofList w ∈ validCodes) := by
  by_cases hw : String.ofList w ∈ validCodes
  · have hlower : w ∈ timeCodes.map String.toList := by
      have hknown : ∀ v ∈ validCodes, v ∈ timeCodes ∨ v = "any" := by decide
      rcases hknown _ hw with hmem | hany
      · exact List.mem_map.2 ⟨_, hmem, String.toList_ofList⟩
      · have hlist : w = "any".toList := by rw [← hany, String.toList_ofList]
        rw [hlist] at h
        simp [IsCode, timeCodes] at h
    obtain ⟨hupper, hne⟩ := upper_not_mem_validCodes w hlower
    exact ⟨w.map Char.toUpper, by simp, hne, fun hiff => hupper (hiff.2 hw)⟩
  · obtain ⟨hlower, hne⟩ := lower_mem_validCodes _ h
    exact ⟨w.map Char.toLower, by simp, hne, fun hiff => hw (hiff.1 hlower)⟩

/-- The keyword of a specification that has one. -/
theorem indeterminate_of_match (h : TimeSpecification.parse spec = .ok ts)
    (hm : regexMatch timeRe spec.toList = some m) (hne : m.group 1 ≠ []) :
    ts.indeterminate_ = String.ofList (m.group 1) := by
  obtain ⟨m', hm', -, hcode⟩ := parse_match h
  obtain rfl := Option.some.inj (hm.symm.trans hm')
  rwa [if_neg] at hcode
  intro hempty
  exact hne (String.ofList_inj.1 hempty)

/-- A specification with an indeterminate word can be written so that its clause is another one. -/
theorem not_caseInsensitive_of_code (h : TimeSpecification.parse spec = .ok ts)
    (hm : regexMatch timeRe spec.toList = some m) (hne : m.group 1 ≠ []) : ¬ CaseInsensitive spec := by
  intro hcase
  obtain ⟨gap, gap1, gap2, hs⟩ := split_of_match hm
  obtain ⟨code', hcode, hne', hother⟩ := exists_recased (hs.code.resolve_left hne)
  obtain ⟨m', hm', hone, -⟩ := hs.recased hm hcode rfl
  have hrecased : Recased spec (String.ofList (code' ++ gap ++ m.group 2 ++ gap1 ++ m.group 4 ++ gap2 ++
      m.group 5)) := ⟨m, gap, gap1, gap2, code', m.group 4, hm, hs, hcode, rfl, String.toList_ofList⟩
  obtain ⟨⟨ts', hts'⟩, -, hvalid⟩ := hcase _ hrecased
  rw [← String.toList_ofList (l := code' ++ gap ++ m.group 2 ++ gap1 ++ m.group 4 ++ gap2 ++ m.group 5)] at hm'
  have hkeyword := indeterminate_of_match h hm hne
  have hkeyword' := indeterminate_of_match hts' hm' (hone ▸ hne')
  have hok := congrArg Except.isOk hvalid
  rw [isOk_clauses h, isOk_clauses hts', hkeyword, hkeyword', hone] at hok
  exact hother (decide_eq_decide.1 hok)

/-- A specification with a range can be written so that it is not accepted. -/
theorem not_caseInsensitive_of_range (hm : regexMatch timeRe spec.toList = some m) (hne : m.group 4 ≠ []) :
    ¬ CaseInsensitive spec := by
  intro hcase
  obtain ⟨gap, gap1, gap2, hs⟩ := split_of_match hm
  have hqualifier := (hs.qualifier.resolve_left fun hnil => hne hnil.1).qualifier
  have hlower : ((m.group 4).map Char.toLower).map Char.toLower = (m.group 4).map Char.toLower := by simp
  obtain ⟨m', hm', -, hfour⟩ := hs.recased hm rfl hlower
  have hrecased : Recased spec (String.ofList (m.group 1 ++ gap ++ m.group 2 ++ gap1 ++
      (m.group 4).map Char.toLower ++ gap2 ++ m.group 5)) :=
    ⟨m, gap, gap1, gap2, m.group 1, _, hm, hs, rfl, by simp, String.toList_ofList⟩
  obtain ⟨⟨ts', hts'⟩, -, -⟩ := hcase _ hrecased
  obtain ⟨m'', hm'', hmem, -⟩ := parse_match hts'
  rw [String.toList_ofList] at hm''
  obtain rfl := Option.some.inj (hm'.symm.trans hm'')
  rw [hfour] at hmem
  have hno : ∀ w ∈ ["to".toList, "for".toList], String.ofList w ∉ ["FOR", "TO", ""] := by decide
  exact hno _ hqualifier hmem

/-- An accepted specification can be written in any case exactly when it cannot be read with an indeterminate
    word, nor with a range. -/
theorem caseInsensitive_iff (h : TimeSpecification.parse spec = .ok ts) :
    CaseInsensitive spec ↔ ¬ Worded spec.toList := by
  obtain ⟨m, hm, -, -⟩ := parse_match h
  constructor
  · intro hcase hworded
    rcases hworded.match hm with hne | hne
    · exact not_caseInsensitive_of_code h hm hne hcase
    · exact not_caseInsensitive_of_range hm hne hcase
  · rintro hno spec' ⟨m', gap, gap1, gap2, code', range', hm', hs, hcode, hrange, htext⟩
    obtain rfl := Option.some.inj (hm.symm.trans hm')
    have hwords : m.group 1 = [] ∧ m.group 4 = [] := by
      by_contra hne
      exact hno (hs.worded (not_and_or.1 hne))
    rw [hwords.1] at hcode
    rw [hwords.2] at hrange
    obtain rfl : spec' = spec := by
      rw [← String.toList_inj, htext, hs.text, hwords.1, hwords.2, List.map_eq_nil_iff.1 hcode,
        List.map_eq_nil_iff.1 hrange]
    exact ⟨⟨ts, h⟩, rfl, rfl⟩

end Clauses

theorem caseInsensitive_iff_day : CaseInsensitive "2010-01-01" := by
  have hparse : TimeSpecification.parse "2010-01-01" = .ok ⟨"exact", "2010-01-01", "2010-01-01", false⟩ := by
    decide +kernel
  have hmatch : regexMatch timeRe "2010-01-01".toList = some ⟨[(2, "2010-01-01".toList)], []⟩ := by decide +kernel
  refine (caseInsensitive_iff hparse).2 fun hworded => ?_
  exact absurd (hworded.match hmatch) (by decide)

/-- `EXACT` is not known. -/
theorem not_caseInsensitive_exact : (∃ ts, TimeSpecification.parse "exact 2010" = .ok ts) ∧
    ¬ CaseInsensitive "exact 2010" := by
  have hparse : TimeSpecification.parse "exact 2010" = .ok ⟨"exact", "2010", "2010", false⟩ := by decide +kernel
  have hmatch : regexMatch timeRe "exact 2010".toList = some ⟨[(2, "2010".toList), (1, "exact".toList)], []⟩ := by
    decide +kernel
  exact ⟨⟨_, hparse⟩, not_caseInsensitive_of_code hparse hmatch (by decide)⟩

end Wdb.Query
