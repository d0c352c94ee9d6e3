import Wdb.Query.BuildQuery

/-! How `TimeSpecification` splits a text.

    The time before `TO` or `FOR` is taken lazily: it ends at the first place where the rest of the text is
    such a word, between white space, and a time. -/

namespace Wdb.Query
open SqlText SqlTypes Perl Wdb.Write Wdb.Read

/-! ### Characters -/

theorem isSpace_of_isWord {c : Char} (h : SqlText.isWord c) : isSpace c = false := by
  simp only [SqlText.isWord, Char.isAlphanum, Bool.or_eq_true, decide_eq_true_eq] at h
  rcases h with (h | h) | rfl
  · exact isSpace_of_isAlpha h
  · exact isSpace_of_isDigit h
  · decide

theorem isWord_of_isAlpha {c : Char} (h : c.isAlpha) : SqlText.isWord c = true := by
  simp [SqlText.isWord, Char.isAlphanum, h]

@[simp] theorem isWord_toLower (c : Char) : SqlText.isWord c.toLower = SqlText.isWord c :=
  toLower_blind (fun _ h => isWord_of_isAlpha h) c

/-- Where a range is given: `(\s+(TO|FOR)\s+(-?\w.*\w))?`. -/
def timeRange : Regex := opt (.group 3 (seqs [plus isSpace, .group 4 (alts (["TO", "FOR"].map word)), plus isSpace,
  .group 5 timeOther]))

theorem timeRe_eq : timeRe = seqs [opt (.group 1 (alts (timeCodes.map word))), .star isSpace,
    .group 2 timeFrom, timeRange] := rfl

/-- A time: `-?\w.*\w`. -/
def Delimited (t : List Char) : Prop :=
  ∃ u c mid d, t = u ++ c :: (mid ++ [d]) ∧ (u = [] ∨ u = ['-']) ∧ isWord c ∧ isWord d

/-- What is between the first word character and the last one, and the last one itself. -/
def lastWord : Regex := .seq (.lazyStar fun _ => true) (.seq (.char isWord) .empty)

section Split
variable {u mid t : List Char} {c d : Char}

theorem timeFrom_results (hu : u = [] ∨ u = ['-']) (hc : isWord c) :
    timeFrom.results (u ++ c :: t) = lastWord.results t := by
  have hdash : c ≠ '-' := by
    rintro rfl
    exact absurd hc (by decide)
  have hminus : isWord '-' = false := by decide
  rcases hu with rfl | rfl
  · simp [timeFrom, lastWord, seqs, opt, Regex.results, hc, hdash]
  · simp [timeFrom, lastWord, seqs, opt, Regex.results, hc, hminus]

theorem lastWord_results_cons (c : Char) (t : List Char) :
    lastWord.results (c :: t) = (if isWord c then [⟨[], t⟩] else []) ++ lastWord.results t := by
  simp [lastWord, Regex.results, greedy]

/-- The ends that are tried before a word character, nearest first. -/
theorem lastWord_results (hd : isWord d) : ∃ pre post, lastWord.results (mid ++ d :: t) = pre ++ ⟨[], t⟩ :: post ∧
    ∀ x ∈ pre, ∃ a m, mid = a ++ m ∧ x.rest = m ++ d :: t := by
  induction mid with
  | nil =>
    refine ⟨[], lastWord.results t, ?_, by simp⟩
    rw [List.nil_append, lastWord_results_cons, if_pos hd]
    rfl
  | cons e mid ih =>
    obtain ⟨pre, post, hresults, hpre⟩ := ih
    refine ⟨(if isWord e then [⟨[], mid ++ d :: t⟩] else []) ++ pre, post, ?_, fun x hx => ?_⟩
    · rw [List.cons_append, lastWord_results_cons, hresults, List.append_assoc]
    · rcases List.mem_append.1 hx with hx | hx
      · split at hx
        · rw [List.mem_singleton.1 hx]
          exact ⟨[e], mid, rfl, rfl⟩
        · cases hx
      · obtain ⟨a, m, hmid, hrest⟩ := hpre x hx
        exact ⟨e :: a, m, by rw [hmid]; rfl, hrest⟩

/-- A time at the end of a text is taken to its end at once. -/
theorem timeOther_first (h : Delimited t) : timeOther.first t = some ⟨[], []⟩ := by
  obtain ⟨u, c, mid, d, rfl, hu, hc, hd⟩ := h
  obtain ⟨ts, hts⟩ := greedy_append (p := fun _ => true) (s := mid) (c := d) (t := []) (fun _ _ => rfl) rfl rfl
  have hdash : c ≠ '-' := by
    rintro rfl
    exact absurd hc (by decide)
  have hminus : isWord '-' = false := by decide
  rcases hu with rfl | rfl
  · simp [timeOther, seqs, opt, Regex.first, Regex.results, hc, hd, hdash, hts]
  · simp [timeOther, seqs, opt, Regex.first, Regex.results, hc, hd, hminus, hts]

end Split

/-! ### The range -/

/-- `TO` or `FOR`, in either case. -/
def IsQualifier (w : List Char) : Prop := w.map Char.toLower ∈ ["to".toList, "for".toList]

/-- No qualifier stands behind white space and before white space or the end. -/
def Unranged (t : List Char) : Prop :=
  ∀ a s w b, t = a ++ s :: (w ++ b) → isSpace s → IsQualifier w → ∃ c b', b = c :: b' ∧ isSpace c = false

/-- White space, a qualifier, white space and a time. -/
structure IsRange (r gap q gap' o : List Char) : Prop where
  text : r = gap ++ q ++ gap' ++ o
  gap_ne : gap ≠ []
  gap_space : ∀ c ∈ gap, isSpace c
  qualifier : IsQualifier q
  gap'_ne : gap' ≠ []
  gap'_space : ∀ c ∈ gap', isSpace c
  other : Delimited o

/-- What is taken as a time is one. -/
theorem mem_results_time {r : Regex} (hr : r.Flat) {t : List Char} {x : Result}
    (h : x ∈ (seqs [opt (.char (· = '-')), .char isWord, r, .char isWord]).results t) :
    ∃ v, t = v ++ x.rest ∧ Delimited v ∧ x.groups = [] := by
  obtain ⟨y1, hy1, z1, hz1, rfl⟩ := mem_results_seq h
  obtain ⟨y2, hy2, z2, hz2, rfl⟩ := mem_results_seq hz1
  obtain ⟨y3, hy3, z3, hz3, rfl⟩ := mem_results_seq hz2
  obtain ⟨y4, hy4, z4, hz4, rfl⟩ := mem_results_seq hz3
  obtain rfl := List.mem_singleton.1 hz4
  obtain ⟨c, hc, hcgroups, hword⟩ := mem_results_char hy2
  obtain ⟨mid, hmid⟩ := Regex.rest_suffix hy3
  obtain ⟨d, hd, hdgroups, hword'⟩ := mem_results_char hy4
  have hdash : ∃ u, t = u ++ y1.rest ∧ (u = [] ∨ u = ['-']) ∧ y1.groups = [] := by
    rcases List.mem_append.1 hy1 with hy1 | hy1
    · obtain ⟨e, he, hgroups, hdash⟩ := mem_results_char hy1
      obtain rfl := of_decide_eq_true hdash
      exact ⟨['-'], he, Or.inr rfl, hgroups⟩
    · obtain rfl := List.mem_singleton.1 hy1
      exact ⟨[], rfl, Or.inl rfl, rfl⟩
  obtain ⟨u, hu, hdash, hugroups⟩ := hdash
  refine ⟨u ++ c :: (mid ++ [d]), ?_, ⟨u, c, mid, d, rfl, hdash, hword, hword'⟩, ?_⟩
  · rw [hu, hc, hmid, hd]
    simp
  · rw [hugroups, hcgroups, hr.groups hy3, hdgroups]
    rfl

/-- How a range is taken. -/
theorem mem_timeRange {t : List Char} {x : Result} (h : x ∈ timeRange.results t) : x = ⟨[], t⟩ ∨
    ∃ r gap q gap' o, t = r ++ x.rest ∧ IsRange r gap q gap' o ∧ x.groups = [(3, r), (5, o), (4, q)] := by
  rcases List.mem_append.1 h with h | h
  · right
    obtain ⟨r, y, hy, ht, hrest, hgroups⟩ := mem_results_group h
    obtain ⟨y1, hy1, y2, hy2, rfl⟩ := mem_results_seq hy
    obtain ⟨z1, hz1, z2, hz2, rfl⟩ := mem_results_seq hy2
    obtain ⟨a1, ha1, a2, ha2, rfl⟩ := mem_results_seq hz2
    obtain ⟨b1, hb1, b2, hb2, rfl⟩ := mem_results_seq ha2
    obtain rfl := List.mem_singleton.1 hb2
    obtain ⟨gap, hgap, hy1t, hy1g, hspace⟩ := mem_results_plus hy1
    obtain ⟨q, c1, hc1, hz1t, hc1r, hz1g⟩ := mem_results_group hz1
    obtain ⟨gap', hgap', ha1t, ha1g, hspace'⟩ := mem_results_plus ha1
    obtain ⟨o, d1, hd1, hb1t, hd1r, hb1g⟩ := mem_results_group hb1
    obtain ⟨o', ho', hother, hd1g⟩ := mem_results_time (r := .star fun _ => true) trivial hd1
    obtain rfl : o' = o := List.append_cancel_right (ho'.symm.trans (hd1r ▸ hb1t))
    have hr : r = gap ++ q ++ gap' ++ o' := by
      refine List.append_cancel_right (ht.symm.trans ?_)
      rw [hy1t, hz1t, ha1t, hb1t, ← hrest]
      simp
    have hq : IsQualifier q := by
      have htaken := taken_words (by decide) hc1
      rw [hc1r, hz1t, List.length_append, Nat.add_sub_cancel, List.take_left] at htaken
      exact htaken
    refine ⟨r, gap, q, gap', o', ht, ⟨hr, hgap, hspace, hq, hgap', hspace', hother⟩, ?_⟩
    rw [hgroups, hr]
    simp [hb1g, hd1g, ha1g, hz1g, (flat_words ["TO", "FOR"]).groups hc1, hy1g]
  · exact Or.inl (List.mem_singleton.1 h)

section Range
variable {from_ tail : List Char}

/-- A text that goes on after a time: it ends there, or white space follows. -/
def Continues (tail : List Char) : Prop := ∀ c ∈ tail.head?, isSpace c

theorem not_isSpace_of_isQualifier {w : List Char} (h : IsQualifier w) : ∀ c ∈ w, isSpace c = false := by
  have hword : ∀ c ∈ w, SqlText.isWord c := by
    have hwords : ∀ v ∈ ["to".toList, "for".toList], ∀ c ∈ v, SqlText.isWord c := by simp [SqlText.isWord]
    intro c hc
    rw [← isWord_toLower]
    exact hwords _ h _ (List.mem_map_of_mem hc)
  exact fun c hc => isSpace_of_isWord (hword c hc)

/-- No range starts inside of a time. -/
theorem regexMatch_timeRange_inside {a m : List Char} {d : Char} (hfrom : from_ = a ++ m ++ [d])
    (hd : isWord d) (hun : Unranged from_) (htail : Continues tail) :
    regexMatch (seqs [timeRange]) (m ++ d :: tail) = none := by
  refine regexMatch_eq_none fun x hx => ?_
  obtain ⟨y, hy, z, hz, rfl⟩ := mem_results_seq hx
  obtain rfl := List.mem_singleton.1 hz
  change y.rest ≠ []
  intro hrest
  rcases mem_timeRange hy with rfl | ⟨r, gap, w, gap', o, htext, hr, -⟩
  · simp at hrest
  · have hw := hr.qualifier
    obtain ⟨gap, s, rfl⟩ := (List.eq_nil_or_concat gap).resolve_left hr.gap_ne
    obtain ⟨s', gap', rfl⟩ := List.exists_cons_of_ne_nil hr.gap'_ne
    have hs : isSpace s := hr.gap_space s (by simp)
    have hs' : isSpace s' := hr.gap'_space s' List.mem_cons_self
    have hsplit : (m ++ [d]) ++ tail = (gap.concat s ++ w) ++ s' :: (gap' ++ o ++ y.rest) := by
      rw [hr.text] at htext
      simpa using htext
    have hword : ∀ b, m ++ [d] = gap.concat s ++ w ++ b → ∃ c b', b = c :: b' ∧ isSpace c = false := by
      intro b hb
      refine hun (a ++ gap) s w b ?_ hs hw
      rw [hfrom, List.append_assoc, hb]
      simp
    rcases List.append_eq_append_iff.1 hsplit with ⟨e, hleft, hright⟩ | ⟨b, hleft, hright⟩
    · cases e with
      | nil =>
        obtain ⟨c, b', hb, -⟩ := hword [] (by rw [hleft, List.append_nil, List.append_nil])
        cases hb
      | cons e es =>
        -- the word would go on behind the white space after the time
        have he : isSpace e := htail e (by rw [hright]; rfl)
        rcases List.append_eq_append_iff.1 hleft with ⟨v, -, hv⟩ | ⟨v, hv, -⟩
        · have hmem : e ∈ w := by rw [hv]; simp
          exact absurd (not_isSpace_of_isQualifier hw e hmem) (by simp [he])
        · have hmem : d ∈ gap.concat s := by rw [hv]; simp
          exact absurd (isSpace_of_isWord hd) (by simp [hr.gap_space d hmem])
    · obtain ⟨c, b', rfl, hc⟩ := hword b hleft
      obtain ⟨rfl, -⟩ := List.cons.inj hright
      exact absurd hc (by simp [hs'])

/-- A time is taken to the white space behind it. -/
theorem regexMatch_timeFrom {x : Result} (hfrom : Delimited from_) (hun : Unranged from_)
    (htail : Continues tail) (hx : regexMatch (seqs [timeRange]) tail = some x) :
    regexMatch (seqs [.group 2 timeFrom, timeRange]) (from_ ++ tail) =
      some ⟨x.groups ++ [(2, from_)], x.rest⟩ := by
  obtain ⟨u, c, mid, d, hsplit, hu, hc, hd⟩ := id hfrom
  have htext : from_ ++ tail = u ++ c :: (mid ++ d :: tail) := by
    rw [hsplit]
    simp
  obtain ⟨pre, post, hresults, hpre⟩ : ∃ pre post, lastWord.results (mid ++ d :: tail) =
      pre ++ ⟨[], tail⟩ :: post ∧ ∀ x ∈ pre, ∃ a m, mid = a ++ m ∧ x.rest = m ++ d :: tail := lastWord_results hd
  have htake : (from_ ++ tail).take ((from_ ++ tail).length - tail.length) = from_ := by
    rw [List.length_append, Nat.add_sub_cancel, List.take_left]
  have hfirst : timeFrom.results (from_ ++ tail) = pre ++ ⟨[], tail⟩ :: post := by
    rw [htext, timeFrom_results hu hc, hresults]
  refine (regexMatch_group_of_split hfirst (fun y hy => ?_) hx).trans (by rw [htake])
  obtain ⟨a, m, rfl, hrest⟩ := hpre y hy
  rw [hrest]
  refine regexMatch_timeRange_inside (a := u ++ c :: a) ?_ hd hun htail
  rw [hsplit]
  simp

theorem dropWhile_of_isWord {c : Char} {t : List Char} (h : isSpace c = false) :
    (c :: t).dropWhile isSpace = c :: t := by
  rw [List.dropWhile_cons, h, if_neg Bool.false_ne_true]

theorem Delimited.dropWhile {t : List Char} (h : Delimited t) (t' : List Char) :
    (t ++ t').dropWhile isSpace = t ++ t' := by
  obtain ⟨u, c, mid, d, rfl, rfl | rfl, hc, -⟩ := h
  · exact dropWhile_of_isWord (isSpace_of_isWord hc)
  · exact dropWhile_of_isWord (by decide)

theorem IsQualifier.ne_nil {w : List Char} (h : IsQualifier w) : w ≠ [] := by
  rintro rfl
  exact absurd h (by simp [IsQualifier])

theorem dropWhile_spaces {gap : List Char} (h : ∀ c ∈ gap, isSpace c) (t : List Char) :
    (gap ++ t).dropWhile isSpace = t.dropWhile isSpace := by
  rw [List.dropWhile_append_of_pos h]

theorem first_spaces {gap : List Char} (hne : gap ≠ []) (h : ∀ c ∈ gap, isSpace c) {t : List Char}
    (ht : t.dropWhile isSpace = t) : (plus isSpace).first (gap ++ t) = some ⟨[], t⟩ := by
  obtain ⟨c, gap, rfl⟩ := List.exists_cons_of_ne_nil hne
  rw [List.cons_append, Regex.first_plus (h c List.mem_cons_self),
    dropWhile_spaces fun d hd => h d (List.mem_cons_of_mem c hd), ht]

/-- A range is taken as it is written. -/
theorem IsRange.regexMatch {r gap q gap' o : List Char} (h : IsRange r gap q gap' o) :
    regexMatch (seqs [timeRange]) r = some ⟨[(3, r), (5, o), (4, q)], []⟩ := by
  have hfirst : (plus isSpace).first r = some ⟨[], q ++ (gap' ++ o)⟩ := by
    obtain ⟨c, v, rfl⟩ := List.exists_cons_of_ne_nil h.qualifier.ne_nil
    have hc := not_isSpace_of_isQualifier h.qualifier c List.mem_cons_self
    rw [h.text, List.append_assoc, List.append_assoc]
    exact first_spaces h.gap_ne h.gap_space (dropWhile_of_isWord hc)
  have hword : (Regex.group 4 (alts (["TO", "FOR"].map word))).first (q ++ (gap' ++ o)) =
      some ⟨[(4, q)], gap' ++ o⟩ := by
    have hresults : (alts (["TO", "FOR"].map word)).results (q ++ (gap' ++ o)) = [⟨[], gap' ++ o⟩] := by
      have hqualifiers : ∀ v ∈ ["to".toList, "for".toList], ∃ q ∈ ["TO", "FOR"],
          v = q.toList.map Char.toLower := by decide
      obtain ⟨w, hw, heq⟩ := hqualifiers _ h.qualifier
      exact results_words hw (by decide) (by decide) heq _
    rw [Regex.first_group (x := ⟨[], gap' ++ o⟩) (by rw [Regex.first, hresults]; rfl), List.length_append,
      Nat.add_sub_cancel, List.take_left]
  have hblank : (plus isSpace).first (gap' ++ o) = some ⟨[], o⟩ := by
    have hdrop := h.other.dropWhile []
    rw [List.append_nil] at hdrop
    exact first_spaces h.gap'_ne h.gap'_space hdrop
  have htime : (Regex.group 5 timeOther).first o = some ⟨[(5, o)], []⟩ := by
    rw [Regex.first_group (timeOther_first h.other)]
    simp
  have hrange := Regex.first_group (n := 3) (first_seqs_cons hfirst (first_seqs_cons hword
    (first_seqs_cons hblank (first_seqs_cons htime (first_seqs_nil [])))))
  refine (regexMatch_of_first (first_seqs_cons (Regex.first_alt hrange) (first_seqs_nil _)) rfl).trans ?_
  simp

theorem isRange_blank {q o : List Char} (hq : IsQualifier q) (ho : Delimited o) :
    IsRange (' ' :: (q ++ ' ' :: o)) [' '] q [' '] o := by
  have hblank : ∀ c ∈ [' '], isSpace c := by
    intro c hc
    rw [List.mem_singleton.1 hc]
    decide
  exact ⟨by simp, by simp, hblank, hq, by simp, hblank, ho⟩

end Range

/-! ### The indeterminate word -/

/-- The words, in either case. -/
def IsCode (w : List Char) : Prop := w.map Char.toLower ∈ timeCodes.map String.toList

/-- No indeterminate word is at the start of a text. -/
def Uncoded (t : List Char) : Prop := ∀ w b, t = w ++ b → ¬ IsCode w

theorem timeCode_first {w : List Char} (h : IsCode w) (t : List Char) :
    (opt (.group 1 (alts (timeCodes.map word)))).first (w ++ t) = some ⟨[(1, w)], t⟩ := by
  have hcodes : ∀ v ∈ timeCodes.map String.toList, ∃ q ∈ timeCodes, v = q.toList.map Char.toLower := by decide
  obtain ⟨q, hq, heq⟩ := hcodes _ h
  have hresults : (alts (timeCodes.map word)).results (w ++ t) = [⟨[], t⟩] :=
    results_words hq (by decide) (by decide) heq _
  refine (Regex.first_alt (Regex.first_group (x := ⟨[], t⟩) (by rw [Regex.first, hresults]; rfl))).trans ?_
  simp

/-- How a word is taken. -/
theorem mem_timeCode {t : List Char} {x : Result} (h : x ∈ (Regex.group 1 (alts (timeCodes.map word))).results t) :
    ∃ v, t = v ++ x.rest ∧ x.groups = [(1, v)] ∧ IsCode v := by
  obtain ⟨v, y, hy, ht, hrest, hgroups⟩ := mem_results_group h
  have htaken := taken_words (by decide) hy
  have hcodes : timeCodes.map (fun w => w.toList.map Char.toLower) = timeCodes.map String.toList := by decide
  rw [hrest, ht, List.length_append, Nat.add_sub_cancel, List.take_left, hcodes] at htaken
  exact ⟨v, ht, by rw [hgroups, (flat_words timeCodes).groups hy], htaken⟩

/-- Without a word the group is left out. -/
theorem timeCode_first_of_uncoded {t tail : List Char} (h : Uncoded t) (htail : Continues tail) :
    (opt (.group 1 (alts (timeCodes.map word)))).first (t ++ tail) = some ⟨[], t ++ tail⟩ := by
  have hno : ∀ x, x ∉ (Regex.group 1 (alts (timeCodes.map word))).results (t ++ tail) := by
    intro x hx
    obtain ⟨v, ht, -, hv⟩ := mem_timeCode hx
    rcases List.append_eq_append_iff.1 ht with ⟨e, hleft, hright⟩ | ⟨b, hleft, -⟩
    · cases e with
      | nil => exact h t [] (List.append_nil t).symm (by rwa [hleft, List.append_nil] at hv)
      | cons e es =>
        have he : isSpace e := htail e (by rw [hright]; rfl)
        have hword : ∀ w ∈ timeCodes.map String.toList, ∀ c ∈ w, SqlText.isWord c := by
          simp [timeCodes, SqlText.isWord]
        have hmem : e ∈ v := by rw [hleft]; simp
        have hletter := hword _ hv _ (List.mem_map_of_mem hmem)
        rw [isWord_toLower] at hletter
        exact absurd (isSpace_of_isWord hletter) (by simp [he])
    · exact h v b hleft hv
  exact Regex.first_opt_of_nil (List.eq_nil_iff_forall_not_mem.2 hno)

/-! ### The whole text -/

section Whole
variable {from_ tail : List Char} {x : Result}

theorem regexMatch_timeRe_code {w : List Char} (hw : IsCode w) (hfrom : Delimited from_) (hun : Unranged from_)
    (htail : Continues tail) (hx : regexMatch (seqs [timeRange]) tail = some x) :
    regexMatch timeRe (w ++ ' ' :: (from_ ++ tail)) = some ⟨x.groups ++ [(2, from_), (1, w)], x.rest⟩ := by
  have hblank : (Regex.star isSpace).first (' ' :: (from_ ++ tail)) = some ⟨[], from_ ++ tail⟩ := by
    rw [Regex.first_star, List.dropWhile_cons, if_pos (by decide), hfrom.dropWhile]
  rw [timeRe_eq, regexMatch_seqs_of_first (timeCode_first hw _)
    (regexMatch_seqs_of_first hblank (regexMatch_timeFrom hfrom hun htail hx))]
  simp

theorem regexMatch_timeRe (hcode : Uncoded from_) (hfrom : Delimited from_) (hun : Unranged from_)
    (htail : Continues tail) (hx : regexMatch (seqs [timeRange]) tail = some x) :
    regexMatch timeRe (from_ ++ tail) = some ⟨x.groups ++ [(2, from_)], x.rest⟩ := by
  have hblank : (Regex.star isSpace).first (from_ ++ tail) = some ⟨[], from_ ++ tail⟩ := by
    rw [Regex.first_star, hfrom.dropWhile]
  rw [timeRe_eq, regexMatch_seqs_of_first (timeCode_first_of_uncoded hcode htail)
    (regexMatch_seqs_of_first hblank (regexMatch_timeFrom hfrom hun htail hx))]
  simp

end Whole

/-- What a specification is read as. -/
def Reads (spec indeterminate_ from_ to_ interval : String) : Prop :=
  ∃ ts, TimeSpecification.parse spec = .ok ts ∧ ts.indeterminate_ = indeterminate_ ∧ ts.from_ = from_ ∧
    ts.to_ = to_ ∧ ts.interval = interval

section Reads
variable {spec ind from_ range other : String} {m : Result}

/-- What the groups of a match are read as. -/
theorem reads_of_match (hm : regexMatch timeRe spec.toList = some m) (h1 : m.group 1 = ind.toList)
    (h2 : m.group 2 = from_.toList) (h4 : m.group 4 = range.toList) (h5 : m.group 5 = other.toList)
    (hrange : range = "TO" ∨ range = "FOR" ∨ range = "") :
    Reads spec (if ind = "" then "exact" else ind) from_
      (if range = "FOR" then "" else if other = "" then from_ else other)
      (if range = "FOR" then if other = "" then from_ else other else "") := by
  unfold Reads TimeSpecification.parse
  simp only [hm, h1, h2, h4, h5, String.ofList_toList]
  rcases hrange with rfl | rfl | rfl <;> exact ⟨_, rfl, rfl, rfl, rfl, rfl⟩

theorem Delimited.ne_empty {s : String} (h : Delimited s.toList) : s ≠ "" := by
  rintro rfl
  obtain ⟨u, c, mid, d, hs, -⟩ := h
  simp at hs

/-- A time that is followed by a range. -/
theorem continues_blank (t : List Char) : Continues (' ' :: t) := by
  rintro c hc
  obtain rfl := Option.some.inj hc
  decide

theorem continues_nil : Continues [] := by simp [Continues]

theorem regexMatch_timeRange_nil : regexMatch (seqs [timeRange]) [] = some ⟨[], []⟩ := by
  refine regexMatch_of_first (first_seqs_cons (Regex.first_opt_of_nil ?_) (first_seqs_nil [])) rfl
  simp [seqs, plus, Regex.results]

/-- What a text that starts in this way is matched to, with a range and without one. -/
structure Front (head : List Char) (ind from_ : String) : Prop where
  range : ∀ q o, IsQualifier q → Delimited o →
    ∃ m, regexMatch timeRe (head ++ (from_.toList ++ ' ' :: (q ++ ' ' :: o))) = some m ∧
      m.group 1 = ind.toList ∧ m.group 2 = from_.toList ∧ m.group 4 = q ∧ m.group 5 = o
  single : ∃ m, regexMatch timeRe (head ++ from_.toList) = some m ∧
    m.group 1 = ind.toList ∧ m.group 2 = from_.toList ∧ m.group 4 = [] ∧ m.group 5 = []

theorem front_code (hind : IsCode ind.toList) (hfrom : Delimited from_.toList) (hun : Unranged from_.toList) :
    Front (ind.toList ++ [' ']) ind from_ := by
  have htext : ∀ t, ind.toList ++ [' '] ++ t = ind.toList ++ ' ' :: t := by simp
  constructor
  · intro q o hq ho
    have hmatch := regexMatch_timeRe_code hind hfrom hun (continues_blank _) (isRange_blank hq ho).regexMatch
    exact ⟨_, htext _ ▸ hmatch, rfl, rfl, rfl, rfl⟩
  · have hmatch := regexMatch_timeRe_code hind hfrom hun continues_nil regexMatch_timeRange_nil
    rw [List.append_nil] at hmatch
    exact ⟨_, htext _ ▸ hmatch, rfl, rfl, rfl, rfl⟩

theorem front_uncoded (hno : Uncoded from_.toList) (hfrom : Delimited from_.toList)
    (hun : Unranged from_.toList) : Front [] "" from_ := by
  constructor
  · intro q o hq ho
    have hmatch := regexMatch_timeRe hno hfrom hun (continues_blank _) (isRange_blank hq ho).regexMatch
    exact ⟨_, hmatch, rfl, rfl, rfl, rfl⟩
  · have hmatch := regexMatch_timeRe hno hfrom hun continues_nil regexMatch_timeRange_nil
    rw [List.append_nil] at hmatch
    exact ⟨_, hmatch, rfl, rfl, rfl, rfl⟩

section Front
variable {head : List Char}

theorem Front.reads_to (h : Front head ind from_) (hother : Delimited other.toList)
    (hspec : spec.toList = head ++ (from_.toList ++ ' ' :: ("TO".toList ++ ' ' :: other.toList))) :
    Reads spec (if ind = "" then "exact" else ind) from_ other "" := by
  obtain ⟨m, hm, h1, h2, h4, h5⟩ := h.range "TO".toList _ (by simp [IsQualifier]) hother
  have hread := reads_of_match (hspec ▸ hm) h1 h2 h4 h5 (Or.inl rfl)
  have hto : "TO" ≠ "FOR" := by decide
  simpa only [if_neg hother.ne_empty, if_neg hto] using hread

theorem Front.reads_for (h : Front head ind from_) (hother : Delimited other.toList)
    (hspec : spec.toList = head ++ (from_.toList ++ ' ' :: ("FOR".toList ++ ' ' :: other.toList))) :
    Reads spec (if ind = "" then "exact" else ind) from_ "" other := by
  obtain ⟨m, hm, h1, h2, h4, h5⟩ := h.range "FOR".toList _ (by simp [IsQualifier]) hother
  have hread := reads_of_match (hspec ▸ hm) h1 h2 h4 h5 (Or.inr (Or.inl rfl))
  simpa only [if_neg hother.ne_empty, if_true] using hread

theorem Front.reads_single (h : Front head ind from_) (hspec : spec.toList = head ++ from_.toList) :
    Reads spec (if ind = "" then "exact" else ind) from_ from_ "" := by
  obtain ⟨m, hm, h1, h2, h4, h5⟩ := h.single
  have hrange : m.group 4 = "".toList := h4
  have hother : m.group 5 = "".toList := h5
  have hread := reads_of_match (hspec ▸ hm) h1 h2 hrange hother (Or.inr (Or.inr rfl))
  have hfor : "" ≠ "FOR" := by decide
  simpa only [if_neg hfor, if_true] using hread

end Front

/-- A specification is split into its word, its time, and what follows `TO` or `FOR`; without a word it is
    exact, without a range it is one time. -/
theorem reads_specification (hind : ind ∈ timeCodes) (hfrom : Delimited from_.toList)
    (hother : Delimited other.toList) (hun : Unranged from_.toList) :
    Reads (ind ++ " " ++ from_ ++ " TO " ++ other) ind from_ other "" ∧
      Reads (ind ++ " " ++ from_ ++ " FOR " ++ other) ind from_ "" other ∧
      Reads (ind ++ " " ++ from_) ind from_ from_ "" ∧
      (Uncoded from_.toList → Reads (from_ ++ " TO " ++ other) "exact" from_ other "" ∧
        Reads (from_ ++ " FOR " ++ other) "exact" from_ "" other ∧ Reads from_ "exact" from_ from_ "") := by
  have hcode : IsCode ind.toList := by
    have hcodes : ∀ w ∈ timeCodes, IsCode w.toList := by simp [timeCodes, IsCode]
    exact hcodes ind hind
  have hne : ind ≠ "" := by
    rintro rfl
    exact absurd hind (by decide)
  have hfront := front_code hcode hfrom hun
  refine ⟨?_, ?_, ?_, fun hno => ?_⟩
  · have hread : Reads (ind ++ " " ++ from_ ++ " TO " ++ other) _ from_ other "" :=
      hfront.reads_to hother (by simp)
    rwa [if_neg hne] at hread
  · have hread : Reads (ind ++ " " ++ from_ ++ " FOR " ++ other) _ from_ "" other :=
      hfront.reads_for hother (by simp)
    rwa [if_neg hne] at hread
  · have hread : Reads (ind ++ " " ++ from_) _ from_ from_ "" := hfront.reads_single (by simp)
    rwa [if_neg hne] at hread
  · have hplain := front_uncoded hno hfrom hun
    have hto : Reads (from_ ++ " TO " ++ other) _ from_ other "" := hplain.reads_to hother (by simp)
    have hfor : Reads (from_ ++ " FOR " ++ other) _ from_ "" other := hplain.reads_for hother (by simp)
    exact ⟨hto, hfor, hplain.reads_single rfl⟩

/-- A time of one word has no qualifier in it. -/
theorem unranged_of_word {t : List Char} (h : ∀ c ∈ t, isSpace c = false) : Unranged t := by
  rintro a s w b rfl hs
  exact absurd hs (by simp [h s (by simp)])

theorem reads_specification_inside :
    Reads "inside 2010-01-01 TO -infinity" "inside" "2010-01-01" "-infinity" "" ∧
      Reads "2010-01-01 FOR -infinity" "exact" "2010-01-01" "" "-infinity" := by
  have hfrom : Delimited "2010-01-01".toList :=
    ⟨[], '2', "010-01-0".toList, '1', by decide, Or.inl rfl, by decide, by decide⟩
  have hother : Delimited "-infinity".toList :=
    ⟨['-'], 'i', "nfinit".toList, 'y', by decide, Or.inr rfl, by decide, by decide⟩
  have hlist : "2010-01-01".toList = '2' :: "010-01-01".toList := by decide
  have hun : Unranged "2010-01-01".toList := unranged_of_word (by simp [isSpace])
  have hno : Uncoded "2010-01-01".toList := by
    rintro w b hw hcode
    cases w with
    | nil => simp [IsCode, timeCodes] at hcode
    | cons c w =>
      rw [hlist] at hw
      obtain ⟨rfl, -⟩ := List.cons.inj hw
      simp [IsCode, timeCodes] at hcode
  have hinside : "inside" ∈ timeCodes := by decide
  obtain ⟨hto, -, -, hplain⟩ := reads_specification hinside hfrom hother hun
  exact ⟨hto, (hplain hno).2.1⟩

end Reads

end Wdb.Query
