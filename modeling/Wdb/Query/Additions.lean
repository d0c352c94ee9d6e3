import Wdb.Query.DataVersions

/-! What the steps of `build_query` add to a query, locations apart.

    Every step adds closed texts, so that a query is read as its clauses, and the strings of users that
    are spliced or stand in the code are those that the step for an argument has put there. -/

namespace Wdb.Query
open SqlText SqlTypes Traverse Wdb.Read

namespace Builder

/-! ### Texts in brackets -/

section Texts
variable {s opening closing sep : String} {t u : Text} {d : ℕ}

/-- A closed text of the program. -/
def fixed (s : String) : Bool := spans 0 [.code s] 0 && decide ((Part.code s).tokens ≠ [])

theorem item_code (h : fixed s) : Item (code s) := by
  obtain ⟨hspans, hne⟩ := Bool.and_eq_true_iff.1 h
  exact ⟨spans_of_blank hspans, by rw [meant_code]; exact of_decide_eq_true hne⟩

theorem fixed_text (f : FixedText) : fixed f.text :=
  Bool.and_eq_true_iff.2 ⟨f.closed, decide_eq_true f.ne⟩

/-- An opening bracket, with the text before it, and a closing one. -/
structure Brackets (opening closing : String) : Prop where
  opens : spans 0 [.code opening] 1
  leaves : (scan .code opening.toList).2 = .code
  closes : spans 1 [.code closing] 0
  breaks : closing.toList.head?.any breaks

/-- A text in brackets is closed. -/
theorem Brackets.item (h : Brackets opening closing) (ht : Spans 1 t 1) :
    Item (code opening ++ t ++ code closing) := by
  have hopen : Spans 0 ([] ++ code opening) 1 := spans_of_blank h.opens
  have hclose : Spans 1 (code closing) 0 := spans_of_blank h.closes
  refine ⟨(hopen.append_code h.leaves ht).append_begins hclose ⟨closing, rfl, h.breaks⟩, fun hnil => ?_⟩
  rw [meant_append] at hnil
  have hdepth := hclose.depth
  rw [(List.append_eq_nil_iff.1 hnil).2] at hdepth
  cases hdepth

theorem brackets : Brackets "(" ")" := ⟨by decide, by decide, by decide, by decide⟩

theorem Keyword.spans_append (h : Keyword sep) (hu : Spans 1 u 1) :
    Spans 1 (code sep ++ u) 1 ∧ Begins (code sep ++ u) :=
  ⟨Spans.append_code (a := []) (spans_of_blank h.spans) h.leaves hu, sep, rfl, h.breaks⟩

theorem Keyword.append (h : Keyword sep) (ht : Spans 1 t 1) (hu : Spans 1 u 1) :
    Spans 1 (t ++ code sep ++ u) 1 := by
  rw [List.append_assoc]
  exact ht.append_begins (h.spans_append hu).1 (h.spans_append hu).2

/-- Alternatives in brackets. -/
theorem Brackets.alternatives {α : Type} {g : α → Text} {l : List α} (h : Brackets opening closing)
    (hsep : Keyword sep) (ht : Spans 1 t 1) (hg : ∀ x ∈ l, Spans 1 (g x) 1) :
    Item (code opening ++ t ++ l.flatMap (fun x => code sep ++ g x) ++ code closing) := by
  rw [List.append_assoc (code opening)]
  exact h.item (ht.flatMap fun x hx => hsep.spans_append (hg x hx))

theorem spans_spliced (v : String) : Spans d (spliced v) d := by
  refine spans_of_blank ?_
  simp [spans, Part.tokens, depth, bracket, Part.leaves, Mode.ends, Part.Quiet]

theorem spans_quoted (v : String) : Spans d (quoted v) d := by
  refine spans_of_blank ?_
  simp [spans, Part.tokens, depth, bracket, Part.leaves, Mode.ends, Part.Quiet]

end Texts

/-! ### What a step adds -/

/-- A step adds closed texts, with these pieces of users. -/
structure Extends (b b' : Builder) (t : Text) : Prop where
  sound : b.Sound → b'.Sound
  has : ∀ {x}, Risky x → (b'.Has x ↔ b.Has x ∨ x ∈ t)

/-- A step that leaves the select list, the groups and the order as they are. -/
structure Narrows (b b' : Builder) (t : Text) : Prop extends Extends b b' t where
  what_ : b'.what_ = b.what_
  groupBy_ : b'.groupBy_ = b.groupBy_
  orderBy_ : b'.orderBy_ = b.orderBy_

/-- A step that makes a new query, without a select list, groups and an order. -/
structure Replaces (b b' : Builder) (t : Text) : Prop extends Extends b b' t where
  what_ : b'.what_ = []
  groupBy_ : b'.groupBy_ = []
  orderBy_ : b'.orderBy_ = []

section Steps
variable {b b' b'' statement : Builder} {t u : Text} {alias_ : String}

theorem Extends.refl (b : Builder) : Extends b b [] := ⟨id, by simp⟩

theorem Narrows.refl (b : Builder) : Narrows b b [] := ⟨Extends.refl b, rfl, rfl, rfl⟩

theorem Extends.trans (h : Extends b b' t) (h' : Extends b' b'' u) : Extends b b'' (t ++ u) :=
  ⟨fun hb => h'.sound (h.sound hb), fun hx => by rw [h'.has hx, h.has hx, List.mem_append, or_assoc]⟩

theorem Narrows.trans (h : Narrows b b' t) (h' : Narrows b' b'' u) : Narrows b b'' (t ++ u) :=
  ⟨h.toExtends.trans h'.toExtends, h'.what_.trans h.what_, h'.groupBy_.trans h.groupBy_,
    h'.orderBy_.trans h.orderBy_⟩

theorem Replaces.trans (h : Replaces b b' t) (h' : Narrows b' b'' u) : Replaces b b'' (t ++ u) :=
  ⟨h.toExtends.trans h'.toExtends, h'.what_.trans h.what_, h'.groupBy_.trans h.groupBy_,
    h'.orderBy_.trans h.orderBy_⟩

/-- Only the pieces of users count. -/
theorem Extends.congr (h : Extends b b' t) (htu : ∀ x, Risky x → (x ∈ t ↔ x ∈ u)) : Extends b b' u :=
  ⟨h.sound, fun hx => by rw [h.has hx, htu _ hx]⟩

theorem Narrows.congr (h : Narrows b b' t) (htu : ∀ x, Risky x → (x ∈ t ↔ x ∈ u)) : Narrows b b' u :=
  { h with toExtends := h.toExtends.congr htu }

theorem Extends.quiet (h : Extends b b' t) (ht : ∀ x ∈ t, ¬ Risky x) : Extends b b' [] :=
  h.congr fun x hx => iff_of_false (fun hmem => ht x hmem hx) List.not_mem_nil

theorem Narrows.quiet (h : Narrows b b' t) (ht : ∀ x ∈ t, ¬ Risky x) : Narrows b b' [] :=
  { h with toExtends := h.toExtends.quiet ht }

theorem narrows_from (ht : Item t) : Narrows b (b.from' t) t :=
  ⟨⟨fun hb => hb.from' ht, fun _ => has_from'⟩, rfl, rfl, rfl⟩

theorem narrows_where (ht : Item t) : Narrows b (b.where' t) t :=
  ⟨⟨fun hb => hb.where' ht, fun _ => has_where'⟩, rfl, rfl, rfl⟩

/-! Steps that add a text of the program. -/

section Fixed
variable {s : String}

theorem Extends.code (h : Extends b b' t) (h' : Extends b' b'' (code s)) : Extends b b'' t :=
  (h.trans h').congr fun x hx => by rw [List.mem_append, or_iff_left (not_risky_code hx)]

theorem Extends.what_code (h : Extends b b' t) (hs : fixed s) : Extends b (b'.what (SqlText.code s)) t :=
  h.code ⟨fun hb => hb.what (item_code hs), fun _ => has_what⟩

theorem Extends.from_code (h : Extends b b' t) (hs : fixed s) : Extends b (b'.from' (SqlText.code s)) t :=
  h.code (narrows_from (item_code hs)).toExtends

theorem Extends.where_code (h : Extends b b' t) (hs : fixed s) : Extends b (b'.where' (SqlText.code s)) t :=
  h.code (narrows_where (item_code hs)).toExtends

theorem Extends.groupBy_code (h : Extends b b' t) (hs : fixed s) :
    Extends b (b'.groupBy (SqlText.code s)) t :=
  h.code ⟨fun hb => hb.groupBy (item_code hs), fun _ => has_groupBy⟩

theorem Extends.orderBy_code (h : Extends b b' t) (hs : fixed s) :
    Extends b (b'.orderBy (SqlText.code s)) t :=
  h.code ⟨fun hb => hb.orderBy (item_code hs), fun _ => has_orderBy⟩

theorem Narrows.from_code (h : Narrows b b' t) (hs : fixed s) : Narrows b (b'.from' (SqlText.code s)) t :=
  ⟨h.toExtends.from_code hs, h.what_, h.groupBy_, h.orderBy_⟩

theorem Narrows.where_code (h : Narrows b b' t) (hs : fixed s) : Narrows b (b'.where' (SqlText.code s)) t :=
  ⟨h.toExtends.where_code hs, h.what_, h.groupBy_, h.orderBy_⟩

end Fixed

theorem sound_empty : Sound {} := ⟨by simp, by simp, by simp, by simp, by simp, by simp⟩

theorem has_empty {x : Piece} : ¬ Has {} x := by simp [Has, StandsIn]

section With
variable (hspans : spans 0 [.code (alias_ ++ " AS (")] 1 ∧ (scan .code (alias_ ++ " AS (").toList).2 = .code)
include hspans

/-- A query under a name, which is put together from nothing. -/
theorem narrows_with (hs : Extends {} statement t) (h : b.with' statement alias_ = .ok b') :
    Narrows b b' t := by
  refine ⟨⟨fun hb => hb.with' (hs.sound sound_empty) hspans h, fun hx => ?_⟩, ?_, ?_, ?_⟩
  · rw [has_with' hx h, hs.has hx, or_iff_right has_empty]
  all_goals
    obtain ⟨query, -, rfl⟩ := with'_eq_ok h
    rfl

/-- A new query on what the old one selects. -/
theorem replaces_with (h : ({} : Builder).with' b alias_ = .ok b') : Replaces b b' [] := by
  refine ⟨⟨fun hb => sound_empty.with' hb hspans h, fun hx => ?_⟩, ?_, ?_, ?_⟩
  · rw [has_with' hx h, or_iff_right has_empty]
    simp
  all_goals
    obtain ⟨query, -, rfl⟩ := with'_eq_ok h
    rfl

end With

end Steps

end Builder

open Builder

/-! ### Data providers and parameters -/

section Names
variable {b b' : Builder} {x : Piece} {v : String}

theorem not_risky_quoted (h : Risky x) : x ∉ quoted v := by
  intro hx
  rw [List.mem_singleton.1 hx] at h
  exact h

theorem quiet_quoted (v : String) : ∀ x ∈ quoted v, ¬ Risky x := fun _ hmem hx => not_risky_quoted hx hmem

/-- Alternatives whose strings are quoted have no piece that is risky. -/
theorem quiet_alternatives {α : Type} {g : α → Text} {l : List α} {opening sep closing : String} {t : Text}
    (ht : ∀ x ∈ t, ¬ Risky x) (hg : ∀ y ∈ l, ∀ x ∈ g y, ¬ Risky x) :
    ∀ x ∈ code opening ++ t ++ l.flatMap (fun y => code sep ++ g y) ++ code closing, ¬ Risky x := by
  intro x hmem hx
  simp only [List.mem_append, List.mem_flatMap, not_risky_code hx, or_false, false_or] at hmem
  rcases hmem with hmem | ⟨y, hy, hmem⟩
  · exact ht x hmem hx
  · exact hg y hy x hmem hx

theorem extends_dataproviderTable (name : String) (names : List String) :
    Extends {} (dataproviderTable name names) [] := by
  have hbrackets : Brackets "(source.dataprovidername = " ")" := ⟨by decide, by decide, by decide, by decide⟩
  have hor : Keyword " OR source.dataprovidername = " := ⟨by decide, by decide, by decide⟩
  have hnames := hbrackets.alternatives hor (spans_quoted (lower name)) (l := names)
    (g := fun name => quote (lower name)) fun n _ => spans_quoted (lower n)
  have hwhere : ∀ b : Builder, Extends b (b.where' _) [] := fun b =>
    (narrows_where hnames).toExtends.quiet (quiet_alternatives (quiet_quoted _) fun n _ => quiet_quoted (lower n))
  exact ((((Extends.refl {}).what_code (by decide)).from_code (by decide) |>.from_code (by decide)).trans
    (hwhere _)).where_code (by decide) |>.where_code (by decide)

theorem narrows_addDataProviderQuery {dataProvider : Option (List String)}
    (h : addDataProviderQuery b dataProvider = .ok b') : Narrows b b' [] := by
  cases dataProvider with
  | none =>
    obtain rfl := Except.ok.inj h
    exact Narrows.refl b
  | some names =>
    cases names with
    | nil =>
      obtain rfl := Except.ok.inj h
      exact (Narrows.refl b).where_code (by decide)
    | cons name names =>
      obtain ⟨b₁, hwith, hb'⟩ := of_bind_eq_ok h
      obtain rfl := Except.ok.inj hb'
      have htable := narrows_with (by decide) (extends_dataproviderTable name names) hwith
      exact (htable.from_code (by decide)).where_code (by decide)

theorem narrows_addParameterQuery {parameter : Option (List String)}
    (h : addParameterQuery b parameter = .ok b') : Narrows b b' [] := by
  cases parameter with
  | none =>
    obtain rfl := Except.ok.inj h
    exact Narrows.refl b
  | some names =>
    cases names with
    | nil =>
      obtain rfl := Except.ok.inj h
      exact (Narrows.refl b).where_code (by decide)
    | cons name names =>
      have hbrackets : Brackets "(valueparametername LIKE " ")" := ⟨by decide, by decide, by decide, by decide⟩
      have hor : Keyword " OR valueparametername LIKE " := ⟨by decide, by decide, by decide⟩
      obtain rfl := addParameterQuery_cons h
      refine (narrows_where ?_).quiet (quiet_alternatives (quiet_quoted _) fun v _ => quiet_quoted v)
      exact hbrackets.alternatives hor (spans_quoted _) fun v _ => spans_quoted v

end Names

/-! ### Levels and versions -/

section Levels
variable {b b' : Builder} {t : Text}

/-- The bounds of a level follow any text. -/
theorem spans_levelRange {lvl : LevelSpecification} (h : lvl.indeterminate_ ∈ levelCodes) (ht : Spans 1 t 1) :
    Spans 1 (t ++ levelRange lvl) 1 := by
  have hnumber : ∀ {u : Text} {s : String} (q : ℚ), Keyword s → Spans 1 u 1 →
      Spans 1 (u ++ code s ++ code (showFloat q)) 1 := fun q hs hu => hs.append hu (spans_showFloat q 0)
  have hpair : ∀ {r s : String}, Keyword r → Keyword s → Spans 1 (t ++ (code r ++ code (showFloat lvl.from_) ++
      code s ++ code (showFloat lvl.to_))) 1 := by
    intro r s hr hs
    simpa only [List.append_assoc] using hnumber lvl.to_ hs (hnumber lvl.from_ hr ht)
  unfold levelRange
  split_ifs with hexact hinside hbelow habove hany
  · exact hpair ⟨by decide, by decide, by decide⟩ ⟨by decide, by decide, by decide⟩
  · exact hpair ⟨by decide, by decide, by decide⟩ ⟨by decide, by decide, by decide⟩
  · rw [← List.append_assoc]
    exact hnumber _ ⟨by decide, by decide, by decide⟩ ht
  · rw [← List.append_assoc]
    exact hnumber _ ⟨by decide, by decide, by decide⟩ ht
  · rwa [List.append_nil]
  · simp [levelCodes, hexact, hinside, hbelow, habove, hany] at h

theorem quiet_levelRange {lvl : LevelSpecification} (h : lvl.indeterminate_ ∈ levelCodes) :
    ∀ x ∈ levelRange lvl, ¬ Risky x := by
  intro x hmem hx
  unfold levelRange at hmem
  split_ifs at hmem with hexact hinside hbelow habove hany
  · simp [not_risky_code hx] at hmem
  · simp [not_risky_code hx] at hmem
  · simp [not_risky_code hx] at hmem
  · simp [not_risky_code hx] at hmem
  · cases hmem
  · simp [levelCodes, hexact, hinside, hbelow, habove, hany] at h

theorem narrows_addLevelQuery {level : Option String} (h : addLevelQuery b level = .ok b') :
    Narrows b b' [] := by
  cases level with
  | none =>
    obtain rfl := Except.ok.inj h
    exact Narrows.refl b
  | some levelSpec =>
    obtain ⟨lvl, hlvl, h⟩ := of_bind_eq_ok h
    obtain rfl := Except.ok.inj h
    have hcode := LevelSpecification.parse_indeterminate hlvl
    have hparameter : Spans 1 (code "levelparametername LIKE " ++ lquote lvl.parameter_) 1 :=
      Spans.append_code (a := []) (spans_of_blank (by decide)) (by decide) (spans_quoted _)
    have hitem := brackets.item (spans_levelRange hcode hparameter)
    rw [← List.append_assoc, ← List.append_assoc] at hitem
    refine (narrows_where hitem).quiet fun x hmem hx => ?_
    simp only [List.mem_append, not_risky_code hx, or_false, false_or] at hmem
    rcases hmem with hmem | hmem
    · exact not_risky_quoted hx hmem
    · exact quiet_levelRange hcode x hmem hx

/-- The numbers of versions are no strings of users. -/
theorem quiet_versionsText (ps ks : List ℤ) : ∀ x ∈ versionsText ps ks, ¬ Risky x := by
  intro x hmem hx
  have hpositive : x ∉ positiveVersions ps := by
    cases ps <;> simp [positiveVersions, not_risky_code hx]
  have hnegative : x ∉ negativeVersions ks := by
    cases ks <;> simp [negativeVersions, not_risky_code hx]
  simp only [versionsText, List.mem_append, not_risky_code hx, hpositive, hnegative, or_false, false_or] at hmem
  split at hmem
  · exact not_risky_code hx hmem
  · cases hmem

theorem item_versionsText (ps : List ℤ) {ks : List ℤ} (h : ∀ k ∈ ks, 0 ≤ k) : Item (versionsText ps ks) := by
  refine ⟨spans_versionsText ps h, ?_⟩
  have hclose : meant (code ") ") ≠ [] := by decide
  rw [versionsText, meant_append]
  exact List.append_ne_nil_of_right_ne_nil _ hclose

theorem negated_nonneg {ns ks : List ℤ} (h : (ns.filter fun n => n < 0).mapM negate = .ok ks) :
    ∀ k ∈ ks, 0 ≤ k := by
  intro k hk
  obtain ⟨n, hn, hnegate⟩ := (of_mapM_eq_ok h).2 k hk
  have hneg : n < 0 := of_decide_eq_true (List.mem_filter.1 hn).2
  unfold negate at hnegate
  cases hint : MachineInt.int (-n) with
  | none => simp [hint] at hnegate
  | some m =>
    rw [hint] at hnegate
    obtain rfl := Except.ok.inj hnegate
    obtain ⟨rfl, -, -⟩ := MachineInt.of_int_eq_some hint
    omega

theorem narrows_addDataVersionQuery {dataVersion : Option (List ℤ)}
    (h : addDataVersionQuery b dataVersion = .ok b') : Narrows b b' [] := by
  cases dataVersion with
  | none =>
    obtain rfl := Except.ok.inj h
    exact Narrows.refl b
  | some versions =>
    cases versions with
    | nil =>
      obtain rfl := Except.ok.inj h
      exact (Narrows.refl b).where_code (by decide)
    | cons n ns =>
      rw [addDataVersionQuery_eq] at h
      cases hks : ((n :: ns).filter fun n => n < 0).mapM negate with
      | error e => simp [hks, Except.map] at h
      | ok ks =>
        rw [hks] at h
        obtain rfl := Except.ok.inj h
        exact (narrows_where (item_versionsText _ (negated_nonneg hks))).quiet (quiet_versionsText _ ks)

end Levels

/-! ### Times -/

section Times
variable {b b' : Builder} {ts : TimeSpecification} {opening sep : String} {t u : Text}

/-- The code before a comparison. -/
structure Leads (opening : String) : Prop where
  spans : spans 1 [.code opening] 1
  leaves : (scan .code opening.toList).2 = .code

theorem Leads.append (h : Leads opening) (ht : Spans 1 t 1) : Spans 1 (code opening ++ t) 1 :=
  Spans.append_code (a := []) (spans_of_blank h.spans) h.leaves ht

/-- Two comparisons. -/
theorem Leads.pair (h : Leads opening) (hsep : Keyword sep) (ht : Spans 1 t 1) (hu : Spans 1 u 1) :
    Spans 1 (code opening ++ t ++ code sep ++ u) 1 := hsep.append (h.append ht) hu

theorem keyword_zone : Keyword "::timestamp with time zone+" := ⟨by decide, by decide, by decide⟩

/-- A word whose letters are those of a time code. -/
theorem spans_bare {w : String} (h : w.toList.map Char.toLower ∈ timeCodes.map String.toList) :
    Spans 1 (bare w) 1 := by
  have hlower : ∀ c ∈ w.toList, c.toLower.isLower := by
    intro c hc
    have hall : ∀ v ∈ timeCodes.map String.toList, ∀ d ∈ v, d.isLower := by simp [timeCodes]
    exact hall _ h _ (List.mem_map_of_mem hc)
  have hne : ∀ c ∈ w.toList, c ≠ '\'' ∧ c ≠ '-' ∧ c ≠ '(' ∧ c ≠ ')' := by
    intro c hc
    refine ⟨?_, ?_, ?_, ?_⟩ <;>
    · rintro rfl
      exact absurd (hlower _ hc) (by decide)
  refine Spans.bare (spans_plain ?_ fun c hc => (hne c hc).2.2)
  generalize w.toList = cs at hne
  induction cs with
  | nil => rfl
  | cons c cs ih =>
    have hc := hne c List.mem_cons_self
    simp [plain, hc.1, hc.2.1, ih fun d hd => hne d (List.mem_cons_of_mem c hd)]

theorem spans_referenceTime (h : ts.indeterminate_.toList.map Char.toLower ∈ timeCodes.map String.toList) :
    Spans 1 (referenceTime ts) 1 := by
  have hfrom : Spans 1 (spliced ts.from_) 1 := spans_spliced ts.from_
  have hto : Spans 1 (if ts.durationInsteadOfTo_ then
      spliced ts.from_ ++ code "::timestamp with time zone+" ++ spliced ts.interval else spliced ts.to_) 1 := by
    split
    · exact keyword_zone.append hfrom (spans_spliced ts.interval)
    · exact spans_spliced ts.to_
  unfold referenceTime
  extract_lets timeFrom timeTo
  split_ifs
  · exact Leads.append ⟨by decide, by decide⟩ hfrom
  · exact Leads.pair ⟨by decide, by decide⟩ ⟨by decide, by decide, by decide⟩ hfrom hto
  · exact Leads.pair ⟨by decide, by decide⟩ ⟨by decide, by decide, by decide⟩ hfrom hto
  · exact Leads.pair ⟨by decide, by decide⟩ ⟨by decide, by decide, by decide⟩ hfrom hto
  · exact Leads.append ⟨by decide, by decide⟩ hfrom
  · exact Leads.append ⟨by decide, by decide⟩ hto
  · exact spans_of_blank (by decide)
  · exact spans_bare h

theorem spans_quoteValidTime (v : String) : Spans 1 (quoteValidTime v) 1 := by
  unfold quoteValidTime isSpecialValue
  split
  · next h =>
    simp only [Bool.or_eq_true, decide_eq_true_eq] at h
    rcases h with rfl | rfl <;> exact spans_of_blank (by decide)
  · exact spans_spliced v

theorem spans_validTime {q : Text} (h : validTime ts = .ok q) : Spans 1 q 1 := by
  have hfrom := spans_quoteValidTime ts.from_
  have hto : Spans 1 (if ts.durationInsteadOfTo_ then quoteValidTime ts.from_ ++
      code "::timestamp with time zone+" ++ spliced ts.interval else quoteValidTime ts.to_) 1 := by
    split
    · exact keyword_zone.append hfrom (spans_spliced ts.interval)
    · exact spans_quoteValidTime ts.to_
  unfold validTime at h
  extract_lets timeFrom timeTo at h
  split_ifs at h <;> obtain rfl := Except.ok.inj h
  · exact Leads.pair ⟨by decide, by decide⟩ ⟨by decide, by decide, by decide⟩ hfrom hto
  · exact Leads.pair ⟨by decide, by decide⟩ ⟨by decide, by decide, by decide⟩ hfrom hto
  · exact Leads.pair ⟨by decide, by decide⟩ ⟨by decide, by decide, by decide⟩ hfrom hto
  · exact Leads.append ⟨by decide, by decide⟩ hfrom
  · exact Leads.append ⟨by decide, by decide⟩ hto
  · exact spans_of_blank (by decide)

/-- What is written for a time argument, once it is read. -/
theorem narrows_addReferenceTimeQuery {spec : Option String} (h : addReferenceTimeQuery b spec = .ok b') :
    Narrows b b' ((spec.bind fun spec => (TimeSpecification.parse spec).toOption).elim [] referenceTime) := by
  cases spec with
  | none =>
    obtain rfl := Except.ok.inj h
    exact Narrows.refl b
  | some timeSpec =>
    obtain ⟨ts, hts, h⟩ := of_bind_eq_ok h
    obtain rfl := Except.ok.inj h
    have hbrackets : Brackets "(" ") " := ⟨by decide, by decide, by decide, by decide⟩
    have hitem := hbrackets.item (spans_referenceTime (TimeSpecification.parse_indeterminate hts))
    refine (narrows_where hitem).congr fun x hx => ?_
    simp [hts, Except.toOption, not_risky_code hx]

theorem narrows_addValidTimeQuery {spec : Option String} (h : addValidTimeQuery b spec = .ok b') :
    Narrows b b' ((spec.bind fun spec => (TimeSpecification.parse spec).toOption).elim [] fun ts =>
      (validTime ts).toOption.getD []) := by
  cases spec with
  | none =>
    obtain rfl := Except.ok.inj h
    exact Narrows.refl b
  | some timeSpec =>
    obtain ⟨ts, hts, h⟩ := of_bind_eq_ok h
    obtain ⟨q, hq, h⟩ := of_bind_eq_ok h
    obtain rfl := Except.ok.inj h
    refine (narrows_where (brackets.item (spans_validTime hq))).congr fun x hx => ?_
    simp [hts, hq, Except.toOption, not_risky_code hx]

end Times

end Wdb.Query
