import Wdb.Lib.Runs

/-! The cache of query plans.

    The table holds pointers: its keys are copies of query texts, its values are saved plans. Clearing it frees
    both while the table still refers to them, and empties it afterwards. A pointer is a number that is never
    given out again;
    reading or freeing what is not allocated is undefined (`none`). -/

namespace Wdb.PlanCache
open Runs

/-! ### Memory and the table -/

/-- What is allocated: texts, and saved plans with the texts they were prepared from. `freed` is what
    `SPI_freeplan` was called with. -/
structure Memory where
  strings : ℕ → Option String
  plans : ℕ → Option String
  next : ℕ
  freed : List ℕ

/-- The keys and values of a `GHashTable`. -/
abbrev Table := List (ℕ × ℕ)

/-- The memory of a backend, and `planList`, which is `NULL` at first. -/
structure State where
  memory : Memory
  planList : Option Table

def State.initial : State := ⟨⟨fun _ => none, fun _ => none, 0, []⟩, none⟩

namespace Memory
variable (m : Memory)

/-- `strdup`. -/
def strdup (text : String) : ℕ × Memory :=
  (m.next, { m with strings := Function.update m.strings m.next (some text), next := m.next + 1 })

/-- `g_free`. -/
def free (key : ℕ) : Option Memory :=
  (m.strings key).map fun _ => { m with strings := Function.update m.strings key none }

/-- `SPI_saveplan(SPI_prepare(query, 0, NULL))`. -/
def savePlan (query : String) : ℕ × Memory :=
  (m.next, { m with plans := Function.update m.plans m.next (some query), next := m.next + 1 })

/-- `SPI_freeplan`. -/
def freePlan (plan : ℕ) : Option Memory :=
  (m.plans plan).map fun _ => { m with plans := Function.update m.plans plan none, freed := plan :: m.freed }

/-- `g_hash_table_lookup`: the keys are read. -/
def lookup (query : String) : Table → Option (Option ℕ)
  | [] => some none
  | (key, plan) :: t => (m.strings key).bind fun text => if text = query then some (some plan) else lookup query t

/-- `g_hash_table_insert`: an equal key is kept. -/
def insert (key plan : ℕ) : Table → Option Table
  | [] => some [(key, plan)]
  | (k, p) :: t => (m.strings k).bind fun text => (m.strings key).bind fun new =>
    if text = new then some ((k, plan) :: t) else (insert key plan t).map ((k, p) :: ·)

/-- `clearPlanTableEntry`. -/
def clearPlanTableEntry (entry : ℕ × ℕ) : Option Memory :=
  (m.free entry.1).bind fun m => m.freePlan entry.2

end Memory

/-! ### The calls -/

def maxCachedPlanSize : ℕ := 32

/-- `clearSpiPlanCache`. -/
def clearSpiPlanCache (s : State) : Option State :=
  match s.planList with
  | none => some s
  | some t => (t.foldlM Memory.clearPlanTableEntry s.memory).map fun m => ⟨m, some []⟩

/-- A full table is cleared. -/
def makeRoom (s : State) : Option State :=
  if maxCachedPlanSize ≤ (s.planList.getD []).length then clearSpiPlanCache s else some s

/-- A plan is prepared, and is put into the table under a copy of its text. -/
def insertPlan (s : State) (query : String) : Option (Option ℕ × State) :=
  let (plan, m) := s.memory.savePlan query
  let (key, m) := m.strdup query
  (m.insert key plan (s.planList.getD [])).map fun t => (some plan, ⟨m, some t⟩)

/-- `getSpiPlan`, with the plan that is returned. `prepares` is whether the text can be prepared; if not, an error
    is raised and there is no plan. -/
def getSpiPlan (s : State) (query : String) (prepares : Bool) : Option (Option ℕ × State) := do
  let s : State := { s with planList := some (s.planList.getD []) }
  match ← s.memory.lookup query (s.planList.getD []) with
  | some plan => return (some plan, s)
  | none =>
    let s ← makeRoom s
    if prepares then insertPlan s query else return (none, s)

inductive Call where
  | getSpiPlan (query : String) (prepares : Bool)
  | clearSpiPlanCache

def step (s : State) : Call → Option State
  | .getSpiPlan query prepares => (getSpiPlan s query prepares).map (·.2)
  | .clearSpiPlanCache => clearSpiPlanCache s

/-! ### What always holds -/

/-- The entries of the cache. -/
def State.entries (s : State) : Table := s.planList.getD []

/-- The text of a key. -/
def Memory.text (m : Memory) (entry : ℕ × ℕ) : Option String := m.strings entry.1

/-- Every entry owns its key and its plan. -/
structure Owned (m : Memory) (t : Table) : Prop where
  entry : ∀ e ∈ t, ∃ query, m.strings e.1 = some query ∧ m.plans e.2 = some query
  keys : (t.map Prod.fst).Nodup
  plans : (t.map Prod.snd).Nodup
  texts : (t.map m.text).Nodup
  fresh : ∀ h, m.next ≤ h → m.strings h = none ∧ m.plans h = none
  freed : m.freed.Nodup
  freed_plans : ∀ h ∈ m.freed, h < m.next ∧ m.plans h = none

structure Sound (s : State) : Prop where
  size : s.entries.length ≤ maxCachedPlanSize
  owned : Owned s.memory s.entries

/-! ### One entry -/

section Memory
variable {m : Memory} {t : Table} {query : String}

/-- What an entry owns has been given out. -/
theorem Owned.lt (h : Owned m t) {e : ℕ × ℕ} (he : e ∈ t) : e.1 < m.next ∧ e.2 < m.next := by
  obtain ⟨text, hstring, hplan⟩ := h.entry e he
  constructor
  · by_contra hle
    rw [(h.fresh e.1 (not_lt.1 hle)).1] at hstring
    cases hstring
  · by_contra hle
    rw [(h.fresh e.2 (not_lt.1 hle)).2] at hplan
    cases hplan

/-- A lookup finds a plan of the text, or there is no entry of it. -/
theorem Owned.lookup (h : Owned m t) (query : String) : ∃ r, m.lookup query t = some r ∧
    (∀ plan, r = some plan → m.plans plan = some query) ∧ (r = none → some query ∉ t.map m.text) := by
  have hentry := h.entry
  clear h
  induction t with
  | nil => exact ⟨none, rfl, by simp, by simp⟩
  | cons e t ih =>
    obtain ⟨text, hstring, hplan⟩ := hentry e List.mem_cons_self
    by_cases heq : text = query
    · refine ⟨some e.2, ?_, fun plan hp => ?_, by simp⟩
      · rw [Memory.lookup, hstring, Option.bind_some, if_pos heq]
      · rw [← Option.some.inj hp, hplan, heq]
    · obtain ⟨r, hr, hfound, hnone⟩ := ih fun x hx => hentry x (List.mem_cons_of_mem e hx)
      refine ⟨r, ?_, hfound, fun hn => ?_⟩
      · rw [Memory.lookup, hstring, Option.bind_some, if_neg heq, hr]
      · have htext : m.text e ≠ some query := by
          rw [Memory.text, hstring]
          exact fun hq => heq (Option.some.inj hq)
        rw [List.map_cons, List.mem_cons, not_or]
        exact ⟨htext.symm, hnone hn⟩

/-- An entry is freed once, and the others are still owned. -/
theorem Owned.clearPlanTableEntry {e : ℕ × ℕ} (h : Owned m (e :: t)) :
    ∃ m', m.clearPlanTableEntry e = some m' ∧ Owned m' t := by
  obtain ⟨text, hstring, hplan⟩ := h.entry e List.mem_cons_self
  obtain ⟨hkey, hkeys⟩ := List.nodup_cons.1 h.keys
  obtain ⟨hvalue, hplans⟩ := List.nodup_cons.1 h.plans
  have hnext := (h.lt List.mem_cons_self).2
  have hkeyne : ∀ x ∈ t, x.1 ≠ e.1 := fun x hx heq => hkey (List.mem_map.2 ⟨x, hx, heq⟩)
  have hvaluene : ∀ x ∈ t, x.2 ≠ e.2 := fun x hx heq => hvalue (List.mem_map.2 ⟨x, hx, heq⟩)
  have hstrings : ∀ x ∈ t, Function.update m.strings e.1 none x.1 = m.strings x.1 := fun x hx =>
    Function.update_of_ne (hkeyne x hx) _ _
  refine ⟨⟨Function.update m.strings e.1 none, Function.update m.plans e.2 none, m.next, e.2 :: m.freed⟩, ?_, ?_⟩
  · simp [Memory.clearPlanTableEntry, Memory.free, Memory.freePlan, hstring, hplan]
  · refine ⟨fun x hx => ?_, hkeys, hplans, ?_, fun k hk => ?_, ?_, ?_⟩
    · obtain ⟨q, hq, hp⟩ := h.entry x (List.mem_cons_of_mem e hx)
      refine ⟨q, (hstrings x hx).trans hq, ?_⟩
      exact (Function.update_of_ne (hvaluene x hx) _ _).trans hp
    · have htexts : t.map (fun x => Function.update m.strings e.1 none x.1) = t.map m.text :=
        List.map_congr_left hstrings
      exact htexts ▸ (List.nodup_cons.1 h.texts).2
    · obtain ⟨hs, hp⟩ := h.fresh k hk
      have hupdate : ∀ (f : ℕ → Option String) (a : ℕ), f k = none → Function.update f a none k = none := by
        intro f a hf
        rw [Function.update_apply]
        split
        · rfl
        · exact hf
      exact ⟨hupdate _ _ hs, hupdate _ _ hp⟩
    · refine List.nodup_cons.2 ⟨fun hmem => ?_, h.freed⟩
      rw [(h.freed_plans e.2 hmem).2] at hplan
      cases hplan
    · intro k hk
      rcases List.mem_cons.1 hk with rfl | hk
      · exact ⟨hnext, Function.update_self ..⟩
      · obtain ⟨hlt, hnone⟩ := h.freed_plans k hk
        refine ⟨hlt, ?_⟩
        change Function.update m.plans e.2 none k = none
        rw [Function.update_apply]
        split
        · rfl
        · exact hnone

/-- The table is freed, entry by entry. -/
theorem Owned.clear (h : Owned m t) : ∃ m', t.foldlM Memory.clearPlanTableEntry m = some m' ∧ Owned m' [] := by
  induction t generalizing m with
  | nil => exact ⟨m, rfl, h⟩
  | cons e t ih =>
    obtain ⟨m₁, hm₁, h₁⟩ := h.clearPlanTableEntry
    obtain ⟨m', hm', h'⟩ := ih h₁
    refine ⟨m', ?_, h'⟩
    rw [List.foldlM_cons, hm₁]
    exact hm'

/-- A key that is equal to no other one is put at the end. -/
theorem insert_eq {key plan : ℕ} (hkey : m.strings key = some query) (h : ∀ e ∈ t, ∃ text, m.strings e.1 = some text)
    (hnew : some query ∉ t.map m.text) : m.insert key plan t = some (t ++ [(key, plan)]) := by
  induction t with
  | nil => rfl
  | cons e t ih =>
    obtain ⟨text, htext⟩ := h e List.mem_cons_self
    rw [List.map_cons, List.mem_cons, not_or] at hnew
    have hne : text ≠ query := by
      rintro rfl
      exact hnew.1 htext.symm
    have hrest := ih (fun x hx => h x (List.mem_cons_of_mem e hx)) hnew.2
    rw [Memory.insert, htext, Option.bind_some, hkey, Option.bind_some, if_neg hne, hrest]
    rfl

/-- The memory with a plan and a key for a text. -/
def Memory.withEntry (m : Memory) (query : String) : Memory := ((m.savePlan query).2.strdup query).2

/-- A new entry is owned. -/
theorem Owned.insert (h : Owned m t) (hnew : some query ∉ t.map m.text) :
    (m.withEntry query).insert (m.next + 1) m.next t = some (t ++ [(m.next + 1, m.next)]) ∧
      Owned (m.withEntry query) (t ++ [(m.next + 1, m.next)]) ∧
        (m.withEntry query).plans m.next = some query := by
  have hkey : (m.withEntry query).strings (m.next + 1) = some query := Function.update_self ..
  have hplan : (m.withEntry query).plans m.next = some query := Function.update_self ..
  have hstrings : ∀ x ∈ t, (m.withEntry query).strings x.1 = m.strings x.1 := by
    intro x hx
    have hne : x.1 ≠ m.next + 1 := by
      have hlt := (h.lt hx).1
      omega
    exact Function.update_of_ne hne _ _
  have hplans : ∀ x ∈ t, (m.withEntry query).plans x.2 = m.plans x.2 := fun x hx =>
    Function.update_of_ne (h.lt hx).2.ne _ _
  have htexts : t.map (m.withEntry query).text = t.map m.text := List.map_congr_left hstrings
  refine ⟨insert_eq hkey (fun x hx => ?_) (htexts ▸ hnew), ?_, hplan⟩
  · obtain ⟨q, hq, -⟩ := h.entry x hx
    exact ⟨q, (hstrings x hx).trans hq⟩
  refine ⟨fun x hx => ?_, ?_, ?_, ?_, fun k hk => ?_, h.freed, fun k hk => ?_⟩
  · rcases List.mem_append.1 hx with hx | hx
    · obtain ⟨q, hq, hp⟩ := h.entry x hx
      exact ⟨q, (hstrings x hx).trans hq, (hplans x hx).trans hp⟩
    · rw [List.mem_singleton.1 hx]
      exact ⟨query, hkey, hplan⟩
  · rw [List.map_append, List.map_singleton, ← List.concat_eq_append, List.nodup_concat]
    refine ⟨fun hmem => ?_, h.keys⟩
    obtain ⟨x, hx, heq⟩ := List.mem_map.1 hmem
    have hlt := (h.lt hx).1
    omega
  · rw [List.map_append, List.map_singleton, ← List.concat_eq_append, List.nodup_concat]
    refine ⟨fun hmem => ?_, h.plans⟩
    obtain ⟨x, hx, heq⟩ := List.mem_map.1 hmem
    exact (h.lt hx).2.ne heq
  · rw [List.map_append, List.map_singleton, ← List.concat_eq_append, List.nodup_concat, htexts, Memory.text, hkey]
    exact ⟨hnew, h.texts⟩
  · have hle : m.next + 2 ≤ k := hk
    have hkey : k ≠ m.next + 1 := by omega
    have hplan : k ≠ m.next := by omega
    obtain ⟨hs, hp⟩ := h.fresh k (by omega)
    exact ⟨(Function.update_of_ne hkey _ _).trans hs, (Function.update_of_ne hplan _ _).trans hp⟩
  · obtain ⟨hlt, hnone⟩ := h.freed_plans k hk
    exact ⟨Nat.lt_add_right 2 hlt, (Function.update_of_ne hlt.ne _ _).trans hnone⟩

end Memory

/-! ### Runs -/

section Run
variable {s : State} {query : String}

theorem Sound.initial : Sound State.initial :=
  ⟨Nat.zero_le _, by simp [State.entries, State.initial], List.nodup_nil, List.nodup_nil, List.nodup_nil,
    fun _ _ => ⟨rfl, rfl⟩, List.nodup_nil, by simp [State.initial]⟩

/-- The cache is empty after it is cleared, and everything in it is freed. -/
theorem Sound.clearSpiPlanCache (h : Sound s) : ∃ s', clearSpiPlanCache s = some s' ∧ Sound s' ∧ s'.entries = [] := by
  obtain ⟨hsize, howned⟩ := h
  obtain ⟨m, t⟩ := s
  cases t with
  | none => exact ⟨_, rfl, ⟨hsize, howned⟩, rfl⟩
  | some t =>
    obtain ⟨m', hm', h'⟩ := howned.clear
    refine ⟨⟨m', some []⟩, ?_, ⟨Nat.zero_le _, h'⟩, rfl⟩
    change (t.foldlM Memory.clearPlanTableEntry m).map _ = _
    rw [show t.foldlM Memory.clearPlanTableEntry m = some m' from hm']
    rfl

theorem Sound.makeRoom (h : Sound s) (hnew : some query ∉ s.entries.map s.memory.text) : ∃ s', makeRoom s = some s' ∧
    Sound s' ∧ s'.entries.length < maxCachedPlanSize ∧ some query ∉ s'.entries.map s'.memory.text := by
  unfold PlanCache.makeRoom
  split
  · obtain ⟨s', hs', hsound, hempty⟩ := h.clearSpiPlanCache
    exact ⟨s', hs', hsound, by rw [hempty]; decide, by rw [hempty]; simp⟩
  · next hlt => exact ⟨s, rfl, h, not_le.1 hlt, hnew⟩

theorem Sound.insertPlan (h : Sound s) (hlt : s.entries.length < maxCachedPlanSize)
    (hnew : some query ∉ s.entries.map s.memory.text) : ∃ plan s', insertPlan s query = some (some plan, s') ∧
      Sound s' ∧ s'.memory.plans plan = some query := by
  obtain ⟨hinsert, howned, hplan⟩ := h.owned.insert hnew
  refine ⟨s.memory.next, ⟨s.memory.withEntry query, some _⟩, ?_, ⟨?_, howned⟩, hplan⟩
  · change (Memory.insert (s.memory.withEntry query) (s.memory.next + 1) s.memory.next s.entries).map _ = _
    rw [hinsert]
    rfl
  · change (s.entries ++ [_]).length ≤ _
    rw [List.length_append]
    exact hlt

/-- A plan is returned whenever the text can be prepared, and it is one of the text. -/
theorem Sound.getSpiPlan (h : Sound s) (query : String) (prepares : Bool) :
    ∃ r s', getSpiPlan s query prepares = some (r, s') ∧ Sound s' ∧ (prepares → r.isSome) ∧
      ∀ plan, r = some plan → s'.memory.plans plan = some query := by
  have htable : Sound { s with planList := some s.entries } := ⟨h.size, h.owned⟩
  obtain ⟨r, hr, hfound, hnone⟩ := h.owned.lookup query
  cases r with
  | some plan =>
    refine ⟨some plan, { s with planList := some s.entries }, ?_, htable, fun _ => rfl, fun p hp => ?_⟩
    · unfold PlanCache.getSpiPlan
      simp [show s.memory.lookup query (s.planList.getD []) = some (some plan) from hr, State.entries]
    · rw [← Option.some.inj hp]
      exact hfound plan rfl
  | none =>
    obtain ⟨s₁, hs₁, hsound, hlt, hnew⟩ := htable.makeRoom (hnone rfl)
    have hlookup : s.memory.lookup query (s.planList.getD []) = some none := hr
    have hroom : PlanCache.makeRoom { s with planList := some (s.planList.getD []) } = some s₁ := hs₁
    cases prepares with
    | false =>
      refine ⟨none, s₁, ?_, hsound, by simp, by simp⟩
      simp [PlanCache.getSpiPlan, hlookup, hroom]
    | true =>
      obtain ⟨plan, s', hs', hsound', hplan⟩ := hsound.insertPlan hlt hnew
      refine ⟨some plan, s', ?_, hsound', fun _ => rfl, fun p hp => ?_⟩
      · simp [PlanCache.getSpiPlan, hlookup, hroom, hs']
      · rw [← Option.some.inj hp]
        exact hplan

theorem Sound.step (h : Sound s) (c : Call) : ∃ s', PlanCache.step s c = some s' ∧ Sound s' := by
  cases c with
  | getSpiPlan query prepares =>
    obtain ⟨r, s', hs', hsound, -⟩ := h.getSpiPlan query prepares
    exact ⟨s', by rw [PlanCache.step, hs']; rfl, hsound⟩
  | clearSpiPlanCache =>
    obtain ⟨s', hs', hsound, -⟩ := h.clearSpiPlanCache
    exact ⟨s', hs', hsound⟩

theorem Sound.run (h : Sound s) (calls : List Call) : ∃ s', exec PlanCache.step s calls = some s' ∧ Sound s' := by
  induction calls generalizing s with
  | nil => exact ⟨s, rfl, h⟩
  | cons c calls ih =>
    obtain ⟨s₁, hs₁, h₁⟩ := h.step c
    obtain ⟨s', hs', h'⟩ := ih h₁
    exact ⟨s', (exec_cons PlanCache.step hs₁ calls).trans hs', h'⟩

/-- In every run nothing undefined is done, every entry owns a copy of a text and a live plan of it, no plan is freed
    twice, and `getSpiPlan` returns a live plan of its argument, unless that cannot be prepared. -/
theorem planCache_sound (calls : List Call) : ∃ s, exec step State.initial calls = some s ∧ Sound s ∧
    ∀ query prepares, ∃ r s', getSpiPlan s query prepares = some (r, s') ∧ (prepares → r.isSome) ∧
      ∀ plan, r = some plan → s'.memory.plans plan = some query := by
  obtain ⟨s, hs, hsound⟩ := Sound.initial.run calls
  refine ⟨s, hs, hsound, fun query prepares => ?_⟩
  obtain ⟨r, s', hr, -, hplan⟩ := hsound.getSpiPlan query prepares
  exact ⟨r, s', hr, hplan⟩

end Run

end Wdb.PlanCache
