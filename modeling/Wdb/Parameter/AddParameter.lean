import Wdb.Parameter.Units
import Wdb.Session

/-! `wci.addparameter`: which rows of the table of parameters a call changes.

    A parameter is what its seven CF fields say. The call looks for it by the name that is made of the fields,
    among the names that parameters have in all namespaces, and overwrites all fields of what it finds. -/

namespace Wdb.Parameter
open Relational SqlTypes

/-! ### The tables -/

/-- The CF fields of a parameter. -/
structure Cf (α : Type) where
  cfstandardname : α
  cfsurface : Option α
  cfcomponent : Option α
  cfmedium : Option α
  cfprocess : Option α
  cfcondition : Option α
  cfmethods : Option α
  deriving DecidableEq

section Fields
variable {α β : Type}

def Cf.map (f : α → β) (c : Cf α) : Cf β :=
  ⟨f c.cfstandardname, c.cfsurface.map f, c.cfcomponent.map f, c.cfmedium.map f, c.cfprocess.map f,
    c.cfcondition.map f, c.cfmethods.map f⟩

def Cf.fields (c : Cf α) : List (Option α) :=
  [some c.cfstandardname, c.cfsurface, c.cfcomponent, c.cfmedium, c.cfprocess, c.cfcondition, c.cfmethods]

end Fields

/-- A row of `parameter`. -/
structure ParameterRow extends Cf (Varchar 255) where
  parameterid : ℤ
  unitname : Option (Varchar 80)
  deriving DecidableEq

/-- A row of `parametername`. -/
structure NameRow where
  parameterid : ℤ
  parameternamespaceid : ℤ
  parametername : Varchar 255
  deriving DecidableEq

/-- A row of `cfmethods`. -/
structure MethodsRow where
  cfmethods : Varchar 255
  cfmethodsname : Varchar 255
  deriving DecidableEq

/-- `parameter_pkey`. -/
def ParameterRow.clash (a b : ParameterRow) : Prop := a.parameterid = b.parameterid

/-- `parametername_pkey`. -/
def NameRow.clash (a b : NameRow) : Prop :=
  a.parameterid = b.parameterid ∧ a.parameternamespaceid = b.parameternamespaceid

/-- `cfmethods_pkey`. -/
def MethodsRow.clash (a b : MethodsRow) : Prop := a.cfmethods = b.cfmethods

instance : DecidableRel ParameterRow.clash := fun _ _ => inferInstanceAs (Decidable (_ = _))
instance : DecidableRel NameRow.clash := fun _ _ => inferInstanceAs (Decidable (_ ∧ _))
instance : DecidableRel MethodsRow.clash := fun _ _ => inferInstanceAs (Decidable (_ = _))

/-- The tables, and the next number of a parameter. -/
structure Parameters where
  parameter : Table ParameterRow ParameterRow.clash
  parametername : Table NameRow NameRow.clash
  cfsurface : List (Varchar 255)
  cfmethods : Table MethodsRow MethodsRow.clash
  namespaceIds : List ℤ
  nextParameterId : ℤ

/-! ### The names of a parameter -/

section Names
variable (c : Cf String)

/-- The standard name with the component and the surface. -/
def Cf.located : String :=
  let named := c.cfcomponent.elim c.cfstandardname (· ++ " " ++ c.cfstandardname)
  c.cfsurface.elim named fun cfsurface =>
    if ' ' ∈ cfsurface.toList then named ++ " at " ++ cfsurface else cfsurface ++ " " ++ named

/-- A name with the medium, the process and the condition. -/
def Cf.explained (parametername : String) : String :=
  let inside := c.cfmedium.elim parametername (parametername ++ " in " ++ ·)
  let caused := c.cfprocess.elim inside (inside ++ " due to " ++ ·)
  c.cfcondition.elim caused (caused ++ " assuming " ++ ·)

def Cf.getCanonicalParameterName : String :=
  let parametername := c.explained c.located
  lower (c.cfmethods.elim parametername (parametername ++ " [" ++ · ++ "]"))

/-- `getParameterName`; `none` is the error for methods that are not known. -/
def Parameters.getParameterName (s : Parameters) : Option String :=
  match c.cfmethods with
  | none => some (lower (c.explained c.located))
  | some cfmethods => (s.cfmethods.rows.find? fun m => m.cfmethods.1 = cfmethods).map fun m =>
      lower (c.explained (m.cfmethodsname.1 ++ " " ++ c.located))

end Names

/-- The fields as texts. -/
def ParameterRow.texts (p : ParameterRow) : Cf String := p.toCf.map (·.1)

/-- A row of `parameter_v`. -/
structure ParameterV where
  parameterid : ℤ
  parameternamespaceid : ℤ
  parametername : String
  deriving DecidableEq

/-- `parameter_v`, which `parameter_mv` holds after every statement. -/
def Parameters.parameterV (s : Parameters) : List ParameterV :=
  (s.parameter.rows.flatMap fun v =>
    (s.parametername.rows.filter fun n => v.parameterid = n.parameterid).map fun n =>
      ⟨v.parameterid, n.parameternamespaceid, n.parametername.1⟩) ++
  s.parameter.rows.map fun v => ⟨v.parameterid, 0, v.texts.getCanonicalParameterName⟩

/-- Which row `SELECT INTO` takes of those that meet its condition. -/
structure Plan (α : Type) where
  first : List α → Option α
  mem_of_first : ∀ {l a}, first l = some a → a ∈ l
  eq_nil_of_first : ∀ {l}, first l = none → l = []

/-! ### The call -/

/-- The arguments of `wci.addparameter`; `none` is `NULL`. -/
structure AddParameter where
  cfstandardname_ : Option String
  cfsurface_ : Option String
  cfcomponent_ : Option String
  cfmedium_ : Option String
  cfprocess_ : Option String
  cfcondition_ : Option String
  cfmethods_ : Option String
  unitname_ : Option String
  deriving DecidableEq

/-- The CF fields that are given; the standard name must not be `NULL`. -/
def AddParameter.cf (a : AddParameter) : Option (Cf String) :=
  a.cfstandardname_.map fun cfstandardname => ⟨cfstandardname, a.cfsurface_, a.cfcomponent_, a.cfmedium_,
    a.cfprocess_, a.cfcondition_, a.cfmethods_⟩

/-- What a column that may be `NULL` is assigned. -/
def assignNull (n : ℕ) (t : Option String) : Option (Option (Varchar n)) :=
  t.elim (some none) fun t => (assign n (some t)).map some

/-- What the columns are assigned. -/
def Cf.assign (c : Cf String) : Option (Cf (Varchar 255)) := do
  let cfstandardname ← Parameter.assign 255 (some c.cfstandardname)
  let cfsurface ← assignNull 255 c.cfsurface
  let cfcomponent ← assignNull 255 c.cfcomponent
  let cfmedium ← assignNull 255 c.cfmedium
  let cfprocess ← assignNull 255 c.cfprocess
  let cfcondition ← assignNull 255 c.cfcondition
  let cfmethods ← assignNull 255 c.cfmethods
  return ⟨cfstandardname, cfsurface, cfcomponent, cfmedium, cfprocess, cfcondition, cfmethods⟩

/-- There is a row of `wci.getcfsurface( cfsurface_ )`; a pattern that raises finds none either. -/
def Parameters.getcfsurface (s : Parameters) (cfsurface_ : String) : Bool :=
  s.cfsurface.any fun t => like t.1 (lower cfsurface_) = some true

section Call
variable (parameterV parameterMv : Plan ParameterV) (s : Parameters) (c : Cf String) (unitname_ : Option String)

/-- `INSERT INTO parameter`. -/
def Parameters.insertParameter : Option Parameters := do
  let cf ← c.assign
  let unitname ← assignNull 80 unitname_
  let parameter ← s.parameter.insert ⟨cf, s.nextParameterId, unitname⟩
  return { s with parameter, nextParameterId := s.nextParameterId + 1 }

/-- `UPDATE parameter`. -/
def Parameters.updateParameter (parameterid_ : ℤ) : Option Parameters := do
  let cf ← c.assign
  let unitname ← assignNull 80 unitname_
  return { s with
    parameter := s.parameter.update (·.parameterid = parameterid_) (fun p => ⟨cf, p.parameterid, unitname⟩)
      (fun _ _ h => h) (fun _ _ h => h) }

/-- The parameter is inserted, or a row is updated that has the name in some namespace. -/
def Parameters.store (canonicname_ : String) : Option Parameters :=
  match parameterV.first (s.parameterV.filter fun n => n.parametername = canonicname_) with
  | none => s.insertParameter c unitname_
  | some n => s.updateParameter c unitname_ n.parameterid

/-- `wci.setParameterName`, with any parameter that has the canonical name. -/
def Parameters.setParameterName (namespace_ : ℤ) (canonicalName_ valueParameterName_ : String) :
    Option Parameters :=
  if namespace_ = 0 then none
  else do
    let p ← parameterMv.first (s.parameterV.filter fun p =>
      p.parametername = lower canonicalName_ ∧ p.parameternamespaceid = 0)
    let parametername ← Parameter.assign 255 (some (lower (btrim valueParameterName_)))
    if namespace_ ∈ s.namespaceIds then
      let parametername ← (s.parametername.delete fun n =>
        n.parameternamespaceid = namespace_ && n.parameterid = p.parameterid).insert
          ⟨p.parameterid, namespace_, parametername⟩
      return { s with parametername }
    else none

/-- What the checks let through: the fields, and the name in the namespace of the session. -/
def Parameters.checked (a : AddParameter) : Option (Cf String × String) := do
  let c ← a.cf
  if c.cfsurface.all s.getcfsurface then
    let parametername_ ← s.getParameterName c
    return (c, parametername_)
  else none

/-- `wci.addparameter`; `none` is an error. -/
def addparameter (session : Session) (a : AddParameter) : Option Parameters := do
  let (c, parametername_) ← s.checked a
  let canonicname_ := c.getCanonicalParameterName
  let s ← s.store parameterV c a.unitname_ canonicname_
  if session.parameternamespaceid = 0 then some s
  else s.setParameterName parameterMv session.parameternamespaceid canonicname_ parametername_

end Call

/-! ### What a call is for -/

/-- The parameter is the one that the arguments describe. -/
def ParameterRow.Is (p : ParameterRow) (a : AddParameter) : Prop := a.cf = some p.texts

instance (p : ParameterRow) (a : AddParameter) : Decidable (p.Is a) := inferInstanceAs (Decidable (_ = _))

/-- What a call leaves. -/
structure AddParameter.After (a : AddParameter) (s s' : Parameters) : Prop where
  /-- Every other parameter is as it was. -/
  others : ∀ p, ¬ p.Is a → (p ∈ s'.parameter.rows ↔ p ∈ s.parameter.rows)
  /-- The parameter has got the unit, when there was one. -/
  updated : (∃ p ∈ s.parameter.rows, p.Is a) → ∃ p ∈ s.parameter.rows, p.Is a ∧ ∃ unitname,
    a.unitname_ = unitname.map Subtype.val ∧ s'.parameter.rows =
      s.parameter.rows.map fun q => if q.parameterid = p.parameterid then { q with unitname } else q
  /-- It is there with its unit, when there was none. -/
  inserted : (∀ p ∈ s.parameter.rows, ¬ p.Is a) → ∃ p : ParameterRow, p.Is a ∧
    a.unitname_ = p.unitname.map Subtype.val ∧ s'.parameter.rows = s.parameter.rows ++ [p]

/-- A call that succeeds leaves what it is for, whichever rows are found first. -/
def AddParameter.Right (a : AddParameter) (session : Session) (s : Parameters) : Prop :=
  ∀ parameterV parameterMv s', addparameter parameterV parameterMv s session a = some s' → a.After s s'

/-- A call can succeed. -/
def AddParameter.Succeeds (a : AddParameter) (session : Session) (s : Parameters) : Prop :=
  ∃ parameterV parameterMv s', addparameter parameterV parameterMv s session a = some s'

/-- The texts fit their columns, and the name that is made of the fields is one of no other parameter, in
    any namespace. -/
structure AddParameter.Distinct (a : AddParameter) (s : Parameters) : Prop where
  fits : ∀ c ∈ a.cf, ∀ t ∈ c.fields, Fits 255 t
  unitname : Fits 80 a.unitname_
  names : ∀ c ∈ a.cf, ∀ n ∈ s.parameterV, n.parametername = c.getCanonicalParameterName →
    ∀ p ∈ s.parameter.rows, p.parameterid = n.parameterid → p.Is a

/-! ### What is assigned -/

section Assign
variable {n : ℕ} {t : Option String} {v : Option (Varchar n)} {c : Cf String} {d : Cf (Varchar 255)}

theorem assignNull_eq_some (h : assignNull n t = some v) : Fits n t ↔ t = v.map (·.1) := by
  cases t with
  | none =>
    obtain rfl := Option.some.inj h
    exact iff_of_true (fun _ ht => by cases ht) rfl
  | some t =>
    obtain ⟨w, hw, rfl⟩ := Option.map_eq_some_iff.1 h
    exact assign_eq_some hw

/-- Fields that fit are assigned as they are. -/
theorem Cf.assign_eq_some (h : c.assign = some d) : (∀ t ∈ c.fields, Fits 255 t) ↔ c = d.map (·.1) := by
  simp only [Cf.assign, Option.bind_eq_bind, Option.bind_eq_some_iff, Option.pure_def, Option.some.injEq] at h
  obtain ⟨w, hw, u₁, h₁, u₂, h₂, u₃, h₃, u₄, h₄, u₅, h₅, u₆, h₆, rfl⟩ := h
  have hname : some c.cfstandardname = some w.1 ↔ c.cfstandardname = w.1 := Option.some_inj
  simp only [Cf.fields, List.forall_mem_cons, Parameter.assign_eq_some hw, assignNull_eq_some h₁,
    assignNull_eq_some h₂, assignNull_eq_some h₃, assignNull_eq_some h₄, assignNull_eq_some h₅,
    assignNull_eq_some h₆, List.not_mem_nil, false_imp_iff, implies_true, and_true, hname]
  constructor
  · rintro ⟨e, e₁, e₂, e₃, e₄, e₅, e₆⟩
    obtain ⟨⟩ := c
    simp_all [Cf.map]
  · intro e
    rw [e]
    exact ⟨rfl, rfl, rfl, rfl, rfl, rfl, rfl⟩

theorem Cf.map_injective {α β : Type} {f : α → β} (hf : Function.Injective f) :
    Function.Injective (Cf.map f) := by
  rintro ⟨⟩ ⟨⟩ h
  simp only [Cf.map, Cf.mk.injEq, hf.eq_iff, (Option.map_injective hf).eq_iff] at h
  simpa only [Cf.mk.injEq] using h

end Assign

/-! ### What a call does -/

section Step
variable {parameterV parameterMv : Plan ParameterV} {s s' : Parameters} {c : Cf String}
  {unitname_ : Option String} {session : Session} {a : AddParameter}

theorem Parameters.mem_parameterV {n : ParameterV} : n ∈ s.parameterV ↔
    (∃ v ∈ s.parameter.rows, ∃ m ∈ s.parametername.rows, v.parameterid = m.parameterid ∧
      n = ⟨v.parameterid, m.parameternamespaceid, m.parametername.1⟩) ∨
    ∃ v ∈ s.parameter.rows, n = ⟨v.parameterid, 0, v.texts.getCanonicalParameterName⟩ := by
  unfold Parameters.parameterV
  simp only [List.mem_append, List.mem_flatMap, List.mem_map, List.mem_filter, decide_eq_true_eq, and_assoc,
    eq_comm (b := n)]

/-- A name is one of a parameter. -/
theorem Parameters.exists_parameter {n : ParameterV} (h : n ∈ s.parameterV) :
    ∃ p ∈ s.parameter.rows, p.parameterid = n.parameterid := by
  rcases mem_parameterV.1 h with ⟨v, hv, _, _, _, rfl⟩ | ⟨v, hv, rfl⟩
  · exact ⟨v, hv, rfl⟩
  · exact ⟨v, hv, rfl⟩

/-- The canonical name of a parameter is among the names. -/
theorem Parameters.canonical_mem {p : ParameterRow} (h : p ∈ s.parameter.rows) :
    ⟨p.parameterid, 0, p.texts.getCanonicalParameterName⟩ ∈ s.parameterV :=
  mem_parameterV.2 (Or.inr ⟨p, h, rfl⟩)

theorem Parameters.insertParameter_eq_some (h : s.insertParameter c unitname_ = some s') :
    ∃ cf unitname, c.assign = some cf ∧ assignNull 80 unitname_ = some unitname ∧
      s'.namespaceIds = s.namespaceIds ∧
      s'.parameter.rows = s.parameter.rows ++ [⟨cf, s.nextParameterId, unitname⟩] := by
  simp only [Parameters.insertParameter, Option.bind_eq_bind, Option.bind_eq_some_iff, Option.pure_def,
    Option.some.injEq] at h
  obtain ⟨cf, hcf, unitname, hunitname, parameter, hinsert, rfl⟩ := h
  exact ⟨cf, unitname, hcf, hunitname, rfl, (Table.insert_eq_some hinsert).2⟩

/-- The rows after an update. -/
def updated (cf : Cf (Varchar 255)) (unitname : Option (Varchar 80)) (parameterid_ : ℤ) (p : ParameterRow) :
    ParameterRow :=
  if p.parameterid = parameterid_ then ⟨cf, p.parameterid, unitname⟩ else p

theorem Parameters.updateParameter_eq_some {parameterid_ : ℤ}
    (h : s.updateParameter c unitname_ parameterid_ = some s') :
    ∃ cf unitname, c.assign = some cf ∧ assignNull 80 unitname_ = some unitname ∧
      s'.namespaceIds = s.namespaceIds ∧
      s'.parameter.rows = s.parameter.rows.map (updated cf unitname parameterid_) := by
  simp only [Parameters.updateParameter, Option.bind_eq_bind, Option.bind_eq_some_iff, Option.pure_def,
    Option.some.injEq] at h
  obtain ⟨cf, hcf, unitname, hunitname, rfl⟩ := h
  refine ⟨cf, unitname, hcf, hunitname, rfl, List.map_congr_left fun p _ => ?_⟩
  simp only [Table.updateRow, updated, decide_eq_true_eq]

/-- An update succeeds when the columns can be assigned. -/
theorem Parameters.exists_updateParameter {cf : Cf (Varchar 255)} {unitname : Option (Varchar 80)}
    (hcf : c.assign = some cf) (hunitname : assignNull 80 unitname_ = some unitname) (s : Parameters)
    (parameterid_ : ℤ) : ∃ s', s.updateParameter c unitname_ parameterid_ = some s' := by
  simp only [Parameters.updateParameter, hcf, hunitname, Option.bind_eq_bind, Option.bind_some, Option.pure_def,
    Option.some.injEq, exists_eq']

/-- A name that is set is one of a parameter, fits its column, and is in a namespace that exists. -/
theorem Parameters.setParameterName_isSome {namespace_ : ℤ} {canonicalName_ name : String} :
    (s.setParameterName parameterMv namespace_ canonicalName_ name).isSome ↔ namespace_ ≠ 0 ∧
      (∃ p ∈ s.parameterV, p.parametername = lower canonicalName_ ∧ p.parameternamespaceid = 0) ∧
      (Parameter.assign 255 (some (lower (btrim name)))).isSome ∧ namespace_ ∈ s.namespaceIds := by
  unfold Parameters.setParameterName
  split
  · next h => exact iff_of_false Bool.false_ne_true fun hall => hall.1 h
  · next h =>
    rw [and_iff_right h]
    cases hfirst : parameterMv.first (s.parameterV.filter fun p =>
      p.parametername = lower canonicalName_ ∧ p.parameternamespaceid = 0) with
    | none =>
      have hnil := parameterMv.eq_nil_of_first hfirst
      refine iff_of_false Bool.false_ne_true ?_
      rintro ⟨⟨p, hp, hname⟩, -⟩
      exact List.not_mem_nil (hnil ▸ List.mem_filter.2 ⟨hp, decide_eq_true hname⟩)
    | some p =>
      have hp := List.mem_filter.1 (parameterMv.mem_of_first hfirst)
      rw [and_iff_right ⟨p, hp.1, of_decide_eq_true hp.2⟩]
      cases hassign : Parameter.assign 255 (some (lower (btrim name))) with
      | none => simp
      | some parametername =>
        simp only [Option.bind_eq_bind, Option.bind_some, Option.isSome_some, true_and]
        split
        · next hns =>
          -- the name that the parameter had there was deleted
          obtain ⟨t, ht, -⟩ := Table.insert_of_noClash (t := s.parametername.delete fun n =>
            n.parameternamespaceid = namespace_ && n.parameterid = p.parameterid)
            (a := ⟨p.parameterid, namespace_, parametername⟩) fun n hn hclash => by
              have hdeleted := (Table.mem_delete.1 hn).2
              simp [hclash.1, hclash.2] at hdeleted
          simp [ht, hns]
        · next hns => simp [hns]

theorem Parameters.setParameterName_parameter {namespace_ : ℤ} {canonicalName_ name : String}
    (h : s.setParameterName parameterMv namespace_ canonicalName_ name = some s') :
    s'.parameter = s.parameter := by
  unfold Parameters.setParameterName at h
  split at h
  · cases h
  · simp only [Option.bind_eq_bind, Option.bind_eq_some_iff] at h
    obtain ⟨p, -, parametername, -, h⟩ := h
    split at h
    · obtain ⟨t, -, ht⟩ := Option.bind_eq_some_iff.1 h
      rw [← Option.some.inj ht]
    · cases h

theorem lower_getCanonicalParameterName (c : Cf String) :
    lower c.getCanonicalParameterName = c.getCanonicalParameterName := lower_lower _

/-- What a successful call did: it passed the checks and stored the parameter. -/
theorem addparameter_eq_some (h : addparameter parameterV parameterMv s session a = some s') :
    ∃ c name s₁, a.cf = some c ∧ s.checked a = some (c, name) ∧
      s.store parameterV c a.unitname_ c.getCanonicalParameterName = some s₁ ∧
      s'.parameter = s₁.parameter ∧ (session.parameternamespaceid ≠ 0 →
        (s₁.setParameterName parameterMv session.parameternamespaceid c.getCanonicalParameterName name).isSome) := by
  obtain ⟨⟨c, name⟩, hchecked, h⟩ := Option.bind_eq_some_iff.1 h
  obtain ⟨s₁, hstore, h⟩ := Option.bind_eq_some_iff.1 h
  have hcf : a.cf = some c := by
    unfold Parameters.checked at hchecked
    obtain ⟨c', hc', hchecked⟩ := Option.bind_eq_some_iff.1 hchecked
    split at hchecked
    · obtain ⟨name', -, hpair⟩ := Option.bind_eq_some_iff.1 hchecked
      rw [hc', ← (Prod.mk.inj (Option.some.inj hpair)).1]
    · cases hchecked
  refine ⟨c, name, s₁, hcf, hchecked, hstore, ?_⟩
  split at h
  · next hns => exact ⟨by rw [Option.some.inj h], fun hne => absurd hns hne⟩
  · next hns =>
    exact ⟨Parameters.setParameterName_parameter h, fun _ => Option.isSome_iff_exists.2 ⟨s', h⟩⟩

/-- The rows after the parameter was stored, and what the columns are assigned. -/
theorem Parameters.store_eq_some {canonicname_ : String}
    (h : s.store parameterV c unitname_ canonicname_ = some s') :
    ∃ cf unitname, c.assign = some cf ∧ assignNull 80 unitname_ = some unitname ∧
      s'.namespaceIds = s.namespaceIds ∧ (((∀ n ∈ s.parameterV, n.parametername ≠ canonicname_) ∧
          s'.parameter.rows = s.parameter.rows ++ [⟨cf, s.nextParameterId, unitname⟩]) ∨
        ∃ n ∈ s.parameterV, n.parametername = canonicname_ ∧
          s'.parameter.rows = s.parameter.rows.map (updated cf unitname n.parameterid)) := by
  unfold Parameters.store at h
  split at h
  · next hfirst =>
    obtain ⟨cf, unitname, hcf, hunitname, hns, hrows⟩ := insertParameter_eq_some h
    refine ⟨cf, unitname, hcf, hunitname, hns, Or.inl ⟨fun n hn hname => ?_, hrows⟩⟩
    have hmem : n ∈ s.parameterV.filter fun n => n.parametername = canonicname_ :=
      List.mem_filter.2 ⟨hn, decide_eq_true hname⟩
    rw [parameterV.eq_nil_of_first hfirst] at hmem
    cases hmem
  · next n hfirst =>
    obtain ⟨cf, unitname, hcf, hunitname, hns, hrows⟩ := updateParameter_eq_some h
    have hn := List.mem_filter.1 (parameterV.mem_of_first hfirst)
    exact ⟨cf, unitname, hcf, hunitname, hns, Or.inr ⟨n, hn.1, of_decide_eq_true hn.2, hrows⟩⟩

/-- A plan that takes a given row where it can. -/
def Plan.take {α : Type} [DecidableEq α] (a : α) : Plan α where
  first l := if a ∈ l then some a else l.head?
  mem_of_first := by
    intro l b h
    split at h
    · next ha => exact Option.some.inj h ▸ ha
    · exact List.mem_of_mem_head? h
  eq_nil_of_first := by
    intro l h
    split at h
    · cases h
    · exact List.head?_eq_none_iff.1 h

/-- When a call succeeds with fields that fit, so does one that finds another row of the name. -/
theorem exists_addparameter {n : ParameterV} (h : addparameter parameterV parameterMv s session a = some s')
    (hfits : ∀ c ∈ a.cf, ∀ t ∈ c.fields, Fits 255 t) (hn : n ∈ s.parameterV)
    (hname : ∀ c ∈ a.cf, n.parametername = c.getCanonicalParameterName) :
    ∃ s'' cf unitname, addparameter (.take n) parameterMv s session a = some s'' ∧ a.cf = some (cf.map (·.1)) ∧
      s''.parameter.rows = s.parameter.rows.map (updated cf unitname n.parameterid) := by
  obtain ⟨c, name, s₁, hc, hchecked, hstore, -, hset⟩ := addparameter_eq_some h
  obtain ⟨cf, unitname, hcf, hunitname, hids, -⟩ := Parameters.store_eq_some hstore
  have htexts := (Cf.assign_eq_some hcf).1 (hfits c hc)
  obtain ⟨s₂, hs₂⟩ := Parameters.exists_updateParameter hcf hunitname s n.parameterid
  have hstored : s₂.namespaceIds = s.namespaceIds ∧
      s₂.parameter.rows = s.parameter.rows.map (updated cf unitname n.parameterid) := by
    obtain ⟨cf', unitname', hcf', hunitname', hstored⟩ := Parameters.updateParameter_eq_some hs₂
    obtain rfl := Option.some.inj (hcf.symm.trans hcf')
    obtain rfl := Option.some.inj (hunitname.symm.trans hunitname')
    exact hstored
  have hstore₂ : s.store (.take n) c a.unitname_ c.getCanonicalParameterName = some s₂ := by
    have hmem : n ∈ s.parameterV.filter fun n => n.parametername = c.getCanonicalParameterName :=
      List.mem_filter.2 ⟨hn, decide_eq_true (hname c hc)⟩
    simp only [Parameters.store, Plan.take, if_pos hmem, hs₂]
  have hcf' : a.cf = some (cf.map (·.1)) := htexts ▸ hc
  simp only [addparameter, hchecked, hstore₂, Option.bind_eq_bind, Option.bind_some]
  split
  · exact ⟨s₂, cf, unitname, rfl, hcf', hstored.2⟩
  · next hns =>
    obtain ⟨-, -, hassign, hmem⟩ := Parameters.setParameterName_isSome.1 (hset hns)
    -- the row that was overwritten has the canonical name now
    obtain ⟨p, hp, hid⟩ := Parameters.exists_parameter hn
    have hnamed : ∃ p ∈ s₂.parameterV, p.parametername = lower c.getCanonicalParameterName ∧
        p.parameternamespaceid = 0 := by
      have hrow : updated cf unitname n.parameterid p ∈ s₂.parameter.rows := by
        rw [hstored.2]
        exact List.mem_map_of_mem hp
      refine ⟨_, Parameters.canonical_mem hrow, ?_, rfl⟩
      rw [updated, if_pos hid, lower_getCanonicalParameterName, htexts]
      rfl
    have hsome : (s₂.setParameterName parameterMv session.parameternamespaceid c.getCanonicalParameterName
        name).isSome :=
      Parameters.setParameterName_isSome.2 ⟨hns, hnamed, hassign, by rw [hstored.1, ← hids]; exact hmem⟩
    obtain ⟨s₃, hs₃⟩ := Option.isSome_iff_exists.1 hsome
    exact ⟨s₃, cf, unitname, hs₃, hcf', by rw [Parameters.setParameterName_parameter hs₃, hstored.2]⟩

theorem updated_of_ne {cf : Cf (Varchar 255)} {unitname : Option (Varchar 80)} {parameterid_ : ℤ}
    {p : ParameterRow} (h : p.parameterid ≠ parameterid_) : updated cf unitname parameterid_ p = p := if_neg h

/-- A parameter that is overwritten is the one that is described. -/
theorem is_updated {cf : Cf (Varchar 255)} {unitname : Option (Varchar 80)} {p : ParameterRow}
    (h : a.cf = some (cf.map (·.1))) : (updated cf unitname p.parameterid p).Is a := by
  rw [updated, if_pos rfl]
  exact h

/-- Two rows with one number are one row. -/
theorem Parameters.eq_of_parameterid {p q : ParameterRow} (hp : p ∈ s.parameter.rows)
    (hq : q ∈ s.parameter.rows) (h : p.parameterid = q.parameterid) : p = q :=
  s.parameter.eq_of_clash (fun _ _ h => h.symm) hp hq h

/-! ### What a call leaves -/

/-- A call that finds no other parameter leaves what it is for. -/
theorem AddParameter.Distinct.after (h : a.Distinct s)
    (hcall : addparameter parameterV parameterMv s session a = some s') : a.After s s' := by
  obtain ⟨c, name, s₁, hc, -, hstore, hrows, -⟩ := addparameter_eq_some hcall
  obtain ⟨cf, unitname, hcf, hunitname, -, hstored⟩ := Parameters.store_eq_some hstore
  have htexts := (Cf.assign_eq_some hcf).1 (h.fits c hc)
  have hunit := (assignNull_eq_some hunitname).1 h.unitname
  have hcf' : a.cf = some (cf.map (·.1)) := htexts ▸ hc
  rw [← hrows] at hstored
  rcases hstored with ⟨hnone, hinsert⟩ | ⟨n, hn, hname, hupdate⟩
  · -- a row of the parameter would have its name
    have hnew : ∀ p ∈ s.parameter.rows, ¬ p.Is a := fun p hp his => by
      refine hnone _ (Parameters.canonical_mem hp) ?_
      rw [Option.some.inj (his.symm.trans hc)]
    refine ⟨fun p hp => ?_, fun ⟨p, hp, his⟩ => absurd his (hnew p hp), fun _ =>
      ⟨⟨cf, s.nextParameterId, unitname⟩, hcf', hunit, hinsert⟩⟩
    rw [hinsert, List.mem_append, List.mem_singleton]
    refine ⟨fun hmem => hmem.resolve_right ?_, Or.inl⟩
    rintro rfl
    exact hp hcf'
  · obtain ⟨p, hp, hid⟩ := Parameters.exists_parameter hn
    have his := h.names c hc n hn hname p hp hid
    have hsame : cf = p.toCf :=
      Cf.map_injective Subtype.val_injective (Option.some.inj (hcf'.symm.trans his))
    rw [← hid] at hupdate
    refine ⟨fun q hq => ?_, fun _ => ⟨p, hp, his, unitname, hunit, ?_⟩, fun hnew => absurd his (hnew p hp)⟩
    · rw [hupdate, List.mem_map]
      constructor
      · rintro ⟨r, hr, rfl⟩
        by_cases hrid : r.parameterid = p.parameterid
        · rw [Parameters.eq_of_parameterid hr hp hrid] at hq
          exact absurd (is_updated hcf') hq
        · rwa [updated_of_ne hrid]
      · intro hmem
        have hne : q.parameterid ≠ p.parameterid := fun heq =>
          hq (Parameters.eq_of_parameterid hmem hp heq ▸ his)
        exact ⟨q, hmem, updated_of_ne hne⟩
    · rw [hupdate]
      refine List.map_congr_left fun q hq => ?_
      unfold updated
      split
      · next hqid =>
        rw [Parameters.eq_of_parameterid hq hp hqid, hsame]
      · rfl

/-- The parameter is there after the call, with its fields and its unit. -/
theorem AddParameter.After.exists_is (h : a.After s s') : ∃ p : ParameterRow, p.Is a ∧
    a.unitname_ = p.unitname.map Subtype.val := by
  by_cases hknown : ∃ p ∈ s.parameter.rows, p.Is a
  · obtain ⟨p, -, his, unitname, hunit, -⟩ := h.updated hknown
    exact ⟨{ p with unitname }, his, hunit⟩
  · push Not at hknown
    obtain ⟨p, his, hunit, -⟩ := h.inserted hknown
    exact ⟨p, his, hunit⟩

theorem fits_map {n : ℕ} (v : Option (Varchar n)) : Fits n (v.map Subtype.val) := by
  intro t ht
  obtain ⟨w, -, rfl⟩ := Option.map_eq_some_iff.1 ht
  exact w.2

/-- A call that leaves what it is for, whichever rows are found first, finds no other parameter. -/
theorem AddParameter.Right.distinct (h : a.Right session s) (hsucceeds : a.Succeeds session s) :
    a.Distinct s := by
  obtain ⟨parameterV, parameterMv, s', hcall⟩ := hsucceeds
  obtain ⟨p, his, hunit⟩ := (h _ _ _ hcall).exists_is
  have hfits : ∀ c ∈ a.cf, ∀ t ∈ c.fields, Fits 255 t := by
    intro c hc
    rw [Option.some.inj ((Option.mem_def.1 hc).symm.trans his)]
    simp only [ParameterRow.texts, Cf.map, Cf.fields, List.forall_mem_cons, fits_map, List.not_mem_nil,
      false_imp_iff, implies_true, and_true]
    exact fits_map (some _)
  refine ⟨hfits, hunit ▸ fits_map _, fun c hc n hn hname p hp hid => ?_⟩
  obtain ⟨s'', cf, unitname, hcall', hcf, hrows⟩ := exists_addparameter hcall hfits hn fun c' hc' => by
    rw [hname, Option.some.inj ((Option.mem_def.1 hc).symm.trans hc')]
  -- the row that is found is overwritten, so that no other parameter is as it was
  by_contra hnot
  have hmem := (h _ _ _ hcall').others p hnot |>.2 hp
  rw [hrows, ← hid] at hmem
  obtain ⟨q, hq, heq⟩ := List.mem_map.1 hmem
  by_cases hqid : q.parameterid = p.parameterid
  · rw [Parameters.eq_of_parameterid hq hp hqid] at heq
    exact hnot (heq ▸ is_updated hcf)
  · rw [updated_of_ne hqid] at heq
    exact hqid (by rw [heq])

end Step

/-- A call that can succeed changes no other parameter exactly when the name that is made of the fields is
    one of no other parameter, and the texts fit. -/
theorem addparameter_iff {s : Parameters} {session : Session} {a : AddParameter} (h : a.Succeeds session s) :
    a.Right session s ↔ a.Distinct s :=
  ⟨fun hright => hright.distinct h, fun hdistinct _ _ _ hcall => hdistinct.after hcall⟩

/-- The first row. -/
def Plan.head {α : Type} : Plan α := ⟨List.head?, List.mem_of_mem_head?, List.head?_eq_none_iff.1⟩

/-- The component `x` of the wind. -/
def xWind : ParameterRow :=
  ⟨⟨⟨"wind", by decide⟩, none, some ⟨"x", by decide⟩, none, none, none, none⟩, 1, some ⟨"m s-1", by decide⟩⟩

/-- A table with this parameter. -/
def winds : Parameters where
  parameter := ⟨[xWind], List.pairwise_singleton _ _⟩
  parametername := .empty
  cfsurface := []
  cfmethods := .empty
  namespaceIds := [0]
  nextParameterId := 2

def canonicalSession : Session := ⟨0, 0, 0, ⟨0, []⟩⟩

/-- A call that sets the unit of a parameter that is there. -/
theorem addparameter_iff_winds :
    (⟨some "wind", none, some "x", none, none, none, none, some "km h-1"⟩ : AddParameter).Right canonicalSession
      winds := by
  refine (addparameter_iff ⟨.head, .head, ?_⟩).2 ⟨?_, ?_, fun c _ n _ _ p hp _ => ?_⟩
  · exact Option.isSome_iff_exists.1 (by decide +kernel)
  · intro c hc t ht
    obtain rfl := Option.some.inj hc
    revert t
    simp only [Cf.fields, List.forall_mem_cons, Fits]
    decide +kernel
  · intro t ht
    obtain rfl := Option.some.inj ht
    decide
  · obtain rfl := List.mem_singleton.1 hp
    decide +kernel

/-- The standard name `x wind` without a component takes the row of the component `x` of `wind`. -/
theorem not_addparameter_winds :
    ¬ (⟨some "x wind", none, none, none, none, none, none, some "K"⟩ : AddParameter).Right canonicalSession
      winds := by
  intro h
  have hrows : (addparameter .head .head winds canonicalSession
      ⟨some "x wind", none, none, none, none, none, none, some "K"⟩).map (·.parameter.rows) =
        some [⟨⟨⟨"x wind", by decide⟩, none, none, none, none, none, none⟩, 1, some ⟨"K", by decide⟩⟩] := by
    decide +kernel
  obtain ⟨s', hs', hlist⟩ := Option.map_eq_some_iff.1 hrows
  have hsame := (h _ _ _ hs').others xWind (by decide +kernel)
  rw [hlist] at hsame
  exact absurd (hsame.2 (List.mem_singleton_self _)) (by decide +kernel)

end Wdb.Parameter
