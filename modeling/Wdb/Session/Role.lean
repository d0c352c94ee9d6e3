import Wdb.Lib.Runs
import Wdb.Lib.SqlTypes
import Wdb.Lib.Transactional

/-! `wci.begin` and `wci.end`: the role of a connection and its `WciSession`.

    The role is a setting that a rollback restores. `WciSession::session_` is an object of the backend
    process: what is done to it stays done. The functions change the two in separate steps, each of
    which may raise. -/

namespace Wdb.Wci
open Transactional SqlTypes

/-- The namespaces of a session. -/
structure NameSpaces where
  dataProviderNs : ℤ
  placeNs : ℤ
  parameterNs : ℤ
  deriving DecidableEq

/-- `class WciSession`. -/
structure WciSession extends NameSpaces where
  user : String
  deriving DecidableEq

/-- `WciSession::WciSession`; `reset` leaves the same. -/
def WciSession.empty : WciSession := ⟨⟨-1, -1, -1⟩, ""⟩

def WciSession.isInitialized (s : WciSession) : Bool := s.user ≠ ""

/-- A row of `defaultnamespace`. -/
structure DefaultNameSpace extends NameSpaces where
  rolname : String
  deriving DecidableEq

/-- What the server says when a function is called. The row of the user `''` in `defaultnamespace` is taken to
    be there: the metadata that are installed with a database (`wdb_namespace.sql`) have to put it there,
    and `setDefaultNameSpace` only updates it. -/
structure Server where
  /-- The user of the connection. -/
  sessionUser : String
  /-- `SET ROLE`: whether the name is one, and the connection may take the role. -/
  setRole : String → Except String Unit
  /-- Whether a role may use the internals of the call interface. -/
  usage : Option String → Except String Unit
  defaultnamespace : List DefaultNameSpace
  everyone : NameSpaces

/-- The setting of the role, which is `none` before `SET ROLE` and after `RESET ROLE`, and the session. -/
structure Backend where
  role : Option String
  session : WciSession
  deriving DecidableEq

/-- A function as it runs in a backend. What it has done is kept when it raises. -/
abbrev Run := ExceptT String (StateM Backend)

def Run.exec {α : Type} (f : Run α) (b : Backend) : Except String α × Backend := f.run b

section Functions
variable (server : Server)

/-- The regular expression of `wciSession_setRole`: `[a-zA-Z_][a-zA-Z_0-9]*`. -/
def matchRole (role : String) : Bool :=
  match role.toList with
  | [] => false
  | c :: cs => (c.isAlpha || c == '_') && cs.all fun c => c.isAlphanum || c == '_'

/-- The setting that `SET ROLE` makes of an unquoted name. -/
def roleSetting (user : String) : Option String :=
  if lower user = "none" then none else some (lower user)

/-- `setRole`: the command is executed. -/
def setRole (user : String) : Run Unit := do
  server.setRole (lower user)
  modify fun b => { b with role := roleSetting user }

def wciSession_setRole : Option String → Run Unit
  | none => throw "Role cannot be NULL"
  | some role => if matchRole role then setRole server role else throw ("Invalid role name: " ++ role)

/-- `WciSession::initialize`. -/
def WciSession.initialize (userName : String) (ns : NameSpaces) : Run Unit :=
  if userName = "" then throw "username cannot be empty"
  else modify fun b => { b with session := ⟨ns, userName⟩ }

/-- `WciSession::reset`. -/
def WciSession.reset : Run Unit := do
  if (← get).session.isInitialized then modify fun b => { b with session := .empty }
  else throw "Session was never initialized"

/-- The use of an internal function or view: the current role has to be allowed to. -/
def perform (f : Run Unit) : Run Unit := do
  server.usage (← get).role
  f

/-- `sessiondata_v`: the row of the current user, or that of `''`. -/
def Server.sessiondata (role : Option String) : NameSpaces :=
  match server.defaultnamespace.find? fun d => d.rolname = role.getD server.sessionUser with
  | some d => d.toNameSpaces
  | none => server.everyone

/-- `wci.begin`, with namespaces or without. There is a name after `setRole`. -/
def wciBegin (newUser : Option String) (ns : Option NameSpaces) : Run Unit := do
  perform server (wciSession_setRole server newUser)
  let ns := ns.getD (server.sessiondata (← get).role)
  perform server <| WciSession.initialize (newUser.getD "") ns

/-- `wci.end`, but for the caches, which it purges first. -/
def wciEnd : Run Unit := do
  perform server WciSession.reset
  modify fun b => { b with role := none }

end Functions

/-! ### A connection -/

/-- What is done on a connection. -/
inductive Action where
  | wciBegin (newUser : Option String) (ns : Option NameSpaces)
  | wciEnd
  | startTransaction
  | commit
  | rollback
  deriving DecidableEq

/-- An action with the server as it is then. -/
structure Event where
  server : Server
  action : Action

/-- A begin that is in effect. -/
structure Begun where
  user : String
  ns : NameSpaces
  named : user ≠ ""
  deriving DecidableEq

/-- A connection: the role, the session object, and the begin that is in effect, which is a note of the
    history: a begin is in effect until an end, or until it is rolled back, and so is an end. -/
structure Connection where
  role : Var (Option String)
  session : WciSession
  effect : Var (Option Begun)

/-- What a function finds. -/
def Connection.backend (c : Connection) : Backend := ⟨c.role.value, c.session⟩

/-- A connection as it is made. -/
def Connection.start : Connection := ⟨.idle none, .empty, .idle none⟩

/-- A statement that calls a function: an error restores the role, but not the session. -/
def Connection.call (c : Connection) (f : Run Unit) (effect : Option Begun) : Connection :=
  if c.role.accepts then
    match f.exec c.backend with
    | (.ok _, b) => ⟨c.role.set b.role, b.session, c.effect.set effect⟩
    | (.error _, b) => ⟨c.role.fail, b.session, c.effect.fail⟩
  else c

/-- The namespaces that a begin is given, or finds for its user. -/
def Server.begun (server : Server) (newUser : Option String) (ns : Option NameSpaces) : Option Begun :=
  newUser.bind fun user =>
    if h : user = "" then none else some ⟨user, ns.getD (server.sessiondata (roleSetting user)), h⟩

def Connection.step (c : Connection) (e : Event) : Connection :=
  match e.action with
  | .wciBegin newUser ns => c.call (wciBegin e.server newUser ns) (e.server.begun newUser ns)
  | .wciEnd => c.call (wciEnd e.server) none
  | .startTransaction => { c with role := c.role.startTransaction, effect := c.effect.startTransaction }
  | .commit => { c with role := c.role.commit, effect := c.effect.commit }
  | .rollback => { c with role := c.role.rollback, effect := c.effect.rollback }

/-- Whether a call of a function fails. -/
def Connection.callFails (c : Connection) (f : Run Unit) : Bool :=
  !c.role.accepts || !(f.exec c.backend).1.isOk

/-- Whether a begin or end fails. -/
def Connection.fails (c : Connection) (e : Event) : Bool :=
  match e.action with
  | .wciBegin newUser ns => c.callFails (wciBegin e.server newUser ns)
  | .wciEnd => c.callFails (wciEnd e.server)
  | _ => false

/-- The role that a begin has set. -/
def effectRole (effect : Option Begun) : Option String := effect.bind fun b => roleSetting b.user

/-- The role and the session are those of the begin in effect, or there is none of the three. -/
structure Connection.InStep (c : Connection) : Prop where
  initialized : c.session.isInitialized = c.effect.value.isSome
  role : c.role.value = effectRole c.effect.value
  user : ∀ b ∈ c.effect.value, c.session.user = b.user
  ns : ∀ b ∈ c.effect.value, c.session.toNameSpaces = b.ns

/-- A begin or end that fails leaves the role and the session as they were. -/
def Connection.KeepsBoth (c : Connection) (e : Event) : Prop :=
  c.fails e → (c.step e).role.value = c.role.value ∧ (c.step e).session = c.session

/-- Whether a role may begin a session of a user. -/
def Server.admits (server : Server) (role : Option String) : Option String → Bool
  | none => false
  | some user => (server.usage role).isOk && matchRole user && (server.setRole (lower user)).isOk &&
      (server.usage (roleSetting user)).isOk

/-- Whether a role may end a session. -/
def Server.ends (server : Server) (b : Backend) : Bool :=
  (server.usage b.role).isOk && b.session.isInitialized

/-- Whether a begin or end is refused. -/
def Connection.refuses (c : Connection) (e : Event) : Bool :=
  match e.action with
  | .wciBegin newUser _ => !e.server.admits c.role.value newUser
  | .wciEnd => !e.server.ends c.backend
  | _ => false

/-- What is rolled back has not changed the begin in effect. -/
def Connection.Restores (c : Connection) (e : Event) : Prop :=
  (e.action = .rollback ∨ c.refuses e) → c.effect.start = c.effect.value

/-! ### What a function does -/

section Functions
variable {server : Server} {b : Backend} {newUser : Option String} {ns : Option NameSpaces}

theorem exec_bind {α β : Type} (f : Run α) (g : α → Run β) (b : Backend) :
    (f >>= g).exec b = match f.exec b with
      | (.ok a, b') => (g a).exec b'
      | (.error e, b') => (.error e, b') := by
  change (match f.run b with | (a, b') => ExceptT.bindCont g a b') = _
  unfold Run.exec
  rcases f.run b with ⟨a | e, b'⟩ <;> rfl

@[simp] theorem exec_get (b : Backend) : (get : Run Backend).exec b = (.ok b, b) := rfl

@[simp] theorem exec_liftExcept (e : Except String Unit) (b : Backend) :
    (liftM e : Run Unit).exec b = (e, b) := by
  cases e <;> rfl

@[simp] theorem exec_modify (f : Backend → Backend) (b : Backend) :
    (modify f : Run Unit).exec b = (.ok (), f b) := rfl

@[simp] theorem exec_throw (e : String) (b : Backend) :
    (throw e : Run Unit).exec b = (.error e, b) := rfl

theorem ne_empty_of_matchRole {user : String} (h : matchRole user) : user ≠ "" := by
  rintro rfl
  cases h

variable (b ns) in
/-- A begin that is admitted sets the role and then the session. -/
theorem wciBegin_ok {user : String} (h : server.admits b.role (some user)) :
    (wciBegin server (some user) ns).exec b = (.ok (),
      ⟨roleSetting user, ⟨ns.getD (server.sessiondata (roleSetting user)), user⟩⟩) := by
  simp only [Server.admits, Bool.and_eq_true] at h
  obtain ⟨⟨⟨husage, hmatch⟩, hset⟩, husage'⟩ := h
  have hname : user ≠ "" := ne_empty_of_matchRole hmatch
  cases h₁ : server.usage b.role with
  | error => rw [h₁] at husage; cases husage
  | ok =>
    cases h₂ : server.setRole (lower user) with
    | error => rw [h₂] at hset; cases hset
    | ok =>
      cases h₃ : server.usage (roleSetting user) with
      | error => rw [h₃] at husage'; cases husage'
      | ok =>
        simp [wciBegin, perform, wciSession_setRole, setRole, WciSession.initialize, exec_bind, hmatch,
          hname, h₁, h₂, h₃]

variable (b ns) in
/-- A begin that is not admitted raises, and the session is as it was. -/
theorem wciBegin_error (h : ¬ server.admits b.role newUser) :
    ∃ e b', (wciBegin server newUser ns).exec b = (.error e, b') ∧ b'.session = b.session := by
  cases h₁ : server.usage b.role with
  | error e => exact ⟨e, b, by simp [wciBegin, perform, exec_bind, h₁], rfl⟩
  | ok =>
    cases newUser with
    | none =>
      exact ⟨"Role cannot be NULL", b, by simp [wciBegin, perform, wciSession_setRole, exec_bind, h₁],
        rfl⟩
    | some user =>
      by_cases hmatch : matchRole user
      · cases h₂ : server.setRole (lower user) with
        | error e =>
          exact ⟨e, b, by simp [wciBegin, perform, wciSession_setRole, setRole, exec_bind, hmatch, h₁, h₂],
            rfl⟩
        | ok =>
          cases h₃ : server.usage (roleSetting user) with
          | error e =>
            exact ⟨e, { b with role := roleSetting user }, by
              simp [wciBegin, perform, wciSession_setRole, setRole, exec_bind, hmatch, h₁, h₂, h₃], rfl⟩
          | ok =>
            refine absurd ?_ h
            simp [Server.admits, hmatch, h₁, h₂, h₃, Except.isOk, Except.toBool]
      · exact ⟨"Invalid role name: " ++ user, b, by
          simp [wciBegin, perform, wciSession_setRole, exec_bind, hmatch, h₁], rfl⟩

theorem wciEnd_ok (h : server.ends b) : (wciEnd server).exec b = (.ok (), ⟨none, .empty⟩) := by
  simp only [Server.ends, Bool.and_eq_true] at h
  cases h₁ : server.usage b.role with
  | error => rw [h₁] at h; cases h.1
  | ok => simp [wciEnd, perform, WciSession.reset, exec_bind, h₁, h.2]

theorem wciEnd_error (h : ¬ server.ends b) : ∃ e, (wciEnd server).exec b = (.error e, b) := by
  cases h₁ : server.usage b.role with
  | error e => exact ⟨e, by simp [wciEnd, perform, exec_bind, h₁]⟩
  | ok =>
    have hinit : b.session.isInitialized = false := by
      simpa [Server.ends, h₁, Except.isOk, Except.toBool] using h
    exact ⟨"Session was never initialized", by
      simp [wciEnd, perform, WciSession.reset, exec_bind, h₁, hinit]⟩

end Functions

/-! ### In every run -/

section Connection
variable {server : Server} {c : Connection} {newUser : Option String} {ns : Option NameSpaces}

/-- The role goes with the begin in effect. -/
def Connection.Follows (c : Connection) : Prop := c.role = c.effect.map effectRole

theorem Connection.Follows.eq (h : c.Follows) : c.role = c.effect.map effectRole := h

theorem Connection.Follows.value (h : c.Follows) : c.role.value = effectRole c.effect.value := by
  rw [h, Var.value_map]

theorem Connection.Follows.accepts (h : c.Follows) : c.role.accepts = c.effect.accepts := by
  rw [h, Var.accepts_map]

variable (server newUser ns) in
/-- The two ways that a begin goes. -/
theorem Connection.wciBegin_cases (c : Connection) (haccepts : c.role.accepts) :
    (∃ b : Begun, server.admits c.role.value newUser ∧ server.begun newUser ns = some b ∧
      c.callFails (wciBegin server newUser ns) = false ∧
      c.call (wciBegin server newUser ns) (some b) =
        ⟨c.role.set (roleSetting b.user), ⟨b.ns, b.user⟩, c.effect.set (some b)⟩) ∨
    (¬ server.admits c.role.value newUser ∧ c.callFails (wciBegin server newUser ns) ∧
      ∀ effect, c.call (wciBegin server newUser ns) effect = ⟨c.role.fail, c.session, c.effect.fail⟩) := by
  by_cases h : server.admits c.role.value newUser
  · obtain _ | user := newUser
    · cases h
    have hname : user ≠ "" := by
      simp only [Server.admits, Bool.and_eq_true] at h
      exact ne_empty_of_matchRole h.1.1.2
    have hexec := wciBegin_ok c.backend ns h
    refine Or.inl ⟨⟨user, ns.getD (server.sessiondata (roleSetting user)), hname⟩, h, ?_, ?_, ?_⟩
    · simp [Server.begun, hname]
    · simp [Connection.callFails, hexec, haccepts, Except.isOk, Except.toBool]
    · simp [Connection.call, hexec, haccepts]
  · obtain ⟨e, b', hexec, hsession⟩ := wciBegin_error c.backend ns h
    refine Or.inr ⟨h, ?_, fun effect => ?_⟩
    · simp [Connection.callFails, hexec, Except.isOk, Except.toBool]
    · simp only [Connection.call, haccepts, if_true, hexec]
      rw [hsession, Connection.backend]

variable (server) in
/-- The two ways that an end goes. -/
theorem Connection.wciEnd_cases (c : Connection) (haccepts : c.role.accepts) :
    (server.ends c.backend ∧ c.callFails (wciEnd server) = false ∧
      c.call (wciEnd server) none = ⟨c.role.set none, .empty, c.effect.set none⟩) ∨
    (¬ server.ends c.backend ∧ c.callFails (wciEnd server) ∧
      c.call (wciEnd server) none = ⟨c.role.fail, c.session, c.effect.fail⟩) := by
  by_cases h : server.ends c.backend
  · have hexec := wciEnd_ok h
    refine Or.inl ⟨h, ?_, ?_⟩
    · simp [Connection.callFails, hexec, haccepts, Except.isOk, Except.toBool]
    · simp [Connection.call, hexec, haccepts]
  · obtain ⟨e, hexec⟩ := wciEnd_error h
    refine Or.inr ⟨h, ?_, ?_⟩
    · simp [Connection.callFails, hexec, Except.isOk, Except.toBool]
    · simp only [Connection.call, haccepts, if_true, hexec]
      rfl

theorem Connection.call_of_not_accepts {f : Run Unit} {effect : Option Begun} (h : ¬ c.role.accepts) :
    c.callFails f ∧ c.call f effect = c := by
  simp [Connection.callFails, Connection.call, h]

/-- A session is that of one begin only. -/
theorem Connection.InStep.effect_unique (h : c.InStep) {c' : Connection} (hsession : c'.session = c.session)
    (hrole : c'.role.value = effectRole c'.effect.value) :
    c'.InStep ↔ c'.effect.value = c.effect.value := by
  constructor
  · intro h'
    have hsome : c'.effect.value.isSome = c.effect.value.isSome := by
      rw [← h'.initialized, ← h.initialized, hsession]
    cases he : c.effect.value with
    | none => simpa [he] using hsome
    | some b =>
      obtain ⟨b', he'⟩ := Option.isSome_iff_exists.1 (hsome.trans (by rw [he]; rfl))
      have huser := (h'.user b' he').symm.trans ((congrArg WciSession.user hsession).trans (h.user b he))
      have hns := (h'.ns b' he').symm.trans
        ((congrArg WciSession.toNameSpaces hsession).trans (h.ns b he))
      rw [he']
      cases b
      cases b'
      simp_all
  · intro he
    exact ⟨by rw [hsession, he, h.initialized], hrole, by rw [hsession, he]; exact h.user,
      by rw [hsession, he]; exact h.ns⟩

/-- A begin that succeeds leaves role and session in step. -/
theorem Connection.inStep_set_some (b : Begun) (hrole : c.role.accepts) (heffect : c.effect.accepts) :
    Connection.InStep ⟨c.role.set (roleSetting b.user), ⟨b.ns, b.user⟩, c.effect.set (some b)⟩ := by
  constructor
  · simp [Var.value_set _ heffect, WciSession.isInitialized, b.named]
  · simp [Var.value_set _ heffect, Var.value_set _ hrole, effectRole]
  · simp [Var.value_set _ heffect]
  · simp [Var.value_set _ heffect]

/-- So does an end. -/
theorem Connection.inStep_set_none (hrole : c.role.accepts) (heffect : c.effect.accepts) :
    Connection.InStep ⟨c.role.set none, .empty, c.effect.set none⟩ := by
  constructor
  · simp [Var.value_set _ heffect, WciSession.isInitialized, WciSession.empty]
  · simp [Var.value_set _ heffect, Var.value_set _ hrole, effectRole]
  · simp [Var.value_set _ heffect]
  · simp [Var.value_set _ heffect]

/-- What a step can do: a begin or end that succeeds, a return to the begin that was in effect when the
    transaction started, or nothing to the session and the begin in effect. -/
structure Connection.StepsTo (c : Connection) (e : Event) : Prop where
  follows : (c.step e).Follows
  cases : (c.fails e = false ∧ ¬ (e.action = .rollback ∨ c.refuses e) ∧ (c.step e).InStep) ∨
    ((e.action = .rollback ∨ c.refuses e) ∧ (c.step e).session = c.session ∧
      (c.step e).effect.value = c.effect.start) ∨
    (c.Restores e ∧ (c.step e).session = c.session ∧ (c.step e).effect.value = c.effect.value)

theorem Connection.Follows.fail (h : c.Follows) :
    Connection.Follows ⟨c.role.fail, c.session, c.effect.fail⟩ := by
  rw [Connection.Follows, h.eq, Var.map_fail]

/-- After an error there is nothing left to roll back. -/
theorem Connection.Follows.start_of_not_accepts (h : c.Follows) (haccepts : ¬ c.role.accepts) :
    c.effect.start = c.effect.value := by
  rw [h.accepts] at haccepts
  exact Var.start_of_not_accepts haccepts

theorem Connection.stepsTo_wciBegin (h : c.Follows) : c.StepsTo ⟨server, .wciBegin newUser ns⟩ := by
  have hstep : c.step ⟨server, .wciBegin newUser ns⟩ =
      c.call (wciBegin server newUser ns) (server.begun newUser ns) := rfl
  have hfails : c.fails ⟨server, .wciBegin newUser ns⟩ = c.callFails (wciBegin server newUser ns) := rfl
  have hrefuses : c.refuses ⟨server, .wciBegin newUser ns⟩ = !server.admits c.role.value newUser := rfl
  by_cases haccepts : c.role.accepts
  · rcases c.wciBegin_cases server newUser ns haccepts with
      ⟨b, hadmits, hb, hok, hcall⟩ | ⟨hadmits, -, hcall⟩
    · rw [hb, hcall] at hstep
      refine ⟨?_, Or.inl ⟨hfails.trans hok, by simp [hrefuses, hadmits], ?_⟩⟩
      · rw [hstep, Connection.Follows, Var.map_set, h.eq]
        rfl
      · rw [hstep]
        exact inStep_set_some b haccepts (h.accepts ▸ haccepts)
    · rw [hcall] at hstep
      refine ⟨hstep ▸ h.fail, Or.inr (Or.inl ⟨Or.inr (by simp [hrefuses, hadmits]), ?_, ?_⟩)⟩
      · rw [hstep]
      · rw [hstep, Var.value_fail]
  · rw [(Connection.call_of_not_accepts haccepts).2] at hstep
    exact ⟨by rw [hstep]; exact h, Or.inr (Or.inr ⟨fun _ => h.start_of_not_accepts haccepts,
      by rw [hstep], by rw [hstep]⟩)⟩

theorem Connection.stepsTo_wciEnd (h : c.Follows) : c.StepsTo ⟨server, .wciEnd⟩ := by
  have hstep : c.step ⟨server, .wciEnd⟩ = c.call (wciEnd server) none := rfl
  have hfails : c.fails ⟨server, .wciEnd⟩ = c.callFails (wciEnd server) := rfl
  have hrefuses : c.refuses ⟨server, .wciEnd⟩ = !server.ends c.backend := rfl
  by_cases haccepts : c.role.accepts
  · rcases c.wciEnd_cases server haccepts with ⟨hends, hok, hcall⟩ | ⟨hends, -, hcall⟩
    · rw [hcall] at hstep
      refine ⟨?_, Or.inl ⟨hfails.trans hok, by simp [hrefuses, hends], ?_⟩⟩
      · rw [hstep, Connection.Follows, Var.map_set, h.eq]
        rfl
      · rw [hstep]
        exact inStep_set_none haccepts (h.accepts ▸ haccepts)
    · rw [hcall] at hstep
      refine ⟨hstep ▸ h.fail, Or.inr (Or.inl ⟨Or.inr (by simp [hrefuses, hends]), ?_, ?_⟩)⟩
      · rw [hstep]
      · rw [hstep, Var.value_fail]
  · rw [(Connection.call_of_not_accepts haccepts).2] at hstep
    exact ⟨by rw [hstep]; exact h, Or.inr (Or.inr ⟨fun _ => h.start_of_not_accepts haccepts,
      by rw [hstep], by rw [hstep]⟩)⟩

theorem Connection.stepsTo (h : c.Follows) (e : Event) : c.StepsTo e := by
  obtain ⟨server, action⟩ := e
  cases action with
  | wciBegin newUser ns => exact stepsTo_wciBegin h
  | wciEnd => exact stepsTo_wciEnd h
  | startTransaction =>
    refine ⟨?_, Or.inr (Or.inr ⟨?_, rfl, Var.value_startTransaction _⟩)⟩
    · simp only [Connection.step, Connection.Follows, Var.map_startTransaction, h.eq]
    · rintro (h | h) <;> cases h
  | commit =>
    refine ⟨?_, Or.inr (Or.inr ⟨?_, rfl, Var.value_commit _⟩)⟩
    · simp only [Connection.step, Connection.Follows, Var.map_commit, h.eq]
    · rintro (h | h) <;> cases h
  | rollback =>
    refine ⟨?_, Or.inr (Or.inl ⟨Or.inl rfl, rfl, Var.value_rollback _⟩)⟩
    simp only [Connection.step, Connection.Follows, Var.map_rollback, h.eq]

/-- A step from a connection in step: it stays so exactly when it rolls back no begin or end; and then a
    begin or end that fails changes nothing. -/
theorem Connection.step_inStep_iff (h : c.Follows) (hs : c.InStep) (e : Event) :
    ((c.step e).InStep ↔ c.Restores e) ∧ (c.Restores e → c.KeepsBoth e) := by
  obtain ⟨hfollows, ⟨hok, hquiet, hnext⟩ | ⟨hback, hsession, hvalue⟩ | ⟨hrestores, hsession, hvalue⟩⟩ :=
    stepsTo h e
  · refine ⟨iff_of_true hnext fun hback => absurd hback hquiet, fun _ hfails => ?_⟩
    rw [hok] at hfails
    cases hfails
  · have hiff := hs.effect_unique hsession hfollows.value
    rw [hvalue] at hiff
    refine ⟨hiff.trans ⟨fun heq _ => heq, fun hrestores => hrestores hback⟩, fun hrestores _ => ?_⟩
    exact ⟨by rw [hfollows.value, hvalue, hrestores hback, h.value], hsession⟩
  · refine ⟨iff_of_true ((hs.effect_unique hsession hfollows.value).2 hvalue) hrestores, fun _ _ => ?_⟩
    exact ⟨by rw [hfollows.value, hvalue, h.value], hsession⟩

end Connection

/-- In every run on a connection: the session and the role are those of the begin in effect in every
    state, and each begin or end that fails leaves both as they were, exactly when no rollback, and no
    error inside a transaction block, changes the begin in effect. -/
theorem session_inStep_iff (events : List Event) :
    ((∀ p, p <+: events → (Runs.run Connection.step .start p).InStep) ∧
      Runs.Each Connection.step Connection.KeepsBoth .start events) ↔
    Runs.Each Connection.step Connection.Restores .start events := by
  have hstart : Connection.Follows .start ∧ Connection.InStep .start :=
    ⟨rfl, rfl, rfl, fun _ h => (nomatch h), fun _ h => nomatch h⟩
  have halways := Runs.always_iff_each Connection.step Connection.Follows Connection.InStep
    (fun c e h => (Connection.stepsTo h e).follows)
    (fun c e h hs (_ : True) => (Connection.step_inStep_iff h hs e).1) events .start hstart.1 hstart.2
    (Runs.each_of_forall _ (fun _ _ => trivial) _ _)
  refine ⟨fun h => halways.1 h.1, fun h => ⟨halways.2 h, ?_⟩⟩
  refine Runs.each_imp Connection.step (fun c => c.Follows ∧ c.InStep) ?_ events .start hstart h
  intro c e hc hrestores
  obtain ⟨hiff, hkeeps⟩ := Connection.step_inStep_iff hc.1 hc.2 e
  exact ⟨hkeeps hrestores, (Connection.stepsTo hc.1 e).follows, hiff.2 hrestores⟩

/-- A server that lets every user do everything. -/
def openServer : Server := ⟨"wdb", fun _ => .ok (), fun _ => .ok (), [], ⟨0, 0, 0⟩⟩

/-- A transaction that begins a session is rolled back: the role is gone, the session is not. -/
theorem session_left : ¬ (Runs.run Connection.step .start
    [⟨openServer, .startTransaction⟩, ⟨openServer, .wciBegin (some "wcitest") (some ⟨0, 0, 0⟩)⟩,
      ⟨openServer, .rollback⟩]).InStep :=
  fun h => absurd h.initialized (by decide)

end Wdb.Wci
