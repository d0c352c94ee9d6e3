import Wdb.Lib.Runs
import Wdb.Lib.Snapshots
import Wdb.Provider.Forest

/-! `wci.addDataProvider` and `wci.setDataProviderName` in concurrent transactions.

    Both read the greatest bound of the names that they see and insert a name beyond it, so that two
    transactions that read at one time would insert the same interval. What keeps them apart are the
    triggers of the tables: after the comment is inserted or the old name is deleted, `refreshMV` updates
    the row of the materialized view in `materializedview`, and the lock of that row is held until the
    transaction ends. The bounds are read with the lock held.

    Every statement sees what is committed when it starts and what its own transaction did; one that is
    about a row that another open transaction has changed waits. A transaction may make several calls, and
    it may be aborted at any time: so constraints that only make a call raise are left out. -/

namespace Wdb.Provider.Concurrent
open Relational SqlTypes NestedSet Runs Mvcc

/-- A name that is to be inserted for a provider. `addDataProvider` places it beyond the names of all
    namespaces, `setDataProviderName` beyond those of its own. -/
structure Naming where
  dataproviderid : ℤ
  namespaceid : ℤ
  name : String
  today : ℤ
  ofAll : Bool
  deriving DecidableEq

/-- What a transaction has done of a call. -/
inductive Progress where
  | idle
  /-- The provider was inserted, or found and updated; its comment comes next, and then a name if it is
  new. -/
  | commenting (dpid : ℤ) (next : Option Naming)
  /-- The provider was found; its old names of the namespace are deleted next. -/
  | deleting (n : Naming)
  /-- The trigger of the last statement is to run. -/
  | refreshing (next : Option Naming)
  | selecting (n : Naming)
  | inserting (n : Naming) (gpid : ℤ)
  deriving DecidableEq

/-- The tables with their versions, of providers and comments the column that is joined; who has locked
    the row of `materializedview`; and what the transactions are doing. -/
structure State where
  dataprovider : List (Version ℤ)
  dataprovidercomment : List (Version ℤ)
  dataprovidername : List (Version DataProviderName)
  dataproviderSeq : ℤ
  namespaces : List ℤ
  locked : Option ℕ
  progress : ℕ → Progress

section Views
variable (s : State) (xid : ℕ)

/-- The names in `dataprovider_v`: those of a provider with a comment, of which there is a newest. -/
def shownNames : List DataProviderName :=
  (seen s.dataprovidername xid).filter fun n =>
    n.dataproviderid ∈ seen s.dataprovider xid ∧ n.dataproviderid ∈ seen s.dataprovidercomment xid

/-- The provider of a name in a namespace. -/
def findId (name : String) (ns : ℤ) : Option ℤ :=
  ((shownNames s xid).find? fun n =>
    n.dataprovidername = lower name ∧ n.dataprovidernamespaceid = ns).map (·.dataproviderid)

/-- `SELECT max(dataprovidernamerightset)`; `addDataProvider` takes 0 when there is none. -/
def selectBound (n : Naming) : Option ℤ :=
  if n.ofAll then some (((shownNames s xid).map (·.dataprovidernamerightset)).max?.getD 0)
  else (((shownNames s xid).filter fun m => m.dataprovidernamespaceid = n.namespaceid).map
    (·.dataprovidernamerightset)).max?

end Views

/-- What a transaction does next. A `DELETE` that has waited passes over the rows that were committed
    meanwhile, so that it deletes some of those it is about. -/
inductive Action where
  | addDataProvider (xid : ℕ) (ns : ℤ) (name : String) (today : ℤ)
  | setDataProviderName (xid : ℕ) (ns today fromNamespace : ℤ) (fromName name : String)
  | insertComment (xid : ℕ)
  | deleteNames (xid : ℕ) (p : DataProviderName → Bool)
  | refreshMV (xid : ℕ)
  | selectMax (xid : ℕ)
  | insertName (xid : ℕ)
  | commit (xid : ℕ)
  | abort (xid : ℕ)

section Step
variable (s : State) (xid : ℕ)

/-- The state with other progress of a transaction. -/
def State.goOn (progress : Progress) : State :=
  { s with progress := Function.update s.progress xid progress }

/-- The row that is inserted for a name. -/
def Naming.row (n : Naming) (name : String) (gpid : ℤ) : DataProviderName :=
  ⟨n.dataproviderid, n.namespaceid, name, n.today, gpid + 1, gpid + 2⟩

/-- The old names of a provider in a namespace, as far as the `DELETE` has them. -/
def Naming.old (n : Naming) (p : DataProviderName → Bool) (m : DataProviderName) : Bool :=
  m.dataprovidernamespaceid = n.namespaceid && m.dataproviderid = n.dataproviderid && p m

/-- A name can be inserted: its provider and its namespace are there, and the rows that it clashes with
    were deleted by the transaction. -/
def Insertable (row : DataProviderName) : Prop :=
  row.dataproviderid ∈ seen s.dataprovider xid ∧ row.dataprovidernamespaceid ∈ s.namespaces ∧
    ∀ v ∈ s.dataprovidername, v.row.clash row → v.xmax = some xid

instance (row : DataProviderName) : Decidable (Insertable s xid row) :=
  inferInstanceAs (Decidable (_ ∧ _ ∧ _))

/-- One step, when it does not have to wait and does not raise. The `UPDATE` of a provider that is found
    changes no column that is joined. -/
def step (s : State) : Action → Option State
  | .addDataProvider xid ns name today =>
    if s.progress xid = .idle then
      match findId s xid name ns with
      | none =>
        let dpid := s.dataproviderSeq
        some <| State.goOn { s with
          dataprovider := insert s.dataprovider xid dpid
          dataproviderSeq := dpid + 1 } xid
            (.commenting dpid (some ⟨dpid, ns, lower (btrim name), today, true⟩))
      | some dpid => some (s.goOn xid (.commenting dpid none))
    else none
  | .setDataProviderName xid ns today fromNamespace fromName name =>
    if s.progress xid = .idle then
      (findId s xid fromName fromNamespace).bind fun dpid =>
        if -2 ^ 31 ≤ dpid ∧ dpid < 2 ^ 31 then
          some (s.goOn xid (.deleting ⟨dpid, ns, lower name, today, false⟩))
        else none
    else none
  | .insertComment xid =>
    match s.progress xid with
    | .commenting dpid next =>
      if dpid ∈ seen s.dataprovider xid then
        some <| State.goOn { s with
          dataprovidercomment := insert s.dataprovidercomment xid dpid } xid (.refreshing next)
      else none
    | _ => none
  | .deleteNames xid p =>
    match s.progress xid with
    | .deleting n =>
      if Free s.dataprovidername xid (n.old p) then
        some <| State.goOn { s with
          dataprovidername := delete s.dataprovidername xid (n.old p) } xid (.refreshing (some n))
      else none
    | _ => none
  | .refreshMV xid =>
    match s.progress xid with
    | .refreshing next =>
      if s.locked = none ∨ s.locked = some xid then
        some <| State.goOn { s with locked := some xid } xid (next.elim .idle .selecting)
      else none
    | _ => none
  | .selectMax xid =>
    match s.progress xid with
    | .selecting n => (selectBound s xid n).map fun gpid => s.goOn xid (.inserting n gpid)
    | _ => none
  | .insertName xid =>
    match s.progress xid with
    | .inserting n gpid =>
      (varchar 255 n.name).bind fun name =>
        if Insertable s xid (n.row name gpid) then
          -- the trigger finds the lock held
          some <| State.goOn { s with
            dataprovidername := insert s.dataprovidername xid (n.row name gpid) } xid .idle
        else none
    | _ => none
  | .commit xid =>
    if s.progress xid = .idle then
      some { s with
        dataprovider := commit s.dataprovider xid
        dataprovidercomment := commit s.dataprovidercomment xid
        dataprovidername := commit s.dataprovidername xid
        locked := if s.locked = some xid then none else s.locked }
    else none
  | .abort xid =>
    some <| State.goOn { s with
      dataprovider := abort s.dataprovider xid
      dataprovidercomment := abort s.dataprovidercomment xid
      dataprovidername := abort s.dataprovidername xid
      locked := if s.locked = some xid then none else s.locked } xid .idle

end Step

/-- The names that are committed. -/
def State.names (s : State) : List DataProviderName := committed s.dataprovidername

/-- No transaction is open, every name has a provider with a comment, and the names are a forest. -/
structure Initial (s : State) : Prop where
  dataprovider : ∀ v ∈ s.dataprovider, v.xmin = none ∧ v.xmax = none
  dataprovidercomment : ∀ v ∈ s.dataprovidercomment, v.xmin = none ∧ v.xmax = none
  dataprovidername : ∀ v ∈ s.dataprovidername, v.xmin = none ∧ v.xmax = none
  linked : ∀ v ∈ s.dataprovidername, (∃ p ∈ s.dataprovider, p.row = v.row.dataproviderid) ∧
    ∃ c ∈ s.dataprovidercomment, c.row = v.row.dataproviderid
  locked : s.locked = none
  progress : ∀ xid, s.progress xid = .idle
  forest : Forest s.names

/-! ### The invariant -/

/-- The lock is held while the bounds are read and until the name is inserted. -/
def Holding : Progress → Prop
  | .selecting _ | .inserting .. => True
  | _ => False

/-- The provider of the name that is to be inserted has a comment, once that is inserted. -/
def Commented (s : State) (xid : ℕ) : Progress → Prop
  | .idle => True
  | .commenting dpid next => ∀ n ∈ next, n.dataproviderid = dpid
  | .refreshing next => ∀ n ∈ next, n.dataproviderid ∈ seen s.dataprovidercomment xid
  | .deleting n | .selecting n | .inserting n _ => n.dataproviderid ∈ seen s.dataprovidercomment xid

/-- What holds of a transaction. The bound that it has read is still beyond the names that it sees. -/
structure Sound (s : State) (xid : ℕ) (progress : Progress) : Prop where
  holding : Holding progress → s.locked = some xid
  commented : Commented s xid progress
  bound : ∀ n gpid, progress = .inserting n gpid → ∀ m ∈ seen s.dataprovidername xid,
    m.dataprovidernamespaceid = n.namespaceid → m.dataprovidernamerightset ≤ gpid

/-- A name has its provider, or a comment of it. -/
def Refers (n : DataProviderName) (dpid : ℤ) : Prop := dpid = n.dataproviderid

/-- The names are a forest for the others, and for the transaction that holds the lock; it alone has
    inserted names. Who has deleted some holds the lock, or its trigger is still to run. -/
structure Inv (s : State) : Prop where
  kept : ∀ v ∈ s.dataprovider, v.xmax = none
  keptComments : ∀ v ∈ s.dataprovidercomment, v.xmax = none
  provided : Supported Refers s.dataprovidername s.dataprovider
  commented : Supported Refers s.dataprovidername s.dataprovidercomment
  inserted : ∀ v ∈ s.dataprovidername, ∀ xid, v.xmin = some xid → s.locked = some xid
  deleted : ∀ v ∈ s.dataprovidername, ∀ xid, v.xmax = some xid →
    s.locked = some xid ∨ s.progress xid ≠ .idle
  forest : Forest s.names
  own : ∀ xid, s.locked = some xid → Forest (seen s.dataprovidername xid)
  sound : ∀ xid, Sound s xid (s.progress xid)

theorem inv_of_initial {s : State} (h : Initial s) : Inv s := by
  have hsupported : ∀ {t : List (Version ℤ)}, (∀ v ∈ t, v.xmin = none ∧ v.xmax = none) →
      (∀ v ∈ s.dataprovidername, ∃ p ∈ t, p.row = v.row.dataproviderid) →
      Supported Refers s.dataprovidername t := by
    intro t ht hlinked v hv
    obtain ⟨p, hp, hrow⟩ := hlinked v hv
    refine ⟨p, hp, hrow, Or.inl (ht p hp).1, fun xid hxid => ?_⟩
    rw [(ht p hp).2] at hxid
    cases hxid
  refine ⟨fun v hv => (h.dataprovider v hv).2, fun v hv => (h.dataprovidercomment v hv).2,
    hsupported h.dataprovider fun v hv => (h.linked v hv).1,
    hsupported h.dataprovidercomment fun v hv => (h.linked v hv).2, fun v hv xid hxid => ?_,
    fun v hv xid hxid => ?_, h.forest, fun xid hxid => ?_, fun xid => ?_⟩
  · rw [(h.dataprovidername v hv).1] at hxid
    cases hxid
  · rw [(h.dataprovidername v hv).2] at hxid
    cases hxid
  · rw [h.locked] at hxid
    cases hxid
  · rw [h.progress]
    exact ⟨False.elim, trivial, fun _ _ h => by cases h⟩

/-! ### One step -/

section Lemmas
variable {s s' : State} {xid other : ℕ}

theorem forest_subset {l l' : List DataProviderName} (h : Forest l) (hsub : ∀ n ∈ l', n ∈ l) : Forest l' :=
  Forest.of_compatible (fun n hn => h.ordered n (hsub n hn)) fun _ hm _ hn =>
    h.compatible (hsub _ hm) (hsub _ hn)

/-- What another transaction does leaves a transaction as it is, when it keeps its lock, the comments that
    it sees, and, while it holds the lock, the names that it sees. -/
theorem Sound.transfer {progress : Progress} (h : Sound s xid progress)
    (hlocked : s.locked = some xid → s'.locked = some xid)
    (hcomments : ∀ c ∈ seen s.dataprovidercomment xid, c ∈ seen s'.dataprovidercomment xid)
    (hnames : s.locked = some xid → seen s'.dataprovidername xid = seen s.dataprovidername xid) :
    Sound s' xid progress := by
  refine ⟨fun hp => hlocked (h.holding hp), ?_, fun n gpid hp m hm => ?_⟩
  · have hcommented := h.commented
    cases progress with
    | idle => trivial
    | commenting dpid next => exact hcommented
    | deleting n => exact hcomments _ hcommented
    | refreshing next => exact fun n hn => hcomments _ (hcommented n hn)
    | selecting n => exact hcomments _ hcommented
    | inserting n gpid => exact hcomments _ hcommented
  · subst hp
    rw [hnames (h.holding trivial)] at hm
    exact h.bound n gpid rfl m hm

/-- Other progress of one transaction. -/
theorem forall_sound_goOn {progress : Progress} (hself : Sound s' xid progress)
    (hother : ∀ other, other ≠ xid → Sound s' other (s.progress other)) :
    ∀ other, Sound s' other (Function.update s.progress xid progress other) := by
  intro other
  by_cases h : other = xid
  · rw [h, Function.update_self]
    exact hself
  · rw [Function.update_of_ne h]
    exact hother other h

/-- Nobody but the transaction goes to idle. -/
theorem deleted_goOn {progress : Progress} {v : Version DataProviderName}
    (h : v.xmax = some other → s.locked = some other ∨ s.progress other ≠ .idle)
    (hself : other = xid → v.xmax = some other → s.locked = some other ∨ progress ≠ .idle)
    (hv : v.xmax = some other) :
    s.locked = some other ∨ Function.update s.progress xid progress other ≠ .idle := by
  by_cases hx : other = xid
  · rw [hx, Function.update_self, ← hx]
    exact hself hx hv
  · rw [Function.update_of_ne hx]
    exact h hv

/-- Comments are only added. -/
theorem seen_comments_commit {t : List (Version ℤ)} (hkept : ∀ v ∈ t, v.xmax = none) :
    ∀ c ∈ seen t other, c ∈ seen (commit t xid) other := by
  intro c hc
  obtain ⟨v, hv, hvisible, rfl⟩ := mem_seen.1 hc
  refine mem_seen.2 ⟨_, mem_commit.2 ⟨v, hv, ?_, rfl⟩, ?_, rfl⟩
  · rw [hkept v hv]
    exact (Option.some_ne_none xid).symm
  · rw [visible_iff] at hvisible ⊢
    refine ⟨?_, hvisible.2⟩
    simp only
    split
    · exact Or.inl rfl
    · exact hvisible.1

theorem kept_insert {t : List (Version ℤ)} {c : ℤ} (hkept : ∀ v ∈ t, v.xmax = none) :
    ∀ v ∈ insert t xid c, v.xmax = none := by
  intro v hv
  rcases mem_insert.1 hv with hv | rfl
  · exact hkept v hv
  · rfl

theorem kept_commit {t : List (Version ℤ)} (hkept : ∀ v ∈ t, v.xmax = none) :
    ∀ v ∈ commit t xid, v.xmax = none := by
  intro v hv
  obtain ⟨u, hu, _, rfl⟩ := mem_commit.1 hv
  exact hkept u hu

theorem kept_abort {t : List (Version ℤ)} (hkept : ∀ v ∈ t, v.xmax = none) :
    ∀ v ∈ abort t xid, v.xmax = none := by
  intro v hv
  obtain ⟨u, hu, _, rfl⟩ := mem_abort.1 hv
  simp [hkept u hu]

/-- A row that is seen can support one that is inserted. -/
theorem exists_support {t : List (Version ℤ)} (hkept : ∀ v ∈ t, v.xmax = none) {n : DataProviderName}
    (h : n.dataproviderid ∈ seen t xid) :
    ∃ r ∈ t, Refers n r.row ∧ (r.xmin = none ∨ r.xmin = some xid) ∧ r.xmax = none := by
  obtain ⟨r, hr, hvisible, hrow⟩ := mem_seen.1 h
  exact ⟨r, hr, hrow, (visible_iff.1 hvisible).1, hkept r hr⟩

/-- What supports a row that is seen is seen. -/
theorem seen_of_supported {t : List (Version ℤ)} (hkept : ∀ v ∈ t, v.xmax = none)
    (h : Supported Refers s.dataprovidername t) {n : DataProviderName}
    (hn : n ∈ seen s.dataprovidername xid) : n.dataproviderid ∈ seen t xid := by
  obtain ⟨v, hv, hvisible, rfl⟩ := mem_seen.1 hn
  obtain ⟨r, hr, hrow, hsup⟩ := h v hv
  rw [visible_iff] at hvisible
  refine mem_seen.2 ⟨r, hr, visible_iff.2 ⟨?_, ?_⟩, hrow⟩
  · rcases hsup.xmin with hmin | hmin
    · exact Or.inl hmin
    · rw [hmin]
      exact hvisible.1
  · rw [hkept r hr]
    exact (Option.some_ne_none xid).symm

end Lemmas

section Invariant
variable {s : State} {xid : ℕ}

/-- Every name that a transaction sees is shown to it. -/
theorem Inv.shownNames (h : Inv s) : shownNames s xid = seen s.dataprovidername xid :=
  List.filter_eq_self.2 fun _ hn => decide_eq_true
    ⟨seen_of_supported h.kept h.provided hn, seen_of_supported h.keptComments h.commented hn⟩

/-- The bound that is read is beyond the names of the namespace. -/
theorem Inv.le_selectBound (h : Inv s) {n : Naming} {gpid : ℤ} (hbound : selectBound s xid n = some gpid) :
    ∀ m ∈ seen s.dataprovidername xid, m.dataprovidernamespaceid = n.namespaceid →
      m.dataprovidernamerightset ≤ gpid := by
  intro m hm hns
  unfold selectBound at hbound
  rw [h.shownNames] at hbound
  split at hbound
  · have hmem := List.mem_map_of_mem (f := DataProviderName.dataprovidernamerightset) hm
    obtain rfl := Option.some_inj.1 hbound
    cases hmax : ((seen s.dataprovidername xid).map (·.dataprovidernamerightset)).max? with
    | none =>
      rw [List.max?_eq_none_iff] at hmax
      rw [hmax] at hmem
      cases hmem
    | some g => exact (List.max?_eq_some_iff.1 hmax).2 _ hmem
  · refine (List.max?_eq_some_iff.1 hbound).2 _ (List.mem_map_of_mem (List.mem_filter.2 ⟨hm, ?_⟩))
    exact decide_eq_true hns

/-- A step that changes only progress, and perhaps adds a provider. -/
theorem Inv.goOn (h : Inv s) {progress : Progress} (hidle : progress ≠ .idle ∨ s.locked = some xid)
    (hsound : Sound s xid progress) : Inv (s.goOn xid progress) := by
  refine ⟨h.kept, h.keptComments, h.provided, h.commented, h.inserted, fun v hv other => ?_, h.forest,
    h.own, forall_sound_goOn (hsound.transfer id (fun _ hc => hc) fun _ => rfl) fun other _ =>
      (h.sound other).transfer id (fun _ hc => hc) fun _ => rfl⟩
  refine deleted_goOn (h.deleted v hv other) fun hx _ => ?_
  rcases hidle with hidle | hidle
  · exact Or.inr hidle
  · exact Or.inl (hx ▸ hidle)

theorem Inv.addDataProvider (h : Inv s) {dpid : ℤ} {n : Naming} (hn : n.dataproviderid = dpid) :
    Inv (State.goOn { s with
      dataprovider := insert s.dataprovider xid dpid
      dataproviderSeq := dpid + 1 } xid (.commenting dpid (some n))) := by
  have hadded : Inv { s with
      dataprovider := insert s.dataprovider xid dpid
      dataproviderSeq := dpid + 1 } :=
    ⟨kept_insert h.kept, h.keptComments,
      h.provided.mono fun r hr => mem_insert.2 (Or.inl hr), h.commented, h.inserted, h.deleted, h.forest,
      h.own, fun other => (h.sound other).transfer id (fun _ hc => hc) fun _ => rfl⟩
  refine hadded.goOn (Or.inl (by simp)) ⟨False.elim, ?_, fun _ _ hp => by cases hp⟩
  intro m hm
  obtain rfl := Option.some_inj.1 hm
  exact hn

theorem Inv.insertComment (h : Inv s) {dpid : ℤ} {next : Option Naming}
    (hp : s.progress xid = .commenting dpid next) :
    Inv (State.goOn { s with
      dataprovidercomment := insert s.dataprovidercomment xid dpid } xid (.refreshing next)) := by
  have hsound := (h.sound xid).commented
  rw [hp] at hsound
  have hcomments : ∀ other, ∀ c ∈ seen s.dataprovidercomment other,
      c ∈ seen (insert s.dataprovidercomment xid dpid) other := by
    intro other c hc
    obtain ⟨v, hv, hvisible, rfl⟩ := mem_seen.1 hc
    exact mem_seen.2 ⟨v, mem_insert.2 (Or.inl hv), hvisible, rfl⟩
  have hadded : Inv { s with dataprovidercomment := insert s.dataprovidercomment xid dpid } :=
    ⟨h.kept, kept_insert h.keptComments, h.provided,
      h.commented.mono fun r hr => mem_insert.2 (Or.inl hr), h.inserted, h.deleted, h.forest, h.own,
      fun other => (h.sound other).transfer id (hcomments other) fun _ => rfl⟩
  refine hadded.goOn (Or.inl (by simp)) ⟨False.elim, fun n hn => ?_, fun _ _ hp => by cases hp⟩
  rw [hsound n hn, seen_insert_self]
  exact List.mem_append_right _ (List.mem_singleton.2 rfl)

theorem Inv.deleteNames (h : Inv s) {n : Naming} {p : DataProviderName → Bool}
    (hp : s.progress xid = .deleting n) (hfree : Free s.dataprovidername xid (n.old p)) :
    Inv (State.goOn { s with
      dataprovidername := delete s.dataprovidername xid (n.old p) } xid (.refreshing (some n))) := by
  have hsound := (h.sound xid).commented
  rw [hp] at hsound
  have hnames : ∀ other, other ≠ xid → seen (delete s.dataprovidername xid (n.old p)) other =
      seen s.dataprovidername other := fun other hother => seen_delete_other hfree hother
  refine ⟨h.kept, h.keptComments, h.provided.delete hfree, h.commented.delete hfree,
    fun v hv other hother => ?_, fun v hv other => ?_, ?_, fun other hother => ?_,
    forall_sound_goOn ⟨False.elim, fun m hm => ?_, fun _ _ hp => by cases hp⟩ fun other hother =>
      (h.sound other).transfer id (fun _ hc => hc) fun _ => hnames other hother⟩
  · rcases mem_delete.1 hv with ⟨hv, _⟩ | ⟨u, hu, _, rfl⟩
    · exact h.inserted v hv other hother
    · exact h.inserted u hu other hother
  · intro hmax
    by_cases hx : other = xid
    · subst hx
      exact Or.inr (by simp [State.goOn])
    · refine deleted_goOn (s := s) (fun hmax => ?_) (fun hx' => absurd hx' hx) hmax
      rcases mem_delete.1 hv with ⟨hv, _⟩ | ⟨u, hu, _, rfl⟩
      · exact h.deleted v hv other hmax
      · exact absurd (Option.some_inj.1 hmax).symm hx
  · rw [State.names, State.goOn, committed_delete]
    exact h.forest
  · by_cases hx : other = xid
    · subst hx
      change Forest (seen (delete s.dataprovidername other (n.old p)) other)
      rw [seen_delete_self]
      exact (h.own other hother).filter _
    · change Forest (seen (delete s.dataprovidername xid (n.old p)) other)
      rw [hnames other hx]
      exact h.own other hother
  · obtain rfl := Option.some_inj.1 hm
    exact hsound

theorem Inv.refreshMV (h : Inv s) {next : Option Naming} (hp : s.progress xid = .refreshing next)
    (hfree : s.locked = none ∨ s.locked = some xid) :
    Inv (State.goOn { s with locked := some xid } xid (next.elim .idle .selecting)) := by
  have hsound := (h.sound xid).commented
  rw [hp] at hsound
  have hlocked : ∀ other, s.locked = some other → other = xid := by
    intro other hother
    rcases hfree with hfree | hfree <;> rw [hfree] at hother
    · cases hother
    · exact (Option.some_inj.1 hother).symm
  have hadded : Inv { s with locked := some xid } := by
    refine ⟨h.kept, h.keptComments, h.provided, h.commented, fun v hv other hmin => ?_,
      fun v hv other hmax => ?_, h.forest, fun other hother => ?_, fun other => ?_⟩
    · exact congrArg some (hlocked other (h.inserted v hv other hmin)).symm
    · refine (h.deleted v hv other hmax).imp_left fun hl => ?_
      exact congrArg some (hlocked other hl).symm
    · obtain rfl := Option.some_inj.1 hother
      rcases hfree with hfree | hfree
      · -- who holds no lock has inserted no names
        refine forest_subset h.forest fun m hm => (seen_sublist fun v hv hmin => ?_).subset hm
        rw [h.inserted v hv xid hmin] at hfree
        cases hfree
      · exact h.own xid hfree
    · refine (h.sound other).transfer (fun hl => ?_) (fun _ hc => hc) fun _ => rfl
      exact congrArg some (hlocked other hl).symm
  cases next with
  | none => exact hadded.goOn (Or.inr rfl) ⟨False.elim, trivial, fun _ _ hp => by cases hp⟩
  | some n =>
    exact hadded.goOn (Or.inl (by simp)) ⟨fun _ => rfl, hsound n rfl, fun _ _ hp => by cases hp⟩

theorem Inv.insertName (h : Inv s) {n : Naming} {gpid : ℤ} {name : String}
    (hp : s.progress xid = .inserting n gpid) (hok : Insertable s xid (n.row name gpid)) :
    Inv (State.goOn { s with
      dataprovidername := insert s.dataprovidername xid (n.row name gpid) } xid .idle) := by
  have hsound := h.sound xid
  rw [hp] at hsound
  have hlocked := hsound.holding trivial
  have hnames : ∀ other, other ≠ xid → seen (insert s.dataprovidername xid (n.row name gpid)) other =
      seen s.dataprovidername other := fun other hother => seen_insert_other hother
  refine ⟨h.kept, h.keptComments, h.provided.insert (exists_support h.kept hok.1),
    h.commented.insert (exists_support h.keptComments hsound.commented), fun v hv other hmin => ?_,
    fun v hv other => ?_, ?_, fun other hother => ?_,
    forall_sound_goOn ⟨False.elim, trivial, fun _ _ hp => by cases hp⟩ fun other hother =>
      (h.sound other).transfer id (fun _ hc => hc) fun _ => hnames other hother⟩
  · rcases mem_insert.1 hv with hv | rfl
    · exact h.inserted v hv other hmin
    · exact hmin ▸ hlocked
  · refine deleted_goOn (s := s) (fun hmax => ?_) fun hx _ => Or.inl (hx ▸ hlocked)
    rcases mem_insert.1 hv with hv | rfl
    · exact h.deleted v hv other hmax
    · cases hmax
  · rw [State.names, State.goOn, committed_insert]
    exact h.forest
  · have hx : xid = other := Option.some_inj.1 (hlocked.symm.trans hother)
    subst hx
    change Forest (seen (insert s.dataprovidername xid (n.row name gpid)) xid)
    rw [seen_insert_self]
    -- the new name lies beyond all names of its namespace that the transaction sees
    exact (h.own xid hlocked).append (k := gpid) rfl (hsound.bound n gpid rfl)

theorem Inv.commit (h : Inv s) (hp : s.progress xid = .idle) :
    Inv { s with
      dataprovider := Mvcc.commit s.dataprovider xid
      dataprovidercomment := Mvcc.commit s.dataprovidercomment xid
      dataprovidername := Mvcc.commit s.dataprovidername xid
      locked := if s.locked = some xid then none else s.locked } := by
  have hcomments : ∀ other, ∀ c ∈ seen s.dataprovidercomment other,
      c ∈ seen (Mvcc.commit s.dataprovidercomment xid) other := fun _ => seen_comments_commit h.keptComments
  have hlocked : ∀ other, other ≠ xid → s.locked = some other →
      (if s.locked = some xid then none else s.locked) = some other := by
    intro other hother hl
    rw [if_neg fun hx => hother (Option.some_inj.1 (hl.symm.trans hx)), hl]
  -- the names are those of before when the transaction does not hold the lock
  have hsame : s.locked ≠ some xid → Mvcc.commit s.dataprovidername xid = s.dataprovidername := by
    refine fun hl => commit_eq_self fun v hv => ⟨fun hmin => hl (h.inserted v hv xid hmin), fun hmax => ?_⟩
    exact (h.deleted v hv xid hmax).elim hl fun hidle => hidle hp
  refine ⟨kept_commit h.kept, kept_commit h.keptComments, h.provided.commit, h.commented.commit,
    fun v hv other hmin => ?_, fun v hv other hmax => ?_, ?_, fun other hother => ?_, fun other => ?_⟩
  · obtain ⟨u, hu, _, rfl⟩ := mem_commit.1 hv
    simp only at hmin
    split at hmin
    · cases hmin
    · next hne =>
      refine hlocked other (fun hx => hne (hx ▸ hmin)) (h.inserted u hu other hmin)
  · obtain ⟨u, hu, hmax', rfl⟩ := mem_commit.1 hv
    have hne : other ≠ xid := fun hx => hmax' (hx ▸ hmax)
    exact (h.deleted u hu other hmax).imp_left (hlocked other hne)
  · rw [State.names, committed_commit]
    by_cases hl : s.locked = some xid
    · exact h.own xid hl
    · rw [← committed_commit, hsame hl]
      exact h.forest
  · simp only at hother
    split at hother
    · cases hother
    · next hl =>
      simp only
      rw [hsame hl]
      exact h.own other hother
  · by_cases hx : other = xid
    · rw [hx]
      simp only
      rw [hp]
      exact ⟨False.elim, trivial, fun _ _ hp => by cases hp⟩
    · refine (h.sound other).transfer (hlocked other hx) (hcomments other) fun hl => ?_
      simp only
      rw [hsame fun hxid => hx (Option.some_inj.1 (hl.symm.trans hxid))]

theorem Inv.abort (h : Inv s) :
    Inv (State.goOn { s with
      dataprovider := Mvcc.abort s.dataprovider xid
      dataprovidercomment := Mvcc.abort s.dataprovidercomment xid
      dataprovidername := Mvcc.abort s.dataprovidername xid
      locked := if s.locked = some xid then none else s.locked } xid .idle) := by
  have hlocked : ∀ other, other ≠ xid → s.locked = some other →
      (if s.locked = some xid then none else s.locked) = some other := by
    intro other hother hl
    rw [if_neg fun hx => hother (Option.some_inj.1 (hl.symm.trans hx)), hl]
  have hcomments : ∀ other, other ≠ xid → ∀ c ∈ seen s.dataprovidercomment other,
      c ∈ seen (Mvcc.abort s.dataprovidercomment xid) other := by
    intro other hother c hc
    rwa [seen_abort_other hother]
  refine ⟨kept_abort h.kept, kept_abort h.keptComments, h.provided.abort, h.commented.abort,
    fun v hv other hmin => ?_, fun v hv other hmax => ?_, ?_, fun other hother => ?_,
    forall_sound_goOn ⟨False.elim, trivial, fun _ _ hp => by cases hp⟩ fun other hother =>
      (h.sound other).transfer (hlocked other hother) (hcomments other hother) fun _ =>
        seen_abort_other hother⟩
  · obtain ⟨u, hu, hne, rfl⟩ := mem_abort.1 hv
    exact hlocked other (fun hx => hne (hx ▸ hmin)) (h.inserted u hu other hmin)
  · obtain ⟨u, hu, _, rfl⟩ := mem_abort.1 hv
    simp only at hmax
    split at hmax
    · cases hmax
    · next hne =>
      have hx : other ≠ xid := fun hx => hne (hx ▸ hmax)
      have hprogress : Function.update s.progress xid .idle other = s.progress other :=
        Function.update_of_ne hx _ _
      exact (h.deleted u hu other hmax).imp (hlocked other hx) fun hidle => hprogress.trans_ne hidle
  · rw [State.names, State.goOn, committed_abort]
    exact h.forest
  · simp only [State.goOn] at hother
    split at hother
    · cases hother
    · next hl =>
      have hx : other ≠ xid := fun hx => hl (hx ▸ hother)
      change Forest (seen (Mvcc.abort s.dataprovidername xid) other)
      rw [seen_abort_other hx]
      exact h.own other hother

/-- Every step keeps the invariant. -/
theorem inv_step {s' : State} (h : Inv s) (a : Action) (hs : step s a = some s') : Inv s' := by
  cases a with
  | addDataProvider xid ns name today =>
    simp only [step] at hs
    split at hs
    · split at hs
      · obtain rfl := Option.some_inj.1 hs
        exact h.addDataProvider rfl
      · obtain rfl := Option.some_inj.1 hs
        exact h.goOn (Or.inl (by simp)) ⟨False.elim, fun n hn => (by cases hn), fun _ _ hp => by cases hp⟩
    · cases hs
  | setDataProviderName xid ns today fromNamespace fromName name =>
    simp only [step] at hs
    split at hs
    · obtain ⟨dpid, hfind, hs⟩ := Option.bind_eq_some_iff.1 hs
      split at hs
      · obtain rfl := Option.some_inj.1 hs
        obtain ⟨m, hm, rfl⟩ := Option.map_eq_some_iff.1 hfind
        have hshown := List.mem_filter.1 (List.mem_of_find?_eq_some hm)
        exact h.goOn (Or.inl (by simp))
          ⟨False.elim, (of_decide_eq_true hshown.2).2, fun _ _ hp => by cases hp⟩
      · cases hs
    · cases hs
  | insertComment xid =>
    simp only [step] at hs
    split at hs
    · next dpid next hp =>
      split at hs
      · obtain rfl := Option.some_inj.1 hs
        exact h.insertComment hp
      · cases hs
    · cases hs
  | deleteNames xid p =>
    simp only [step] at hs
    split at hs
    · next n hp =>
      split at hs
      · next hfree =>
        obtain rfl := Option.some_inj.1 hs
        exact h.deleteNames hp hfree
      · cases hs
    · cases hs
  | refreshMV xid =>
    simp only [step] at hs
    split at hs
    · next next hp =>
      split at hs
      · next hfree =>
        obtain rfl := Option.some_inj.1 hs
        exact h.refreshMV hp hfree
      · cases hs
    · cases hs
  | selectMax xid =>
    simp only [step] at hs
    split at hs
    · next n hp =>
      obtain ⟨gpid, hgpid, rfl⟩ := Option.map_eq_some_iff.1 hs
      have hsound := h.sound xid
      rw [hp] at hsound
      refine h.goOn (Or.inl (by simp)) ⟨fun _ => hsound.holding trivial, hsound.commented, ?_⟩
      intro n' gpid' heq
      cases heq
      exact h.le_selectBound hgpid
    · cases hs
  | insertName xid =>
    simp only [step] at hs
    split at hs
    · next n gpid hp =>
      obtain ⟨name, _, hs⟩ := Option.bind_eq_some_iff.1 hs
      split at hs
      · next hok =>
        obtain rfl := Option.some_inj.1 hs
        exact h.insertName hp hok
      · cases hs
    · cases hs
  | commit xid =>
    simp only [step] at hs
    split at hs
    · next hp =>
      obtain rfl := Option.some_inj.1 hs
      exact h.commit hp
    · cases hs
  | abort xid =>
    obtain rfl := Option.some_inj.1 hs
    exact h.abort

end Invariant

/-! ### Whole runs -/

/-- In every interleaving of transactions that add and rename data providers, the committed names are a
    forest at any time, and they stay one with what the transaction that holds the lock has done. -/
theorem forest_of_exec {s₀ s : State} (h : Initial s₀) (actions : List Action)
    (hs : Runs.exec step s₀ actions = some s) :
    Forest s.names ∧ ∀ xid, s.locked = some xid → Forest (seen s.dataprovidername xid) := by
  have hinv : Inv s := inv_exec step (fun _ => Inv) (fun _ _ a _ hinv hstep => inv_step hinv a hstep)
    actions [] s₀ s (inv_of_initial h) hs
  exact ⟨hinv.forest, hinv.own⟩

/-- No data providers, and no transactions. -/
def noProviders : State := ⟨[], [], [], 1, [1], none, fun _ => .idle⟩

theorem initial_noProviders : Initial noProviders := by
  refine ⟨?_, ?_, ?_, ?_, rfl, fun _ => rfl, Forest.of_compatible ?_ ?_⟩
  all_goals
    intro v hv
    cases hv

/-- Two transactions add a provider each. The second has inserted its comment before the first commits,
    and then waits for the lock. -/
def twoProviders : List Action :=
  [.addDataProvider 1 1 "a" 0, .addDataProvider 2 1 "b" 0, .insertComment 2, .insertComment 1, .refreshMV 1,
    .selectMax 1, .insertName 1, .commit 1, .refreshMV 2, .selectMax 2, .insertName 2, .commit 2]

/-- It reads the bound of the first. -/
theorem forest_of_exec_twoProviders : ∃ s, Runs.exec step noProviders twoProviders = some s ∧
    s.names.map DataProviderName.span = [⟨1, 2⟩, ⟨3, 4⟩] ∧ Forest s.names := by
  have hnames : (Runs.exec step noProviders twoProviders).map (fun s => s.names.map DataProviderName.span) =
      some [⟨1, 2⟩, ⟨3, 4⟩] := by decide +kernel
  obtain ⟨s, hs, hspans⟩ := Option.map_eq_some_iff.1 hnames
  exact ⟨s, hs, hspans, (forest_of_exec initial_noProviders twoProviders hs).1⟩

end Wdb.Provider.Concurrent
