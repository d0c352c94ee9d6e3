import Wdb.Lib.Runs
import Wdb.Parameter.Units

/-! The parties: organizations, persons and versions of software.

    A party has a row in `party`, one in the table of its kind, and comments. The three functions that add
    parties do the same to the table of their kind: a party that is found by its key is overwritten,
    otherwise one is added with the next number. A call that raises leaves the tables as they were; a
    number that it has drawn is lost. -/

namespace Wdb.Party
open Relational Parameter

/-- A `date`. -/
inductive Date where
  | negInfinity | day (n : ℤ) | infinity
  deriving DecidableEq

inductive PartyType where
  | organization | person | software
  deriving DecidableEq

/-- A row of `party`. -/
structure PartyRow where
  partyid : ℤ
  partytype : PartyType
  partyvalidfrom : Date
  partyvalidto : Date
  deriving DecidableEq

/-- A row of `partycomment`. -/
structure PartyComment where
  partyid : ℤ
  partycomment : Varchar 255
  partycommentstoretime : ℤ
  deriving DecidableEq

/-- `party_pkey`. -/
def PartyRow.clash (a b : PartyRow) : Prop := a.partyid = b.partyid

/-- `partycomment_pkey`. -/
def PartyComment.clash (a b : PartyComment) : Prop :=
  a.partyid = b.partyid ∧ a.partycommentstoretime = b.partycommentstoretime

instance : DecidableRel PartyRow.clash := fun _ _ => inferInstanceAs (Decidable (_ = _))
instance : DecidableRel PartyComment.clash := fun _ _ => inferInstanceAs (Decidable (_ ∧ _))

theorem PartyRow.clash_refl (a : PartyRow) : a.clash a := rfl

theorem PartyComment.clash_refl (a : PartyComment) : a.clash a := ⟨rfl, rfl⟩

/-- What `organization` has besides the number of the party. -/
structure Organization where
  organizationname : Varchar 80
  organizationalias : Varchar 80
  organizationtype : Varchar 80
  deriving DecidableEq

/-- What `person` has, with its checks. -/
structure Person where
  firstname : Option (Varchar 80)
  lastname : Option (Varchar 80)
  title : Option (Varchar 80)
  salutation : Option (Varchar 80)
  initials : Varchar 80
  signum : Option (Varchar 80)
  gender : Option (Varchar 80)
  namesuffix : Option (Varchar 80)
  maritalstatus : Option (Varchar 80)
  gender_check : ∀ g ∈ gender, g.1 = "male" ∨ g.1 = "female"
  maritalstatus_check : ∀ m ∈ maritalstatus, m.1 = "married" ∨ m.1 = "single"

/-- What `softwareversion` has. -/
structure SoftwareVersion where
  softwarename : Varchar 80
  softwareversioncode : Varchar 80
  deriving DecidableEq

/-- `XAK1Wdb_Organization` and `XAK2Wdb_Organization`. -/
def Organization.clash (a b : Organization) : Prop :=
  a.organizationalias = b.organizationalias ∨ a.organizationname = b.organizationname

/-- `XAK1Wdb_Person`. -/
def Person.clash (a b : Person) : Prop := a.initials = b.initials

/-- `XAK1Wdb_SoftwareVersion`. -/
def SoftwareVersion.clash (a b : SoftwareVersion) : Prop := a = b

instance : DecidableRel Organization.clash := fun _ _ => inferInstanceAs (Decidable (_ ∨ _))
instance : DecidableRel Person.clash := fun _ _ => inferInstanceAs (Decidable (_ = _))
instance : DecidableRel SoftwareVersion.clash := fun _ _ => inferInstanceAs (Decidable (_ = _))

/-- A row of the table of a kind. -/
structure Member (D : Type) where
  partyid : ℤ
  row : D

/-- The primary key and the other unique indexes. -/
def Member.clash {D : Type} (clash : D → D → Prop) (a b : Member D) : Prop :=
  a.partyid = b.partyid ∨ clash a.row b.row

instance {D : Type} (clash : D → D → Prop) [DecidableRel clash] : DecidableRel (Member.clash clash) :=
  fun _ _ => inferInstanceAs (Decidable (_ ∨ _))

/-- The table of a kind. -/
abbrev Members (D : Type) (clash : D → D → Prop) : Type := Table (Member D) (Member.clash clash)

/-- The tables that all kinds share, and the next number of `party_partyid_seq`. -/
structure PartyTables where
  party : Table PartyRow PartyRow.clash
  partycomment : Table PartyComment PartyComment.clash
  partyidSeq : ℤ

/-! ### The views -/

/-- A comment with the time it was stored at. -/
abbrev Comment : Type := Varchar 255 × ℤ

/-- A row of `organization_v`, `person_v` or `softwareversion_v`. -/
structure PartyV (D : Type) where
  partyid : ℤ
  partytype : PartyType
  partyvalidfrom : Date
  partyvalidto : Date
  row : D
  comment : Option Comment

/-- `LEFT OUTER JOIN`. -/
def leftOuterJoin {α β : Type} (matching : List α) (f : Option α → β) : List β :=
  if matching.isEmpty then [f none] else matching.map fun a => f (some a)

/-- The view of a kind. -/
def PartyTables.view {D : Type} (s : PartyTables) (members : List (Member D)) : List (PartyV D) :=
  members.flatMap fun d =>
    (s.party.rows.filter fun py => py.partyid = d.partyid).flatMap fun py =>
      leftOuterJoin (s.partycomment.rows.filter fun pc => py.partyid = pc.partyid) fun pc =>
        ⟨py.partyid, py.partytype, py.partyvalidfrom, py.partyvalidto, d.row,
          pc.map fun pc => (pc.partycomment, pc.partycommentstoretime)⟩

/-! ### What the functions have in common -/

section Add
variable {D : Type} {clash : D → D → Prop} [DecidableRel clash]

/-- What a call gives, once its arguments are read: the row, if it meets the checks of the table, the dates
    and the comment. -/
structure Given (D : Type) where
  row : Option D
  validfrom_ : Option Date
  validto_ : Option Date
  comment_ : Option String

def PartyTables.insertComment (s : PartyTables) (ppid_ : ℤ) (comment_ : Option String) (now : ℤ) : Option PartyTables :=
  if comment_.isNone then some s
  else do
    let text ← assign 255 comment_
    let partycomment ← s.partycomment.insert ⟨ppid_, text, now⟩
    return { s with partycomment }

/-- The comment of a party that is there. -/
def PartyTables.setComment (s : PartyTables) (ppid_ : ℤ) (comment_ : Option String) (now : ℤ) : Option PartyTables :=
  if comment_.isNone then some s
  else if s.partycomment.rows.any fun pc => pc.partyid = ppid_ then do
    let text ← assign 255 comment_
    let partycomment ← s.partycomment.updateChecked (fun pc => pc.partyid = ppid_) fun pc =>
      some { pc with partycomment := text, partycommentstoretime := now }
    return { s with partycomment }
  else s.insertComment ppid_ comment_ now

/-- A party with a new number. -/
def PartyTables.insertParty (s : PartyTables) (members : Members D clash) (partytype : PartyType) (g : Given D)
    (ppid_ now : ℤ) : Option (PartyTables × Members D clash) := do
  let validfrom_ ← g.validfrom_
  let validto_ ← g.validto_
  let party ← s.party.insert ⟨ppid_, partytype, validfrom_, validto_⟩
  let row ← g.row
  let members ← members.insert ⟨ppid_, row⟩
  let s ← { s with party }.insertComment ppid_ g.comment_ now
  return (s, members)

/-- `UPDATE party`. -/
def PartyTables.updateDates (s : PartyTables) (g : Given D) (ppid_ : ℤ) : Option PartyTables := do
  let party ← s.party.updateChecked (fun py => py.partyid = ppid_) fun py => do
    let validfrom_ ← g.validfrom_
    let validto_ ← g.validto_
    return { py with partyvalidfrom := validfrom_, partyvalidto := validto_ }
  return { s with party }

/-- `UPDATE` of the table of the kind. -/
def updateMembers (members : Members D clash) (g : Given D) (ppid_ : ℤ) : Option (Members D clash) :=
  members.updateChecked (fun d => d.partyid = ppid_) fun d => g.row.map fun row => { d with row }

/-- A party that is there. -/
def PartyTables.updateParty (s : PartyTables) (members : Members D clash) (g : Given D) (ppid_ now : ℤ) :
    Option (PartyTables × Members D clash) := do
  let s ← s.updateDates g ppid_
  let members ← updateMembers members g ppid_
  let s ← s.setComment ppid_ g.comment_ now
  return (s, members)

/-- What a call leaves, and the number that it returns; `none` when it raises. -/
def PartyTables.addParty (s : PartyTables) (members : Members D clash) (partytype : PartyType) (found : D → Bool)
    (g : Given D) (now : ℤ) : PartyTables × Members D clash × Option ℤ :=
  match (s.view members.rows).find? fun v => found v.row with
  | none =>
    let ppid_ := s.partyidSeq
    let s := { s with partyidSeq := s.partyidSeq + 1 }
    match s.insertParty members partytype g ppid_ now with
    | some (s, members) => (s, members, some ppid_)
    | none => (s, members, none)
  | some v =>
    match s.updateParty members g v.partyid now with
    | some (s, members) => (s, members, some v.partyid)
    | none => (s, members, none)

end Add

/-! ### The functions -/

/-- All tables of parties. -/
structure Parties extends PartyTables where
  organization : Members Organization Organization.clash
  person : Members Person Person.clash
  softwareversion : Members SoftwareVersion SoftwareVersion.clash
  organizationtype : List (Varchar 80)

/-- The tables as they are installed. -/
def Parties.installed (organizationtype : List (Varchar 80)) : Parties :=
  ⟨⟨.empty, .empty, 1⟩, .empty, .empty, .empty, organizationtype⟩

/-- The arguments of `wci.addOrganization`; `none` is `NULL`. -/
structure AddOrganization where
  name_ : Option String
  alias_ : Option String
  type_ : Option String
  validFrom_ : Option Date
  validTo_ : Option Date
  comment_ : Option String

def AddOrganization.row (organizationtype : List (Varchar 80)) (a : AddOrganization) :
    Option Organization := do
  let name ← assign 80 a.name_
  let alias_ ← assign 80 a.alias_
  let type ← assign 80 a.type_
  if type ∈ organizationtype then some ⟨name, alias_, type⟩ else none

def AddOrganization.found (a : AddOrganization) (o : Organization) : Bool :=
  a.alias_ = some o.organizationalias.1

def AddOrganization.given (organizationtype : List (Varchar 80)) (a : AddOrganization) : Given Organization :=
  ⟨a.row organizationtype, a.validFrom_, a.validTo_, a.comment_⟩

def Parties.addOrganization (s : Parties) (a : AddOrganization) (now : ℤ) : Parties × Option ℤ :=
  let (party, organization, ppid_) := s.addParty s.organization .organization a.found
    (a.given s.organizationtype) now
  ({ s with toPartyTables := party, organization }, ppid_)

/-- The arguments of `wci.addPerson`. -/
structure AddPerson where
  firstname_ : Option String
  lastName_ : Option String
  title_ : Option String
  salutation_ : Option String
  initials_ : Option String
  signum_ : Option String
  gender_ : Option String
  suffix_ : Option String
  marital_ : Option String
  validFrom_ : Option Date
  validTo_ : Option Date
  comment_ : Option String

/-- What a column that may be `NULL` is assigned. -/
def assignNullable (n : ℕ) (s : Option String) : Option (Option (Varchar n)) :=
  if s.isNone then some none else (assign n s).map some

def AddPerson.row (a : AddPerson) : Option Person := do
  let firstname ← assignNullable 80 a.firstname_
  let lastname ← assignNullable 80 a.lastName_
  let title ← assignNullable 80 a.title_
  let salutation ← assignNullable 80 a.salutation_
  let initials ← assign 80 a.initials_
  let signum ← assignNullable 80 a.signum_
  let gender ← assignNullable 80 a.gender_
  let namesuffix ← assignNullable 80 a.suffix_
  let maritalstatus ← assignNullable 80 a.marital_
  if h : (∀ g ∈ gender, g.1 = "male" ∨ g.1 = "female") ∧
      ∀ m ∈ maritalstatus, m.1 = "married" ∨ m.1 = "single" then
    some ⟨firstname, lastname, title, salutation, initials, signum, gender, namesuffix, maritalstatus,
      h.1, h.2⟩
  else none

def AddPerson.found (a : AddPerson) (p : Person) : Bool := a.initials_ = some p.initials.1

def AddPerson.given (a : AddPerson) : Given Person := ⟨a.row, a.validFrom_, a.validTo_, a.comment_⟩

def Parties.addPerson (s : Parties) (a : AddPerson) (now : ℤ) : Parties × Option ℤ :=
  let (party, person, ppid_) := s.addParty s.person .person a.found a.given now
  ({ s with toPartyTables := party, person }, ppid_)

/-- The arguments of `wci.addSoftwareVersion`. -/
structure AddSoftwareVersion where
  name_ : Option String
  version_ : Option String
  validFrom_ : Option Date
  validTo_ : Option Date
  comment_ : Option String

def AddSoftwareVersion.row (a : AddSoftwareVersion) : Option SoftwareVersion := do
  let name ← assign 80 a.name_
  let version ← assign 80 a.version_
  return ⟨name, version⟩

def AddSoftwareVersion.found (a : AddSoftwareVersion) (v : SoftwareVersion) : Bool :=
  a.name_ = some v.softwarename.1 ∧ a.version_ = some v.softwareversioncode.1

def AddSoftwareVersion.given (a : AddSoftwareVersion) : Given SoftwareVersion :=
  ⟨a.row, a.validFrom_, a.validTo_, a.comment_⟩

def Parties.addSoftwareVersion (s : Parties) (a : AddSoftwareVersion) (now : ℤ) : Parties × Option ℤ :=
  let (party, softwareversion, ppid_) := s.addParty s.softwareversion .software a.found a.given now
  ({ s with toPartyTables := party, softwareversion }, ppid_)

inductive Function where
  | addOrganization (a : AddOrganization)
  | addPerson (a : AddPerson)
  | addSoftwareVersion (a : AddSoftwareVersion)

/-- A call at a time, from a connection whose session is initialized or not. -/
structure Call where
  initialized : Bool
  now : ℤ
  function : Function

/-- What a call leaves, and what it returns. -/
def Parties.call (s : Parties) (c : Call) : Parties × Option ℤ :=
  if c.initialized then
    match c.function with
    | .addOrganization a => s.addOrganization a c.now
    | .addPerson a => s.addPerson a c.now
    | .addSoftwareVersion a => s.addSoftwareVersion a c.now
  else (s, none)

def Parties.step (s : Parties) (c : Call) : Parties := (s.call c).1

end Wdb.Party
