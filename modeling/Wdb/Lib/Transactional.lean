import Mathlib

/-! A variable that a rollback restores.

    A connection is outside a transaction block, inside one, or inside one after an error. A statement
    outside a block is a transaction of its own. An error restores the variable at once, and the block
    then only waits for its end. -/

namespace Transactional

/-- A variable with the state of the connection around it. -/
inductive Var (α : Type*) where
  | idle (a : α)
  | block (start a : α)
  | aborted (a : α)
  deriving DecidableEq

namespace Var
variable {α β : Type*}

/-- What the variable holds. -/
def value : Var α → α
  | idle a => a
  | block _ a => a
  | aborted a => a

/-- What it holds after a rollback. -/
def start : Var α → α
  | idle a => a
  | block a _ => a
  | aborted a => a

/-- Whether a statement is executed. -/
def accepts : Var α → Bool
  | aborted _ => false
  | _ => true

/-- `BEGIN`; within a block it is a warning. -/
def startTransaction : Var α → Var α
  | idle a => block a a
  | v => v

/-- `COMMIT`; after an error it is a rollback. -/
def commit (v : Var α) : Var α := idle v.value

/-- `ROLLBACK`. -/
def rollback (v : Var α) : Var α := idle v.start

/-- A statement that succeeds and sets the variable. -/
def set (b : α) : Var α → Var α
  | idle _ => idle b
  | block a _ => block a b
  | aborted a => aborted a

/-- A statement that fails. -/
def fail : Var α → Var α
  | block a _ => aborted a
  | v => v

/-- What a variable says that depends on this one. -/
def map (f : α → β) : Var α → Var β
  | idle a => idle (f a)
  | block a b => block (f a) (f b)
  | aborted a => aborted (f a)

@[simp] theorem value_map (f : α → β) (v : Var α) : (v.map f).value = f v.value := by cases v <;> rfl

@[simp] theorem accepts_map (f : α → β) (v : Var α) : (v.map f).accepts = v.accepts := by
  cases v <;> rfl

theorem map_startTransaction (f : α → β) (v : Var α) :
    v.startTransaction.map f = (v.map f).startTransaction := by
  cases v <;> rfl

theorem map_commit (f : α → β) (v : Var α) : v.commit.map f = (v.map f).commit := by cases v <;> rfl

theorem map_rollback (f : α → β) (v : Var α) : v.rollback.map f = (v.map f).rollback := by
  cases v <;> rfl

theorem map_set (f : α → β) (b : α) (v : Var α) : (v.set b).map f = (v.map f).set (f b) := by
  cases v <;> rfl

theorem map_fail (f : α → β) (v : Var α) : v.fail.map f = (v.map f).fail := by cases v <;> rfl

@[simp] theorem value_startTransaction (v : Var α) : v.startTransaction.value = v.value := by
  cases v <;> rfl

@[simp] theorem value_commit (v : Var α) : v.commit.value = v.value := rfl

@[simp] theorem value_rollback (v : Var α) : v.rollback.value = v.start := rfl

@[simp] theorem value_fail (v : Var α) : v.fail.value = v.start := by cases v <;> rfl

theorem start_of_not_accepts {v : Var α} (h : ¬ v.accepts) : v.start = v.value := by
  cases v with
  | aborted a => rfl
  | idle a => exact absurd rfl h
  | block a b => exact absurd rfl h

theorem value_set (b : α) {v : Var α} (h : v.accepts) : (v.set b).value = b := by
  cases v with
  | idle a => rfl
  | block a c => rfl
  | aborted a => cases h

end Var

end Transactional
