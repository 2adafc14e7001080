import Scoping.Assoc

/-!
A table of answers that are worked out at most once. A question can be marked
as running while its answer is being worked out, so that a reentrant caller
sees that it is.
-/

namespace Scoping

/-- How far a question has come. -/
inductive Progress (α : Type) where
  | running
  | done (value : α)
deriving DecidableEq

/-- The answer, once there is one. -/
def Progress.value? {α : Type} : Progress α → Option α
  | .running => none
  | .done value => some value

/-- A memo table. -/
structure Memo (κ α : Type) where
  table : Assoc κ (Progress α)
deriving DecidableEq

namespace Memo

variable {κ α : Type}

def empty : Memo κ α := ⟨.empty⟩

instance : Inhabited (Memo κ α) := ⟨empty⟩

/-- The number of answers. -/
def size (memo : Memo κ α) : Nat :=
  (memo.table.entries.filter fun entry => entry.2.value?.isSome).length

def isEmpty (memo : Memo κ α) : Bool := memo.size == 0

/-- Forgets every question, answered or not. -/
def clear (memo : Memo κ α) : Memo κ α := { memo with table := .empty }

variable [DecidableEq κ]

/-- How far a question has come; `none` before it is first asked. -/
def progress? (memo : Memo κ α) (key : κ) : Option (Progress α) := memo.table.get? key

/-- The answer to a question that has one. -/
def get? (memo : Memo κ α) (key : κ) : Option α := (memo.progress? key).bind Progress.value?

def isRunning (memo : Memo κ α) (key : κ) : Bool :=
  match memo.progress? key with
  | some .running => true
  | _ => false

/-- Whether a question is running or answered. -/
def isKnown (memo : Memo κ α) (key : κ) : Bool := (memo.progress? key).isSome

/-- Marks a question as running, unless it is known already. -/
def begin (memo : Memo κ α) (key : κ) : Memo κ α :=
  if memo.isKnown key then memo else ⟨memo.table.insert key .running⟩

/-- Records the answer to a question. -/
def finish (memo : Memo κ α) (key : κ) (value : α) : Memo κ α :=
  ⟨memo.table.insert key (.done value)⟩

@[simp]
theorem get?_empty (key : κ) : (empty : Memo κ α).get? key = none := rfl

@[simp]
theorem get?_finish_self (memo : Memo κ α) (key : κ) (value : α) :
    (memo.finish key value).get? key = some value := by
  simp [get?, progress?, finish, Progress.value?]

theorem get?_finish_of_ne (memo : Memo κ α) {key other : κ} (ne : other ≠ key) (value : α) :
    (memo.finish key value).get? other = memo.get? other := by
  simp [get?, progress?, finish, Assoc.get?_insert_of_ne _ ne]

/-- Beginning a question gives no answer and takes none back. -/
theorem get?_begin (memo : Memo κ α) (key other : κ) :
    (memo.begin key).get? other = memo.get? other := by
  unfold begin
  split
  · rfl
  · rename_i unknown
    by_cases same : other = key
    · subst same
      have absent : memo.table.get? other = none := by
        simpa [isKnown, progress?] using unknown
      simp [get?, progress?, absent, Progress.value?]
    · simp [get?, progress?, Assoc.get?_insert_of_ne _ same]

end Memo

end Scoping
