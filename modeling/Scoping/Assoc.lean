/-!
Small finite maps that remember the order in which their keys were first
inserted. Inserting a key again replaces the value and keeps the place.
-/

namespace Scoping

/-- A finite map as its entries, in order of first insertion. -/
structure Assoc (κ α : Type) where
  entries : List (κ × α)
deriving DecidableEq

namespace Assoc

variable {κ α : Type}

def empty : Assoc κ α := ⟨[]⟩

instance : Inhabited (Assoc κ α) := ⟨empty⟩

def keys (map : Assoc κ α) : List κ := map.entries.map Prod.fst

def size (map : Assoc κ α) : Nat := map.entries.length

def isEmpty (map : Assoc κ α) : Bool := map.entries.isEmpty

variable [DecidableEq κ]

/-- The value of a key. -/
def get? (map : Assoc κ α) (key : κ) : Option α :=
  (map.entries.find? fun entry => entry.1 = key).map Prod.snd

def contains (map : Assoc κ α) (key : κ) : Bool := (map.get? key).isSome

/-- Changes the value of `key`, which is `none` while the key is absent. -/
def alter (key : κ) (change : Option α → α) : List (κ × α) → List (κ × α)
  | [] => [(key, change none)]
  | (other, value) :: rest =>
    if other = key then (key, change (some value)) :: rest
    else (other, value) :: alter key change rest

/-- Sets the value of a key. -/
def insert (map : Assoc κ α) (key : κ) (value : α) : Assoc κ α :=
  ⟨alter key (fun _ => value) map.entries⟩

/-- Sets the value of a key from its old value. -/
def upsert (map : Assoc κ α) (key : κ) (change : Option α → α) : Assoc κ α :=
  ⟨alter key change map.entries⟩

@[simp]
theorem get?_empty (key : κ) : (empty : Assoc κ α).get? key = none := rfl

theorem get?_upsert_self (map : Assoc κ α) (key : κ) (change : Option α → α) :
    (map.upsert key change).get? key = some (change (map.get? key)) := by
  obtain ⟨entries⟩ := map
  simp only [upsert, get?]
  induction entries with
  | nil => simp [alter]
  | cons entry rest ih =>
    obtain ⟨other, value⟩ := entry
    by_cases same : other = key
    · simp [alter, same]
    · simpa [alter, same] using ih

theorem get?_upsert_of_ne (map : Assoc κ α) {key other : κ} (ne : other ≠ key)
    (change : Option α → α) : (map.upsert key change).get? other = map.get? other := by
  obtain ⟨entries⟩ := map
  simp only [upsert, get?]
  induction entries with
  | nil => simp [alter, Ne.symm ne]
  | cons entry rest ih =>
    obtain ⟨found, value⟩ := entry
    by_cases same : found = key
    · subst same
      simp [alter, Ne.symm ne]
    · by_cases hit : found = other
      · subst hit
        simp [alter, same]
      · simpa [alter, same, hit] using ih

@[simp]
theorem get?_insert_self (map : Assoc κ α) (key : κ) (value : α) :
    (map.insert key value).get? key = some value :=
  get?_upsert_self map key fun _ => value

theorem get?_insert_of_ne (map : Assoc κ α) {key other : κ} (ne : other ≠ key) (value : α) :
    (map.insert key value).get? other = map.get? other :=
  get?_upsert_of_ne map ne fun _ => value

end Assoc

end Scoping
