/-! # Bindings

Names with what they stand for, in the order in which the names were first bound.
-/
namespace ClassScript

structure Bindings (α : Type) where
  entries : List (String × α) := []
deriving DecidableEq, Inhabited

namespace Bindings

variable {α : Type}

def empty : Bindings α := ⟨[]⟩

def getEntry? (name : String) : List (String × α) → Option α
  | [] => none
  | (k, v) :: rest => if name = k then some v else getEntry? name rest

/-- What a name stands for. -/
def get? (b : Bindings α) (name : String) : Option α := getEntry? name b.entries

def contains (b : Bindings α) (name : String) : Bool := (b.get? name).isSome

def insertEntry (name : String) (value : α) : List (String × α) → List (String × α)
  | [] => [(name, value)]
  | (k, v) :: rest => if name = k then (k, value) :: rest else (k, v) :: insertEntry name value rest

/-- Binds a name, again if it is bound already. -/
def insert (b : Bindings α) (name : String) (value : α) : Bindings α :=
  ⟨insertEntry name value b.entries⟩

@[simp] theorem get?_empty (name : String) : (empty : Bindings α).get? name = none := rfl

theorem getEntry?_insertEntry (name other : String) (value : α) (entries : List (String × α)) :
    getEntry? other (insertEntry name value entries) =
      if other = name then some value else getEntry? other entries := by
  induction entries with
  | nil => rfl
  | cons entry rest ih =>
    obtain ⟨k, v⟩ := entry
    by_cases hk : name = k
    · subst hk
      by_cases ho : other = name <;> simp [insertEntry, getEntry?, ho]
    · by_cases ho : other = k
      · simp [insertEntry, getEntry?, hk, ho, Ne.symm hk]
      · simp [insertEntry, getEntry?, hk, ho, ih]

/-- Binding a name changes that name only. -/
@[simp] theorem get?_insert (b : Bindings α) (name other : String) (value : α) :
    (b.insert name value).get? other = if other = name then some value else b.get? other :=
  getEntry?_insertEntry name other value b.entries

end Bindings

end ClassScript
