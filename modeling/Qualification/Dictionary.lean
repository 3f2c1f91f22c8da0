/-! # Dictionaries

Entries under distinct names, kept in the byte order of their names. Code points compare
as their UTF-8 bytes do, so the order of `String` is the byte order.
-/

namespace Qualification

/-- Named entries in ascending order of their names. -/
abbrev Dictionary (α : Type) := List (String × α)

namespace Dictionary

variable {α β : Type}

def get? (name : String) : Dictionary α → Option α
  | [] => none
  | (key, value) :: rest => if key = name then some value else get? name rest

/-- Put an entry, in place of one of the same name if there is one. -/
def insert (name : String) (value : α) : Dictionary α → Dictionary α
  | [] => [(name, value)]
  | (key, old) :: rest =>
      if name < key then (name, value) :: (key, old) :: rest
      else if key = name then (name, value) :: rest
      else (key, old) :: insert name value rest

def erase (name : String) : Dictionary α → Dictionary α
  | [] => []
  | (key, value) :: rest => if key = name then rest else (key, value) :: erase name rest

/-- The dictionary of a list of entries; of two with one name the later wins. -/
def ofList (entries : List (String × α)) : Dictionary α :=
  entries.foldl (fun d e => insert e.1 e.2 d) []

def keys (d : Dictionary α) : List String :=
  d.map (·.1)

def mapValues (f : α → β) (d : Dictionary α) : Dictionary β :=
  d.map fun e => (e.1, f e.2)

/-- Are the names distinct and in ascending order? -/
def Sorted (d : Dictionary α) : Prop :=
  d.keys.Pairwise (· < ·)

theorem get?_insert_self (name : String) (value : α) (d : Dictionary α) :
    get? name (insert name value d) = some value := by
  induction d with
  | nil => simp [insert, get?]
  | cons entry rest ih =>
      obtain ⟨key, old⟩ := entry
      simp only [insert]
      split
      · simp [get?]
      · split
        · simp [get?]
        · rename_i other
          simpa [get?, other] using ih

theorem get?_insert_of_ne {name other : String} (different : other ≠ name) (value : α)
    (d : Dictionary α) : get? other (insert name value d) = get? other d := by
  induction d with
  | nil => simp [insert, get?, different.symm]
  | cons entry rest ih =>
      obtain ⟨key, old⟩ := entry
      simp only [insert]
      split
      · simp [get?, different.symm]
      · split
        · rename_i same
          subst same
          simp [get?, different.symm]
        · simp only [get?, ih]

end Dictionary

end Qualification
