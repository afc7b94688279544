namespace TapeCompiler

structure Table (α : Type) where
  entries : List (String × α)
  deriving DecidableEq, Repr

namespace Table

variable {α : Type}

def empty : Table α := ⟨[]⟩

def find? (table : Table α) (name : String) : Option α :=
  (table.entries.find? (·.1 = name)).map (·.2)

def contains (table : Table α) (name : String) : Bool := (table.find? name).isSome

def names (table : Table α) : List String := table.entries.map (·.1)

def insertInto (name : String) (entry : α) : List (String × α) → List (String × α)
  | [] => [(name, entry)]
  | (n, e) :: rest => if n = name then (name, entry) :: rest else (n, e) :: insertInto name entry rest

def insert (table : Table α) (name : String) (entry : α) : Table α :=
  ⟨insertInto name entry table.entries⟩

def erase (table : Table α) (name : String) : Table α := ⟨table.entries.filter (·.1 ≠ name)⟩

@[simp] theorem find?_empty (name : String) : (empty : Table α).find? name = none := rfl

theorem find?_insert (table : Table α) (name other : String) (entry : α) :
    (table.insert name entry).find? other =
      if name = other then some entry else table.find? other := by
  obtain ⟨entries⟩ := table
  simp only [find?, insert]
  induction entries with
  | nil => by_cases h : name = other <;> simp [insertInto, h]
  | cons head rest ih =>
      obtain ⟨n, e⟩ := head
      by_cases hn : n = name
      · subst hn
        by_cases h : n = other <;> simp [insertInto, h]
      · by_cases h : n = other
        · subst h
          simp [insertInto, hn, Ne.symm hn]
        · simpa [insertInto, hn, h] using ih

theorem find?_erase (table : Table α) (name other : String) :
    (table.erase name).find? other = if name = other then none else table.find? other := by
  obtain ⟨entries⟩ := table
  simp only [find?, erase]
  induction entries with
  | nil => simp
  | cons head rest ih =>
      obtain ⟨n, e⟩ := head
      by_cases hn : n = name
      · subst hn
        by_cases h : n = other
        · subst h
          simp
        · simpa [h] using ih
      · by_cases h : n = other
        · subst h
          simp [hn, Ne.symm hn]
        · simpa [hn, h] using ih

end Table

end TapeCompiler
