import TapeCompiler.Language.Node

namespace TapeCompiler

inductive Occupancy where
  | free
  | temp
  | reserved
  | named (name : String) (index : Int) (type : CellType)
  deriving DecidableEq, Repr

structure Layout where
  cells : List (Int × Occupancy)
  sorted : cells.Pairwise fun x y => x.1 < y.1
  deriving DecidableEq, Repr

def addresses (start : Int) (count : Nat) : List Int :=
  (List.range count).map fun (i : Nat) => start + i

namespace Layout

def empty : Layout := ⟨[], .nil⟩

def lookup (address : Int) : List (Int × Occupancy) → Option Occupancy
  | [] => none
  | (a, o) :: rest => if a = address then some o else lookup address rest

def status (layout : Layout) (address : Int) : Occupancy :=
  (lookup address layout.cells).getD .free

def isFree (layout : Layout) (address : Int) : Bool := layout.status address = .free

def isTemp (layout : Layout) (address : Int) : Bool := layout.status address = .temp

def setIn (address : Int) (o : Occupancy) : List (Int × Occupancy) → List (Int × Occupancy)
  | [] => [(address, o)]
  | (a, x) :: rest =>
      if address < a then (address, o) :: (a, x) :: rest
      else if address = a then (address, o) :: rest
      else (a, x) :: setIn address o rest

theorem mem_setIn {address : Int} {o : Occupancy} {cells : List (Int × Occupancy)}
    {x : Int × Occupancy} (h : x ∈ setIn address o cells) : x = (address, o) ∨ x ∈ cells := by
  induction cells with
  | nil => simpa [setIn] using h
  | cons head rest ih =>
      simp only [setIn] at h
      split at h
      · simpa using h
      · split at h
        · rcases List.mem_cons.1 h with h | h
          · exact .inl h
          · exact .inr (List.mem_cons_of_mem _ h)
        · rcases List.mem_cons.1 h with h | h
          · exact .inr (h ▸ List.mem_cons_self)
          · exact (ih h).imp_right (List.mem_cons_of_mem _)

theorem setIn_sorted {address : Int} {o : Occupancy} {cells : List (Int × Occupancy)}
    (h : cells.Pairwise fun x y => x.1 < y.1) :
    (setIn address o cells).Pairwise fun x y => x.1 < y.1 := by
  induction cells with
  | nil => simp [setIn]
  | cons head rest ih =>
      obtain ⟨hall, hrest⟩ := List.pairwise_cons.1 h
      simp only [setIn]
      split
      · rename_i hlt
        refine List.pairwise_cons.2 ⟨fun y hy => ?_, h⟩
        rcases List.mem_cons.1 hy with rfl | hy
        · exact hlt
        · exact Int.lt_trans hlt (hall y hy)
      · split
        · rename_i heq
          exact List.pairwise_cons.2 ⟨fun y hy => heq ▸ hall y hy, hrest⟩
        · refine List.pairwise_cons.2 ⟨fun y hy => ?_, ih hrest⟩
          rcases mem_setIn hy with rfl | hy
          · simp only
            omega
          · exact hall y hy

def set (layout : Layout) (address : Int) (o : Occupancy) : Layout :=
  ⟨setIn address o layout.cells, setIn_sorted layout.sorted⟩

def free (layout : Layout) (address : Int) : Layout := layout.set address .free

def markTemp (layout : Layout) (address : Int) : Layout := layout.set address .temp

def reserve (layout : Layout) (address : Int) : Layout := layout.set address .reserved

def bind (layout : Layout) (address : Int) (name : String) (index : Int) (type : CellType) :
    Layout :=
  layout.set address (.named name index type)

def highWater (layout : Layout) : Int :=
  match layout.cells.getLast? with
  | none => 0
  | some (address, _) => address + 1

def lowestFree (layout : Layout) : Int :=
  match layout.cells.find? (·.2 = .free) with
  | some (address, _) => address
  | none => layout.highWater

/-- Moves a region of `size` cells up from `start` until it lies below the next taken cell, where
`taken` holds the taken cells in ascending order. -/
def fitFrom (size start : Int) : List Int → Int
  | [] => start
  | address :: rest =>
      if address < start then fitFrom size start rest
      else if start + size ≤ address then start
      else fitFrom size (address + 1) rest

def firstFit (layout : Layout) (size : Int) : Int :=
  fitFrom size 0 ((layout.cells.filter (·.2 ≠ .free)).map (·.1))

def count (layout : Layout) (o : Occupancy) : Nat := layout.cells.countP (·.2 = o)

end Layout

end TapeCompiler
