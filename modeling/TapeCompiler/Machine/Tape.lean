namespace TapeCompiler

structure Tape where
  cells : Array Int
  pointer : Nat
  deriving DecidableEq, Repr

namespace Tape

def blank (size : Nat) : Tape := ⟨Array.replicate size 0, 0⟩

def read (tape : Tape) : Int := tape.cells.getD tape.pointer 0

def write (tape : Tape) (value : Int) : Tape :=
  { tape with cells := tape.cells.setIfInBounds tape.pointer value }

def add (tape : Tape) (modulus : Nat) (amount : Int) : Tape :=
  { tape with cells := tape.cells.modify tape.pointer fun value => (value + amount) % modulus }

def right (tape : Tape) : Tape := { tape with pointer := (tape.pointer + 1) % tape.cells.size }

def left (tape : Tape) : Tape :=
  { tape with pointer := (tape.pointer + (tape.cells.size - 1)) % tape.cells.size }

def nonzero (tape : Tape) : List (Nat × Int) :=
  (tape.cells.toList.zipIdx.filter (·.1 ≠ 0)).map fun (value, address) => (address, value)

def front (tape : Tape) (count : Nat) : List Int := tape.cells.toList.take count

end Tape

end TapeCompiler
