import TapeCompiler.Machine.Instruction

namespace TapeCompiler

inductive BracketFault where
  | unmatchedEnd (position : Nat)
  | unmatchedStart (position : Nat)
  deriving DecidableEq, Repr

namespace Brackets

def pairFrom (position : Nat) (opened : List Nat) (table : Array Nat) :
    List Instruction → Array Nat × Option BracketFault
  | [] => (table, opened.head?.map .unmatchedStart)
  | .loopStart :: rest => pairFrom (position + 1) (position :: opened) table rest
  | .loopEnd :: rest =>
      match opened with
      | [] => (table, some (.unmatchedEnd position))
      | start :: opened =>
          let table := (table.setIfInBounds start position).setIfInBounds position start
          pairFrom (position + 1) opened table rest
  | _ :: rest => pairFrom (position + 1) opened table rest

-- Entries are kept in four bytes, so programs with a loop that ends at instruction 2 ^ 31 or later
-- are outside of what this describes.
def pair (program : List Instruction) : Array Nat × Option BracketFault :=
  pairFrom 0 [] (Array.range program.length) program

end Brackets

end TapeCompiler
