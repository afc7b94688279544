namespace TapeCompiler.Text

/-- A set of characters, given by its boundaries in ascending order: the first boundary is the
smallest member, the next one the smallest non-member above it, and so on by turns. -/
structure CharClass where
  boundaries : List Nat
  deriving DecidableEq, Repr

namespace CharClass

def covers : List Nat → Nat → Bool
  | [], _ => false
  | b :: rest, n => if n < b then false else !covers rest n

theorem covers_eq_false_of_lt {b n : Nat} {rest : List Nat} (h : n < b) :
    covers (b :: rest) n = false := by
  simp [covers, h]

theorem covers_of_between {a b n : Nat} {rest : List Nat} (ha : a ≤ n) (hb : n < b) :
    covers (a :: b :: rest) n = true := by
  simp [covers, Nat.not_lt.mpr ha, hb]

def contains (k : CharClass) (c : Char) : Bool := covers k.boundaries c.toNat

end CharClass

end TapeCompiler.Text
