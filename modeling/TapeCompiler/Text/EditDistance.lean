namespace TapeCompiler.Text

def distanceCells (a : Char) : List Char → List Nat → Nat → List Nat
  | b :: bs, diagonal :: up :: above, left =>
      let cost := if a = b then 0 else 1
      let here := min (min (up + 1) (left + 1)) (diagonal + cost)
      here :: distanceCells a bs (up :: above) here
  | _, _, _ => []

def distanceRow (b : List Char) (above : List Nat) (a : Char) : List Nat :=
  let first := above.headD 0 + 1
  first :: distanceCells a b above first

def editDistance (a b : List Char) : Nat :=
  (a.foldl (distanceRow b) (List.range (b.length + 1))).getLastD 0

end TapeCompiler.Text
