import TapeCompiler.Compile.Compilation

namespace TapeCompiler

inductive Sign where
  | plus
  | minus
  deriving DecidableEq, Repr

def Sign.code : Sign → String
  | .plus => "+"
  | .minus => "-"

def repeated (instruction : Char) (count : Nat) : String :=
  String.ofList (List.replicate count instruction)

namespace Compilation

def emit (c : Compilation) (code : String) : Compilation := { c with code := c.code ++ code }

def moveTo (c : Compilation) (target : Int) : Compilation :=
  let c := if c.pointer < target then c.emit (repeated '>' (target - c.pointer).toNat)
    else c.emit (repeated '<' (c.pointer - target).toNat)
  { c with pointer := target }

def clearHere (c : Compilation) : Compilation := c.emit "[-]"

def clear (c : Compilation) (address : Int) : Compilation := (c.moveTo address).clearHere

def countHere (c : Compilation) (value : Int) : Compilation :=
  let c := c.clearHere
  if 0 < value then c.emit (repeated '+' value.toNat) else c.emit (repeated '-' (-value).toNat)

def countAt (c : Compilation) (value address : Int) : Compilation :=
  (c.moveTo address).countHere value

def clearAll (c : Compilation) (cells : List Int) : Compilation := cells.foldl clear c

def clearReused (c : Compilation) (start count : Int) : Compilation :=
  c.clearAll (addresses start (min (start + count) c.layout.highWater - start).toNat)

def free (c : Compilation) (address : Int) : Compilation :=
  { c with layout := c.layout.free address }

def allocateTemp (c : Compilation) : Int × Compilation :=
  let address := c.layout.lowestFree
  (address, { c with layout := c.layout.markTemp address })

def release (c : Compilation) (address : Int) : Compilation :=
  if c.layout.isTemp address then (c.clear address).free address else c

def drain (c : Compilation) (source target : Int) (sign : Sign) : Compilation :=
  let c := (c.moveTo source).emit "["
  let c := (c.moveTo target).emit sign.code
  (c.moveTo source).emit "-]"

def copy (c : Compilation) (source : Int) : Int × Compilation :=
  let (kept, c) := c.allocateTemp
  let (back, c) := c.allocateTemp
  let c := (c.clear kept).clear back
  let c := (c.moveTo source).emit "["
  let c := (c.moveTo kept).emit "+"
  let c := (c.moveTo back).emit "+"
  let c := (c.moveTo source).emit "-]"
  (kept, (c.drain back source .plus).free back)

def addCopy (c : Compilation) (source target : Int) (sign : Sign) : Compilation :=
  let (copied, c) := c.copy source
  (c.drain copied target sign).free copied

def greatest (c : Compilation) : Int × Compilation :=
  let (address, c) := c.allocateTemp
  (address, (c.clear address).emit "-")

def sum (c : Compilation) (a b : Int) : Int × Compilation :=
  let (copiedA, c) := c.copy a
  let (copiedB, c) := c.copy b
  let (result, c) := c.allocateTemp
  let c := c.clear result
  let c := c.drain copiedA result .plus
  let c := c.drain copiedB result .plus
  (result, (c.free copiedA).free copiedB)

def difference (c : Compilation) (options : CompileOptions) (a b : Int) : Int × Compilation :=
  let (copiedA, c) := c.copy a
  let (copiedB, c) := c.copy b
  let (result, c) := c.allocateTemp
  let c := c.clear result
  let c := c.drain copiedA result .plus
  let c := c.drain copiedB result .minus
  (result, if options.freeSubtractionCopies then (c.free copiedA).free copiedB else c)

def whenIndexIs (c : Compilation) (index slot : Int) (body : Compilation → Compilation) :
    Compilation :=
  let (probe, c) := c.copy index
  let c := if 0 < slot then (c.moveTo probe).emit (repeated '-' slot.toNat) else c
  let (guard, c) := c.allocateTemp
  let c := c.countAt 1 guard
  let c := (c.moveTo probe).emit "["
  let c := ((c.clear guard).clear probe).emit "]"
  let c := (c.moveTo guard).emit "["
  let c := ((body c).clear guard).emit "]"
  (c.free guard).free probe

def atElement (c : Compilation) (binding : Binding) (index : Int)
    (body : Int → Compilation → Compilation) : Compilation :=
  (List.range binding.length).foldl
    (fun c (slot : Nat) => c.whenIndexIs index slot (body (binding.base + slot))) c

end Compilation

end TapeCompiler
