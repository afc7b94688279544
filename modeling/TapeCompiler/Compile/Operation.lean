import TapeCompiler.Compile.Value

namespace TapeCompiler

namespace Compile

def unsafePointer : Compile Int := do
  let c ← get
  match c.unsafePointer with
  | some address => return address
  | none => fail .outsideBlock

def goto (offset : Int) : Compile Unit := do
  let address ← unsafePointer
  let target := address + offset
  let c ← get
  match c.unsafeRegion with
  | none => fail .outsideBlock
  | some region =>
      if region.start ≤ target ∧ target < region.start + region.size then
        modify fun c => { c.moveTo target with unsafePointer := some target }
      else fail (.leavesRegion offset (target - region.start) region.size)

def drainAmount (options : CompileOptions) (amount : Node) (sign : Sign) : Compile Unit := do
  let address ← unsafePointer
  let amountCell ← evaluate options amount
  modify (·.addCopy amountCell address sign)
  modify (·.release amountCell)

mutual

def operation (options : CompileOptions) : Node → Compile Unit
  | .unsafeGoto _ offset => goto offset
  | .unsafeAdd _ amount => drainAmount options amount .plus
  | .unsafeReduce _ amount => drainAmount options amount .minus
  | .unsafeShow _ => do
      let address ← unsafePointer
      modify fun c => (c.moveTo address).emit "."
  | .unsafeLoop _ body => do
      let entry ← unsafePointer
      modify fun c => (c.moveTo entry).emit "["
      operations options body
      modify fun c => { (c.moveTo entry).emit "]" with unsafePointer := some entry }
  | .verbatim _ code => do
      let _ ← unsafePointer
      modify (·.emit code)
  | node => fail (.unknownOperation node.kind)

def operations (options : CompileOptions) : List Node → Compile Unit
  | [] => return ()
  | node :: rest => do
      operation options node
      operations options rest

end

end Compile

end TapeCompiler
