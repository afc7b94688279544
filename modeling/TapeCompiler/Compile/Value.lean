import TapeCompiler.Compile.Cells

namespace TapeCompiler

/-- No instruction is repeated as often as this. Moves and guards repeat one as often as there are
cells, each of which is recorded, and stay below. Constants need not. -/
def countLimit : Nat := Nat.pow 2 63

namespace Compile

def setHere (value : Int) : Compile Unit :=
  if value.natAbs < countLimit then modify (·.countHere value)
  else do
    modify (·.clearHere)
    fail (.uncountable value)

def setValue (value address : Int) : Compile Unit := do
  modify (·.moveTo address)
  setHere value

def constant (value : Int) : Compile Int := do
  let address ← modifyGet (·.allocateTemp)
  setValue value address
  return address

def readElement (name : String) (index : Compile Int) : Compile Int := do
  let found ← binding name
  let indexCell ← index
  let result ← modifyGet (·.allocateTemp)
  modify (·.clear result)
  modify (·.atElement found indexCell fun cell c => c.addCopy cell result .plus)
  modify (·.release indexCell)
  return result

def writeElement (name : String) (index value : Compile Int) : Compile Unit := do
  let found ← binding name
  let indexCell ← index
  let c ← get
  let indexCell ← if c.layout.isTemp indexCell then pure indexCell
    else modifyGet (·.copy indexCell)
  let valueCell ← value
  modify (·.atElement found indexCell fun cell c =>
    let (copied, c) := c.copy valueCell
    ((c.clear cell).drain copied cell .plus).free copied)
  modify (·.release valueCell)
  modify (·.release indexCell)

def evaluate (options : CompileOptions) : Node → Compile Int
  | .literal value _ => constant value
  | .var name none => element name 0
  | .var name (some index) =>
      match index.literalValue? with
      | some value => element name value
      | none => readElement name (evaluate options index)
  | .math .plus left right => do
      let a ← evaluate options left
      let b ← evaluate options right
      let result ← modifyGet (·.sum a b)
      modify fun c => (c.release b).release a
      return result
  | .math .minus left right => do
      let a ← evaluate options left
      let b ← evaluate options right
      let result ← modifyGet (·.difference options a b)
      modify fun c => (c.release b).release a
      return result
  | .math operator _ _ => fail (.unsupportedOperator operator)
  | .max => modifyGet (·.greatest)
  | node => fail (.unknownValue node.kind)

def condition (options : CompileOptions) (node : Node) : Compile Int :=
  if node.isValue then evaluate options node else fail (.malformedCondition node)

def isTextual : Node → Compile Bool
  | .literal _ isChar => return isChar
  | .var name _ => do
      let found ← binding name
      return found.type = .char
  | _ => return false

end Compile

end TapeCompiler
