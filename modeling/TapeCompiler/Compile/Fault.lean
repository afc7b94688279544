import TapeCompiler.Language.Display
import TapeCompiler.Text.Numeral

namespace TapeCompiler

inductive FaultKind where
  | declaration
  | unsupportedOperator
  | malformedCondition
  | unsafeContext
  | unknownFunction
  | recursiveCall
  | unknownNode
  deriving DecidableEq, Repr

inductive CompileFault where
  | undeclared (name : String) (suggestion : Option String)
  | indexOutOfRange (index : Int) (name : String) (length : Nat)
  | arrayLength (name : String) (length : Int)
  | blockSize (size : Int)
  | unsupportedOperator (operator : Operator)
  | malformedCondition (condition : Node)
  | nestedBlock
  | outsideBlock
  | leavesRegion (offset target size : Int)
  | unknownFunction (name : String)
  | recursiveCall (chain : List String)
  | unknownStatement (kind : String)
  | unknownValue (kind : String)
  | unknownOperation (kind : String)
  | uncountable (value : Int)
  deriving Repr

namespace CompileFault

/-- The kind under which a fault is reported, unless a number is in the way. The place that a goto
leads to is computed and can be longer than every number that was read. The other numbers of
messages were read. -/
def kind : CompileFault → Except Text.NumeralFault FaultKind
  | undeclared .. | indexOutOfRange .. | arrayLength .. | blockSize .. => .ok .declaration
  | unsupportedOperator .. => .ok .unsupportedOperator
  | malformedCondition .. => .ok .malformedCondition
  | nestedBlock | outsideBlock => .ok .unsafeContext
  | leavesRegion _ target _ =>
      if Nat.pow 10 Text.maxDigits ≤ target.natAbs then .error .unwritable else .ok .unsafeContext
  | unknownFunction .. => .ok .unknownFunction
  | recursiveCall .. => .ok .recursiveCall
  | unknownStatement .. | unknownValue .. | unknownOperation .. => .ok .unknownNode
  | uncountable _ => .error .uncountable

def suggestionText : Option String → String
  | none => ""
  | some name => if name.isEmpty then "" else ". Did you mean '" ++ name ++ "'?"

def message : CompileFault → String
  | undeclared name suggestion => "Variable " ++ name ++ " not declared" ++ suggestionText suggestion
  | indexOutOfRange index name length =>
      "Index " ++ toString index ++ " out of range for " ++ name ++ " (length " ++ toString length
        ++ ")"
  | arrayLength name length =>
      "Array " ++ name ++ " must have a positive length, got " ++ toString length
  | blockSize size => "Unsafe block size must be positive, got " ++ toString size
  | unsupportedOperator operator => "Unsupported operator '" ++ operator.text ++ "'"
  | malformedCondition condition => "Invalid condition: " ++ condition.shown
  | nestedBlock => "Unsafe blocks cannot be nested"
  | outsideBlock => "Unsafe operation used outside an unsafe block"
  | leavesRegion offset target size =>
      "goto " ++ toString offset ++ " leaves the unsafe region (offset " ++ toString target
        ++ ", size " ++ toString size ++ ")"
  | unknownFunction name => "Function " ++ name ++ " not defined"
  | recursiveCall chain =>
      "Recursive call cannot be inlined: " ++ String.intercalate " -> " chain
  | unknownStatement kind => "Unhandled token type " ++ kind
  | unknownValue kind => "Unknown value token " ++ kind
  | unknownOperation kind => "Unknown unsafe token " ++ kind
  | uncountable _ => Text.NumeralFault.uncountable.message

end CompileFault

structure CompileError where
  fault : CompileFault
  line : Int
  deriving Repr

def CompileError.locate (error : CompileError) (line : Int) : CompileError :=
  if error.line = 0 then { error with line } else error

end TapeCompiler
