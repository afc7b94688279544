namespace TapeCompiler

inductive CellType where
  | number
  | char
  deriving DecidableEq, Repr

def CellType.text : CellType → String
  | .number => "number"
  | .char => "char"

inductive Operator where
  | plus
  | minus
  | times
  | divide
  | other (text : String)
  deriving DecidableEq, Repr

def Operator.text : Operator → String
  | .plus => "+"
  | .minus => "-"
  | .times => "*"
  | .divide => "/"
  | .other text => text

def Operator.ofText (text : String) : Operator :=
  if text = "+" then .plus
  else if text = "-" then .minus
  else if text = "*" then .times
  else if text = "/" then .divide
  else .other text

theorem Operator.text_ofText (text : String) : (Operator.ofText text).text = text := by
  unfold ofText
  repeat' split
  all_goals simp_all [Operator.text]

inductive Node where
  | literal (value : Int) (isChar : Bool)
  | var (name : String) (index : Option Node)
  | math (operator : Operator) (left right : Node)
  | max
  | declare (line : Int) (name : String) (type : CellType) (length : Option Int)
  | assign (line : Int) (name : String) (index : Option Node) (value : Node)
  | display (line : Int) (value : Node)
  | input (line : Int) (name : String)
  | remove (line : Int) (name : String)
  | conditional (line : Int) (condition : Node) (body : List Node)
  | loop (line : Int) (condition : Node) (body : List Node)
  | unsafeBlock (line : Int) (size : Int) (body : List Node)
  | function (line : Int) (name : String) (body : List Node)
  | call (line : Int) (name : String)
  | unsafeGoto (line : Int) (offset : Int)
  | unsafeAdd (line : Int) (amount : Node)
  | unsafeReduce (line : Int) (amount : Node)
  | unsafeShow (line : Int)
  | unsafeLoop (line : Int) (body : List Node)
  | verbatim (line : Int) (code : String)
  | nothing
  | flag (value : Bool)
  | number (value : Int)
  | text (value : String)
  deriving Repr, Inhabited

namespace Node

def line : Node → Int
  | declare line .. | assign line .. | display line .. | input line .. | remove line .. => line
  | conditional line .. | loop line .. | unsafeBlock line .. | function line .. | call line .. => line
  | unsafeGoto line .. | unsafeAdd line .. | unsafeReduce line .. | unsafeShow line => line
  | unsafeLoop line .. | verbatim line .. => line
  | _ => 0

def kind : Node → String
  | literal .. => "Literal"
  | var .. => "Variable"
  | math .. => "Math"
  | max => "Max"
  | declare .. => "Declaration"
  | assign .. => "Assign"
  | display .. => "Show"
  | input .. => "Input"
  | remove .. => "Remove"
  | conditional .. => "If"
  | loop .. => "Loop"
  | unsafeBlock .. => "Unsafe"
  | function .. => "FunctionDef"
  | call .. => "Call"
  | unsafeGoto .. => "UnsafeGoto"
  | unsafeAdd .. => "UnsafeAdd"
  | unsafeReduce .. => "UnsafeReduce"
  | unsafeShow .. => "UnsafeShow"
  | unsafeLoop .. => "UnsafeLoop"
  | verbatim .. => "Abstract"
  | nothing => "NoneType"
  | flag .. => "bool"
  | number .. => "int"
  | text .. => "str"

def isValue : Node → Bool
  | literal .. | var .. | math .. | max => true
  | _ => false

def isUnsafeOperation : Node → Bool
  | unsafeGoto .. | unsafeAdd .. | unsafeReduce .. | unsafeShow .. | unsafeLoop .. | verbatim .. =>
      true
  | _ => false

def isStatement : Node → Bool
  | declare .. | assign .. | display .. | input .. | remove .. | conditional .. | loop .. => true
  | unsafeBlock .. | function .. | call .. => true
  | node => node.isUnsafeOperation

def literalValue? : Node → Option Int
  | literal value _ => some value
  | _ => none

mutual

def definitions : Node → Nat
  | conditional _ _ body | loop _ _ body => definitionsIn body
  | function _ _ body => definitionsIn body + 1
  | _ => 0

def definitionsIn : List Node → Nat
  | [] => 0
  | node :: rest => node.definitions + definitionsIn rest

end

end Node

end TapeCompiler
