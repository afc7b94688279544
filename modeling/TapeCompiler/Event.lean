import TapeCompiler.Text.Lines

namespace TapeCompiler

inductive Level where
  | debug
  | info
  | warning
  deriving DecidableEq, Repr

def Level.text : Level → String
  | .debug => "DEBUG"
  | .info => "INFO"
  | .warning => "WARNING"

def Level.weight : Level → Nat
  | .debug => 1
  | .info => 2
  | .warning => 3

inductive Event where
  | statement (line : Int) (kind : String) (pointer : Int)
  | redeclared (name : String)
  | registered (name : String) (statements : Nat)
  | inlining (name : String) (pointer : Int)
  | reserved (start stop : Int)
  | compiled (statements instructions : Nat) (cells : Int)
  | dumped (pointer : Nat) (cells : List Int)
  deriving DecidableEq, Repr

namespace Event

def level : Event → Level
  | redeclared _ => .warning
  | dumped .. => .info
  | _ => .debug

def source : Event → String
  | statement .. | compiled .. => "bbf.compiler"
  | redeclared .. => "bbf.ops_vars"
  | registered .. | inlining .. | reserved .. => "bbf.ops_control"
  | dumped .. => "bbf.executor"

def statementText (line : Int) (kind : String) (pointer : Int) : String :=
  Text.column 4 line ++ " " ++ kind ++ " @ " ++ toString pointer

def message : Event → String
  | statement line kind pointer => statementText line kind pointer
  | redeclared name => "Variable " ++ name ++ " re-declared; previous cells stay allocated"
  | registered name statements =>
      "Registering function " ++ name ++ " (" ++ toString statements ++ " statements)"
  | inlining name pointer => "Inlining " ++ name ++ " at pointer " ++ toString pointer
  | reserved start stop =>
      "Reserved unsafe region [" ++ toString start ++ ", " ++ toString stop ++ ")"
  | compiled statements instructions cells =>
      "Compiled " ++ toString statements ++ " statements into " ++ toString instructions
        ++ " instructions using " ++ toString cells ++ " cells"
  | dumped pointer cells =>
      "Tape dump at pointer " ++ toString pointer ++ ": ["
        ++ String.intercalate ", " (cells.map toString) ++ "]"

def logLine (event : Event) : String :=
  event.level.text ++ " " ++ event.source ++ ": " ++ event.message

def traceLine? : Event → Option String
  | statement line kind pointer => some (statementText line kind pointer)
  | _ => none

end Event

end TapeCompiler
