import TapeCompiler.Compile.Fault
import TapeCompiler.Table

namespace TapeCompiler

structure Functions where
  bodies : Table (List Node)
  expanding : List String
  deriving Repr

namespace Functions

def initial : Functions where
  bodies := Table.empty.insert "__dump" [.unsafeBlock 0 1 [.verbatim 0 "&"]]
  expanding := []

def contains (functions : Functions) (name : String) : Bool := functions.bodies.contains name

def define (functions : Functions) (name : String) (body : List Node) : Functions :=
  { functions with bodies := functions.bodies.insert name body }

def resolve (functions : Functions) (name : String) : Except CompileFault (List Node) :=
  match functions.bodies.find? name with
  | some body => .ok body
  | none => .error (.unknownFunction name)

def enter (functions : Functions) (name : String) :
    Except CompileFault (List Node × Functions) := do
  let body ← functions.resolve name
  if name ∈ functions.expanding then .error (.recursiveCall (functions.expanding ++ [name]))
  else .ok (body, { functions with expanding := functions.expanding ++ [name] })

def leave (functions : Functions) : Functions :=
  { functions with expanding := functions.expanding.dropLast }

def sortedNames (functions : Functions) : List String :=
  functions.bodies.names.mergeSort fun a b => decide (a ≤ b)

/-- A bound on the number of functions that can be known while `program` is compiled: those that are
defined and those that a definition in a body or in the program can add. -/
def bound (functions : Functions) (program : List Node) : Nat :=
  functions.bodies.entries.foldr (fun (_, body) n => Node.definitionsIn body + 1 + n)
    (Node.definitionsIn program)

end Functions

end TapeCompiler
