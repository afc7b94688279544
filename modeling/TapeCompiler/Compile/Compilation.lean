import TapeCompiler.Compile.Functions
import TapeCompiler.Event
import TapeCompiler.Layout
import TapeCompiler.Text.EditDistance
import TapeCompiler.Text.Lowercase

namespace TapeCompiler

structure CompileOptions where
  freeSubtractionCopies : Bool := false
  trace : Bool := false
  deriving DecidableEq, Repr

structure Binding where
  base : Int
  length : Nat
  type : CellType
  deriving DecidableEq, Repr

structure Region where
  start : Int
  size : Int
  deriving DecidableEq, Repr

structure Compilation where
  layout : Layout
  bindings : Table Binding
  functions : Functions
  pointer : Int
  code : String
  unsafePointer : Option Int
  unsafeRegion : Option Region
  events : Array Event
  deriving Repr

abbrev Compile := EStateM CompileError Compilation

namespace Compilation

def initial : Compilation where
  layout := .empty
  bindings := .empty
  functions := .initial
  pointer := 0
  code := ""
  unsafePointer := none
  unsafeRegion := none
  events := #[]

def record (c : Compilation) (event : Event) : Compilation :=
  { c with events := c.events.push event }

def trace (c : Compilation) (options : CompileOptions) : List String :=
  if options.trace then c.events.toList.filterMap Event.traceLine? else []

def suggestion (c : Compilation) (name : String) : Option String :=
  let distance (candidate : String) : Nat :=
    Text.editDistance (Text.lower name).toList (Text.lower candidate).toList
  let nearer (best : Option (String × Nat)) (candidate : String) : Option (String × Nat) :=
    match best with
    | some (found, least) =>
        if distance candidate < least then some (candidate, distance candidate)
        else some (found, least)
    | none => some (candidate, distance candidate)
  match (c.bindings.names.mergeSort fun a b => decide (a ≤ b)).foldl nearer none with
  | some (found, least) => if least ≤ 2 then some found else none
  | none => none

end Compilation

namespace Compile

def fail {α : Type} (fault : CompileFault) : Compile α := throw ⟨fault, 0⟩

def record (event : Event) : Compile Unit := modify (·.record event)

def locate {α : Type} (line : Int) (step : Compile α) : Compile α := fun c =>
  match step c with
  | .ok value c => .ok value c
  | .error error c => .error (error.locate line) c

def ensuring {α : Type} (finish : Compilation → Compilation) (step : Compile α) : Compile α :=
  fun c =>
    match step c with
    | .ok value c => .ok value (finish c)
    | .error error c => .error error (finish c)

def binding (name : String) : Compile Binding := do
  let c ← get
  match c.bindings.find? name with
  | some binding => return binding
  | none => fail (.undeclared name (c.suggestion name))

def element (name : String) (index : Int) : Compile Int := do
  let found ← binding name
  if 0 ≤ index ∧ index < found.length then return found.base + index
  else fail (.indexOutOfRange index name found.length)

end Compile

end TapeCompiler
