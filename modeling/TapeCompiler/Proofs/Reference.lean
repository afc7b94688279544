import TapeCompiler.Language.Node
import TapeCompiler.Machine.Basic
import TapeCompiler.Table
import Mathlib.Algebra.BigOperators.Group.List.Basic
import Mathlib.Data.BitVec
import Mathlib.Logic.Function.Basic

namespace TapeCompiler

structure Variable (bits : Nat) where
  type : CellType
  values : List (BitVec bits)
  deriving DecidableEq, Repr

namespace Variable

variable {bits : Nat}

def zeros (type : CellType) (length : Nat) : Variable bits := ⟨type, List.replicate length 0⟩

def get? (x : Variable bits) (i : Int) : Option (BitVec bits) :=
  if 0 ≤ i then x.values[i.toNat]? else none

def set (x : Variable bits) (i : Int) (value : BitVec bits) : Variable bits :=
  { x with values := x.values.set i.toNat value }

/-- The sum of the elements whose number is the index. There is at most one in an array that is not
longer than the words can count. -/
def readAt (x : Variable bits) (i : BitVec bits) : BitVec bits :=
  (x.values.mapIdx fun k value => if i = k then value else 0).sum

def writeAt (x : Variable bits) (i value : BitVec bits) : Variable bits :=
  { x with values := x.values.mapIdx fun k old => if i = k then value else old }

end Variable

abbrev Env (bits : Nat) := String → Option (Variable bits)

namespace Env

variable {bits : Nat}

def element (env : Env bits) (name : String) (i : Int) : Option (BitVec bits) := do
  let x ← env name
  x.get? i

def bind (env : Env bits) (name : String) (x : Variable bits) : Env bits :=
  Function.update env name (some x)

def unbind (env : Env bits) (name : String) : Env bits := Function.update env name none

def store (env : Env bits) (name : String) (i : Int) (value : BitVec bits) : Option (Env bits) := do
  let x ← env name
  let _ ← x.get? i
  return env.bind name (x.set i value)

def value (env : Env bits) : Node → Option (BitVec bits)
  | .literal number _ => some (BitVec.ofInt bits number)
  | .max => some (BitVec.allOnes bits)
  | .var name none => env.element name 0
  | .var name (some index) =>
      match index.literalValue? with
      | some number => env.element name number
      | none => do
          let x ← env name
          let i ← env.value index
          return x.readAt i
  | .math .plus left right => do
      let a ← env.value left
      let b ← env.value right
      return a + b
  | .math .minus left right => do
      let a ← env.value left
      let b ← env.value right
      return a - b
  | _ => none

def textual (env : Env bits) : Node → Option Bool
  | .literal _ isChar => some isChar
  | .var name _ => (env name).map fun x => decide (x.type = .char)
  | _ => some false

def assign (env : Env bits) (name : String) (index : Option Node) (source : Node) :
    Option (Env bits) := do
  let new ← env.value source
  match index with
  | none => env.store name 0 new
  | some index =>
      match index.literalValue? with
      | some number => env.store name number new
      | none =>
          let x ← env name
          let i ← env.value index
          return env.bind name (x.writeAt i new)

end Env

def Node.place? : Node → Option (String × Int)
  | .var name none => some (name, 0)
  | .var name (some index) => index.literalValue?.map fun number => (name, number)
  | _ => none

/-- The condition of the later rounds of a loop, when that of the first round had a value: an element
is looked at again, all else was computed for good. -/
def Node.settled {bits : Nat} (condition : Node) (value : BitVec bits) : Node :=
  match condition.place? with
  | some _ => condition
  | none => .literal value.toNat false

structure State (bits : Nat) where
  env : Env bits
  input : List CodePoint
  printed : List Printed

inductive Outcome (bits : Nat) where
  | done (state : State bits)
  | failed (fault : MachineFault) (state : State bits)
  | unbound

namespace Outcome

variable {bits : Nat}

def Stops (o : Outcome bits) : Prop := ∀ σ, o ≠ .done σ

end Outcome

namespace State

def initial (bits : Nat) (input : List CodePoint) : State bits := ⟨fun _ => none, input, []⟩

variable {bits : Nat}

def withEnv (σ : State bits) : Option (Env bits) → Outcome bits
  | some env => .done { σ with env }
  | none => .unbound

def print (σ : State bits) (value : BitVec bits) (textual : Bool) : Outcome bits :=
  if textual then
    if Machine.lastCodePoint < value.toNat then .failed (.notCodePoint value.toNat) σ
    else .done { σ with printed := σ.printed ++ [.character value.toNat] }
  else .done { σ with printed := σ.printed ++ [.number value.toNat] }

def close (σ : State bits) (condition : Node) : Outcome bits :=
  match condition.place? with
  | some (name, i) => σ.withEnv (σ.env.store name i 0)
  | none => .done σ

end State

def State.perform (s : Setting) (σ : State s.bits) : Node → Outcome s.bits
  | .declare _ name type length =>
      σ.withEnv (some (σ.env.bind name (.zeros type ((length.getD 1).toNat))))
  | .remove _ name => σ.withEnv ((σ.env name).map fun _ => σ.env.unbind name)
  | .assign _ name index value => σ.withEnv (σ.env.assign name index value)
  | .display _ value =>
      match σ.env.value value, σ.env.textual value with
      | some v, some textual => σ.print v textual
      | _, _ => .unbound
  | .input _ name =>
      match σ.env.element name 0 with
      | none => .unbound
      | some _ =>
          match (Machine.blank s).readInput σ.input with
          | .error fault => .failed fault σ
          | .ok number =>
              State.withEnv { σ with input := σ.input.tail }
                (σ.env.store name 0 (BitVec.ofInt s.bits number))
  | .unsafeBlock _ 1 [.verbatim _ "&"] => .done σ
  | _ => .unbound

def Node.isCompound : Node → Bool
  | .conditional .. | .loop .. => true
  | _ => false

inductive Exec (s : Setting) : List Node → State s.bits → Outcome s.bits → Prop where
  | nil {σ} : Exec s [] σ (.done σ)
  | simple {node rest σ σ' o} : node.isCompound = false → σ.perform s node = .done σ' →
      Exec s rest σ' o → Exec s (node :: rest) σ o
  | simple_stops {node rest σ o} : node.isCompound = false → σ.perform s node = o → o.Stops →
      Exec s (node :: rest) σ o
  | if_zero {line test body rest σ o} : σ.env.value test = some 0 → Exec s rest σ o →
      Exec s (.conditional line test body :: rest) σ o
  | if_run {line test body rest σ σ₁ σ₂ o} {v : BitVec s.bits} : σ.env.value test = some v →
      v ≠ 0 → Exec s body σ (.done σ₁) → σ₁.close test = .done σ₂ → Exec s rest σ₂ o →
      Exec s (.conditional line test body :: rest) σ o
  | if_stops {line test body rest σ o} {v : BitVec s.bits} : σ.env.value test = some v → v ≠ 0 →
      Exec s body σ o → o.Stops → Exec s (.conditional line test body :: rest) σ o
  | if_close {line test body rest σ σ₁ o} {v : BitVec s.bits} : σ.env.value test = some v →
      v ≠ 0 → Exec s body σ (.done σ₁) → σ₁.close test = o → o.Stops →
      Exec s (.conditional line test body :: rest) σ o
  | if_unbound {line test body rest σ} : σ.env.value test = none →
      Exec s (.conditional line test body :: rest) σ .unbound
  | loop_zero {line test body rest σ o} : σ.env.value test = some 0 → Exec s rest σ o →
      Exec s (.loop line test body :: rest) σ o
  | loop_run {line test body rest σ σ' o} {v : BitVec s.bits} : σ.env.value test = some v →
      v ≠ 0 → Exec s body σ (.done σ') → Exec s (.loop line (test.settled v) body :: rest) σ' o →
      Exec s (.loop line test body :: rest) σ o
  | loop_stops {line test body rest σ o} {v : BitVec s.bits} : σ.env.value test = some v → v ≠ 0 →
      Exec s body σ o → o.Stops → Exec s (.loop line test body :: rest) σ o
  | loop_unbound {line test body rest σ} : σ.env.value test = none →
      Exec s (.loop line test body :: rest) σ .unbound

end TapeCompiler
