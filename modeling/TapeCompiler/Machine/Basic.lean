import TapeCompiler.Event
import TapeCompiler.Machine.Brackets
import TapeCompiler.Machine.Tape
import TapeCompiler.Text.Numeral

namespace TapeCompiler

structure MachineOptions where
  tapeSize : Int := 30000
  bits : Int := 8
  numberInput : Bool := false
  stepLimit : Option Int := none
  deriving DecidableEq, Repr

inductive MachineFault where
  | cellWidth (bits : Int)
  | tapeSize (size : Int)
  | brackets (fault : BracketFault)
  | notDigit (c : CodePoint)
  | numeral (fault : Text.NumeralFault)
  | notCodePoint (value : Int)
  | stepLimit (limit : Int)
  deriving DecidableEq, Repr

def MachineFault.message : MachineFault → String
  | cellWidth bits => "Cell width must be between 1 and 32 bits, got " ++ toString bits
  | tapeSize size => "Tape size must be positive, got " ++ toString size
  | brackets (.unmatchedEnd position) =>
      "Unmatched ']' bracket at instruction " ++ toString position
  | brackets (.unmatchedStart position) =>
      "Unmatched '[' bracket at instruction " ++ toString position
  | notDigit c => "Expected a digit in numeric input, got " ++ Text.quotedCodePoint c
  | numeral fault => fault.message
  | notCodePoint value => "Cell value " ++ toString value ++ " is not a valid code point"
  | stepLimit limit => "Step limit of " ++ toString limit ++ " exceeded"

/-- The number that is to blame if a fault cannot be reported: it was not read, or the message that
it stands in cannot be written. -/
def MachineFault.numeral? : MachineFault → Option Text.NumeralFault
  | numeral fault => some fault
  | cellWidth n | tapeSize n | stepLimit n =>
      if Nat.pow 10 Text.maxDigits ≤ n.natAbs then some .unwritable else none
  | _ => none

structure Setting where
  size : Nat
  bits : Nat
  modulus : Nat
  numberInput : Bool
  stepLimit : Option Int
  size_pos : 0 < size
  bits_pos : 1 ≤ bits
  bits_le : bits ≤ 32
  modulus_eq : modulus = Nat.pow 2 bits
  deriving DecidableEq, Repr

def MachineOptions.check (options : MachineOptions) : Except MachineFault Setting :=
  if hb : 1 ≤ options.bits ∧ options.bits ≤ 32 then
    if hs : 0 < options.tapeSize then
      .ok
        { size := options.tapeSize.toNat
          bits := options.bits.toNat
          modulus := Nat.pow 2 options.bits.toNat
          numberInput := options.numberInput
          stepLimit := options.stepLimit
          size_pos := by omega
          bits_pos := by omega
          bits_le := by omega
          modulus_eq := rfl }
    else .error (.tapeSize options.tapeSize)
  else .error (.cellWidth options.bits)

inductive Printed where
  | number (value : Int)
  | character (codePoint : Nat)
  deriving DecidableEq, Repr

def Printed.codePoints : Printed → List Nat
  | number value => (toString value).toList.map Char.toNat
  | character codePoint => [codePoint]

structure Dump where
  pointer : Nat
  cells : List Int
  deriving DecidableEq, Repr

structure Machine where
  setting : Setting
  program : Array Instruction
  jumps : Array Nat
  tape : Tape
  pc : Nat
  steps : Nat
  printed : Array Printed
  dumps : Array Dump
  deriving DecidableEq, Repr

inductive Stop where
  | put
  | get
  | finished
  | budget
  | putChar
  | dump
  deriving DecidableEq, Repr

def Instruction.stop? : Instruction → Option Stop
  | put => some .put
  | putChar => some .putChar
  | get => some .get
  | dump => some .dump
  | _ => none

namespace Machine

def blank (setting : Setting) : Machine where
  setting
  program := #[]
  jumps := #[]
  tape := Tape.blank setting.size
  pc := 0
  steps := 0
  printed := #[]
  dumps := #[]

def new (options : MachineOptions) : Except MachineFault Machine :=
  options.check.map blank

def reset (m : Machine) : Machine := blank m.setting

def load (m : Machine) (text : String) : Machine × Option MachineFault :=
  let program := Instruction.ofText text
  let (jumps, fault) := Brackets.pair program
  ({ blank m.setting with program := program.toArray, jumps }, fault.map .brackets)

def output (m : Machine) : List Nat := m.printed.toList.flatMap Printed.codePoints

def events (m : Machine) : List Event :=
  m.dumps.toList.map fun dump => .dumped dump.pointer dump.cells

def partner (m : Machine) : Nat := m.jumps.getD m.pc m.pc

def perform (m : Machine) : Instruction → Machine
  | .right => { m with tape := m.tape.right, pc := m.pc + 1 }
  | .left => { m with tape := m.tape.left, pc := m.pc + 1 }
  | .increment => { m with tape := m.tape.add m.setting.modulus 1, pc := m.pc + 1 }
  | .decrement => { m with tape := m.tape.add m.setting.modulus (-1), pc := m.pc + 1 }
  | .loopStart => { m with pc := (if m.tape.read = 0 then m.partner else m.pc) + 1 }
  | .loopEnd => { m with pc := (if m.tape.read = 0 then m.pc else m.partner) + 1 }
  | _ => { m with pc := m.pc + 1 }

structure Slice where
  stop : Stop
  left : Nat
  machine : Machine
  deriving DecidableEq, Repr

def slice : Nat → Machine → Slice
  | 0, m => ⟨if m.pc < m.program.size then .budget else .finished, 0, m⟩
  | budget + 1, m =>
      match m.program[m.pc]? with
      | none => ⟨.finished, budget + 1, m⟩
      | some instruction =>
          match instruction.stop? with
          | some stop => ⟨stop, budget + 1, m⟩
          | none => slice budget (m.perform instruction)

def readInput (m : Machine) (input : List CodePoint) : Except MachineFault Int :=
  match input with
  | [] => .ok 0
  | c :: _ =>
      if m.setting.numberInput then
        if c.is Text.isDigit then
          match Text.readNumeral (Text.characters [c]) with
          | .ok n => .ok n
          | .error fault => .error (.numeral fault)
        else .error (.notDigit c)
      else .ok c.toNat

def sliceSteps : Nat := 1000000

def budget (m : Machine) (chunk : Nat) : Except MachineFault Nat :=
  match m.setting.stepLimit with
  | none => .ok chunk
  | some limit =>
      if limit ≤ m.steps then .error (.stepLimit limit)
      else .ok (min chunk (limit - m.steps).toNat)

def lastCodePoint : Int := 0x10ffff

def dumpWidth : Nat := 32

def pass (m : Machine) : Machine := { m with pc := m.pc + 1, steps := m.steps + 1 }

def print (m : Machine) (piece : Printed) : Machine :=
  { m with printed := m.printed.push piece }

def store (m : Machine) (value : Int) : Machine :=
  { m with tape := m.tape.write (value % m.setting.modulus) }

def recordDump (m : Machine) : Machine :=
  { m with dumps := m.dumps.push ⟨m.tape.pointer, m.tape.front dumpWidth⟩ }

inductive Progress where
  | running (input : List CodePoint)
  | finished
  | failed (fault : MachineFault)
  deriving DecidableEq, Repr

def answer (m : Machine) (input : List CodePoint) : Stop → Machine × Progress
  | .finished => (m, .finished)
  | .budget => (m, .running input)
  | .put => ((m.print (.number m.tape.read)).pass, .running input)
  | .putChar =>
      let value := m.tape.read
      if lastCodePoint < value then (m, .failed (.notCodePoint value))
      else ((m.print (.character value.toNat)).pass, .running input)
  | .get =>
      match m.readInput input with
      | .error fault => (m, .failed fault)
      | .ok value => ((m.store value).pass, .running input.tail)
  | .dump => (m.recordDump.pass, .running input)

def round (m : Machine) (chunk : Nat) (input : List CodePoint) : Machine × Progress :=
  match m.budget chunk with
  | .error fault => (m, .failed fault)
  | .ok budget =>
      let ⟨stop, left, m⟩ := m.slice budget
      answer { m with steps := m.steps + (budget - left) } input stop

inductive Outcome where
  | finished
  | failed (fault : MachineFault)
  | unfinished
  deriving DecidableEq, Repr

def resume (chunk : Nat) : Nat → List CodePoint → Machine → Machine × Outcome
  | 0, _, m => (m, .unfinished)
  | rounds + 1, input, m =>
      match m.round chunk input with
      | (m, .running input) => resume chunk rounds input m
      | (m, .finished) => (m, .finished)
      | (m, .failed fault) => (m, .failed fault)

def run (m : Machine) (rounds : Nat) (program : String)
    (input : List CodePoint) : Machine × Outcome :=
  match m.load program with
  | (m, some fault) => (m, .failed fault)
  | (m, none) => resume sliceSteps rounds input m

end Machine

end TapeCompiler
