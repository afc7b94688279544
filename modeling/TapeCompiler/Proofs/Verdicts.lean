import TapeCompiler.Program
import TapeCompiler.Proofs.Allocation
import TapeCompiler.Proofs.Bounds
import TapeCompiler.Proofs.Faults
import TapeCompiler.Proofs.Recompilation

namespace TapeCompiler

def Text.Stumbles (input : List CodePoint) (cause : NumeralFault) : Prop :=
  ∃ c, .char c ∈ input ∧ isDigit c = true ∧ decimalValue? c = none ∧
    cause = .malformed (String.singleton c)

def MachineFault.StemsFrom (machine : MachineOptions) (input : List CodePoint) :
    MachineFault → Prop
  | .numeral cause => machine.numberInput = true ∧ Text.Stumbles input cause
  | .cellWidth bits => bits = machine.bits
  | .tapeSize size => size = machine.tapeSize
  | .stepLimit limit => machine.stepLimit = some limit
  | _ => True

namespace MachineOptions

variable {machine : MachineOptions} {s : Setting}

end MachineOptions

namespace Machine

variable {m : Machine} {machine : MachineOptions} {input : List CodePoint} {fault : MachineFault}

end Machine

section

variable {options : CompileOptions} {machine : MachineOptions} {source input : List CodePoint}
  {cause : Text.NumeralFault}

end

end TapeCompiler
