import TapeCompiler.CommandLine.Command

namespace TapeCompiler

def patience : Nat := Nat.pow 2 62

def diskFault? : IO.Error → Option DiskFault
  | .noFileOrDirectory .. => some .missing
  | .inappropriateType _ code _ => some (if code = 20 then .notFolder else .isFolder)
  | _ => none

def printable (codes : List Nat) : String :=
  String.ofList (codes.map fun n => if n.isValidChar then Char.ofNat n else Char.ofNat 0xfffd)

def attempt {α : Type} (action : IO α) : IO (Except DiskFault α) := do
  try return .ok (← action)
  catch error =>
    match diskFault? error with
    | some fault => return .error fault
    | none => throw error

def finish (report : Report) : IO UInt32 := do
  (← IO.getStdout).putStr (printable report.stdout)
  (← IO.getStderr).putStr report.stderr
  return report.exit.toUInt32

def start (arguments : List String) : IO UInt32 := do
  match Invocation.ofArguments arguments with
  | .error refusal => finish refusal.report
  | .ok invocation =>
      let file ← attempt (IO.FS.readBinFile invocation.file.text)
      match invocation.stage patience (file.map ByteArray.toList) with
      | .finished report => finish report
      | .broken breakdown => finish (.failure "" breakdown.message)
      | .writing target code report =>
          match ← attempt (IO.FS.writeFile target.text code) with
          | .ok _ => finish report
          | .error fault => finish (fault.report target report.stderr)

end TapeCompiler

def main (arguments : List String) : IO UInt32 := TapeCompiler.start arguments
