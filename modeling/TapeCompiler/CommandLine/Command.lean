import TapeCompiler.CommandLine.Arguments
import TapeCompiler.CommandLine.Disk
import TapeCompiler.Program
import TapeCompiler.Text.Utf8

namespace TapeCompiler

inductive Command where
  | compile (source : String) (target : Option String) (options : CompileOptions)
  | execute (program input : String) (machine : MachineOptions)
  | run (source input : String) (options : CompileOptions) (machine : MachineOptions)
  deriving DecidableEq, Repr

structure Invocation where
  verbosity : Nat
  command : Command
  deriving DecidableEq, Repr

namespace Invocation

def helpOption : OptionSpec := ⟨["-h", "--help"], .help⟩

def compileFlags : List OptionSpec :=
  [⟨["--free-subtraction-copies"], .flag⟩, ⟨["--trace"], .flag⟩]

def machineFlags : List OptionSpec :=
  [⟨["--bits"], .number⟩, ⟨["--number-input"], .flag⟩, ⟨["--tape-size"], .number⟩,
    ⟨["--step-limit"], .number⟩]

def mainGrammar : Grammar where
  title := "bbf"
  options := [helpOption, ⟨["-v", "--verbose"], .counter⟩]
  positionals := [.command "cmd" ["compile", "execute", "run"]]

def compileGrammar : Grammar where
  title := "bbf compile"
  options := helpOption :: compileFlags
  positionals := [.required "src", .optional "out"]

def executeGrammar : Grammar where
  title := "bbf execute"
  options := helpOption :: machineFlags
  positionals := [.required "program", .optional "input"]

def runGrammar : Grammar where
  title := "bbf run"
  options := helpOption :: compileFlags ++ machineFlags
  positionals := [.required "src", .optional "input"]

def compileOptions (arguments : Arguments) : CompileOptions where
  freeSubtractionCopies := arguments.isSet "--free-subtraction-copies"
  trace := arguments.isSet "--trace"

def machineOptions (arguments : Arguments) : MachineOptions where
  tapeSize := (arguments.value? "--tape-size").getD 30000
  bits := (arguments.value? "--bits").getD 8
  numberInput := arguments.isSet "--number-input"
  stepLimit := arguments.value? "--step-limit"

def single? (arguments : Arguments) (name : String) : Option String :=
  (arguments.positional? name).bind List.head?

def single (arguments : Arguments) (name : String) : String := (single? arguments name).getD ""

def readCommand (word : String) (rest : List String) : Except Refusal (Command × Arguments) :=
  if word = "compile" then do
    let arguments ← compileGrammar.read rest
    let target := (single? arguments "out").filter (· ≠ "")
    return (.compile (single arguments "src") target (compileOptions arguments), arguments)
  else if word = "execute" then do
    let arguments ← executeGrammar.read rest
    return (.execute (single arguments "program") (single arguments "input")
      (machineOptions arguments), arguments)
  else do
    let arguments ← runGrammar.read rest
    return (.run (single arguments "src") (single arguments "input") (compileOptions arguments)
      (machineOptions arguments), arguments)

def ofArguments (arguments : List String) : Except Refusal Invocation := do
  let outer ← mainGrammar.read arguments
  match (outer.positional? "cmd").getD [] with
  | [] => .error (.fault mainGrammar.title (.missing ["cmd"]))
  | word :: rest => do
      let (command, inner) ← readCommand word rest
      match outer.extras ++ inner.extras with
      | [] => return ⟨outer.count "--verbose", command⟩
      | extras => .error (.fault mainGrammar.title (.unrecognized extras))

end Invocation

structure Report where
  exit : Nat
  stdout : List Nat
  stderr : String
  deriving DecidableEq, Repr

inductive Breakdown where
  | undecodable (fault : Text.Utf8Fault)
  | numeral (fault : Text.NumeralFault)
  | unfinished
  deriving DecidableEq, Repr

def Breakdown.message : Breakdown → String
  | undecodable fault => fault.message
  | numeral fault => fault.message
  | unfinished => "the program has not ended"

inductive Stage where
  | finished (report : Report)
  | writing (target : Path) (code : String) (report : Report)
  | broken (breakdown : Breakdown)
  deriving DecidableEq, Repr

def codePoints (text : String) : List Nat := text.toList.map Char.toNat

def asLines (texts : List String) : String := String.join (texts.map (· ++ "\n"))

def Report.failure (stderr message : String) : Report := ⟨1, [], stderr ++ asLines [message]⟩

def DiskFault.report (fault : DiskFault) (path : Path) (stderr : String) : Report :=
  .failure stderr ("Error: " ++ fault.message path)

def Stage.failure (stderr : String) (fault : MachineFault) : Stage :=
  match fault.numeral? with
  | some cause => .broken (.numeral cause)
  | none => .finished (.failure stderr fault.message)

def Refusal.report : Refusal → Report
  | .help => ⟨0, [], ""⟩
  | .fault title cause => ⟨2, [], asLines [title ++ ": error: " ++ cause.message]⟩

namespace Invocation

def log (invocation : Invocation) (events : List Event) : String :=
  let least :=
    match invocation.verbosity with
    | 0 => Level.warning
    | 1 => Level.info
    | _ => Level.debug
  asLines ((events.filter fun e => least.weight ≤ e.level.weight).map Event.logLine)

def file (invocation : Invocation) : Path :=
  match invocation.command with
  | .compile source .. => Path.ofText source
  | .execute program .. => Path.ofText program
  | .run source .. => Path.ofText source

def compiling (invocation : Invocation) (options : CompileOptions) (source : String)
    (next : Compiled → String → Stage) : Stage :=
  match compileSource options source with
  | (.error (.numeral fault), _) => .broken (.numeral fault)
  | (.error failure, events) =>
      .finished (.failure (invocation.log events) (Text.characters failure.message))
  | (.ok compiled, events) => next compiled (invocation.log events ++ asLines compiled.trace)

def executing (invocation : Invocation) (rounds : Nat) (machine : MachineOptions)
    (code input stderr : String) : Stage :=
  match TapeCompiler.execute machine rounds code input with
  | .error fault => .failure stderr fault
  | .ok (m, outcome) =>
      let stderr := stderr ++ invocation.log m.events
      match outcome with
      | .finished => .finished ⟨0, m.output ++ codePoints "\n", stderr⟩
      | .failed fault => .failure stderr fault
      | .unfinished => .broken .unfinished

def process (invocation : Invocation) (rounds : Nat) (text : String) : Stage :=
  match invocation.command with
  | .compile source target options =>
      let target := (target.map Path.ofText).getD ((Path.ofText source).withEnding ".bf")
      invocation.compiling options text fun compiled stderr =>
        .writing target compiled.code
          ⟨0, codePoints ("Compiled " ++ source ++ " -> " ++ target.text ++ "\n"), stderr⟩
  | .execute _ input machine => invocation.executing rounds machine text input ""
  | .run _ input options machine =>
      invocation.compiling options text fun compiled stderr =>
        invocation.executing rounds machine compiled.code input stderr

def stage (invocation : Invocation) (rounds : Nat) (file : Except DiskFault (List UInt8)) : Stage :=
  match file with
  | .error fault => .finished (fault.report invocation.file "")
  | .ok bytes =>
      match Text.decodeUtf8 (bytes.map UInt8.toNat) with
      | .error fault => .broken (.undecodable fault)
      | .ok cs => invocation.process rounds (String.ofList (Text.unifyLineEnds cs))

end Invocation

def runIn (disk : Disk) (rounds : Nat) (arguments : List String) :
    Except Breakdown (Report × Disk) :=
  match Invocation.ofArguments arguments with
  | .error refusal => .ok (refusal.report, disk)
  | .ok invocation =>
      match invocation.stage rounds (disk.read invocation.file) with
      | .finished report => .ok (report, disk)
      | .broken breakdown => .error breakdown
      | .writing target code report =>
          match disk.write target code.toUTF8.toList with
          | .ok disk => .ok (report, disk)
          | .error fault => .ok (fault.report target report.stderr, disk)

end TapeCompiler
