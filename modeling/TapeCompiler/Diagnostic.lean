import TapeCompiler.Text.Lines
import TapeCompiler.Text.Lowercase

namespace TapeCompiler

def excerpt (lines : List (List CodePoint)) (line context : Int) : List CodePoint :=
  let middle : Int := min (max 1 line) lines.length
  let shown := (lines.zipIdx 1).filter fun (_, number) =>
    decide (middle - context ≤ (number : Int) ∧ (number : Int) ≤ middle + context)
  List.intercalate "\n" <| shown.map fun (text, number) =>
    (if (number : Int) = middle then ">" else " ") ++ " " ++ Text.column 4 number ++ " | " ++ text

inductive Phase where
  | parsing
  | compiling
  deriving DecidableEq, Repr

def Phase.title : Phase → String
  | .parsing => "ParseError"
  | .compiling => "CompileError"

def Phase.hints : Phase → List (String × Option String)
  | .parsing =>
      [("not terminated", some "Check for a missing closing \"\x7d\"."),
        ("unexpected character",
          some ("Only identifiers, numbers, character literals and "
            ++ "( ) \x7b \x7d [ ] + - * / $ are allowed.")),
        ("unsafe block must specify size",
          some "Example: unsafe 4 \x7b goto 1 add 3 show \x7d")]
  | .compiling =>
      [("did you mean", none),
        ("not declared",
          some "Declare the variable first: define <name> [length] [char|number]."),
        ("not defined",
          some ("Define the function before the call is reached: "
            ++ "function <name> \x7b ... \x7d.")),
        ("recursive",
          some "Functions are inlined at the call site; recursion cannot be expanded."),
        ("unsafe",
          some "Unsafe operations are only valid inside unsafe <size> \x7b ... \x7d."),
        ("unsupported operator", some "Only + and - are compiled; rewrite * and / as loops.")]

def Phase.hint? (phase : Phase) (message : List CodePoint) : Option String :=
  let small := Text.lowerFrom [] message
  (phase.hints.find? fun (phrase, _) => Text.occursIn phrase small).bind (·.2)

structure Diagnostic where
  message : List CodePoint
  line : Int
  context : List CodePoint
  deriving DecidableEq, Repr

def Diagnostic.of (phase : Phase) (message source : List CodePoint) (line : Int) : Diagnostic :=
  let context := excerpt (Text.splitLines source) line 2
  let hint : List CodePoint :=
    match phase.hint? message with
    | some text => "\nHint: " ++ text
    | none => ""
  { message :=
      phase.title ++ ": " ++ message ++ " (line " ++ toString line ++ ")\n" ++ context ++ hint
    line
    context }

end TapeCompiler
