import TapeCompiler.Compile.Statement
import TapeCompiler.Diagnostic
import TapeCompiler.Language.Parser
import TapeCompiler.Machine.Basic

namespace TapeCompiler

structure Compiled where
  code : String
  bindings : Table Binding
  cells : Int
  trace : List String
  deriving Repr

inductive Failure where
  | source (diagnostic : Diagnostic)
  | numeral (fault : Text.NumeralFault)
  | program (kind : FaultKind) (diagnostic : Diagnostic)
  deriving DecidableEq, Repr

def Failure.message : Failure → List CodePoint
  | source diagnostic => diagnostic.message
  | numeral fault => fault.message
  | program _ diagnostic => diagnostic.message

def SourceError.failure (source : List CodePoint) : SourceError → Failure
  | .fault cause line => .source (Diagnostic.of .parsing cause.message source line)
  | .numeral cause => .numeral cause

def CompileError.failure (source : List CodePoint) (error : CompileError) : Failure :=
  match error.fault.kind with
  | .error cause => .numeral cause
  | .ok kind =>
      .program kind (Diagnostic.of .compiling error.fault.message source error.line)

def compileTree (options : CompileOptions) (nodes : List Node) :
    Except CompileError Compiled × List Event :=
  match Compile.program options nodes Compilation.initial with
  | .ok _ c => (.ok ⟨c.code, c.bindings, c.layout.highWater, c.trace options⟩, c.events.toList)
  | .error error c => (.error error, c.events.toList)

def compileSource (options : CompileOptions) (source : List CodePoint) :
    Except Failure Compiled × List Event :=
  match parse source with
  | .error error => (.error (error.failure source), [])
  | .ok nodes =>
      match compileTree options nodes with
      | (.ok compiled, events) => (.ok compiled, events)
      | (.error error, events) => (.error (error.failure source), events)

def execute (options : MachineOptions) (rounds : Nat) (code : String) (input : List CodePoint) :
    Except MachineFault (Machine × Machine.Outcome) :=
  (Machine.new options).map fun m => m.run rounds code input

end TapeCompiler
