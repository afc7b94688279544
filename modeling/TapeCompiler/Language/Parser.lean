import TapeCompiler.Language.Node
import TapeCompiler.Language.Token

namespace TapeCompiler

structure Parsed (α : Type) (tokens : List Token) where
  value : α
  rest : List Token
  shorter : rest.length < tokens.length

structure ParsedTail (α : Type) (tokens : List Token) where
  value : α
  rest : List Token
  noLonger : rest.length ≤ tokens.length

inductive StatementWord where
  | function
  | define
  | set
  | display
  | input
  | remove
  | conditional
  | loop
  | unsafeBlock
  deriving DecidableEq, Repr

def StatementWord.ofText? (text : String) : Option StatementWord :=
  if text = "function" then some .function
  else if text = "define" then some .define
  else if text = "set" then some .set
  else if text = "show" then some .display
  else if text = "input" then some .input
  else if text = "remove" then some .remove
  else if text = "if" then some .conditional
  else if text = "loop" then some .loop
  else if text = "unsafe" then some .unsafeBlock
  else none

inductive OperationWord where
  | goto
  | add
  | reduce
  | display
  | loop
  | verbatim
  deriving DecidableEq, Repr

def OperationWord.ofText? (text : String) : Option OperationWord :=
  if text = "goto" then some .goto
  else if text = "add" then some .add
  else if text = "reduce" then some .reduce
  else if text = "show" then some .display
  else if text = "loop" then some .loop
  else if text = "abstract" then some .verbatim
  else none

def CellType.ofText? (text : String) : Option CellType :=
  if text = "char" then some .char
  else if text = "number" then some .number
  else none

def Node.ofWord? (text : String) : Option Node :=
  if text = "max" then some .max
  else if text = "true" then some (.literal 1 false)
  else if text = "false" then some (.literal 0 false)
  else none

namespace Symbol

def sumOperator? : Symbol → Option Operator
  | plus => some .plus
  | minus => some .minus
  | _ => none

def productOperator? : Symbol → Option Operator
  | star => some .times
  | slash => some .divide
  | _ => none

end Symbol

namespace Parser

def found (tokens : List Token) : Option Lexeme := tokens.head?.map Token.lexeme

def lineOf (lastLine : Nat) (tokens : List Token) : Nat :=
  (tokens.head?.map Token.line).getD lastLine

def fail {α : Type} (lastLine : Nat) (tokens : List Token) (fault : SourceFault) :
    Except SourceError α :=
  .error (.fault fault (lineOf lastLine tokens))

def numeral (text : String) : Except SourceError Int :=
  match Text.readNumeral text with
  | .ok n => .ok n
  | .error fault => .error (.numeral fault)

def symbol (lastLine : Nat) (expected : Symbol) (tokens : List Token) :
    Except SourceError (Parsed Unit tokens) :=
  match tokens with
  | ⟨.symbol s, line⟩ :: rest =>
      if s = expected then .ok ⟨(), rest, by simp⟩
      else .error (.fault (.expectedSymbol expected (some (.symbol s))) line)
  | tokens => fail lastLine tokens (.expectedSymbol expected (found tokens))

def name (lastLine : Nat) (tokens : List Token) : Except SourceError (Parsed String tokens) :=
  match tokens with
  | ⟨.word text, _⟩ :: rest => .ok ⟨text, rest, by simp⟩
  | tokens => fail lastLine tokens (.expectedName (found tokens))

def parenthesisEnd (lastLine : Nat) (tokens : List Token) :
    Except SourceError (Parsed Unit tokens) :=
  match tokens with
  | ⟨.symbol .parenClose, _⟩ :: rest => .ok ⟨(), rest, by simp⟩
  | tokens => fail lastLine tokens (.unclosedParenthesis (found tokens))

def skipMath (tokens : List Token) : List Token :=
  match tokens with
  | ⟨.word "math", _⟩ :: rest => rest
  | tokens => tokens

theorem skipMath_length (tokens : List Token) : (skipMath tokens).length ≤ tokens.length := by
  unfold skipMath
  split <;> simp

mutual

def expression (lastLine : Nat) (tokens : List Token) :
    Except SourceError (Parsed Node tokens) := do
  let first ← term lastLine tokens
  have := first.shorter
  let sum ← sumTail lastLine first.value first.rest
  have := sum.noLonger
  return ⟨sum.value, sum.rest, by omega⟩
termination_by 3 * tokens.length + 2

def sumTail (lastLine : Nat) (left : Node) (tokens : List Token) :
    Except SourceError (ParsedTail Node tokens) :=
  match tokens with
  | ⟨.symbol s, line⟩ :: rest =>
      match s.sumOperator? with
      | none => .ok ⟨left, ⟨.symbol s, line⟩ :: rest, Nat.le_refl _⟩
      | some operator => do
          let right ← term lastLine rest
          have := right.shorter
          let sum ← sumTail lastLine (.math operator left right.value) right.rest
          have := sum.noLonger
          return ⟨sum.value, sum.rest, by simp only [List.length_cons]; omega⟩
  | tokens => .ok ⟨left, tokens, Nat.le_refl _⟩
termination_by 3 * tokens.length

def term (lastLine : Nat) (tokens : List Token) : Except SourceError (Parsed Node tokens) := do
  let first ← factor lastLine tokens
  have := first.shorter
  let product ← productTail lastLine first.value first.rest
  have := product.noLonger
  return ⟨product.value, product.rest, by omega⟩
termination_by 3 * tokens.length + 1

def productTail (lastLine : Nat) (left : Node) (tokens : List Token) :
    Except SourceError (ParsedTail Node tokens) :=
  match tokens with
  | ⟨.symbol s, line⟩ :: rest =>
      match s.productOperator? with
      | none => .ok ⟨left, ⟨.symbol s, line⟩ :: rest, Nat.le_refl _⟩
      | some operator => do
          let right ← factor lastLine rest
          have := right.shorter
          let product ← productTail lastLine (.math operator left right.value) right.rest
          have := product.noLonger
          return ⟨product.value, product.rest, by simp only [List.length_cons]; omega⟩
  | tokens => .ok ⟨left, tokens, Nat.le_refl _⟩
termination_by 3 * tokens.length

def factor (lastLine : Nat) (tokens : List Token) : Except SourceError (Parsed Node tokens) :=
  match tokens with
  | ⟨.number text, _⟩ :: rest => do
      let value ← numeral text
      return ⟨.literal value false, rest, by simp⟩
  | ⟨.character c, _⟩ :: rest => .ok ⟨.literal c.toNat true, rest, by simp⟩
  | ⟨.word text, _⟩ :: rest =>
      match Node.ofWord? text with
      | some value => .ok ⟨value, rest, by simp⟩
      | none => do
          let element ← index lastLine rest
          have := element.noLonger
          return ⟨.var text element.value, element.rest, by simp only [List.length_cons]; omega⟩
  | ⟨.symbol .parenOpen, _⟩ :: rest => do
      have := skipMath_length rest
      let inner ← expression lastLine (skipMath rest)
      have := inner.shorter
      let close ← parenthesisEnd lastLine inner.rest
      have := close.shorter
      return ⟨inner.value, close.rest, by simp only [List.length_cons]; omega⟩
  | tokens => fail lastLine tokens (.expectedValue (found tokens))
termination_by 3 * tokens.length

def index (lastLine : Nat) (tokens : List Token) :
    Except SourceError (ParsedTail (Option Node) tokens) :=
  match tokens with
  | ⟨.symbol .bracketOpen, _⟩ :: rest => do
      let inner ← expression lastLine rest
      have := inner.shorter
      let close ← symbol lastLine .bracketClose inner.rest
      have := close.shorter
      return ⟨some inner.value, close.rest, by simp only [List.length_cons]; omega⟩
  | tokens => .ok ⟨none, tokens, Nat.le_refl _⟩
termination_by 3 * tokens.length

end

def arrayLength (tokens : List Token) : Except SourceError (ParsedTail (Option Int) tokens) :=
  match tokens with
  | ⟨.number text, _⟩ :: rest => do
      let length ← numeral text
      return ⟨some length, rest, by simp⟩
  | tokens => .ok ⟨none, tokens, Nat.le_refl _⟩

def cellType (tokens : List Token) : ParsedTail CellType tokens :=
  match tokens with
  | ⟨.word text, line⟩ :: rest =>
      match CellType.ofText? text with
      | some type => ⟨type, rest, by simp⟩
      | none => ⟨.number, ⟨.word text, line⟩ :: rest, Nat.le_refl _⟩
  | tokens => ⟨.number, tokens, Nat.le_refl _⟩

def instructions (lastLine : Nat) (tokens : List Token) :
    Except SourceError (Parsed (List Char) tokens) :=
  match tokens with
  | [] => .error (.fault (.foreignInstruction none) lastLine)
  | ⟨.word text, line⟩ :: rest =>
      if text = "end" then .ok ⟨[], rest, by simp⟩
      else .error (.fault (.foreignInstruction (some (.word text))) line)
  | ⟨.symbol s, line⟩ :: rest =>
      match s.instruction? with
      | none => .error (.fault (.foreignInstruction (some (.symbol s))) line)
      | some c => do
          let more ← instructions lastLine rest
          have := more.shorter
          return ⟨c :: more.value, more.rest, by simp only [List.length_cons]; omega⟩
  | ⟨lexeme, line⟩ :: _ => .error (.fault (.foreignInstruction (some lexeme)) line)

mutual

def operation (lastLine : Nat) (tokens : List Token) :
    Except SourceError (Parsed Node tokens) :=
  match tokens with
  | ⟨.word text, line⟩ :: rest =>
      match OperationWord.ofText? text with
      | some .goto =>
          match rest with
          | ⟨.number digits, _⟩ :: after => do
              let offset ← numeral digits
              return ⟨.unsafeGoto line offset, after, by simp only [List.length_cons]; omega⟩
          | other => fail lastLine other (.expectedOffset (found other))
      | some .add => do
          let amount ← expression lastLine rest
          have := amount.shorter
          return ⟨.unsafeAdd line amount.value, amount.rest, by simp only [List.length_cons]; omega⟩
      | some .reduce => do
          let amount ← expression lastLine rest
          have := amount.shorter
          return ⟨.unsafeReduce line amount.value, amount.rest,
            by simp only [List.length_cons]; omega⟩
      | some .display => .ok ⟨.unsafeShow line, rest, by simp⟩
      | some .loop => do
          let opening ← symbol lastLine .braceOpen rest
          have := opening.shorter
          let body ← operations lastLine opening.rest
          have := body.shorter
          return ⟨.unsafeLoop line body.value, body.rest, by simp only [List.length_cons]; omega⟩
      | some .verbatim => do
          let code ← instructions lastLine rest
          have := code.shorter
          return ⟨.verbatim line (String.ofList code.value), code.rest,
            by simp only [List.length_cons]; omega⟩
      | none => .error (.fault (.unknownOperation text) line)
  | tokens => fail lastLine tokens (.expectedOperation (found tokens))
termination_by 2 * tokens.length

def operations (lastLine : Nat) (tokens : List Token) :
    Except SourceError (Parsed (List Node) tokens) :=
  match tokens with
  | [] => .error (.fault .unterminatedBlock lastLine)
  | token :: rest =>
      if token.lexeme = .symbol .braceClose then .ok ⟨[], rest, by simp⟩
      else do
        let first ← operation lastLine (token :: rest)
        have := first.shorter
        let more ← operations lastLine first.rest
        have := more.shorter
        return ⟨first.value :: more.value, more.rest, by omega⟩
termination_by 2 * tokens.length + 1
decreasing_by all_goals (simp only [List.length_cons] at *; omega)

end

mutual

def statement (lastLine : Nat) (tokens : List Token) :
    Except SourceError (Parsed Node tokens) :=
  match tokens with
  | ⟨.symbol .dollar, line⟩ :: rest => do
      let callee ← name lastLine rest
      have := callee.shorter
      return ⟨.call line callee.value, callee.rest, by simp only [List.length_cons]; omega⟩
  | ⟨.word text, line⟩ :: rest =>
      match StatementWord.ofText? text with
      | some .function => do
          let title ← name lastLine rest
          have := title.shorter
          let opening ← symbol lastLine .braceOpen title.rest
          have := opening.shorter
          let body ← statements lastLine opening.rest
          have := body.shorter
          return ⟨.function line title.value body.value, body.rest,
            by simp only [List.length_cons]; omega⟩
      | some .define => do
          let title ← name lastLine rest
          have := title.shorter
          let length ← arrayLength title.rest
          have := length.noLonger
          let type := cellType length.rest
          have := type.noLonger
          return ⟨.declare line title.value type.value length.value, type.rest,
            by simp only [List.length_cons]; omega⟩
      | some .set => do
          let title ← name lastLine rest
          have := title.shorter
          let element ← index lastLine title.rest
          have := element.noLonger
          let value ← expression lastLine element.rest
          have := value.shorter
          return ⟨.assign line title.value element.value value.value, value.rest,
            by simp only [List.length_cons]; omega⟩
      | some .display => do
          let value ← expression lastLine rest
          have := value.shorter
          return ⟨.display line value.value, value.rest, by simp only [List.length_cons]; omega⟩
      | some .input => do
          let title ← name lastLine rest
          have := title.shorter
          return ⟨.input line title.value, title.rest, by simp only [List.length_cons]; omega⟩
      | some .remove => do
          let title ← name lastLine rest
          have := title.shorter
          return ⟨.remove line title.value, title.rest, by simp only [List.length_cons]; omega⟩
      | some .conditional => do
          let condition ← expression lastLine rest
          have := condition.shorter
          let opening ← symbol lastLine .braceOpen condition.rest
          have := opening.shorter
          let body ← statements lastLine opening.rest
          have := body.shorter
          return ⟨.conditional line condition.value body.value, body.rest,
            by simp only [List.length_cons]; omega⟩
      | some .loop => do
          let condition ← expression lastLine rest
          have := condition.shorter
          let opening ← symbol lastLine .braceOpen condition.rest
          have := opening.shorter
          let body ← statements lastLine opening.rest
          have := body.shorter
          return ⟨.loop line condition.value body.value, body.rest,
            by simp only [List.length_cons]; omega⟩
      | some .unsafeBlock =>
          match rest with
          | ⟨.number digits, _⟩ :: after => do
              let size ← numeral digits
              let opening ← symbol lastLine .braceOpen after
              have := opening.shorter
              let body ← operations lastLine opening.rest
              have := body.shorter
              return ⟨.unsafeBlock line size body.value, body.rest,
                by simp only [List.length_cons]; omega⟩
          | other => fail lastLine other .missingSize
      | none => .error (.fault (.unknownStatement text) line)
  | tokens => fail lastLine tokens (.expectedStatement (found tokens))
termination_by 2 * tokens.length

def statements (lastLine : Nat) (tokens : List Token) :
    Except SourceError (Parsed (List Node) tokens) :=
  match tokens with
  | [] => .error (.fault .unterminatedBlock lastLine)
  | token :: rest =>
      if token.lexeme = .symbol .braceClose then .ok ⟨[], rest, by simp⟩
      else do
        let first ← statement lastLine (token :: rest)
        have := first.shorter
        let more ← statements lastLine first.rest
        have := more.shorter
        return ⟨first.value :: more.value, more.rest, by omega⟩
termination_by 2 * tokens.length + 1
decreasing_by all_goals (simp only [List.length_cons] at *; omega)

end

def program (lastLine : Nat) (tokens : List Token) : Except SourceError (List Node) :=
  match tokens with
  | [] => .ok []
  | token :: rest => do
      let first ← statement lastLine (token :: rest)
      have := first.shorter
      let more ← program lastLine first.rest
      return first.value :: more
termination_by tokens.length
decreasing_by (simp only [List.length_cons] at *; omega)

end Parser

def parse (source : List CodePoint) : Except SourceError (List Node) := do
  let scanned ← scan source
  Parser.program scanned.lastLine scanned.tokens

end TapeCompiler
