import TapeCompiler.Text.Blank
import TapeCompiler.Text.CodePoint
import TapeCompiler.Text.Digit
import TapeCompiler.Text.Numeral
import TapeCompiler.Text.Numeric

namespace TapeCompiler

inductive Symbol where
  | parenOpen
  | parenClose
  | braceOpen
  | braceClose
  | bracketOpen
  | bracketClose
  | plus
  | minus
  | star
  | slash
  | colon
  | comma
  | dot
  | less
  | greater
  | dollar
  | equal
  | unequal
  | atMost
  | atLeast
  deriving DecidableEq, Repr

namespace Symbol

def text : Symbol → String
  | parenOpen => "("
  | parenClose => ")"
  | braceOpen => "\x7b"
  | braceClose => "\x7d"
  | bracketOpen => "["
  | bracketClose => "]"
  | plus => "+"
  | minus => "-"
  | star => "*"
  | slash => "/"
  | colon => ":"
  | comma => ","
  | dot => "."
  | less => "<"
  | greater => ">"
  | dollar => "$"
  | equal => "=="
  | unequal => "!="
  | atMost => "<="
  | atLeast => ">="

def ofCodePoint? : CodePoint → Option Symbol
  | .char '(' => some parenOpen
  | .char ')' => some parenClose
  | .char '{' => some braceOpen
  | .char '}' => some braceClose
  | .char '[' => some bracketOpen
  | .char ']' => some bracketClose
  | .char '+' => some plus
  | .char '-' => some minus
  | .char '*' => some star
  | .char '/' => some slash
  | .char ':' => some colon
  | .char ',' => some comma
  | .char '.' => some dot
  | .char '<' => some less
  | .char '>' => some greater
  | .char '$' => some dollar
  | _ => none

def ofPair? : CodePoint → CodePoint → Option Symbol
  | .char '=', .char '=' => some equal
  | .char '!', .char '=' => some unequal
  | .char '<', .char '=' => some atMost
  | .char '>', .char '=' => some atLeast
  | _, _ => none

def instruction? : Symbol → Option Char
  | greater => some '>'
  | less => some '<'
  | plus => some '+'
  | minus => some '-'
  | dot => some '.'
  | comma => some ','
  | bracketOpen => some '['
  | bracketClose => some ']'
  | _ => none

end Symbol

inductive Lexeme where
  | number (text : String)
  | word (text : String)
  | character (c : CodePoint)
  | symbol (symbol : Symbol)
  deriving DecidableEq, Repr

namespace Lexeme

def kind : Lexeme → String
  | number _ => "number"
  | word _ => "ident"
  | character _ => "char"
  | symbol _ => "symbol"

def text : Lexeme → List CodePoint
  | number text => text
  | word text => text
  | character c => [c]
  | symbol s => s.text

def endsValue : Lexeme → Bool
  | number _ | word _ | character _ => true
  | symbol s => s = .parenClose || s = .bracketClose

def describe : Option Lexeme → List CodePoint
  | none => "end of input"
  | some lexeme => lexeme.kind ++ " '" ++ lexeme.text ++ "'"

end Lexeme

structure Token where
  lexeme : Lexeme
  line : Nat
  deriving DecidableEq, Repr

inductive SourceFault where
  | unterminatedComment
  | malformedCharacter
  | unexpectedCharacter (c : CodePoint)
  | expectedSymbol (symbol : Symbol) (found : Option Lexeme)
  | expectedName (found : Option Lexeme)
  | expectedOffset (found : Option Lexeme)
  | unterminatedBlock
  | expectedStatement (found : Option Lexeme)
  | missingSize
  | unknownStatement (word : String)
  | expectedOperation (found : Option Lexeme)
  | unknownOperation (word : String)
  | foreignInstruction (found : Option Lexeme)
  | unclosedParenthesis (found : Option Lexeme)
  | expectedValue (found : Option Lexeme)
  deriving DecidableEq, Repr

def SourceFault.message : SourceFault → List CodePoint
  | unterminatedComment => "Unterminated block comment"
  | malformedCharacter => "Malformed character literal"
  | unexpectedCharacter c => "Unexpected character '" ++ [c] ++ "'"
  | expectedSymbol symbol found =>
      "Expected symbol '" ++ symbol.text ++ "', found " ++ Lexeme.describe found
  | expectedName found => "Expected identifier, found " ++ Lexeme.describe found
  | expectedOffset found => "Expected number after goto, found " ++ Lexeme.describe found
  | unterminatedBlock => "Block not terminated with '\x7d'"
  | expectedStatement found => "Expected keyword or function call, found " ++ Lexeme.describe found
  | missingSize => "Unsafe block must specify size"
  | unknownStatement word => "Unknown statement keyword '" ++ word ++ "'"
  | expectedOperation found => "Expected unsafe operation, found " ++ Lexeme.describe found
  | unknownOperation word => "Unknown unsafe command '" ++ word ++ "'"
  | foreignInstruction found =>
      "Invalid character inside abstract block: " ++ Lexeme.describe found
  | unclosedParenthesis found => "Expected ')' after expression, found " ++ Lexeme.describe found
  | expectedValue found => "Unexpected token in factor: " ++ Lexeme.describe found

inductive SourceError where
  | fault (fault : SourceFault) (line : Nat)
  | numeral (fault : Text.NumeralFault)
  deriving DecidableEq, Repr

structure Scan where
  tokens : List Token
  lastLine : Nat
  deriving DecidableEq, Repr

namespace Scan

def push (token : Token) (scan : Scan) : Scan := { scan with tokens := token :: scan.tokens }

def closeComment : List CodePoint → Option (Nat × List CodePoint)
  | [] => none
  | .char '*' :: .char '/' :: rest => some (0, rest)
  | c :: rest =>
      (closeComment rest).map fun (ends, after) => (if c = '\n' then ends + 1 else ends, after)

theorem closeComment_length {cs after : List CodePoint} {ends : Nat}
    (h : closeComment cs = some (ends, after)) : after.length < cs.length := by
  fun_induction closeComment cs generalizing ends after with
  | case1 => simp at h
  | case2 rest =>
      simp only [Option.some.injEq, Prod.mk.injEq] at h
      obtain ⟨_, rfl⟩ := h
      simp only [List.length_cons]
      omega
  | case3 c rest _ ih =>
      obtain ⟨⟨n, r⟩, hr, h⟩ := Option.map_eq_some_iff.1 h
      simp only [Prod.mk.injEq] at h
      obtain ⟨_, rfl⟩ := h
      have := ih hr
      simp only [List.length_cons]
      omega

theorem length_dropWhile_le (p : CodePoint → Bool) (cs : List CodePoint) :
    (cs.dropWhile p).length ≤ cs.length :=
  (List.dropWhile_sublist p).length_le

def isWordStart (c : Char) : Bool := Text.isLetter c || c = '_'

def isWordPart (c : Char) : Bool := Text.isAlphanumeric c || c = '_'

def startsNumber (subtracts : Bool) (c : CodePoint) (rest : List CodePoint) : Bool :=
  c.is Text.isDigit ||
    (c = '-' && !subtracts && (rest.head?.map (CodePoint.is Text.isDigit)).getD false)

def lexeme (subtracts : Bool) (c : CodePoint) (rest : List CodePoint) :
    Except SourceFault (Lexeme × List CodePoint) :=
  if c.is isWordStart then
    .ok (.word (Text.characters (c :: rest.takeWhile (CodePoint.is isWordPart))),
      rest.dropWhile (CodePoint.is isWordPart))
  else if startsNumber subtracts c rest then
    .ok (.number (Text.characters (c :: rest.takeWhile (CodePoint.is Text.isDigit))),
      rest.dropWhile (CodePoint.is Text.isDigit))
  else if c = '\'' then
    match rest with
    | quoted :: .char '\'' :: after => .ok (.character quoted, after)
    | _ => .error .malformedCharacter
  else
    match rest.head?.bind (Symbol.ofPair? c) with
    | some symbol => .ok (.symbol symbol, rest.tail)
    | none =>
        match Symbol.ofCodePoint? c with
        | some symbol => .ok (.symbol symbol, rest)
        | none => .error (.unexpectedCharacter c)

theorem lexeme_length {subtracts : Bool} {c : CodePoint} {rest after : List CodePoint} {l : Lexeme}
    (h : lexeme subtracts c rest = .ok (l, after)) : after.length ≤ rest.length := by
  unfold lexeme at h
  split at h
  · cases h
    exact length_dropWhile_le ..
  · split at h
    · cases h
      exact length_dropWhile_le ..
    · split at h
      · split at h
        · cases h
          simp only [List.length_cons]
          omega
        · cases h
      · split at h
        · cases h
          simp
        · split at h
          · cases h
            exact Nat.le_refl _
          · cases h

/-- Reads tokens from `line` on. `glued` says that a character other than a blank stands right
before, and `value` that the last token can end a value. -/
def readFrom (glued value : Bool) (line : Nat) (cs : List CodePoint) : Except SourceError Scan :=
  match cs with
  | [] => .ok ⟨[], line⟩
  | c :: rest =>
      if c = '\n' then Scan.readFrom false value (line + 1) rest
      else if c.is Text.isBlank then Scan.readFrom false value line rest
      else if c = '/' ∧ rest.head? = some (.char '/') then
        Scan.readFrom true value line (rest.dropWhile (· != '\n'))
      else if c = '/' ∧ rest.head? = some (.char '*') then
        match _h : closeComment rest.tail with
        | none => .error (.fault .unterminatedComment line)
        | some (ends, after) => Scan.readFrom true value (line + ends) after
      else
        match _h : lexeme (glued && value) c rest with
        | .error fault => .error (.fault fault line)
        | .ok (l, after) => (Scan.readFrom true l.endsValue line after).map (push ⟨l, line⟩)
termination_by cs.length
decreasing_by
  · simp
  · simp
  · have := length_dropWhile_le (· != '\n') rest
    simp only [List.length_cons]
    omega
  · have := closeComment_length _h
    simp only [List.length_tail] at this
    simp only [List.length_cons]
    omega
  · have := lexeme_length _h
    simp only [List.length_cons]
    omega

end Scan

def scan (source : List CodePoint) : Except SourceError Scan := Scan.readFrom false false 1 source

end TapeCompiler
