import TapeCompiler.Text.Blank
import TapeCompiler.Text.Digit
import TapeCompiler.Text.Quoted

namespace TapeCompiler.Text

inductive NumeralFault where
  | malformed (text : String)
  | tooLong (digits : Nat)
  | unwritable
  | uncountable
  deriving DecidableEq, Repr

def maxDigits : Nat := 4300

def shownNumeral : Nat := 200

def NumeralFault.message : NumeralFault → String
  | .malformed text =>
      "invalid literal for int() with base 10: "
        ++ String.ofList ((quoted text).toList.take shownNumeral)
  | .tooLong digits =>
      "Exceeds the limit (" ++ toString maxDigits ++ " digits) for integer string conversion: value has "
        ++ toString digits ++ " digits; use sys.set_int_max_str_digits() to increase the limit"
  | .unwritable =>
      "Exceeds the limit (" ++ toString maxDigits ++ " digits) for integer string conversion; "
        ++ "use sys.set_int_max_str_digits() to increase the limit"
  | .uncountable => "cannot fit 'int' into an index-sized integer"

def isNumeralPadding (c : Char) : Bool :=
  if c.toNat ≤ 127 then c = ' ' || (9 ≤ c.toNat && c.toNat ≤ 13) else isBlank c

def digitRun (joins : Bool) : List Char → List Nat × List Char
  | [] => ([], [])
  | c :: rest =>
      match decimalValue? c with
      | some d =>
          let (ds, after) := digitRun true rest
          (d :: ds, after)
      | none =>
          if joins && c = '_' then
            match digitRun false rest with
            | ([], _) => ([], c :: rest)
            | run => run
          else ([], c :: rest)

def ofDigits (ds : List Nat) : Nat := ds.foldl (fun n d => 10 * n + d) 0

def splitSign : List Char → Int × List Char
  | '-' :: rest => (-1, rest)
  | '+' :: rest => (1, rest)
  | rest => (1, rest)

/-- Too many digits are refused before a character that is no decimal digit. -/
def readNumeral (text : String) : Except NumeralFault Int :=
  let (sign, body) := splitSign (text.toList.dropWhile isNumeralPadding)
  let (ds, rest) := digitRun false body
  if maxDigits < ds.length then .error (.tooLong ds.length)
  else if ds.isEmpty || !rest.all isNumeralPadding then .error (.malformed text)
  else .ok (sign * ofDigits ds)

end TapeCompiler.Text
