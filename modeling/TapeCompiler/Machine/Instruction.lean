namespace TapeCompiler

inductive Instruction where
  | right
  | left
  | increment
  | decrement
  | put
  | putChar
  | get
  | dump
  | loopStart
  | loopEnd
  deriving DecidableEq, Repr

namespace Instruction

def ofChar? : Char → Option Instruction
  | '>' => some right
  | '<' => some left
  | '+' => some increment
  | '-' => some decrement
  | '.' => some put
  | '~' => some putChar
  | ',' => some get
  | '&' => some dump
  | '[' => some loopStart
  | ']' => some loopEnd
  | _ => none

def toChar : Instruction → Char
  | right => '>'
  | left => '<'
  | increment => '+'
  | decrement => '-'
  | put => '.'
  | putChar => '~'
  | get => ','
  | dump => '&'
  | loopStart => '['
  | loopEnd => ']'

@[simp] theorem ofChar?_toChar (i : Instruction) : ofChar? i.toChar = some i := by
  cases i <;> rfl

def ofText (text : String) : List Instruction := text.toList.filterMap ofChar?

def toText (program : List Instruction) : String := String.ofList (program.map toChar)

theorem ofText_toText (program : List Instruction) : ofText (toText program) = program := by
  simp only [ofText, toText, String.toList_ofList]
  induction program with
  | nil => rfl
  | cons i rest ih => simp [ih]

end Instruction

end TapeCompiler
