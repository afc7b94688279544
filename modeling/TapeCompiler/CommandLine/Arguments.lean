import TapeCompiler.Text.Numeral

namespace TapeCompiler

inductive OptionKind where
  | help
  | counter
  | flag
  | number
  deriving DecidableEq, Repr

structure OptionSpec where
  names : List String
  kind : OptionKind
  deriving DecidableEq, Repr

def OptionSpec.title (option : OptionSpec) : String := String.intercalate "/" option.names

inductive Positional where
  | required (name : String)
  | optional (name : String)
  | command (name : String) (choices : List String)
  deriving DecidableEq, Repr

namespace Positional

def name : Positional → String
  | required name | optional name | command name _ => name

def isRequired : Positional → Bool
  | optional _ => false
  | _ => true

end Positional

structure Grammar where
  title : String
  options : List OptionSpec
  positionals : List Positional
  deriving DecidableEq, Repr

inductive ArgumentFault where
  | ambiguous (argument : String) (candidates : List String)
  | missingValue (option : OptionSpec)
  | unusedValue (option : OptionSpec) (value : String)
  | notNumber (option : OptionSpec) (value : String)
  | unknownChoice (name value : String) (choices : List String)
  | missing (names : List String)
  | unrecognized (arguments : List String)
  deriving DecidableEq, Repr

def ArgumentFault.message : ArgumentFault → String
  | ambiguous argument candidates =>
      "ambiguous option: " ++ argument ++ " could match " ++ String.intercalate ", " candidates
  | missingValue option => "argument " ++ option.title ++ ": expected one argument"
  | unusedValue option value =>
      "argument " ++ option.title ++ ": ignored explicit argument " ++ Text.quoted value
  | notNumber option value =>
      "argument " ++ option.title ++ ": invalid int value: " ++ Text.quoted value
  | unknownChoice name value choices =>
      "argument " ++ name ++ ": invalid choice: " ++ Text.quoted value ++ " (choose from "
        ++ String.intercalate ", " (choices.map Text.quoted) ++ ")"
  | missing names =>
      "the following arguments are required: " ++ String.intercalate ", " names
  | unrecognized arguments => "unrecognized arguments: " ++ String.intercalate " " arguments

inductive Refusal where
  | help
  | fault (title : String) (cause : ArgumentFault)
  deriving DecidableEq, Repr

inductive Reading where
  | plain
  | terminator
  | unknown
  | option (spec : OptionSpec) (name : String) (attached : Option (List Char))
  deriving DecidableEq, Repr

namespace Reading

def isPlain : Reading → Bool
  | plain => true
  | _ => false

def isTerminator : Reading → Bool
  | terminator => true
  | _ => false

end Reading

structure Argument where
  text : String
  reading : Reading
  deriving DecidableEq, Repr

def splitEquals : List Char → List Char × Option (List Char)
  | [] => ([], none)
  | c :: rest =>
      if c = '=' then ([], some rest)
      else
        let (before, after) := splitEquals rest
        (c :: before, after)

def looksNegative : List Char → Bool
  | '-' :: rest =>
      let isDecimal (c : Char) : Bool := (Text.decimalValue? c).isSome
      let atEnd (cs : List Char) : Bool := cs.isEmpty || cs = ['\n']
      match rest.dropWhile isDecimal with
      | '.' :: fraction =>
          (fraction.head?.map isDecimal).getD false && atEnd (fraction.dropWhile isDecimal)
      | after => rest.head?.any isDecimal && atEnd after
  | _ => false

namespace Grammar

def find? (grammar : Grammar) (name : String) : Option OptionSpec :=
  grammar.options.find? (·.names.contains name)

def candidates (grammar : Grammar) (argument : List Char) :
    List (OptionSpec × String × Option (List Char)) :=
  let named := grammar.options.flatMap fun option => option.names.map fun name => (option, name)
  match argument with
  | '-' :: '-' :: _ =>
      let (stem, value) := splitEquals argument
      (named.filter fun (_, name) => stem.isPrefixOf name.toList).map fun (option, name) =>
        (option, name, value)
  | _ =>
      named.filterMap fun (option, name) =>
        if name.toList = argument.take 2 then
          some (option, name, some (argument.drop 2))
        else if argument.isPrefixOf name.toList then some (option, name, none)
        else none

def classify (grammar : Grammar) (argument : String) : Except Refusal Reading :=
  let cs := argument.toList
  let (stem, value) := splitEquals cs
  if cs.head? ≠ some '-' then .ok .plain
  else
    match grammar.find? argument with
    | some option => .ok (.option option argument none)
    | none =>
        if cs.length = 1 then .ok .plain
        else
          match value, grammar.find? (String.ofList stem) with
          | some value, some option =>
              .ok (.option option (String.ofList stem) (some value))
          | _, _ =>
              match grammar.candidates cs with
              | [(option, name, attached)] => .ok (.option option name attached)
              | [] => .ok (if looksNegative cs || cs.contains ' ' then .plain else .unknown)
              | several =>
                  .error (.fault grammar.title
                    (.ambiguous argument (several.map fun (_, name, _) => name)))

def classifyAll (grammar : Grammar) : List String → Except Refusal (List Argument)
  | [] => .ok []
  | text :: rest =>
      if text = "--" then .ok (⟨text, .terminator⟩ :: rest.map fun text => ⟨text, .plain⟩)
      else do
        let reading ← grammar.classify text
        let more ← grammar.classifyAll rest
        return ⟨text, reading⟩ :: more

end Grammar

structure Arguments where
  options : List (OptionSpec × Int)
  positionals : List (String × List String)
  extras : List String
  deriving DecidableEq, Repr

namespace Arguments

def count (arguments : Arguments) (name : String) : Nat :=
  arguments.options.countP (·.1.names.contains name)

def isSet (arguments : Arguments) (name : String) : Bool := arguments.count name ≠ 0

def value? (arguments : Arguments) (name : String) : Option Int :=
  (arguments.options.reverse.find? (·.1.names.contains name)).map (·.2)

def positional? (arguments : Arguments) (name : String) : Option (List String) :=
  (arguments.positionals.find? (·.1 = name)).map (·.2)

end Arguments

namespace Grammar

abbrev Pending := OptionSpec × Option String

def unfoldShort (grammar : Grammar) (option : OptionSpec) :
    List Char → Except Refusal (List Pending)
  | [] => .ok [(option, none)]
  | letter :: rest =>
      if option.kind = .number then .ok [(option, some (String.ofList (letter :: rest)))]
      else
        match grammar.find? (String.ofList ['-', letter]) with
        | none =>
            .error (.fault grammar.title (.unusedValue option (String.ofList (letter :: rest))))
        | some next => do
            let pending ← unfoldShort grammar next rest
            return (option, none) :: pending

def unfold (grammar : Grammar) (option : OptionSpec) (name : String) :
    Option (List Char) → Except Refusal (List Pending)
  | none => .ok [(option, none)]
  | some attached =>
      if option.kind = .number then .ok [(option, some (String.ofList attached))]
      else if name.toList[1]? = some '-' || attached.isEmpty then
        .error (.fault grammar.title (.unusedValue option (String.ofList attached)))
      else unfoldShort grammar option attached

def awaiting? : List Pending → Option OptionSpec
  | [] => none
  | [(option, none)] => if option.kind = .number then some option else none
  | _ :: rest => awaiting? rest

def apply (grammar : Grammar) (arguments : Arguments) : List Pending → Except Refusal Arguments
  | [] => .ok arguments
  | (option, value) :: rest =>
      match option.kind, value with
      | .help, _ => .error .help
      | .number, some text =>
          match Text.readNumeral text with
          | .ok n => apply grammar { arguments with options := arguments.options ++ [(option, n)] } rest
          | .error _ => .error (.fault grammar.title (.notNumber option text))
      | _, _ => apply grammar { arguments with options := arguments.options ++ [(option, 1)] } rest

def takeOne (positional : Positional) (words : List Argument) :
    Option (List String × List Argument) :=
  let before := words.takeWhile (·.reading.isTerminator)
  let afterDashes := words.dropWhile (·.reading.isTerminator)
  let (word, rest) :=
    match afterDashes with
    | word :: rest => if word.reading.isPlain then ([word], rest) else ([], afterDashes)
    | [] => ([], [])
  let behind := rest.takeWhile (·.reading.isTerminator)
  let last := rest.dropWhile (·.reading.isTerminator)
  match positional with
  | .command .. => if word.isEmpty then none else some (words.map (·.text), [])
  | .required _ =>
      if word.isEmpty then none
      else some (((before ++ word ++ behind).map (·.text)).erase "--", last)
  | .optional _ => some (((before ++ word ++ behind).map (·.text)).erase "--", last)

def takePositionals (grammar : Grammar) (arguments : Arguments) (words : List Argument) :
    List Positional → Except Refusal (Arguments × List Positional × List Argument)
  | [] => .ok (arguments, [], words)
  | positional :: rest =>
      match takeOne positional words with
      | none => .ok (arguments, positional :: rest, words)
      | some (texts, after) =>
          let arguments :=
            { arguments with positionals := arguments.positionals ++ [(positional.name, texts)] }
          match positional, texts with
          | .command name choices, value :: _ =>
              if choices.contains value then takePositionals grammar arguments after rest
              else .error (.fault grammar.title (.unknownChoice name value choices))
          | _, _ => takePositionals grammar arguments after rest

def addExtra (arguments : Arguments) (text : String) : Arguments :=
  { arguments with extras := arguments.extras ++ [text] }

def consume (grammar : Grammar) (positionals : List Positional) (arguments : Arguments)
    (words : List Argument) : Except Refusal Arguments :=
  match words with
  | ⟨_, .option option name attached⟩ :: rest => do
      let pending ← grammar.unfold option name attached
      match awaiting? pending, rest with
      | none, rest =>
          let arguments ← grammar.apply arguments pending
          consume grammar positionals arguments rest
      | some last, ⟨value, .plain⟩ :: rest =>
          let arguments ← grammar.apply arguments (pending.dropLast ++ [(last, some value)])
          consume grammar positionals arguments rest
      | some last, _ => throw (.fault grammar.title (.missingValue last))
  | ⟨text, .unknown⟩ :: rest => consume grammar positionals (addExtra arguments text) rest
  | word :: rest => do
      let (taken, left, after) ← grammar.takePositionals arguments (word :: rest) positionals
      if after.length < (word :: rest).length then consume grammar left taken after
      else consume grammar left (addExtra taken word.text) rest
  | [] => do
      let (taken, left, _) ← grammar.takePositionals arguments [] positionals
      match left.filter (·.isRequired) with
      | [] => return taken
      | missing => throw (.fault grammar.title (.missing (missing.map (·.name))))
termination_by words.length
decreasing_by all_goals (simp only [List.length_cons] at *; omega)

def read (grammar : Grammar) (arguments : List String) : Except Refusal Arguments := do
  let words ← grammar.classifyAll arguments
  grammar.consume grammar.positionals ⟨[], [], []⟩ words

end Grammar

end TapeCompiler
