import TapeCompiler.Language.Node
import TapeCompiler.Text.Quoted

namespace TapeCompiler

def CellType.shown : CellType → String
  | .number => "<PrimitiveType.NUMBER: 'number'>"
  | .char => "<PrimitiveType.CHAR: 'char'>"

namespace Node

def shownFlag (b : Bool) : String := if b then "True" else "False"

def shownLength : Option Int → String
  | none => "None"
  | some n => toString n

def shownRecord (kind : String) (fields : List (String × String)) : String :=
  kind ++ "(" ++ String.intercalate ", " (fields.map fun (name, shown) => name ++ "=" ++ shown) ++ ")"

def shownStatement (kind : String) (line : Int) (fields : List (String × String)) : String :=
  shownRecord kind (("line", toString line) :: fields)

def shownBody : List String → String
  | [] => "()"
  | [entry] => "(" ++ entry ++ ",)"
  | entries => "(" ++ String.intercalate ", " entries ++ ")"

mutual

def shown : Node → String
  | literal value isChar =>
      shownRecord "Literal" [("value", toString value), ("is_char", shownFlag isChar)]
  | var name index =>
      shownRecord "Variable" [("name", Text.quoted name), ("index", shownIndex index)]
  | math operator left right =>
      shownRecord "Math"
        [("operator", Text.quoted operator.text), ("left", left.shown), ("right", right.shown)]
  | max => shownRecord "Max" []
  | declare line name type length =>
      shownStatement "Declaration" line
        [("name", Text.quoted name), ("type", type.shown), ("length", shownLength length)]
  | assign line name index value =>
      shownStatement "Assign" line
        [("target",
            shownRecord "Variable" [("name", Text.quoted name), ("index", shownIndex index)]),
          ("value", value.shown)]
  | display line value => shownStatement "Show" line [("value", value.shown)]
  | input line name => shownStatement "Input" line [("name", Text.quoted name)]
  | remove line name => shownStatement "Remove" line [("name", Text.quoted name)]
  | conditional line condition body =>
      shownStatement "If" line
        [("condition", condition.shown), ("body", shownBody (shownEach body))]
  | loop line condition body =>
      shownStatement "Loop" line
        [("condition", condition.shown), ("body", shownBody (shownEach body))]
  | unsafeBlock line size body =>
      shownStatement "Unsafe" line [("size", toString size), ("body", shownBody (shownEach body))]
  | function line name body =>
      shownStatement "FunctionDef" line
        [("name", Text.quoted name), ("body", shownBody (shownEach body))]
  | call line name => shownStatement "Call" line [("name", Text.quoted name)]
  | unsafeGoto line offset => shownStatement "UnsafeGoto" line [("offset", toString offset)]
  | unsafeAdd line amount => shownStatement "UnsafeAdd" line [("amount", amount.shown)]
  | unsafeReduce line amount => shownStatement "UnsafeReduce" line [("amount", amount.shown)]
  | unsafeShow line => shownStatement "UnsafeShow" line []
  | unsafeLoop line body => shownStatement "UnsafeLoop" line [("body", shownBody (shownEach body))]
  | verbatim line code => shownStatement "Abstract" line [("bf", Text.quoted code)]
  | nothing => "None"
  | flag value => shownFlag value
  | number value => toString value
  | text value => Text.quoted value

def shownIndex : Option Node → String
  | none => "None"
  | some node => node.shown

def shownEach : List Node → List String
  | [] => []
  | node :: rest => node.shown :: shownEach rest

end

end Node

end TapeCompiler
