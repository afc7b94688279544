namespace TapeCompiler

structure Path where
  root : String
  parts : List String
  deriving DecidableEq, Repr

namespace Path

def splitSlashes : List Char → List (List Char)
  | [] => [[]]
  | c :: rest =>
      if c = '/' then [] :: splitSlashes rest
      else match splitSlashes rest with
        | [] => [[c]]
        | part :: parts => (c :: part) :: parts

def rootOf (cs : List Char) : String :=
  match (cs.takeWhile (· = '/')).length with
  | 0 => ""
  | 2 => "//"
  | _ => "/"

def ofText (text : String) : Path where
  root := rootOf text.toList
  parts := ((splitSlashes text.toList).map String.ofList).filter fun part => part ≠ "" && part ≠ "."

def text (path : Path) : String :=
  let shown := path.root ++ String.intercalate "/" path.parts
  if shown = "" then "." else shown

def stem (name : List Char) : List Char :=
  let ending := name.reverse.takeWhile (· ≠ '.')
  let before := (name.reverse.drop (ending.length + 1)).reverse
  if ending = [] ∨ before = [] then name else before

def withEnding (path : Path) (ending : String) : Path :=
  match path.parts.getLast? with
  | none => path
  | some name =>
      { path with parts := path.parts.dropLast ++ [String.ofList (stem name.toList) ++ ending] }

end Path

end TapeCompiler
