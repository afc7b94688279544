import TapeCompiler.Text.CodePoint

namespace TapeCompiler.Text

def splitLines : List CodePoint → List (List CodePoint)
  | [] => [[]]
  | c :: rest =>
      if c = '\n' then [] :: splitLines rest
      else match splitLines rest with
        | [] => [[c]]
        | line :: lines => (c :: line) :: lines

theorem splitLines_ne_nil (cs : List CodePoint) : splitLines cs ≠ [] := by
  cases cs with
  | nil => simp [splitLines]
  | cons c rest =>
      unfold splitLines
      split
      · simp
      · split <;> simp

theorem intercalate_splitLines (cs : List CodePoint) :
    [CodePoint.char '\n'].intercalate (splitLines cs) = cs := by
  induction cs with
  | nil => rfl
  | cons c rest ih =>
      obtain ⟨line, lines, h⟩ := List.exists_cons_of_ne_nil (splitLines_ne_nil rest)
      rw [h] at ih
      by_cases hc : c = '\n'
      · simpa [splitLines, hc, h] using ih
      · cases lines <;> simpa [splitLines, hc, h] using ih

def unifyLineEnds : List Char → List Char
  | [] => []
  | '\r' :: '\n' :: rest => '\n' :: unifyLineEnds rest
  | c :: rest => (if c = '\r' then '\n' else c) :: unifyLineEnds rest

def column (width : Nat) (n : Int) : String :=
  let digits := toString n
  String.ofList (List.replicate (width - digits.length) ' ') ++ digits

def occursIn (phrase : List CodePoint) : List CodePoint → Bool
  | [] => phrase.isEmpty
  | c :: rest => phrase.isPrefixOf (c :: rest) || occursIn phrase rest

end TapeCompiler.Text
