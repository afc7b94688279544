import TapeCompiler.Language.Parser
import TapeCompiler.Proofs.Spelling

namespace TapeCompiler

namespace Operator

def lexemes : Operator → List Lexeme
  | plus => [.symbol .plus]
  | minus => [.symbol .minus]
  | times => [.symbol .star]
  | divide => [.symbol .slash]
  | other _ => []

def rank : Operator → Nat
  | plus | minus => 1
  | _ => 2

def isWritten : Operator → Bool
  | other _ => false
  | _ => true

end Operator

/-- Names of ASCII letters, digits and underscores, but for the words that mean something else where
a value is expected. -/
def isName (text : String) : Bool :=
  (match text.toList with
  | [] => false
  | c :: rest => (c.isAlpha || c = '_') && rest.all fun c => c.isAlphanum || c = '_') &&
    !(["max", "true", "false", "math"].contains text)

def isShort (n : Int) : Bool := (Nat.toDigits 10 n.natAbs).length ≤ 4300

inductive Place where
  | value
  | statement
  | operation
  deriving DecidableEq, Repr

namespace Node

def rank : Node → Nat
  | math operator .. => operator.rank
  | _ => 3

def parenthesized (needed : Bool) (lexemes : List Lexeme) : List Lexeme :=
  if needed then .symbol .parenOpen :: lexemes ++ [.symbol .parenClose] else lexemes

def bracketed (lexemes : List Lexeme) : List Lexeme :=
  .symbol .bracketOpen :: lexemes ++ [.symbol .bracketClose]

def braced (lexemes : List Lexeme) : List Lexeme :=
  .symbol .braceOpen :: lexemes ++ [.symbol .braceClose]

mutual

def lexemes : Node → List Lexeme
  | literal value true => [.character (.ofNat value.toNat)]
  | literal value false => [.number (toString value)]
  | var name none => [.word name]
  | var name (some index) => .word name :: bracketed index.lexemes
  | math operator left right =>
      parenthesized (left.rank < operator.rank) left.lexemes ++ operator.lexemes ++
        parenthesized (right.rank ≤ operator.rank) right.lexemes
  | max => [.word "max"]
  | declare _ name type none => [.word "define", .word name, .word type.text]
  | declare _ name type (some length) =>
      [.word "define", .word name, .number (toString length), .word type.text]
  | assign _ name none value => .word "set" :: .word name :: value.lexemes
  | assign _ name (some index) value =>
      .word "set" :: .word name :: bracketed index.lexemes ++ value.lexemes
  | display _ value => .word "show" :: value.lexemes
  | input _ name => [.word "input", .word name]
  | remove _ name => [.word "remove", .word name]
  | conditional _ condition body => .word "if" :: condition.lexemes ++ braced (lexemesIn body)
  | loop _ condition body => .word "loop" :: condition.lexemes ++ braced (lexemesIn body)
  | unsafeBlock _ size body =>
      .word "unsafe" :: .number (toString size) :: braced (lexemesIn body)
  | function _ name body => .word "function" :: .word name :: braced (lexemesIn body)
  | call _ name => [.symbol .dollar, .word name]
  | unsafeGoto _ offset => [.word "goto", .number (toString offset)]
  | unsafeAdd _ amount => .word "add" :: amount.lexemes
  | unsafeReduce _ amount => .word "reduce" :: amount.lexemes
  | unsafeShow _ => [.word "show"]
  | unsafeLoop _ body => .word "loop" :: braced (lexemesIn body)
  | verbatim _ code =>
      .word "abstract" :: ((Text.ofString code).filterMap Symbol.ofCodePoint?).map .symbol ++
        [.word "end"]
  | _ => []

def lexemesIn : List Node → List Lexeme
  | [] => []
  | node :: rest => node.lexemes ++ lexemesIn rest

end

mutual

def fits : Place → Node → Bool
  | .value, literal value true => 0 ≤ value ∧ value ≤ 0x10ffff
  | .value, literal value false => isShort value
  | .value, var name none => isName name
  | .value, var name (some index) => isName name && index.fits .value
  | .value, math operator left right => operator.isWritten && left.fits .value && right.fits .value
  | .value, max => true
  | .statement, declare _ name _ length => isName name && length.all isShort
  | .statement, assign _ name none value => isName name && value.fits .value
  | .statement, assign _ name (some index) value =>
      isName name && index.fits .value && value.fits .value
  | .statement, display _ value => value.fits .value
  | .statement, input _ name | .statement, remove _ name | .statement, call _ name => isName name
  | .statement, conditional _ condition body | .statement, loop _ condition body =>
      condition.fits .value && fitIn .statement body
  | .statement, unsafeBlock _ size body => isShort size && fitIn .operation body
  | .statement, function _ name body => isName name && fitIn .statement body
  | .operation, unsafeGoto _ offset => isShort offset
  | .operation, unsafeAdd _ amount | .operation, unsafeReduce _ amount => amount.fits .value
  | .operation, unsafeShow _ => true
  | .operation, unsafeLoop _ body => fitIn .operation body
  | .operation, verbatim _ code => code.toList.all ("><+-.,[]".toList.contains ·)
  | _, _ => false

def fitIn (place : Place) : List Node → Bool
  | [] => true
  | node :: rest => node.fits place && fitIn place rest

end

mutual

def onLine (line : Int) : Node → Node
  | declare _ name type length => declare line name type length
  | assign _ name index value => assign line name index value
  | display _ value => display line value
  | input _ name => input line name
  | remove _ name => remove line name
  | conditional _ condition body => conditional line condition (onLineIn line body)
  | loop _ condition body => loop line condition (onLineIn line body)
  | unsafeBlock _ size body => unsafeBlock line size (onLineIn line body)
  | function _ name body => function line name (onLineIn line body)
  | call _ name => call line name
  | unsafeGoto _ offset => unsafeGoto line offset
  | unsafeAdd _ amount => unsafeAdd line amount
  | unsafeReduce _ amount => unsafeReduce line amount
  | unsafeShow _ => unsafeShow line
  | unsafeLoop _ body => unsafeLoop line (onLineIn line body)
  | verbatim _ code => verbatim line code
  | node => node

def onLineIn (line : Int) : List Node → List Node
  | [] => []
  | node :: rest => node.onLine line :: onLineIn line rest

end

end Node

def render (nodes : List Node) : List CodePoint := spaced (Node.lexemesIn nodes)

namespace Lexeme

theorem isSpelled_word {name : String} (h : isName name) : (word name).isSpelled = true := by
  simp only [isName, Bool.and_eq_true] at h
  obtain ⟨h, -⟩ := h
  split at h
  · cases h
  · rename_i c rest htext
    simp only [Bool.and_eq_true, Bool.or_eq_true, decide_eq_true_eq, List.all_eq_true] at h
    obtain ⟨hc, hrest⟩ := h
    have hstart : Text.isBlank c = false ∧ Scan.isWordStart c = true := by
      rcases hc with hc | rfl
      · have hrange := Text.toNat_of_isAlpha hc
        exact ⟨Text.isBlank_ascii (by omega) (by omega), by
          simp [Scan.isWordStart, Text.isLetter_of_isAlpha hc]⟩
      · exact ⟨rfl, rfl⟩
    have hparts (d : Char) (hd : d ∈ rest) : Scan.isWordPart d = true := by
      have hd := hrest d hd
      simp only [Char.isAlphanum, Bool.or_eq_true] at hd
      rcases hd with (hd | hd) | rfl
      · simp [Scan.isWordPart, Text.isAlphanumeric, Text.isLetter_of_isAlpha hd]
      · simp [Scan.isWordPart, Text.isAlphanumeric, Text.isNumeric_of_isDigit hd]
      · rfl
    simpa [isSpelled, Text.ofString, htext, hstart] using hparts

theorem isSpelled_number (n : Int) : (number (toString n)).isSpelled = true := by
  have hdigit (d : Char) (hd : d ∈ Nat.toDigits 10 n.natAbs) : d.isDigit :=
    Nat.isDigit_of_mem_toDigits (by decide) (by decide) hd
  obtain ⟨d, rest, hdigits⟩ :=
    List.exists_cons_of_ne_nil (Nat.toDigits_ne_nil (b := 10) (n := n.natAbs))
  rw [hdigits, List.forall_mem_cons] at hdigit
  obtain ⟨hd, hrest⟩ := hdigit
  have hall (c : Char) (hc : c ∈ rest) : Text.isDigit c = true :=
    Text.isDigit_of_isDigit (hrest c hc)
  have hrange := Text.toNat_of_isDigit hd
  simp only [isSpelled, Text.ofString, Text.toList_toString, hdigits]
  split
  · rename_i heq
    split at heq <;> cases heq
  · rename_i c cs heq
    split at heq
    · cases heq
      have hblank : Text.isBlank d = false := Text.isBlank_ascii (by omega) (by omega)
      have hline : d ≠ '_' := by
        rintro rfl
        cases hd
      simpa [hblank, Scan.isWordStart, Text.isLetter_of_isDigit hd, hline, Scan.startsNumber,
        Text.isDigit_of_isDigit hd] using hall
    · cases heq
      have hminus : Text.isBlank '-' = false ∧ Scan.isWordStart '-' = false := ⟨rfl, rfl⟩
      simpa [hminus, Scan.startsNumber, Text.isDigit_of_isDigit hd] using hall

end Lexeme

namespace Node

theorem isSpelled_parenthesized (needed : Bool) (lexemes : List Lexeme) :
    (parenthesized needed lexemes).all Lexeme.isSpelled = lexemes.all Lexeme.isSpelled := by
  cases needed
  · rfl
  · simp [parenthesized, Lexeme.isSpelled]

theorem isSpelled_bracketed (lexemes : List Lexeme) :
    (bracketed lexemes).all Lexeme.isSpelled = lexemes.all Lexeme.isSpelled := by
  simp [bracketed, Lexeme.isSpelled]

theorem isSpelled_braced (lexemes : List Lexeme) :
    (braced lexemes).all Lexeme.isSpelled = lexemes.all Lexeme.isSpelled := by
  simp [braced, Lexeme.isSpelled]

theorem isSpelled_value (node : Node) (h : node.fits .value = true) :
    node.lexemes.all Lexeme.isSpelled = true := by
  cases node
  case literal value isChar =>
    cases isChar
    · simp only [lexemes, List.all_cons, Lexeme.isSpelled_number]
      rfl
    · rfl
  case var name index =>
    cases index with
    | none =>
        simp only [lexemes, List.all_cons, Lexeme.isSpelled_word h]
        rfl
    | some index =>
        simp only [fits, Bool.and_eq_true] at h
        simp only [lexemes, List.all_cons, Lexeme.isSpelled_word h.1, isSpelled_bracketed,
          isSpelled_value index h.2]
        rfl
  case math operator left right =>
    simp only [fits, Bool.and_eq_true] at h
    obtain ⟨⟨hoperator, hleft⟩, hright⟩ := h
    have hsymbol : operator.lexemes.all Lexeme.isSpelled = true := by cases operator <;> rfl
    simp only [lexemes, List.all_append, isSpelled_parenthesized, hsymbol,
      isSpelled_value left hleft, isSpelled_value right hright]
    rfl
  case max => rfl
  all_goals cases h

theorem isSpelled_code (code : String) :
    (((Text.ofString code).filterMap Symbol.ofCodePoint?).map Lexeme.symbol).all
      Lexeme.isSpelled = true := by
  simp only [List.all_map, List.all_eq_true]
  intro s _
  rfl

mutual

theorem isSpelled_operation (node : Node) (h : node.fits .operation = true) :
    node.lexemes.all Lexeme.isSpelled = true := by
  cases node
  case unsafeGoto line offset =>
    simp only [lexemes, List.all_cons, Lexeme.isSpelled_number]
    rfl
  case unsafeAdd line amount =>
    simp only [lexemes, List.all_cons, isSpelled_value amount h]
    rfl
  case unsafeReduce line amount =>
    simp only [lexemes, List.all_cons, isSpelled_value amount h]
    rfl
  case unsafeShow line => rfl
  case unsafeLoop line body =>
    simp only [lexemes, List.all_cons, isSpelled_braced, isSpelled_operations body h]
    rfl
  case verbatim line code =>
    simp only [lexemes, List.all_cons, List.cons_append, List.all_append, isSpelled_code]
    rfl
  all_goals cases h

theorem isSpelled_operations (nodes : List Node) (h : fitIn .operation nodes = true) :
    (lexemesIn nodes).all Lexeme.isSpelled = true := by
  match nodes with
  | [] => rfl
  | node :: rest =>
      simp only [fitIn, Bool.and_eq_true] at h
      rw [lexemesIn, List.all_append, isSpelled_operation node h.1, isSpelled_operations rest h.2]
      rfl

end

mutual

theorem isSpelled_statement (node : Node) (h : node.fits .statement = true) :
    node.lexemes.all Lexeme.isSpelled = true := by
  have htype (type : CellType) : (Lexeme.word type.text).isSpelled = true := by cases type <;> rfl
  cases node
  case declare line name type length =>
    simp only [fits, Bool.and_eq_true] at h
    cases length with
    | none =>
        simp only [lexemes, List.all_cons, Lexeme.isSpelled_word h.1, htype]
        rfl
    | some length =>
        simp only [lexemes, List.all_cons, Lexeme.isSpelled_word h.1, Lexeme.isSpelled_number,
          htype]
        rfl
  case assign line name index value =>
    cases index with
    | none =>
        simp only [fits, Bool.and_eq_true] at h
        simp only [lexemes, List.all_cons, Lexeme.isSpelled_word h.1, isSpelled_value value h.2]
        rfl
    | some index =>
        simp only [fits, Bool.and_eq_true] at h
        simp only [lexemes, List.all_cons, List.cons_append, List.all_append, isSpelled_bracketed,
          Lexeme.isSpelled_word h.1.1, isSpelled_value index h.1.2, isSpelled_value value h.2]
        rfl
  case display line value =>
    simp only [lexemes, List.all_cons, isSpelled_value value h]
    rfl
  case input line name =>
    simp only [lexemes, List.all_cons, Lexeme.isSpelled_word h]
    rfl
  case remove line name =>
    simp only [lexemes, List.all_cons, Lexeme.isSpelled_word h]
    rfl
  case conditional line condition body =>
    simp only [fits, Bool.and_eq_true] at h
    simp only [lexemes, List.all_cons, List.cons_append, List.all_append, isSpelled_braced,
      isSpelled_value condition h.1, isSpelled_statements body h.2]
    rfl
  case loop line condition body =>
    simp only [fits, Bool.and_eq_true] at h
    simp only [lexemes, List.all_cons, List.cons_append, List.all_append, isSpelled_braced,
      isSpelled_value condition h.1, isSpelled_statements body h.2]
    rfl
  case unsafeBlock line size body =>
    simp only [fits, Bool.and_eq_true] at h
    simp only [lexemes, List.all_cons, Lexeme.isSpelled_number, isSpelled_braced,
      isSpelled_operations body h.2]
    rfl
  case function line name body =>
    simp only [fits, Bool.and_eq_true] at h
    simp only [lexemes, List.all_cons, Lexeme.isSpelled_word h.1, isSpelled_braced,
      isSpelled_statements body h.2]
    rfl
  case call line name =>
    simp only [lexemes, List.all_cons, Lexeme.isSpelled_word h]
    rfl
  all_goals cases h

theorem isSpelled_statements (nodes : List Node) (h : fitIn .statement nodes = true) :
    (lexemesIn nodes).all Lexeme.isSpelled = true := by
  match nodes with
  | [] => rfl
  | node :: rest =>
      simp only [fitIn, Bool.and_eq_true] at h
      rw [lexemesIn, List.all_append, isSpelled_statement node h.1, isSpelled_statements rest h.2]
      rfl

end

end Node

end TapeCompiler
