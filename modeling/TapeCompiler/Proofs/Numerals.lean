import TapeCompiler.Language.Parser
import Mathlib.Algebra.Ring.Nat

namespace TapeCompiler

namespace Text

def isPlain (text : String) : Bool :=
  let digits := (splitSign text.toList).2
  !digits.isEmpty && digits.all (fun c => (decimalValue? c).isSome) && digits.length ≤ maxDigits

variable {c : Char}

end Text

mutual

def Node.numbers : Node → List Int
  | .literal value _ => [value]
  | .var _ none => []
  | .var _ (some index) => index.numbers
  | .math _ left right => left.numbers ++ right.numbers
  | .declare _ _ _ length => length.toList
  | .assign _ _ none value => value.numbers
  | .assign _ _ (some index) value => index.numbers ++ value.numbers
  | .display _ value => value.numbers
  | .conditional _ condition body => condition.numbers ++ numbersIn body
  | .loop _ condition body => condition.numbers ++ numbersIn body
  | .function _ _ body => numbersIn body
  | .unsafeBlock _ size body => size :: numbersIn body
  | .unsafeLoop _ body => numbersIn body
  | .unsafeGoto _ offset => [offset]
  | .unsafeAdd _ amount => amount.numbers
  | .unsafeReduce _ amount => amount.numbers
  | _ => []

def Node.numbersIn : List Node → List Int
  | [] => []
  | node :: rest => node.numbers ++ numbersIn rest

end

namespace Node

variable {N : Int → Prop}

def Holds (N : Int → Prop) (node : Node) : Prop := ∀ n ∈ node.numbers, N n

def HoldIn (N : Int → Prop) (nodes : List Node) : Prop := ∀ n ∈ numbersIn nodes, N n

theorem holdIn_cons {node : Node} {rest : List Node} :
    HoldIn N (node :: rest) ↔ node.Holds N ∧ HoldIn N rest := by
  simp only [HoldIn, Holds, numbersIn, List.forall_mem_append]

theorem holds_math {operator : Operator} {left right : Node} :
    (math operator left right).Holds N ↔ left.Holds N ∧ right.Holds N := by
  simp only [Holds, numbers, List.forall_mem_append]

theorem holds_var {name : String} {index : Option Node} :
    (var name index).Holds N ↔ ∀ i ∈ index, i.Holds N := by
  cases index <;> simp [Holds, numbers]

theorem holds_assign {line : Int} {name : String} {index : Option Node} {value : Node} :
    (assign line name index value).Holds N ↔ (∀ i ∈ index, i.Holds N) ∧ value.Holds N := by
  cases index <;> simp [Holds, numbers, or_imp, forall_and]

theorem holds_conditional {line : Int} {condition : Node} {body : List Node} :
    (conditional line condition body).Holds N ↔ condition.Holds N ∧ HoldIn N body := by
  simp only [Holds, HoldIn, numbers, List.forall_mem_append]

theorem holds_loop {line : Int} {condition : Node} {body : List Node} :
    (loop line condition body).Holds N ↔ condition.Holds N ∧ HoldIn N body := by
  simp only [Holds, HoldIn, numbers, List.forall_mem_append]

theorem holds_unsafeBlock {line size : Int} {body : List Node} :
    (unsafeBlock line size body).Holds N ↔ N size ∧ HoldIn N body := by
  simp only [Holds, HoldIn, numbers, List.forall_mem_cons]

end Node

namespace Parser

variable {α β : Type} {lastLine : Nat} {tokens rest : List Token} {token : Token}
  {N : Int → Prop} {E : Text.NumeralFault → Prop}

structure Orderly (E : Text.NumeralFault → Prop) (x : Except SourceError α) (P : α → Prop) :
    Prop where
  ok : ∀ {a}, x = .ok a → P a
  error : ∀ {cause}, x = .error (.numeral cause) → E cause

namespace Orderly

variable {x : Except SourceError α} {f : α → Except SourceError β} {P : α → Prop} {Q : β → Prop}

theorem pure {a : α} (h : P a) : Orderly E (.ok a) P := by
  refine ⟨fun heq => ?_, nofun⟩
  cases heq
  exact h

theorem fault (fault : SourceFault) (line : Nat) : Orderly E (.error (.fault fault line)) P :=
  ⟨nofun, nofun⟩

theorem bind (hx : Orderly E x P) (hf : ∀ a, P a → Orderly E (f a) Q) : Orderly E (x >>= f) Q := by
  cases x with
  | ok a => exact hf a (hx.ok rfl)
  | error error =>
      refine ⟨nofun, fun {cause} heq => ?_⟩
      cases heq
      exact hx.error rfl

end Orderly

def Numbered (N : Int → Prop) (E : Text.NumeralFault → Prop) (tokens : List Token) : Prop :=
  ∀ text line, ⟨.number text, line⟩ ∈ tokens →
    (∀ n, Text.readNumeral text = .ok n → N n) ∧
      ∀ cause, Text.readNumeral text = .error cause → E cause

theorem Numbered.tail (h : Numbered N E (token :: rest)) : Numbered N E rest :=
  fun text line hmem => h text line (List.mem_cons_of_mem _ hmem)

theorem Numbered.skipMath (h : Numbered N E tokens) : Numbered N E (skipMath tokens) := by
  unfold Parser.skipMath
  split
  · exact h.tail
  · exact h

section

variable (hsmall : ∀ n : Int, 0 ≤ n → n ≤ 0x10ffff → N n)

include hsmall

omit hsmall

theorem Numbered.cellType (h : Numbered N E tokens) : Numbered N E (cellType tokens).rest := by
  unfold Parser.cellType
  split
  · split
    · exact h.tail
    · exact h
  · exact h

include hsmall

end

end Parser

end TapeCompiler
