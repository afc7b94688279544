import TapeCompiler.Proofs.Printing

namespace TapeCompiler

def Symbol.grip : Symbol → Nat
  | bracketOpen => 3
  | star | slash => 2
  | plus | minus => 1
  | _ => 0

namespace Parser

def grip : List Token → Nat
  | ⟨.symbol s, _⟩ :: _ => s.grip
  | _ => 0

def tokensOn (line : Nat) (lexemes : List Lexeme) : List Token := lexemes.map (Token.mk · line)

variable {α : Type} {lastLine line : Nat} {tokens rest more : List Token} {v w left right : Node}
  {s : Symbol} {operator : Operator}

def Reads (parsed : Except SourceError (Parsed α tokens)) (value : α) (rest : List Token) : Prop :=
  ∃ h, parsed = .ok ⟨value, rest, h⟩

def ReadsTail (parsed : Except SourceError (ParsedTail α tokens)) (value : α) (rest : List Token) :
    Prop :=
  ∃ h, parsed = .ok ⟨value, rest, h⟩

theorem ok_bind {β ε : Type} (a : α) (f : α → Except ε β) : (Except.ok a >>= f) = f a := rfl

theorem sumOperator?_of_grip (h : s.grip ≠ 1) : s.sumOperator? = none := by
  cases s <;> first | rfl | exact absurd rfl h

theorem productOperator?_of_grip (h : s.grip ≠ 2) : s.productOperator? = none := by
  cases s <;> first | rfl | exact absurd rfl h

theorem expression_reads (hfirst : Reads (term lastLine tokens) v rest)
    (hsum : ReadsTail (sumTail lastLine v rest) w more) :
    Reads (expression lastLine tokens) w more := by
  obtain ⟨_, hfirst⟩ := hfirst
  obtain ⟨_, hsum⟩ := hsum
  rw [expression, hfirst, ok_bind]
  dsimp only
  rw [hsum, ok_bind]
  exact ⟨_, rfl⟩

theorem sumTail_stops (h : grip tokens ≠ 1) : ReadsTail (sumTail lastLine v tokens) v tokens := by
  unfold sumTail
  split
  · rw [sumOperator?_of_grip h]
    exact ⟨_, rfl⟩
  · exact ⟨_, rfl⟩

theorem sumTail_reads (hs : s.sumOperator? = some operator)
    (hright : Reads (term lastLine tokens) right rest)
    (hsum : ReadsTail (sumTail lastLine (.math operator left right) rest) w more) :
    ReadsTail (sumTail lastLine left (⟨.symbol s, line⟩ :: tokens)) w more := by
  obtain ⟨_, hright⟩ := hright
  obtain ⟨_, hsum⟩ := hsum
  rw [sumTail, hs]
  dsimp only
  rw [hright, ok_bind]
  dsimp only
  rw [hsum, ok_bind]
  exact ⟨_, rfl⟩

theorem term_reads (hfirst : Reads (factor lastLine tokens) v rest)
    (hproduct : ReadsTail (productTail lastLine v rest) w more) :
    Reads (term lastLine tokens) w more := by
  obtain ⟨_, hfirst⟩ := hfirst
  obtain ⟨_, hproduct⟩ := hproduct
  rw [term, hfirst, ok_bind]
  dsimp only
  rw [hproduct, ok_bind]
  exact ⟨_, rfl⟩

theorem productTail_stops (h : grip tokens ≠ 2) :
    ReadsTail (productTail lastLine v tokens) v tokens := by
  unfold productTail
  split
  · rw [productOperator?_of_grip h]
    exact ⟨_, rfl⟩
  · exact ⟨_, rfl⟩

theorem productTail_reads (hs : s.productOperator? = some operator)
    (hright : Reads (factor lastLine tokens) right rest)
    (hproduct : ReadsTail (productTail lastLine (.math operator left right) rest) w more) :
    ReadsTail (productTail lastLine left (⟨.symbol s, line⟩ :: tokens)) w more := by
  obtain ⟨_, hright⟩ := hright
  obtain ⟨_, hproduct⟩ := hproduct
  rw [productTail, hs]
  dsimp only
  rw [hright, ok_bind]
  dsimp only
  rw [hproduct, ok_bind]
  exact ⟨_, rfl⟩

theorem symbol_reads (lastLine line : Nat) (s : Symbol) (rest : List Token) :
    Reads (symbol lastLine s (⟨.symbol s, line⟩ :: rest)) () rest := by
  rw [symbol, if_pos rfl]
  exact ⟨_, rfl⟩

theorem index_reads
    (h : Reads (expression lastLine tokens) v (⟨.symbol .bracketClose, line⟩ :: rest)) :
    ReadsTail (index lastLine (⟨.symbol .bracketOpen, line⟩ :: tokens)) (some v) rest := by
  obtain ⟨_, h⟩ := h
  obtain ⟨_, hclose⟩ := symbol_reads lastLine line .bracketClose rest
  rw [index, h, ok_bind]
  dsimp only
  rw [hclose, ok_bind]
  exact ⟨_, rfl⟩

theorem index_stops (h : grip tokens ≠ 3) : ReadsTail (index lastLine tokens) none tokens := by
  unfold index
  split
  · exact absurd rfl h
  · exact ⟨_, rfl⟩

theorem numeral_toString {n : Int} (h : isShort n) : numeral (toString n) = .ok n := by
  rw [numeral, Text.readNumeral_toString (of_decide_eq_true h)]

theorem ofWord?_of_isName {name : String} (h : isName name) : Node.ofWord? name = none := by
  simp only [isName, Bool.and_eq_true, Bool.not_eq_true', List.contains_eq_mem,
    decide_eq_false_iff_not, List.mem_cons, not_or] at h
  obtain ⟨-, hmax, htrue, hfalse, -⟩ := h
  rw [Node.ofWord?, if_neg hmax, if_neg htrue, if_neg hfalse]

theorem ne_math_of_isName {name : String} (h : isName name) : name ≠ "math" := by
  rintro rfl
  revert h
  decide

theorem factor_number {n : Int} (h : isShort n) :
    Reads (factor lastLine (⟨.number (toString n), line⟩ :: rest)) (.literal n false) rest := by
  rw [factor, numeral_toString h, ok_bind]
  exact ⟨_, rfl⟩

theorem factor_character {n : Int} (h : 0 ≤ n ∧ n ≤ 0x10ffff) :
    Reads (factor lastLine (⟨.character (.ofNat n.toNat), line⟩ :: rest)) (.literal n true)
      rest := by
  have hvalue : ((CodePoint.ofNat n.toNat).toNat : Int) = n := by
    rw [CodePoint.toNat_ofNat (by omega)]
    omega
  rw [factor]
  exact ⟨by simp, by simp only [hvalue]⟩

theorem factor_word {name : String} {element : Option Node} (h : isName name)
    (hindex : ReadsTail (index lastLine tokens) element rest) :
    Reads (factor lastLine (⟨.word name, line⟩ :: tokens)) (.var name element) rest := by
  obtain ⟨_, hindex⟩ := hindex
  rw [factor, ofWord?_of_isName h]
  dsimp only
  rw [hindex, ok_bind]
  exact ⟨_, rfl⟩

theorem factor_parenthesized
    (h : Reads (expression lastLine (skipMath tokens)) v (⟨.symbol .parenClose, line⟩ :: rest)) :
    Reads (factor lastLine (⟨.symbol .parenOpen, line⟩ :: tokens)) v rest := by
  obtain ⟨_, h⟩ := h
  rw [factor, h, ok_bind]
  exact ⟨_, rfl⟩

theorem tokensOn_append (line : Nat) (lexemes lexemes' : List Lexeme) :
    tokensOn line (lexemes ++ lexemes') = tokensOn line lexemes ++ tokensOn line lexemes' :=
  List.map_append

theorem tokensOn_cons (line : Nat) (l : Lexeme) (lexemes : List Lexeme) :
    tokensOn line (l :: lexemes) = ⟨l, line⟩ :: tokensOn line lexemes := rfl

theorem tokensOn_bracketed (line : Nat) (lexemes : List Lexeme) (rest : List Token) :
    tokensOn line (Node.bracketed lexemes) ++ rest = ⟨.symbol .bracketOpen, line⟩ ::
      (tokensOn line lexemes ++ ⟨.symbol .bracketClose, line⟩ :: rest) := by
  simp [tokensOn, Node.bracketed]

theorem tokensOn_parenthesized (line : Nat) (lexemes : List Lexeme) (rest : List Token) :
    tokensOn line (Node.parenthesized true lexemes) ++ rest = ⟨.symbol .parenOpen, line⟩ ::
      (tokensOn line lexemes ++ ⟨.symbol .parenClose, line⟩ :: rest) := by
  simp [tokensOn, Node.parenthesized]

theorem tokensOn_braced (line : Nat) (lexemes : List Lexeme) (rest : List Token) :
    tokensOn line (Node.braced lexemes) ++ rest = ⟨.symbol .braceOpen, line⟩ ::
      (tokensOn line lexemes ++ ⟨.symbol .braceClose, line⟩ :: rest) := by
  simp [tokensOn, Node.braced]

theorem head_lexemes (node : Node) (h : node.fits .value = true) :
    ∃ l lexemes, node.lexemes = l :: lexemes ∧ l ≠ .word "math" ∧ l ≠ .symbol .bracketOpen := by
  cases node
  case literal value isChar =>
    cases isChar
    · exact ⟨_, _, rfl, by simp, by simp⟩
    · exact ⟨_, _, rfl, by simp, by simp⟩
  case var name index =>
    have hne : Lexeme.word name ≠ .word "math" := by
      cases index
      · simpa using ne_math_of_isName h
      · simp only [Node.fits, Bool.and_eq_true] at h
        simpa using ne_math_of_isName h.1
    cases index
    · exact ⟨_, _, rfl, hne, by simp⟩
    · exact ⟨_, _, rfl, hne, by simp⟩
  case math operator left right =>
    simp only [Node.fits, Bool.and_eq_true] at h
    obtain ⟨l, lexemes, hleft, hl⟩ := head_lexemes left h.1.2
    simp only [Node.lexemes, Node.parenthesized, hleft]
    split
    · exact ⟨_, _, rfl, by simp, by simp⟩
    · exact ⟨_, _, rfl, hl⟩
  case max => exact ⟨_, _, rfl, by decide, by simp⟩
  all_goals cases h

theorem skipMath_lexemes (h : v.fits .value = true) :
    skipMath (tokensOn line v.lexemes ++ rest) = tokensOn line v.lexemes ++ rest := by
  obtain ⟨l, lexemes, hv, hl, -⟩ := head_lexemes v h
  rw [hv, tokensOn_cons, List.cons_append]
  unfold skipMath
  split
  · rename_i heq
    cases heq
    exact absurd rfl hl
  · rfl

/-- A value is read in the three ways that the grammar has for it. What follows it must not be taken
for a part of it, and is left to the tail that the value is the start of. -/
structure Readable (lastLine line : Nat) (v : Node) : Prop where
  factor : v.rank = 3 → ∀ {rest}, grip rest < 3 →
    Reads (factor lastLine (tokensOn line v.lexemes ++ rest)) v rest
  term : 2 ≤ v.rank → ∀ {rest w more}, grip rest < 3 →
    ReadsTail (productTail lastLine v rest) w more →
    Reads (term lastLine (tokensOn line v.lexemes ++ rest)) w more
  expression : ∀ {rest w more}, grip rest < 2 → ReadsTail (sumTail lastLine v rest) w more →
    Reads (expression lastLine (tokensOn line v.lexemes ++ rest)) w more

namespace Readable

theorem of_term (hterm : 2 ≤ v.rank → ∀ {rest w more}, grip rest < 3 →
      ReadsTail (productTail lastLine v rest) w more →
      Reads (Parser.term lastLine (tokensOn line v.lexemes ++ rest)) w more)
    (hfactor : v.rank = 3 → ∀ {rest}, grip rest < 3 →
      Reads (Parser.factor lastLine (tokensOn line v.lexemes ++ rest)) v rest)
    (hrank : 2 ≤ v.rank) : Readable lastLine line v :=
  ⟨hfactor, hterm, fun hgrip hsum => expression_reads
    (hterm hrank (by omega) (productTail_stops (by omega))) hsum⟩

theorem of_factor (hrank : v.rank = 3) (hfactor : ∀ {rest}, grip rest < 3 →
      Reads (Parser.factor lastLine (tokensOn line v.lexemes ++ rest)) v rest) :
    Readable lastLine line v :=
  .of_term (fun _ _ _ _ hgrip hproduct => term_reads (hfactor hgrip) hproduct) (fun _ => hfactor)
    (by omega)

theorem whole (h : Readable lastLine line v) (hgrip : grip rest = 0) :
    Reads (Parser.expression lastLine (tokensOn line v.lexemes ++ rest)) v rest :=
  h.expression (by omega) (sumTail_stops (by omega))

theorem parenthesized (h : Readable lastLine line v) (hv : v.fits .value = true) :
    Reads (Parser.factor lastLine (tokensOn line (Node.parenthesized true v.lexemes) ++ rest)) v
      rest := by
  rw [tokensOn_parenthesized]
  refine factor_parenthesized ?_
  rw [skipMath_lexemes hv]
  exact h.whole rfl

theorem rank_bounds (v : Node) : 1 ≤ v.rank ∧ v.rank ≤ 3 := by
  cases v
  case math operator left right => cases operator <;> simp [Node.rank, Operator.rank]
  all_goals simp [Node.rank]

theorem lastFactor (h : Readable lastLine line v) (hv : v.fits .value = true)
    (hgrip : grip rest < 3) :
    Reads (Parser.factor lastLine
      (tokensOn line (Node.parenthesized (v.rank ≤ 2) v.lexemes) ++ rest)) v rest := by
  by_cases hrank : v.rank ≤ 2
  · rw [decide_eq_true hrank]
    exact h.parenthesized hv
  · rw [decide_eq_false hrank]
    exact h.factor (by have := rank_bounds v; omega) hgrip

theorem lastTerm (h : Readable lastLine line v) (hv : v.fits .value = true)
    (hgrip : grip rest < 2) :
    Reads (Parser.term lastLine (tokensOn line (Node.parenthesized (v.rank ≤ 1) v.lexemes) ++ rest))
      v rest := by
  have hstops : ReadsTail (productTail lastLine v rest) v rest := productTail_stops (by omega)
  by_cases hrank : v.rank ≤ 1
  · rw [decide_eq_true hrank]
    exact term_reads (h.parenthesized hv) hstops
  · rw [decide_eq_false hrank]
    exact h.term (by omega) (by omega) hstops

theorem firstTerm (h : Readable lastLine line v) (hv : v.fits .value = true) (hgrip : grip rest < 3)
    (hproduct : ReadsTail (productTail lastLine v rest) w more) :
    Reads (Parser.term lastLine (tokensOn line (Node.parenthesized (v.rank < 2) v.lexemes) ++ rest))
      w more := by
  by_cases hrank : v.rank < 2
  · rw [decide_eq_true hrank]
    exact term_reads (h.parenthesized hv) hproduct
  · rw [decide_eq_false hrank]
    exact h.term (by omega) hgrip hproduct

theorem sum (hs : s.sumOperator? = some operator) (hrank : operator.rank = 1)
    (hwritten : operator.lexemes = [.symbol s]) (hleft : Readable lastLine line left)
    (hright : Readable lastLine line right) (hfits : right.fits .value = true) :
    Readable lastLine line (.math operator left right) := by
  refine ⟨fun h => ?_, fun h => ?_, fun {rest w more} hrest htail => ?_⟩
  · simp [Node.rank, hrank] at h
  · simp [Node.rank, hrank] at h
  · have htokens : tokensOn line (Node.math operator left right).lexemes ++ rest =
        tokensOn line left.lexemes ++ ⟨.symbol s, line⟩ ::
          (tokensOn line (Node.parenthesized (right.rank ≤ 1) right.lexemes) ++ rest) := by
      -- Nothing binds less than a sum, so the left operand is written as it is and read with it.
      have hnone : ¬left.rank < 1 := Nat.not_lt.2 (rank_bounds left).1
      rw [Node.lexemes, hrank, hwritten, decide_eq_false hnone, tokensOn_append, tokensOn_append,
        List.append_assoc, List.append_assoc]
      rfl
    have hgrip : s.grip < 2 := by
      cases s <;> first | decide | cases hs
    rw [htokens]
    exact hleft.expression hgrip (sumTail_reads hs (hright.lastTerm hfits hrest) htail)

theorem product (hs : s.productOperator? = some operator) (hrank : operator.rank = 2)
    (hwritten : operator.lexemes = [.symbol s]) (hleft : Readable lastLine line left)
    (hfits : left.fits .value = true) (hright : Readable lastLine line right)
    (hfits' : right.fits .value = true) : Readable lastLine line (.math operator left right) := by
  refine .of_term (fun _ rest w more hrest htail => ?_) (fun h => ?_) (Nat.le_of_eq hrank.symm)
  · have htokens : tokensOn line (Node.math operator left right).lexemes ++ rest =
        tokensOn line (Node.parenthesized (left.rank < 2) left.lexemes) ++ ⟨.symbol s, line⟩ ::
          (tokensOn line (Node.parenthesized (right.rank ≤ 2) right.lexemes) ++ rest) := by
      rw [Node.lexemes, hrank, hwritten, tokensOn_append, tokensOn_append, List.append_assoc,
        List.append_assoc]
      rfl
    have hgrip : s.grip < 3 := by
      cases s <;> first | decide | cases hs
    rw [htokens]
    exact hleft.firstTerm hfits hgrip (productTail_reads hs (hright.lastFactor hfits' hrest) htail)
  · simp [Node.rank, hrank] at h

end Readable

theorem readable (lastLine line : Nat) (v : Node) (h : v.fits .value = true) :
    Readable lastLine line v := by
  cases v
  case literal value isChar =>
    cases isChar with
    | false => exact .of_factor rfl fun _ => factor_number h
    | true => exact .of_factor rfl fun _ => factor_character (of_decide_eq_true h)
  case var name element =>
    cases element with
    | none =>
        exact .of_factor rfl fun hgrip => factor_word h (index_stops (Nat.ne_of_lt hgrip))
    | some element =>
        simp only [Node.fits, Bool.and_eq_true] at h
        refine .of_factor rfl fun {rest} _ => ?_
        rw [Node.lexemes, tokensOn_cons, List.cons_append, tokensOn_bracketed]
        exact factor_word h.1 (index_reads ((readable lastLine line element h.2).whole rfl))
  case math operator left right =>
    simp only [Node.fits, Bool.and_eq_true] at h
    obtain ⟨⟨hwritten, hleft⟩, hright⟩ := h
    have hl := readable lastLine line left hleft
    have hr := readable lastLine line right hright
    cases operator with
    | plus => exact .sum (s := .plus) rfl rfl rfl hl hr hright
    | minus => exact .sum (s := .minus) rfl rfl rfl hl hr hright
    | times => exact .product (s := .star) rfl rfl rfl hl hleft hr hright
    | divide => exact .product (s := .slash) rfl rfl rfl hl hleft hr hright
    | other text => cases hwritten
  case max =>
    refine .of_factor rfl fun _ => ?_
    rw [Node.lexemes, tokensOn_cons, List.cons_append, factor]
    exact ⟨_, rfl⟩
  all_goals cases h

theorem expression_of_fits {v : Node} (h : v.fits .value = true) (hgrip : grip rest = 0) :
    Reads (expression lastLine (tokensOn line v.lexemes ++ rest)) v rest :=
  (readable lastLine line v h).whole hgrip

theorem instructions_reads {code : List Char} (h : code.all ("><+-.,[]".toList.contains ·)) :
    Reads (instructions lastLine
      (tokensOn line (((code.map CodePoint.char).filterMap Symbol.ofCodePoint?).map .symbol) ++
        ⟨.word "end", line⟩ :: rest)) code rest := by
  induction code with
  | nil =>
      change Reads (instructions lastLine (⟨.word "end", line⟩ :: rest)) [] rest
      rw [instructions, if_pos rfl]
      exact ⟨_, rfl⟩
  | cons c code ih =>
      simp only [List.all_cons, Bool.and_eq_true] at h
      obtain ⟨_, hmore⟩ := ih h.2
      have hsymbol : ∀ c ∈ "><+-.,[]".toList,
          ∃ s, Symbol.ofCodePoint? c = some s ∧ s.instruction? = some c := by
        simp only [String.reduceToList, List.forall_mem_cons]
        exact ⟨⟨_, rfl, rfl⟩, ⟨_, rfl, rfl⟩, ⟨_, rfl, rfl⟩, ⟨_, rfl, rfl⟩, ⟨_, rfl, rfl⟩,
          ⟨_, rfl, rfl⟩, ⟨_, rfl, rfl⟩, ⟨_, rfl, rfl⟩, by simp⟩
      obtain ⟨s, hs, hc⟩ := hsymbol c (by simpa using h.1)
      rw [List.map_cons, List.filterMap_cons_some hs, List.map_cons, tokensOn_cons,
        List.cons_append, instructions, hc]
      dsimp only
      rw [hmore, ok_bind]
      exact ⟨_, rfl⟩

section Operations

theorem operation_goto {n : Int} (h : isShort n) :
    Reads (operation lastLine (⟨.word "goto", line⟩ :: ⟨.number (toString n), line⟩ :: rest))
      (.unsafeGoto line n) rest := by
  unfold operation
  dsimp only
  rw [show OperationWord.ofText? "goto" = some .goto from rfl]
  dsimp only
  rw [numeral_toString h, ok_bind]
  exact ⟨_, rfl⟩

theorem operation_add (h : Reads (expression lastLine tokens) v rest) :
    Reads (operation lastLine (⟨.word "add", line⟩ :: tokens)) (.unsafeAdd line v) rest := by
  obtain ⟨_, h⟩ := h
  unfold operation
  dsimp only
  rw [show OperationWord.ofText? "add" = some .add from rfl]
  dsimp only
  rw [h, ok_bind]
  exact ⟨_, rfl⟩

theorem operation_reduce (h : Reads (expression lastLine tokens) v rest) :
    Reads (operation lastLine (⟨.word "reduce", line⟩ :: tokens)) (.unsafeReduce line v) rest := by
  obtain ⟨_, h⟩ := h
  unfold operation
  dsimp only
  rw [show OperationWord.ofText? "reduce" = some .reduce from rfl]
  dsimp only
  rw [h, ok_bind]
  exact ⟨_, rfl⟩

theorem operation_show :
    Reads (operation lastLine (⟨.word "show", line⟩ :: rest)) (.unsafeShow line) rest := by
  unfold operation
  dsimp only
  rw [show OperationWord.ofText? "show" = some .display from rfl]
  exact ⟨_, rfl⟩

theorem operation_loop {body : List Node} (h : Reads (operations lastLine tokens) body rest) :
    Reads (operation lastLine (⟨.word "loop", line⟩ :: ⟨.symbol .braceOpen, line⟩ :: tokens))
      (.unsafeLoop line body) rest := by
  obtain ⟨_, h⟩ := h
  obtain ⟨_, hopen⟩ := symbol_reads lastLine line .braceOpen tokens
  unfold operation
  dsimp only
  rw [show OperationWord.ofText? "loop" = some .loop from rfl]
  dsimp only
  rw [hopen, ok_bind]
  dsimp only
  rw [h, ok_bind]
  exact ⟨_, rfl⟩

theorem operation_verbatim {code : String}
    (h : Reads (instructions lastLine tokens) code.toList rest) :
    Reads (operation lastLine (⟨.word "abstract", line⟩ :: tokens)) (.verbatim line code) rest := by
  obtain ⟨_, h⟩ := h
  unfold operation
  dsimp only
  rw [show OperationWord.ofText? "abstract" = some .verbatim from rfl]
  dsimp only
  rw [h, ok_bind]
  simp only [String.ofList_toList]
  exact ⟨_, rfl⟩

theorem operations_nil :
    Reads (operations lastLine (⟨.symbol .braceClose, line⟩ :: rest)) [] rest := by
  rw [operations, if_pos rfl]
  exact ⟨_, rfl⟩

theorem operations_cons {token : Token} {node : Node} {nodes : List Node}
    (hne : token.lexeme ≠ .symbol .braceClose)
    (hfirst : Reads (operation lastLine (token :: tokens)) node rest)
    (hmore : Reads (operations lastLine rest) nodes more) :
    Reads (operations lastLine (token :: tokens)) (node :: nodes) more := by
  obtain ⟨_, hfirst⟩ := hfirst
  obtain ⟨_, hmore⟩ := hmore
  rw [operations, if_neg hne, hfirst, ok_bind]
  dsimp only
  rw [hmore, ok_bind]
  exact ⟨_, rfl⟩

theorem head_operation {node : Node} (h : node.fits .operation = true) :
    ∃ text lexemes, node.lexemes = .word text :: lexemes := by
  cases node
  case unsafeGoto => exact ⟨_, _, rfl⟩
  case unsafeAdd => exact ⟨_, _, rfl⟩
  case unsafeReduce => exact ⟨_, _, rfl⟩
  case unsafeShow => exact ⟨_, _, rfl⟩
  case unsafeLoop => exact ⟨_, _, rfl⟩
  case verbatim => exact ⟨_, _, rfl⟩
  all_goals cases h

theorem grip_operations {nodes : List Node} (h : Node.fitIn .operation nodes = true)
    (hgrip : grip rest = 0) : grip (tokensOn line (Node.lexemesIn nodes) ++ rest) = 0 := by
  cases nodes with
  | nil => exact hgrip
  | cons node nodes =>
      simp only [Node.fitIn, Bool.and_eq_true] at h
      obtain ⟨text, lexemes, hnode⟩ := head_operation h.1
      rw [Node.lexemesIn, hnode]
      rfl

mutual

theorem operation_reads (lastLine line : Nat) (node : Node) (h : node.fits .operation = true)
    {rest : List Token} (hgrip : grip rest = 0) :
    Reads (operation lastLine (tokensOn line node.lexemes ++ rest)) (node.onLine line) rest := by
  cases node
  case unsafeGoto => exact operation_goto h
  case unsafeAdd => exact operation_add (expression_of_fits h hgrip)
  case unsafeReduce => exact operation_reduce (expression_of_fits h hgrip)
  case unsafeShow => exact operation_show
  case unsafeLoop _ body =>
    rw [Node.lexemes, tokensOn_cons, List.cons_append, tokensOn_braced]
    exact operation_loop (operations_reads lastLine line body h)
  case verbatim _ code =>
    rw [Node.lexemes, List.cons_append, tokensOn_cons, List.cons_append, tokensOn_append,
      List.append_assoc]
    exact operation_verbatim (instructions_reads h)
  all_goals cases h

theorem operations_reads (lastLine line : Nat) (nodes : List Node)
    (h : Node.fitIn .operation nodes = true) {rest : List Token} :
    Reads (operations lastLine (tokensOn line (Node.lexemesIn nodes) ++
      ⟨.symbol .braceClose, line⟩ :: rest)) (Node.onLineIn line nodes) rest := by
  match nodes with
  | [] => exact operations_nil
  | node :: nodes =>
      simp only [Node.fitIn, Bool.and_eq_true] at h
      obtain ⟨text, lexemes, hnode⟩ := head_operation h.1
      have hgrip : grip (tokensOn line (Node.lexemesIn nodes) ++
        ⟨.symbol .braceClose, line⟩ :: rest) = 0 := grip_operations h.2 rfl
      have hfirst := operation_reads lastLine line node h.1 hgrip
      rw [hnode] at hfirst
      rw [Node.lexemesIn, tokensOn_append, List.append_assoc, hnode]
      exact operations_cons (by simp) hfirst (operations_reads lastLine line nodes h.2)

end

end Operations

section Statements

variable {name : String} {body : List Node}

theorem statement_call :
    Reads (statement lastLine (⟨.symbol .dollar, line⟩ :: ⟨.word name, line⟩ :: rest))
      (.call line name) rest := by
  rw [statement]
  exact ⟨_, rfl⟩

theorem statement_input :
    Reads (statement lastLine (⟨.word "input", line⟩ :: ⟨.word name, line⟩ :: rest))
      (.input line name) rest := by
  unfold statement
  dsimp only
  rw [show StatementWord.ofText? "input" = some .input from rfl]
  exact ⟨_, rfl⟩

theorem statement_remove :
    Reads (statement lastLine (⟨.word "remove", line⟩ :: ⟨.word name, line⟩ :: rest))
      (.remove line name) rest := by
  unfold statement
  dsimp only
  rw [show StatementWord.ofText? "remove" = some .remove from rfl]
  exact ⟨_, rfl⟩

theorem statement_display (h : Reads (expression lastLine tokens) v rest) :
    Reads (statement lastLine (⟨.word "show", line⟩ :: tokens)) (.display line v) rest := by
  obtain ⟨_, h⟩ := h
  unfold statement
  dsimp only
  rw [show StatementWord.ofText? "show" = some .display from rfl]
  dsimp only
  rw [h, ok_bind]
  exact ⟨_, rfl⟩

theorem statement_declare {type : CellType} {length : Option Int}
    (h : ReadsTail (arrayLength tokens) length (⟨.word type.text, line⟩ :: rest)) :
    Reads (statement lastLine (⟨.word "define", line⟩ :: ⟨.word name, line⟩ :: tokens))
      (.declare line name type length) rest := by
  obtain ⟨_, h⟩ := h
  unfold statement
  dsimp only
  rw [show StatementWord.ofText? "define" = some .define from rfl]
  dsimp only
  rw [Parser.name, ok_bind]
  dsimp only
  rw [h, ok_bind]
  cases type
  · exact ⟨_, rfl⟩
  · exact ⟨_, rfl⟩

theorem statement_assign {element : Option Node}
    (helement : ReadsTail (index lastLine tokens) element rest)
    (hvalue : Reads (expression lastLine rest) v more) :
    Reads (statement lastLine (⟨.word "set", line⟩ :: ⟨.word name, line⟩ :: tokens))
      (.assign line name element v) more := by
  obtain ⟨_, helement⟩ := helement
  obtain ⟨_, hvalue⟩ := hvalue
  unfold statement
  dsimp only
  rw [show StatementWord.ofText? "set" = some .set from rfl]
  dsimp only
  rw [Parser.name, ok_bind]
  dsimp only
  rw [helement, ok_bind]
  dsimp only
  rw [hvalue, ok_bind]
  exact ⟨_, rfl⟩

theorem statement_conditional
    (hcondition : Reads (expression lastLine tokens) v (⟨.symbol .braceOpen, line⟩ :: rest))
    (hbody : Reads (statements lastLine rest) body more) :
    Reads (statement lastLine (⟨.word "if", line⟩ :: tokens)) (.conditional line v body) more := by
  obtain ⟨_, hcondition⟩ := hcondition
  obtain ⟨_, hopen⟩ := symbol_reads lastLine line .braceOpen rest
  obtain ⟨_, hbody⟩ := hbody
  unfold statement
  dsimp only
  rw [show StatementWord.ofText? "if" = some .conditional from rfl]
  dsimp only
  rw [hcondition, ok_bind]
  dsimp only
  rw [hopen, ok_bind]
  dsimp only
  rw [hbody, ok_bind]
  exact ⟨_, rfl⟩

theorem statement_loop
    (hcondition : Reads (expression lastLine tokens) v (⟨.symbol .braceOpen, line⟩ :: rest))
    (hbody : Reads (statements lastLine rest) body more) :
    Reads (statement lastLine (⟨.word "loop", line⟩ :: tokens)) (.loop line v body) more := by
  obtain ⟨_, hcondition⟩ := hcondition
  obtain ⟨_, hopen⟩ := symbol_reads lastLine line .braceOpen rest
  obtain ⟨_, hbody⟩ := hbody
  unfold statement
  dsimp only
  rw [show StatementWord.ofText? "loop" = some .loop from rfl]
  dsimp only
  rw [hcondition, ok_bind]
  dsimp only
  rw [hopen, ok_bind]
  dsimp only
  rw [hbody, ok_bind]
  exact ⟨_, rfl⟩

theorem statement_unsafeBlock {size : Int} (h : isShort size)
    (hbody : Reads (operations lastLine tokens) body rest) :
    Reads (statement lastLine (⟨.word "unsafe", line⟩ :: ⟨.number (toString size), line⟩ ::
      ⟨.symbol .braceOpen, line⟩ :: tokens)) (.unsafeBlock line size body) rest := by
  obtain ⟨_, hopen⟩ := symbol_reads lastLine line .braceOpen tokens
  obtain ⟨_, hbody⟩ := hbody
  unfold statement
  dsimp only
  rw [show StatementWord.ofText? "unsafe" = some .unsafeBlock from rfl]
  dsimp only
  rw [numeral_toString h, ok_bind, hopen, ok_bind]
  dsimp only
  rw [hbody, ok_bind]
  exact ⟨_, rfl⟩

theorem statement_function (h : Reads (statements lastLine tokens) body rest) :
    Reads (statement lastLine (⟨.word "function", line⟩ :: ⟨.word name, line⟩ ::
      ⟨.symbol .braceOpen, line⟩ :: tokens)) (.function line name body) rest := by
  obtain ⟨_, hopen⟩ := symbol_reads lastLine line .braceOpen tokens
  obtain ⟨_, h⟩ := h
  unfold statement
  dsimp only
  rw [show StatementWord.ofText? "function" = some .function from rfl]
  dsimp only
  rw [Parser.name, ok_bind]
  dsimp only
  rw [hopen, ok_bind]
  dsimp only
  rw [h, ok_bind]
  exact ⟨_, rfl⟩

theorem statements_nil :
    Reads (statements lastLine (⟨.symbol .braceClose, line⟩ :: rest)) [] rest := by
  rw [statements, if_pos rfl]
  exact ⟨_, rfl⟩

theorem statements_cons {token : Token} {node : Node} {nodes : List Node}
    (hne : token.lexeme ≠ .symbol .braceClose)
    (hfirst : Reads (statement lastLine (token :: tokens)) node rest)
    (hmore : Reads (statements lastLine rest) nodes more) :
    Reads (statements lastLine (token :: tokens)) (node :: nodes) more := by
  obtain ⟨_, hfirst⟩ := hfirst
  obtain ⟨_, hmore⟩ := hmore
  rw [statements, if_neg hne, hfirst, ok_bind]
  dsimp only
  rw [hmore, ok_bind]
  exact ⟨_, rfl⟩

theorem arrayLength_reads {length : Int} (h : isShort length) :
    ReadsTail (arrayLength (⟨.number (toString length), line⟩ :: rest)) (some length) rest := by
  rw [arrayLength, numeral_toString h, ok_bind]
  exact ⟨_, rfl⟩

theorem index_stops_lexemes (h : v.fits .value = true) :
    ReadsTail (index lastLine (tokensOn line v.lexemes ++ rest)) none
      (tokensOn line v.lexemes ++ rest) := by
  obtain ⟨l, lexemes, hv, -, hl⟩ := head_lexemes v h
  refine index_stops ?_
  rw [hv]
  cases l with
  | symbol s =>
      have hs : s ≠ .bracketOpen := fun hs => hl (congrArg Lexeme.symbol hs)
      change s.grip ≠ 3
      cases s <;> first | exact absurd rfl hs | decide
  | number text => exact Nat.zero_ne_add_one 2
  | word text => exact Nat.zero_ne_add_one 2
  | character c => exact Nat.zero_ne_add_one 2

theorem head_statement {node : Node} (h : node.fits .statement = true) : ∃ l lexemes,
    node.lexemes = l :: lexemes ∧ l ≠ .symbol .braceClose ∧
      ∀ line more, grip (⟨l, line⟩ :: more) = 0 := by
  cases node
  case declare _ _ _ length =>
    cases length
    · exact ⟨_, _, rfl, by simp, fun _ _ => rfl⟩
    · exact ⟨_, _, rfl, by simp, fun _ _ => rfl⟩
  case assign _ _ element _ =>
    cases element
    · exact ⟨_, _, rfl, by simp, fun _ _ => rfl⟩
    · exact ⟨_, _, rfl, by simp, fun _ _ => rfl⟩
  case display => exact ⟨_, _, rfl, by simp, fun _ _ => rfl⟩
  case input => exact ⟨_, _, rfl, by simp, fun _ _ => rfl⟩
  case remove => exact ⟨_, _, rfl, by simp, fun _ _ => rfl⟩
  case conditional => exact ⟨_, _, rfl, by simp, fun _ _ => rfl⟩
  case loop => exact ⟨_, _, rfl, by simp, fun _ _ => rfl⟩
  case unsafeBlock => exact ⟨_, _, rfl, by simp, fun _ _ => rfl⟩
  case function => exact ⟨_, _, rfl, by simp, fun _ _ => rfl⟩
  case call => exact ⟨_, _, rfl, by simp, fun _ _ => rfl⟩
  all_goals cases h

theorem grip_statements {nodes : List Node} (h : Node.fitIn .statement nodes = true)
    (hgrip : grip rest = 0) : grip (tokensOn line (Node.lexemesIn nodes) ++ rest) = 0 := by
  cases nodes with
  | nil => exact hgrip
  | cons node nodes =>
      simp only [Node.fitIn, Bool.and_eq_true] at h
      obtain ⟨l, lexemes, hnode, -, hl⟩ := head_statement h.1
      rw [Node.lexemesIn, hnode]
      exact hl line _

mutual

theorem statement_reads (lastLine line : Nat) (node : Node) (h : node.fits .statement = true)
    {rest : List Token} (hgrip : grip rest = 0) :
    Reads (statement lastLine (tokensOn line node.lexemes ++ rest)) (node.onLine line) rest := by
  cases node
  case declare _ name type length =>
    cases length with
    | none => exact statement_declare ⟨_, rfl⟩
    | some length =>
        simp only [Node.fits, Bool.and_eq_true, Option.all_some] at h
        exact statement_declare (arrayLength_reads h.2)
  case assign _ name element value =>
    cases element with
    | none =>
        simp only [Node.fits, Bool.and_eq_true] at h
        exact statement_assign (index_stops_lexemes h.2) (expression_of_fits h.2 hgrip)
    | some element =>
        simp only [Node.fits, Bool.and_eq_true] at h
        rw [Node.lexemes, List.cons_append, tokensOn_cons, List.cons_append, List.cons_append,
          tokensOn_cons, List.cons_append, tokensOn_append, List.append_assoc, tokensOn_bracketed]
        exact statement_assign (index_reads (expression_of_fits h.1.2 rfl))
          (expression_of_fits h.2 hgrip)
  case display => exact statement_display (expression_of_fits h hgrip)
  case input => exact statement_input
  case remove => exact statement_remove
  case conditional _ condition body =>
    simp only [Node.fits, Bool.and_eq_true] at h
    rw [Node.lexemes, List.cons_append, tokensOn_cons, List.cons_append, tokensOn_append,
      List.append_assoc, tokensOn_braced]
    exact statement_conditional (expression_of_fits h.1 rfl)
      (statements_reads lastLine line body h.2)
  case loop _ condition body =>
    simp only [Node.fits, Bool.and_eq_true] at h
    rw [Node.lexemes, List.cons_append, tokensOn_cons, List.cons_append, tokensOn_append,
      List.append_assoc, tokensOn_braced]
    exact statement_loop (expression_of_fits h.1 rfl) (statements_reads lastLine line body h.2)
  case unsafeBlock _ size body =>
    simp only [Node.fits, Bool.and_eq_true] at h
    rw [Node.lexemes, tokensOn_cons, List.cons_append, tokensOn_cons, List.cons_append,
      tokensOn_braced]
    exact statement_unsafeBlock h.1 (operations_reads lastLine line body h.2)
  case function _ name body =>
    simp only [Node.fits, Bool.and_eq_true] at h
    rw [Node.lexemes, tokensOn_cons, List.cons_append, tokensOn_cons, List.cons_append,
      tokensOn_braced]
    exact statement_function (statements_reads lastLine line body h.2)
  case call => exact statement_call
  all_goals cases h

theorem statements_reads (lastLine line : Nat) (nodes : List Node)
    (h : Node.fitIn .statement nodes = true) {rest : List Token} :
    Reads (statements lastLine (tokensOn line (Node.lexemesIn nodes) ++
      ⟨.symbol .braceClose, line⟩ :: rest)) (Node.onLineIn line nodes) rest := by
  match nodes with
  | [] => exact statements_nil
  | node :: nodes =>
      simp only [Node.fitIn, Bool.and_eq_true] at h
      obtain ⟨l, lexemes, hnode, hne, -⟩ := head_statement h.1
      have hgrip : grip (tokensOn line (Node.lexemesIn nodes) ++
        ⟨.symbol .braceClose, line⟩ :: rest) = 0 := grip_statements h.2 rfl
      have hfirst := statement_reads lastLine line node h.1 hgrip
      rw [hnode] at hfirst
      rw [Node.lexemesIn, tokensOn_append, List.append_assoc, hnode]
      exact statements_cons hne hfirst (statements_reads lastLine line nodes h.2)

end

theorem program_cons {token : Token} {node : Node} {nodes : List Node}
    (hfirst : Reads (statement lastLine (token :: tokens)) node rest)
    (hmore : program lastLine rest = .ok nodes) :
    program lastLine (token :: tokens) = .ok (node :: nodes) := by
  obtain ⟨_, hfirst⟩ := hfirst
  rw [program, hfirst, ok_bind]
  dsimp only
  rw [hmore]
  rfl

theorem program_reads (lastLine line : Nat) (nodes : List Node)
    (h : Node.fitIn .statement nodes = true) :
    program lastLine (tokensOn line (Node.lexemesIn nodes)) = .ok (Node.onLineIn line nodes) := by
  induction nodes with
  | nil => rw [Node.lexemesIn, tokensOn, List.map_nil, program, Node.onLineIn]
  | cons node nodes ih =>
      simp only [Node.fitIn, Bool.and_eq_true] at h
      obtain ⟨l, lexemes, hnode, -, -⟩ := head_statement h.1
      have hgrip : grip (tokensOn line (Node.lexemesIn nodes)) = 0 := by
        rw [← List.append_nil (tokensOn line _)]
        exact grip_statements h.2 rfl
      have hfirst := statement_reads lastLine line node h.1 hgrip
      rw [hnode] at hfirst
      rw [Node.lexemesIn, tokensOn_append, hnode]
      exact program_cons hfirst (ih h.2)

end Statements

end Parser

theorem parse_render {nodes : List Node} (h : Node.fitIn .statement nodes = true) :
    parse (render nodes) = .ok (Node.onLineIn 1 nodes) := by
  have hspelled : ∀ l ∈ Node.lexemesIn nodes, l.isSpelled :=
    List.all_eq_true.1 (Node.isSpelled_statements nodes h)
  rw [parse, render, scan_spaced hspelled]
  exact Parser.program_reads 1 1 nodes h

theorem parse_render_nested :
    Node.fitIn .statement
      [.function 7 "define" [.declare 8 "char" .char (some 12),
        .assign 9 "char"
          (some (.math .times (.math .plus (.var "i" none) .max) (.literal (-3) false)))
          (.math .minus (.literal 39 true)
            (.math .minus (.var "end" none) (.literal (-10) false)))],
       .loop 10 (.var "n" none)
         [.call 11 "define", .display 12 (.literal 0xd800 true), .remove 12 "n"],
       .unsafeBlock 13 (-2) [.unsafeAdd 14 .max, .unsafeLoop 15 [.verbatim 16 "[-]<+"]]] = true ∧
    parse (render
      [.function 7 "define" [.declare 8 "char" .char (some 12),
        .assign 9 "char"
          (some (.math .times (.math .plus (.var "i" none) .max) (.literal (-3) false)))
          (.math .minus (.literal 39 true)
            (.math .minus (.var "end" none) (.literal (-10) false)))],
       .loop 10 (.var "n" none)
         [.call 11 "define", .display 12 (.literal 0xd800 true), .remove 12 "n"],
       .unsafeBlock 13 (-2) [.unsafeAdd 14 .max, .unsafeLoop 15 [.verbatim 16 "[-]<+"]]]) =
    .ok
      [.function 1 "define" [.declare 1 "char" .char (some 12),
        .assign 1 "char"
          (some (.math .times (.math .plus (.var "i" none) .max) (.literal (-3) false)))
          (.math .minus (.literal 39 true)
            (.math .minus (.var "end" none) (.literal (-10) false)))],
       .loop 1 (.var "n" none) [.call 1 "define", .display 1 (.literal 0xd800 true), .remove 1 "n"],
       .unsafeBlock 1 (-2) [.unsafeAdd 1 .max, .unsafeLoop 1 [.verbatim 1 "[-]<+"]]] :=
  have hfits := by decide
  ⟨hfits, parse_render hfits⟩

end TapeCompiler
