import TapeCompiler.Proofs.Reading

namespace TapeCompiler

namespace Node

mutual

def relined (f : Int → Int) : Node → Node
  | declare line name type length => declare (f line) name type length
  | assign line name index value => assign (f line) name index value
  | display line value => display (f line) value
  | input line name => input (f line) name
  | remove line name => remove (f line) name
  | conditional line condition body => conditional (f line) condition (relinedIn f body)
  | loop line condition body => loop (f line) condition (relinedIn f body)
  | unsafeBlock line size body => unsafeBlock (f line) size (relinedIn f body)
  | function line name body => function (f line) name (relinedIn f body)
  | call line name => call (f line) name
  | unsafeGoto line offset => unsafeGoto (f line) offset
  | unsafeAdd line amount => unsafeAdd (f line) amount
  | unsafeReduce line amount => unsafeReduce (f line) amount
  | unsafeShow line => unsafeShow (f line)
  | unsafeLoop line body => unsafeLoop (f line) (relinedIn f body)
  | verbatim line code => verbatim (f line) code
  | node => node

def relinedIn (f : Int → Int) : List Node → List Node
  | [] => []
  | node :: rest => node.relined f :: relinedIn f rest

end

mutual

theorem relined_id (node : Node) : node.relined id = node := by
  cases node <;> simp [relined, relinedIn_id]

theorem relinedIn_id (nodes : List Node) : relinedIn id nodes = nodes := by
  match nodes with
  | [] => rfl
  | node :: rest => rw [relinedIn, relined_id node, relinedIn_id rest]

end

end Node

def Token.relined (f : Nat → Nat) (token : Token) : Token := { token with line := f token.line }

def Lexeme.startsStatement : Lexeme → Bool
  | word text => (StatementWord.ofText? text).isSome
  | symbol s => s = .dollar
  | _ => false

namespace Parser

variable {α β γ δ : Type} {lastLine lastLine' : Nat} {f : Nat → Nat} {g : Int → Int}
  {tokens tokens' more : List Token}

def joined (f : Nat → Nat) (more tokens : List Token) : List Token :=
  tokens.map (Token.relined f) ++ more

theorem joined_cons (l : Lexeme) (line : Nat) (rest : List Token) :
    joined f more (⟨l, line⟩ :: rest) = ⟨l, f line⟩ :: joined f more rest := rfl

def Carries (x : Except SourceError α) (y : Except SourceError β) (R : α → β → Prop) : Prop :=
  ∀ a, x = .ok a → ∃ b, y = .ok b ∧ R a b

structure Keeps (f : Nat → Nat) (more : List Token) (carry : α → β) (p : Parsed α tokens)
    (q : Parsed β tokens') : Prop where
  value : q.value = carry p.value
  rest : q.rest = joined f more p.rest

structure KeepsTail (f : Nat → Nat) (more : List Token) (carry : α → β) (p : ParsedTail α tokens)
    (q : ParsedTail β tokens') : Prop where
  value : q.value = carry p.value
  rest : q.rest = joined f more p.rest

namespace Carries

variable {carry : α → β} {R : γ → δ → Prop}

theorem pure {c : γ} {d : δ} (h : R c d) : Carries (.ok c) (.ok d) R := by
  intro a ha
  cases ha
  exact ⟨d, rfl, h⟩

theorem error {e : SourceError} {y : Except SourceError δ} : Carries (.error e) y R := by
  intro a ha
  cases ha

theorem read {y : Except SourceError (Parsed β tokens')} {value : α} {rest : List Token}
    {h : rest.length < tokens.length} (hy : Reads y (carry value) (joined f more rest)) :
    Carries (.ok (⟨value, rest, h⟩ : Parsed α tokens)) y (Keeps f more carry) := by
  obtain ⟨h', rfl⟩ := hy
  exact pure ⟨rfl, rfl⟩

theorem readTail {y : Except SourceError (ParsedTail β tokens')} {value : α} {rest : List Token}
    {h : rest.length ≤ tokens.length} (hy : ReadsTail y (carry value) (joined f more rest)) :
    Carries (.ok (⟨value, rest, h⟩ : ParsedTail α tokens)) y (KeepsTail f more carry) := by
  obtain ⟨h', rfl⟩ := hy
  exact pure ⟨rfl, rfl⟩

theorem same {x : Except SourceError α} {k : α → Except SourceError γ}
    {k' : α → Except SourceError δ} (hk : ∀ a, Carries (k a) (k' a) R) :
    Carries (x >>= k) (x >>= k') R := by
  cases x with
  | ok a => exact hk a
  | error e => exact error

theorem bind {x : Except SourceError (Parsed α tokens)} {y : Except SourceError (Parsed β tokens')}
    {k : Parsed α tokens → Except SourceError γ} {k' : Parsed β tokens' → Except SourceError δ}
    (hx : Carries x y (Keeps f more carry))
    (hk : ∀ value rest h h', Carries (k ⟨value, rest, h⟩) (k' ⟨carry value, joined f more rest, h'⟩)
      R) : Carries (x >>= k) (y >>= k') R := by
  cases x with
  | error e => exact error
  | ok p =>
      obtain ⟨⟨value, rest, h⟩, rfl, hvalue, hrest⟩ := hx p rfl
      dsimp only at hvalue hrest
      subst hvalue hrest
      exact hk p.value p.rest p.shorter h

theorem bindTail {x : Except SourceError (ParsedTail α tokens)}
    {y : Except SourceError (ParsedTail β tokens')}
    {k : ParsedTail α tokens → Except SourceError γ}
    {k' : ParsedTail β tokens' → Except SourceError δ}
    (hx : Carries x y (KeepsTail f more carry))
    (hk : ∀ value rest h h', Carries (k ⟨value, rest, h⟩) (k' ⟨carry value, joined f more rest, h'⟩)
      R) : Carries (x >>= k) (y >>= k') R := by
  cases x with
  | error e => exact error
  | ok p =>
      obtain ⟨⟨value, rest, h⟩, rfl, hvalue, hrest⟩ := hx p rfl
      dsimp only at hvalue hrest
      subst hvalue hrest
      exact hk p.value p.rest p.noLonger h

end Carries

theorem grip_of_no_symbol (h : ∀ s line rest, tokens = ⟨.symbol s, line⟩ :: rest → False) :
    grip tokens = 0 := by
  unfold grip
  split
  · exact (h _ _ _ rfl).elim
  · rfl

theorem grip_of_no_bracket
    (h : ∀ line rest, tokens = ⟨.symbol .bracketOpen, line⟩ :: rest → False) :
    grip tokens ≠ 3 := by
  unfold grip
  split
  · rename_i s line rest
    cases s <;> first | exact (h _ _ rfl).elim | decide
  · decide

def Fresh (more : List Token) : Prop := ∀ token ∈ more.head?, token.lexeme.startsStatement = true

theorem symbol_carried (s : Symbol) (tokens : List Token) :
    Carries (symbol lastLine s tokens) (symbol lastLine' s (joined f more tokens))
      (Keeps f more id) := by
  unfold symbol
  split
  · rename_i s' line rest
    by_cases hs : s' = s
    · subst hs
      rw [if_pos rfl]
      exact .read (symbol_reads lastLine' (f line) s' (joined f more rest))
    · rw [if_neg hs]
      exact .error
  · exact .error

theorem name_carried (tokens : List Token) :
    Carries (name lastLine tokens) (name lastLine' (joined f more tokens))
      (Keeps f more id) := by
  unfold name
  split
  · exact .pure ⟨rfl, rfl⟩
  · exact .error

theorem parenthesisEnd_carried (tokens : List Token) :
    Carries (parenthesisEnd lastLine tokens) (parenthesisEnd lastLine' (joined f more tokens))
      (Keeps f more id) := by
  unfold parenthesisEnd
  split
  · exact .pure ⟨rfl, rfl⟩
  · exact .error

theorem skipMath_of_ne {l : Lexeme} {line : Nat} {rest : List Token} (h : l ≠ .word "math") :
    skipMath (⟨l, line⟩ :: rest) = ⟨l, line⟩ :: rest := by
  unfold skipMath
  split
  · rename_i heq
    cases heq
    exact absurd rfl h
  · rfl

theorem instructions_carried (tokens : List Token) :
    Carries (instructions lastLine tokens) (instructions lastLine' (joined f more tokens))
      (Keeps f more id) := by
  induction tokens with
  | nil => exact .error
  | cons token rest ih =>
      obtain ⟨l, line⟩ := token
      rw [joined_cons]
      cases l with
      | word text =>
          by_cases htext : text = "end"
          · rw [instructions, instructions, if_pos htext, if_pos htext]
            exact .pure ⟨rfl, rfl⟩
          · rw [instructions, if_neg htext]
            exact .error
      | symbol s =>
          rw [instructions, instructions]
          cases s.instruction? with
          | none => exact .error
          | some c => exact .bind ih fun _ _ _ _ => .pure ⟨rfl, rfl⟩
      | _ => exact .error

theorem ofText?_of_isSome {text : String} (h : (StatementWord.ofText? text).isSome = true) :
    CellType.ofText? text = none := by
  unfold CellType.ofText?
  split
  · rename_i heq
    subst heq
    cases h
  · split
    · rename_i heq
      subst heq
      cases h
    · rfl

section

variable (hmore : Fresh more)

include hmore

theorem Fresh.grip : grip more = 0 := by
  cases more with
  | nil => rfl
  | cons token more =>
      obtain ⟨l, line⟩ := token
      have hstarts : l.startsStatement = true := hmore ⟨l, line⟩ rfl
      cases l with
      | symbol s =>
          rw [of_decide_eq_true hstarts]
          rfl
      | _ => rfl

theorem grip_joined (tokens : List Token) : grip (joined f more tokens) = grip tokens := by
  cases tokens with
  | nil => exact hmore.grip
  | cons token tokens =>
      obtain ⟨l, line⟩ := token
      cases l <;> rfl

theorem skipMath_joined (tokens : List Token) :
    skipMath (joined f more tokens) = joined f more (skipMath tokens) := by
  cases tokens with
  | nil =>
      change skipMath more = more
      unfold skipMath
      split
      · cases hmore _ rfl
      · rfl
  | cons token tokens =>
      obtain ⟨l, line⟩ := token
      by_cases hl : l = .word "math"
      · subst hl
        rfl
      · rw [joined_cons, skipMath_of_ne hl, skipMath_of_ne hl]
        rfl

theorem values_carried (lastLine lastLine' : Nat) (f : Nat → Nat) :
    (∀ tokens, Carries (expression lastLine tokens)
      (expression lastLine' (joined f more tokens)) (Keeps f more id)) ∧
    (∀ left tokens, Carries (sumTail lastLine left tokens)
      (sumTail lastLine' left (joined f more tokens)) (KeepsTail f more id)) ∧
    (∀ tokens, Carries (term lastLine tokens)
      (term lastLine' (joined f more tokens)) (Keeps f more id)) ∧
    (∀ left tokens, Carries (productTail lastLine left tokens)
      (productTail lastLine' left (joined f more tokens)) (KeepsTail f more id)) ∧
    (∀ tokens, Carries (factor lastLine tokens)
      (factor lastLine' (joined f more tokens)) (Keeps f more id)) ∧
    (∀ tokens, Carries (index lastLine tokens)
      (index lastLine' (joined f more tokens)) (KeepsTail f more id)) := by
  refine expression.mutual_induct _ _ _ _ _ _ ?expression ?sumStop ?sumNext ?sumEnd ?term
    ?productStop ?productNext ?productEnd ?number ?character ?constant ?element ?parenthesis ?other
    ?index ?noIndex
  case expression =>
    intro tokens hterm hsum
    rw [expression, expression]
    exact .bind hterm fun value rest h _ => .bindTail (hsum ⟨value, rest, h⟩) fun _ _ _ _ =>
      .pure ⟨rfl, rfl⟩
  case sumStop =>
    intro left s line rest hs
    rw [joined_cons, sumTail, sumTail, hs]
    exact .pure ⟨rfl, rfl⟩
  case sumNext =>
    intro left s line rest operator hs hterm hsum
    rw [joined_cons, sumTail, sumTail, hs]
    exact .bind hterm fun value rest h _ => .bindTail (hsum ⟨value, rest, h⟩) fun _ _ _ _ =>
      .pure ⟨rfl, rfl⟩
  case sumEnd =>
    intro left tokens hother
    rw [sumTail]
    · exact .readTail (sumTail_stops (by simp [grip_joined hmore, grip_of_no_symbol hother]))
    · exact hother
  case term =>
    intro tokens hfactor hproduct
    rw [term, term]
    exact .bind hfactor fun value rest h _ => .bindTail (hproduct ⟨value, rest, h⟩) fun _ _ _ _ =>
      .pure ⟨rfl, rfl⟩
  case productStop =>
    intro left s line rest hs
    rw [joined_cons, productTail, productTail, hs]
    exact .pure ⟨rfl, rfl⟩
  case productNext =>
    intro left s line rest operator hs hfactor hproduct
    rw [joined_cons, productTail, productTail, hs]
    exact .bind hfactor fun value rest h _ => .bindTail (hproduct ⟨value, rest, h⟩) fun _ _ _ _ =>
      .pure ⟨rfl, rfl⟩
  case productEnd =>
    intro left tokens hother
    rw [productTail]
    · exact .readTail (productTail_stops (by simp [grip_joined hmore, grip_of_no_symbol hother]))
    · exact hother
  case number =>
    intro text line rest
    rw [joined_cons, factor, factor]
    exact .same fun _ => .pure ⟨rfl, rfl⟩
  case character =>
    intro c line rest
    rw [joined_cons, factor, factor]
    exact .pure ⟨rfl, rfl⟩
  case constant =>
    intro text line rest value hvalue
    rw [joined_cons, factor, factor, hvalue]
    exact .pure ⟨rfl, rfl⟩
  case element =>
    intro text line rest hvalue hindex
    rw [joined_cons, factor, factor, hvalue]
    exact .bindTail hindex fun _ _ _ _ => .pure ⟨rfl, rfl⟩
  case parenthesis =>
    intro line rest _ hexpression
    rw [joined_cons, factor, factor]
    rw [← skipMath_joined hmore] at hexpression
    exact .bind hexpression fun _ rest _ _ => .bind (parenthesisEnd_carried rest) fun _ _ _ _ =>
      .pure ⟨rfl, rfl⟩
  case other =>
    intro tokens hnumber hcharacter hword hparenthesis
    rw [factor]
    · exact .error
    all_goals assumption
  case index =>
    intro line rest hexpression
    rw [joined_cons, index, index]
    exact .bind hexpression fun _ rest _ _ =>
      .bind (symbol_carried .bracketClose rest) fun _ _ _ _ => .pure ⟨rfl, rfl⟩
  case noIndex =>
    intro tokens hother
    rw [index]
    · exact .readTail (index_stops (grip_joined hmore tokens ▸ grip_of_no_bracket hother))
    · exact hother

theorem expression_carried (tokens : List Token) :
    Carries (expression lastLine tokens) (expression lastLine' (joined f more tokens))
      (Keeps f more id) :=
  (values_carried hmore lastLine lastLine' f).1 tokens

theorem index_carried (tokens : List Token) :
    Carries (index lastLine tokens) (index lastLine' (joined f more tokens))
      (KeepsTail f more id) :=
  (values_carried hmore lastLine lastLine' f).2.2.2.2.2 tokens

theorem arrayLength_carried (tokens : List Token) :
    Carries (arrayLength tokens) (arrayLength (joined f more tokens))
      (KeepsTail f more id) := by
  cases tokens with
  | nil =>
      refine .readTail (?_ : ReadsTail (arrayLength more) none more)
      unfold arrayLength
      split
      · cases hmore _ rfl
      · exact ⟨_, rfl⟩
  | cons token tokens =>
      obtain ⟨l, line⟩ := token
      rw [joined_cons]
      cases l with
      | number text => exact .same fun _ => .pure ⟨rfl, rfl⟩
      | _ => exact .pure ⟨rfl, rfl⟩

theorem cellType_carried (f : Nat → Nat) (tokens : List Token) :
    KeepsTail f more id (cellType tokens) (cellType (joined f more tokens)) := by
  cases tokens with
  | nil =>
      change KeepsTail f more id (cellType []) (cellType more)
      unfold cellType
      split
      · rename_i text line rest
        rw [ofText?_of_isSome (hmore _ rfl)]
        exact ⟨rfl, rfl⟩
      · exact ⟨rfl, rfl⟩
  | cons token tokens =>
      obtain ⟨l, line⟩ := token
      rw [joined_cons]
      cases l with
      | word text =>
          unfold cellType
          cases htype : CellType.ofText? text <;> simp only [htype] <;> exact ⟨rfl, rfl⟩
      | _ => exact ⟨rfl, rfl⟩

theorem operations_carried (lastLine lastLine' : Nat) (hg : ∀ n : Nat, g n = f n) :
    (∀ tokens, Carries (operation lastLine tokens) (operation lastLine' (joined f more tokens))
      (Keeps f more (Node.relined g))) ∧
    (∀ tokens, Carries (operations lastLine tokens)
      (operations lastLine' (joined f more tokens))
      (Keeps f more (Node.relinedIn g))) := by
  refine operation.mutual_induct _ _ ?goto ?noOffset ?add ?reduce ?display ?loop ?verbatim ?unknown
    ?other ?nil ?close ?cons
  case goto =>
    intro text line hword digits line' rest
    rw [joined_cons, joined_cons]
    unfold operation
    simp only [hword]
    exact .same fun _ => .pure ⟨by simp [Node.relined, hg], rfl⟩
  case noOffset =>
    intro text line hword tokens hother
    unfold operation
    simp only [hword]
    exact .error
  case add | reduce =>
    intro text line rest hword
    rw [joined_cons]
    unfold operation
    simp only [hword]
    exact .bind (expression_carried hmore rest) fun _ _ _ _ =>
      .pure ⟨by simp [Node.relined, hg], rfl⟩
  case display =>
    intro text line rest hword
    rw [joined_cons]
    unfold operation
    simp only [hword]
    exact .pure ⟨by simp [Node.relined, hg], rfl⟩
  case loop =>
    intro text line rest hword hbody
    rw [joined_cons]
    unfold operation
    simp only [hword]
    exact .bind (symbol_carried .braceOpen rest) fun _ rest h _ =>
      .bind (hbody ⟨(), rest, h⟩) fun _ _ _ _ => .pure ⟨by simp [Node.relined, hg], rfl⟩
  case verbatim =>
    intro text line rest hword
    rw [joined_cons]
    unfold operation
    simp only [hword]
    exact .bind (instructions_carried rest) fun _ _ _ _ =>
      .pure ⟨by simp [Node.relined, hg], rfl⟩
  case unknown =>
    intro text line rest hword
    unfold operation
    simp only [hword]
    exact .error
  case other =>
    intro tokens hother
    rw [operation]
    · exact .error
    · exact hother
  case nil =>
    rw [operations]
    exact .error
  case close =>
    intro token rest hclose
    obtain ⟨l, line⟩ := token
    rw [joined_cons, operations, operations, if_pos hclose, if_pos hclose]
    exact .pure ⟨rfl, rfl⟩
  case cons =>
    intro token rest hopen hfirst hmore
    obtain ⟨l, line⟩ := token
    rw [joined_cons, operations, operations, if_neg hopen, if_neg hopen]
    exact .bind hfirst fun value rest h _ => .bind (hmore ⟨value, rest, h⟩) fun _ _ _ _ =>
      .pure ⟨rfl, rfl⟩

theorem statements_carried (lastLine lastLine' : Nat) (hg : ∀ n : Nat, g n = f n) :
    (∀ tokens, Carries (statement lastLine tokens) (statement lastLine' (joined f more tokens))
      (Keeps f more (Node.relined g))) ∧
    (∀ tokens, Carries (statements lastLine tokens)
      (statements lastLine' (joined f more tokens))
      (Keeps f more (Node.relinedIn g))) := by
  refine statement.mutual_induct _ _ ?call ?function ?define ?set ?display ?input ?remove
    ?conditional ?loop ?unsafeBlock ?noSize ?unknown ?other ?nil ?close ?cons
  case call =>
    intro line rest
    rw [joined_cons, statement, statement]
    exact .bind (name_carried rest) fun _ _ _ _ => .pure ⟨by simp [Node.relined, hg], rfl⟩
  case function =>
    intro text line rest hword hbody
    rw [joined_cons]
    unfold statement
    simp only [hword]
    exact .bind (name_carried rest) fun title rest h _ =>
      .bind (symbol_carried .braceOpen rest) fun opening rest h' _ =>
        .bind (hbody ⟨title, _, h⟩ ⟨(), rest, h'⟩) fun _ _ _ _ =>
          .pure ⟨by simp [Node.relined, hg], rfl⟩
  case define =>
    intro text line rest hword
    rw [joined_cons]
    unfold statement
    simp only [hword]
    refine .bind (name_carried rest) fun title rest _ _ =>
      .bindTail (arrayLength_carried hmore rest) fun length rest _ _ => .pure ?_
    obtain ⟨htype, hrest⟩ := cellType_carried hmore f rest
    exact ⟨by simp [Node.relined, hg, htype], hrest⟩
  case set =>
    intro text line rest hword
    rw [joined_cons]
    unfold statement
    simp only [hword]
    exact .bind (name_carried rest) fun _ rest _ _ =>
      .bindTail (index_carried hmore rest) fun _ rest _ _ =>
        .bind (expression_carried hmore rest) fun _ _ _ _ => .pure ⟨by simp [Node.relined, hg], rfl⟩
  case display =>
    intro text line rest hword
    rw [joined_cons]
    unfold statement
    simp only [hword]
    exact .bind (expression_carried hmore rest) fun _ _ _ _ =>
      .pure ⟨by simp [Node.relined, hg], rfl⟩
  case input | remove =>
    intro text line rest hword
    rw [joined_cons]
    unfold statement
    simp only [hword]
    exact .bind (name_carried rest) fun _ _ _ _ => .pure ⟨by simp [Node.relined, hg], rfl⟩
  case conditional | loop =>
    intro text line rest hword hbody
    rw [joined_cons]
    unfold statement
    simp only [hword]
    exact .bind (expression_carried hmore rest) fun condition rest h _ =>
      .bind (symbol_carried .braceOpen rest) fun opening rest h' _ =>
        .bind (hbody ⟨condition, _, h⟩ ⟨(), rest, h'⟩) fun _ _ _ _ =>
          .pure ⟨by simp [Node.relined, hg], rfl⟩
  case unsafeBlock =>
    intro text line hword digits line' rest
    rw [joined_cons, joined_cons]
    unfold statement
    simp only [hword]
    exact .same fun _ => .bind (symbol_carried .braceOpen rest) fun _ rest _ _ =>
      .bind ((operations_carried hmore lastLine lastLine' hg).2 rest) fun _ _ _ _ =>
        .pure ⟨by simp [Node.relined, hg], rfl⟩
  case noSize =>
    intro text line hword tokens hother
    unfold statement
    simp only [hword]
    exact .error
  case unknown =>
    intro text line rest hword
    unfold statement
    simp only [hword]
    exact .error
  case other =>
    intro tokens hdollar hword
    rw [statement]
    · exact .error
    · exact hdollar
    · exact hword
  case nil =>
    rw [statements]
    exact .error
  case close =>
    intro token rest hclose
    obtain ⟨l, line⟩ := token
    rw [joined_cons, statements, statements, if_pos hclose, if_pos hclose]
    exact .pure ⟨rfl, rfl⟩
  case cons =>
    intro token rest hopen hfirst hmore
    obtain ⟨l, line⟩ := token
    rw [joined_cons, statements, statements, if_neg hopen, if_neg hopen]
    exact .bind hfirst fun value rest h _ => .bind (hmore ⟨value, rest, h⟩) fun _ _ _ _ =>
      .pure ⟨rfl, rfl⟩

end

theorem statement_refused (lastLine line : Nat) {l : Lexeme} (rest : List Token)
    (hl : l.startsStatement = false) :
    ∃ e, statement lastLine (⟨l, line⟩ :: rest) = .error e := by
  cases l with
  | word text =>
      have hnone : StatementWord.ofText? text = none := by simpa [Lexeme.startsStatement] using hl
      unfold statement
      simp only [hnone]
      exact ⟨_, rfl⟩
  | _ =>
      rw [statement]
      · exact ⟨_, rfl⟩
      · intro line rest heq
        cases heq <;> cases hl
      · intro text line rest heq
        cases heq

theorem program_cons_ok {token : Token} {rest : List Token} {nodes : List Node}
    (h : program lastLine (token :: rest) = .ok nodes) :
    ∃ first others, statement lastLine (token :: rest) = .ok first ∧
      program lastLine first.rest = .ok others ∧ nodes = first.value :: others := by
  rw [program] at h
  cases hfirst : statement lastLine (token :: rest) with
  | error e =>
      rw [hfirst] at h
      cases h
  | ok first =>
      rw [hfirst, ok_bind] at h
      dsimp only at h
      cases hothers : program lastLine first.rest with
      | error e =>
          rw [hothers] at h
          cases h
      | ok others =>
          rw [hothers] at h
          cases h
          exact ⟨first, others, rfl, hothers, rfl⟩

theorem fresh_of_program {nodes : List Node} (h : program lastLine tokens = .ok nodes) :
    Fresh tokens := by
  cases tokens with
  | nil =>
      intro token htoken
      cases htoken
  | cons token rest =>
      intro _ htoken
      cases htoken
      obtain ⟨first, -, hfirst, -⟩ := program_cons_ok h
      rw [← Bool.not_eq_false]
      intro hl
      obtain ⟨e, he⟩ := statement_refused lastLine token.line rest hl
      cases hfirst.symm.trans he

theorem program_joined (hg : ∀ n : Nat, g n = f n) {nodes nodes' : List Node}
    (h : program lastLine tokens = .ok nodes)
    (h' : program lastLine' more = .ok nodes') :
    program lastLine' (joined f more tokens) = .ok (Node.relinedIn g nodes ++ nodes') := by
  induction tokens using program.induct generalizing nodes with
  | case1 =>
      rw [program] at h
      cases h
      exact h'
  | case2 token rest ih =>
      obtain ⟨first, others, hfirst, hothers, rfl⟩ := program_cons_ok h
      -- What comes behind starts a statement, so nothing of it goes into the first one.
      obtain ⟨first', hfirst', hvalue, hrest⟩ :=
        (statements_carried (fresh_of_program h') lastLine lastLine' hg).1 _ first hfirst
      refine program_cons ⟨first'.shorter, ?_⟩ (hrest ▸ ih first hothers)
      rw [← hvalue]
      exact hfirst'

theorem program_relined (lastLine' : Nat) (hg : ∀ n : Nat, g n = f n) {nodes : List Node}
    (h : program lastLine tokens = .ok nodes) :
    program lastLine' (tokens.map (Token.relined f)) = .ok (Node.relinedIn g nodes) := by
  have hnil : program lastLine' [] = .ok [] := by rw [program]
  have hjoined := program_joined hg h hnil
  rwa [joined, List.append_nil, List.append_nil] at hjoined

theorem program_append {nodes nodes' : List Node} (h : program lastLine tokens = .ok nodes)
    (h' : program lastLine' more = .ok nodes') :
    program lastLine' (tokens ++ more) = .ok (nodes ++ nodes') := by
  have hjoined := program_joined (f := id) (g := id) (fun _ => rfl) h h'
  have hsame : Token.relined id = id := rfl
  rwa [joined, hsame, List.map_id, Node.relinedIn_id] at hjoined

end Parser

end TapeCompiler
