import TapeCompiler.Proofs.Joining

namespace TapeCompiler

namespace Node

def body : Node → List Node
  | conditional _ _ body | loop _ _ body | function _ _ body => body
  | unsafeBlock _ _ body | unsafeLoop _ body => body
  | _ => []

inductive Within (node : Node) : List Node → Prop where
  | here {nodes : List Node} (h : node ∈ nodes) : Within node nodes
  | inside {outer : Node} {nodes : List Node} (houter : outer ∈ nodes)
      (h : Within node outer.body) : Within node nodes

structure Formed (node : Node) : Prop where
  isStatement : node.isStatement = true
  inside : ∀ inner : Node, inner.Within node.body → inner.isStatement = true

variable {node outer : Node} {nodes : List Node} {f : Int → Int}

theorem Within.member (h : outer.Within nodes) (hnode : node ∈ outer.body) : node.Within nodes := by
  induction h with
  | here h => exact .inside h (.here hnode)
  | inside houter _ ih => exact .inside houter ih

theorem Within.formed (h : node.Within nodes) (hnodes : ∀ node ∈ nodes, node.Formed) :
    node.isStatement = true := by
  cases h with
  | here h => exact (hnodes node h).isStatement
  | inside houter h => exact (hnodes _ houter).inside node h

theorem Formed.of_body (h : node.isStatement = true) (hbody : ∀ inner ∈ node.body, inner.Formed) :
    node.Formed := ⟨h, fun _ hinner => hinner.formed hbody⟩

theorem Formed.of_leaf (h : node.isStatement = true) (hbody : node.body = []) : node.Formed :=
  .of_body h (by simp [hbody])

theorem relinedIn_eq_map : relinedIn f nodes = nodes.map (relined f) := by
  induction nodes with
  | nil => rfl
  | cons node nodes ih => rw [relinedIn, ih, List.map_cons]

theorem body_relined : (node.relined f).body = relinedIn f node.body := by
  cases node <;> rfl

theorem line_relined (h : node.isStatement = true) : (node.relined f).line = f node.line := by
  cases node <;> first | rfl | cases h

theorem relined_of_mem (hsame : relinedIn f nodes = nodes) (h : node ∈ nodes) :
    node.relined f = node := by
  rw [relinedIn_eq_map] at hsame
  exact List.map_inj_left.1 (hsame.trans (List.map_id nodes).symm) node h

theorem relined_of_within (hsame : relinedIn f nodes = nodes) (h : node.Within nodes) :
    node.relined f = node := by
  induction h with
  | here h => exact relined_of_mem hsame h
  | inside houter _ ih =>
      refine ih ?_
      rw [← body_relined, relined_of_mem hsame houter]

end Node

namespace Parser

variable {α β : Type} {lastLine : Nat} {tokens : List Token}

def Returns (x : Except SourceError α) (P : α → Prop) : Prop := ∀ a, x = .ok a → P a

namespace Returns

variable {x : Except SourceError α} {k : α → Except SourceError β} {P : α → Prop} {Q : β → Prop}

theorem pure {a : α} (h : P a) : Returns (.ok a) P := by
  intro b hb
  cases hb
  exact h

theorem error {e : SourceError} : Returns (.error e) P := by
  intro b hb
  cases hb

theorem bind (hx : Returns x P) (hk : ∀ a, P a → Returns (k a) Q) : Returns (x >>= k) Q := by
  cases x with
  | error e => exact error
  | ok a => exact hk a (hx a rfl)

theorem skip (hk : ∀ a, Returns (k a) Q) : Returns (x >>= k) Q :=
  bind (fun _ _ => trivial : Returns x fun _ => True) fun a _ => hk a

end Returns

theorem operations_formed (lastLine : Nat) :
    (∀ tokens, Returns (operation lastLine tokens) fun p => p.value.Formed) ∧
    (∀ tokens, Returns (operations lastLine tokens) fun p => ∀ node ∈ p.value, node.Formed) := by
  refine operation.mutual_induct _ _ ?goto ?noOffset ?add ?reduce ?display ?loop ?verbatim ?unknown
    ?other ?nil ?close ?cons
  case goto =>
    intro text line hword digits line' rest
    unfold operation
    simp only [hword]
    exact .skip fun _ => .pure (.of_leaf rfl rfl)
  case noOffset =>
    intro text line hword tokens hother
    unfold operation
    simp only [hword]
    exact .error
  case add | reduce | verbatim =>
    intro text line rest hword
    unfold operation
    simp only [hword]
    exact .skip fun _ => .pure (.of_leaf rfl rfl)
  case display =>
    intro text line rest hword
    unfold operation
    simp only [hword]
    exact .pure (.of_leaf rfl rfl)
  case loop =>
    intro text line rest hword hbody
    unfold operation
    simp only [hword]
    exact .skip fun opening => .bind (hbody opening) fun _ h => .pure (.of_body rfl h)
  case unknown =>
    intro text line rest hword
    unfold operation
    simp only [hword]
    exact .error
  case other =>
    intro tokens hother
    rw [operation]
    · exact .error
    · exact hother
  case nil =>
    rw [operations]
    exact .error
  case close =>
    intro token rest hclose
    rw [operations, if_pos hclose]
    exact .pure (by simp)
  case cons =>
    intro token rest hopen hfirst hmore
    rw [operations, if_neg hopen]
    exact .bind hfirst fun first h => .bind (hmore first) fun _ h' =>
      .pure (List.forall_mem_cons.2 ⟨h, h'⟩)

theorem statements_formed (lastLine : Nat) :
    (∀ tokens, Returns (statement lastLine tokens) fun p => p.value.Formed) ∧
    (∀ tokens, Returns (statements lastLine tokens) fun p => ∀ node ∈ p.value, node.Formed) := by
  refine statement.mutual_induct _ _ ?call ?function ?define ?set ?display ?input ?remove
    ?conditional ?loop ?unsafeBlock ?noSize ?unknown ?other ?nil ?close ?cons
  case call =>
    intro line rest
    rw [statement]
    exact .skip fun _ => .pure (.of_leaf rfl rfl)
  case function | conditional | loop =>
    intro text line rest hword hbody
    unfold statement
    simp only [hword]
    exact .skip fun first => .skip fun opening => .bind (hbody first opening) fun _ h =>
      .pure (.of_body rfl h)
  case define =>
    intro text line rest hword
    unfold statement
    simp only [hword]
    exact .skip fun _ => .skip fun _ => .pure (.of_leaf rfl rfl)
  case set =>
    intro text line rest hword
    unfold statement
    simp only [hword]
    exact .skip fun _ => .skip fun _ => .skip fun _ => .pure (.of_leaf rfl rfl)
  case display | input | remove =>
    intro text line rest hword
    unfold statement
    simp only [hword]
    exact .skip fun _ => .pure (.of_leaf rfl rfl)
  case unsafeBlock =>
    intro text line hword digits line' rest
    unfold statement
    simp only [hword]
    exact .skip fun _ => .skip fun opening =>
      .bind ((operations_formed lastLine).2 opening.rest) fun _ h => .pure (.of_body rfl h)
  case noSize =>
    intro text line hword tokens hother
    unfold statement
    simp only [hword]
    exact .error
  case unknown =>
    intro text line rest hword
    unfold statement
    simp only [hword]
    exact .error
  case other =>
    intro tokens hdollar hword
    rw [statement]
    · exact .error
    · exact hdollar
    · exact hword
  case nil =>
    rw [statements]
    exact .error
  case close =>
    intro token rest hclose
    rw [statements, if_pos hclose]
    exact .pure (by simp)
  case cons =>
    intro token rest hopen hfirst hmore
    rw [statements, if_neg hopen]
    exact .bind hfirst fun first h => .bind (hmore first) fun _ h' =>
      .pure (List.forall_mem_cons.2 ⟨h, h'⟩)

theorem program_formed {nodes : List Node} (h : program lastLine tokens = .ok nodes) :
    ∀ node ∈ nodes, node.Formed := by
  induction tokens using program.induct generalizing nodes with
  | case1 =>
      rw [program] at h
      cases h
      simp
  | case2 token rest ih =>
      obtain ⟨first, others, hfirst, hothers, rfl⟩ := program_cons_ok h
      exact List.forall_mem_cons.2
        ⟨(statements_formed lastLine).1 _ first hfirst, ih first hothers⟩

end Parser

namespace Scan

variable {p q : Cursor} {token : Option Token} {tokens : List Token}

theorem Step.line_le (h : Step p token q) : p.line ≤ q.line := by
  cases h <;> simp

theorem Run.line_le (h : Run p tokens q) : ∀ t ∈ tokens, p.line ≤ t.line := by
  induction h with
  | refl => simp
  | step hstep _ ih =>
      intro t ht
      rcases List.mem_append.1 ht with ht | ht
      · obtain ⟨_, -, hfound, -⟩ := hstep.passes
        exact Nat.le_of_eq (hfound t (Option.mem_toList.1 ht)).1.symm
      · exact Nat.le_trans hstep.line_le (ih t ht)

end Scan

section

variable {source : List CodePoint} {nodes : List Node} {node : Node}

theorem isStatement_of_parse (h : parse source = .ok nodes) (hnode : node.Within nodes) :
    node.isStatement = true := by
  obtain ⟨scanned, -, hprogram⟩ := parse_ok h
  exact hnode.formed (Parser.program_formed hprogram)

theorem line_pos_of_parse (h : parse source = .ok nodes) (hnode : node.Within nodes) :
    0 < node.line := by
  obtain ⟨scanned, hscan, hprogram⟩ := parse_ok h
  obtain ⟨q, hrun, -⟩ := Scan.scan_eq_ok_iff.1 hscan
  have htokens : scanned.tokens.map (Token.relined (max 1)) = scanned.tokens := by
    refine (List.map_congr_left fun t ht => ?_).trans (List.map_id _)
    have hline : 1 ≤ t.line := hrun.line_le t ht
    unfold Token.relined
    rw [Nat.max_eq_right hline]
    rfl
  have hsame := Parser.program_relined (f := max 1) (g := max 1) scanned.lastLine
    (fun n => by omega) hprogram
  rw [htokens, hprogram] at hsame
  have hfixed := Node.relined_of_within (Except.ok.inj hsame).symm hnode
  have hline := Node.line_relined (f := max 1) (isStatement_of_parse h hnode)
  rw [hfixed] at hline
  omega

end

end TapeCompiler
