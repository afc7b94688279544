import TapeCompiler.Proofs.Faults
import TapeCompiler.Proofs.Lines
import TapeCompiler.Proofs.Unwinding

set_option maxRecDepth 2000

namespace TapeCompiler

open Compile Compilation

namespace Compile

variable {α β : Type} {x : Compile α} {f : α → Compile β}

def Unlocated (x : Compile α) : Prop := ∀ c error d, x c = .error error d → error.line = 0

theorem Plain.unlocated (h : Plain (fun _ => True) x) : Unlocated x :=
  fun c error d herror => (h c error d herror).1

theorem Unlocated.bind (hx : Unlocated x) (hf : ∀ a, Unlocated (f a)) : Unlocated (x >>= f) := by
  intro c error d h
  rcases bind_error.1 h with h | ⟨a, e, -, h⟩
  · exact hx c error d h
  · exact hf a e error d h

theorem Unlocated.leaving (hx : Unlocated x) (left : α → β) :
    Unlocated (x >>= fun a => pure (left a)) :=
  hx.bind fun _ => (Plain.pure _).unlocated

theorem goto_unlocated (offset : Int) : Unlocated (goto offset) := by
  refine unsafePointer_plain.unlocated.bind fun address => Plain.get.unlocated.bind fun c => ?_
  dsimp only
  split
  · exact (Plain.fail rfl).unlocated
  · split
    · exact (Plain.modify _).unlocated
    · intro c error d h
      cases h
      rfl

theorem openUnsafeLoop_unlocated : Unlocated openUnsafeLoop := Plain.unlocated <|
  .bind unsafePointer_plain fun _ => .bind (.modify _) fun _ => .pure _

theorem openCall_unlocated (name : String) : Unlocated (openCall name) := Plain.unlocated <|
  .bind (enterFunction_plain name) fun _ => .bind .get fun _ => .bind (.modify _) fun _ => .pure _

theorem openBlock_unlocated (size : Int) : Unlocated (openBlock size) := by
  intro c error d h
  rw [openBlock_eq] at h
  split at h
  · cases h
    rfl
  · split at h
    · cases h
      rfl
    · cases h

theorem define_unlocated (name : String) (body : List Node) : Unlocated (define name body) :=
  Plain.unlocated (.bind (.modify _) fun _ => .modify _)

end Compile

namespace Job

variable {options : CompileOptions} {job : Job} {jobs : List Job} {c d : Compilation}
  {error : CompileError} {node : Node} {nodes body : List Node}

theorem openOperation_unlocated (options : CompileOptions) (node : Node) :
    Unlocated (openOperation options node) := by
  cases node
  case unsafeGoto line offset => exact (goto_unlocated offset).leaving _
  case unsafeAdd line amount =>
    exact (drainAmount_plain options amount .plus fun _ _ => trivial).unlocated.leaving _
  case unsafeReduce line amount =>
    exact (drainAmount_plain options amount .minus fun _ _ => trivial).unlocated.leaving _
  case unsafeShow line =>
    exact (unsafePointer_plain.bind fun _ => .modify _).unlocated.leaving _
  case unsafeLoop line body => exact openUnsafeLoop_unlocated.leaving _
  case verbatim line code =>
    exact (unsafePointer_plain.bind fun _ => .modify _).unlocated.leaving _
  all_goals exact (Plain.fail rfl).unlocated.leaving _

theorem openStatement_unlocated (options : CompileOptions) (node : Node) :
    Unlocated (openStatement options node) := by
  cases node
  case declare line name type length => exact (declare_plain name type length).unlocated.leaving _
  case assign line name index value =>
    exact (assign_plain options name (fun _ _ _ _ => trivial)
      fun _ _ => trivial).unlocated.leaving _
  case display line value => exact (display_plain options fun _ _ => trivial).unlocated.leaving _
  case input line name => exact (input_plain name).unlocated.leaving _
  case remove line name => exact (remove_plain name).unlocated.leaving _
  case conditional line test body =>
    exact (openLoop_plain options fun _ _ => trivial).unlocated.leaving _
  case loop line test body =>
    exact (openLoop_plain options fun _ _ => trivial).unlocated.leaving _
  case unsafeBlock line size body => exact (openBlock_unlocated size).leaving _
  case function line name body => exact (define_unlocated name body).leaving _
  case call line name => exact (openCall_unlocated name).leaving _
  all_goals
    unfold openStatement
    exact openOperation_unlocated options _

theorem run_unlocated (h : job.run options c = .error error d) : error.line = 0 := by
  cases job
  case statements nodes =>
    cases nodes with
    | nil => cases h
    | cons node rest =>
        rw [run] at h
        split at h
        · cases h
        · cases h
          rfl
  case statement node => exact openStatement_unlocated options node c error d h
  case operations nodes => cases nodes <;> cases h
  case operation node => exact openOperation_unlocated options node c error d h
  all_goals cases h

end Job

def Node.dump : Node := .unsafeBlock 0 1 [.verbatim 0 "&"]

def Node.Known (nodes : List Node) (node : Node) : Prop := node.Within nodes ∨ node = .dump

theorem Node.Known.member {nodes : List Node} {node outer : Node} (h : outer.Known nodes)
    (hne : outer ≠ .dump) (hnode : node ∈ outer.body) : node.Known nodes :=
  .inl ((h.resolve_right hne).member hnode)

def Functions.Known (nodes : List Node) (functions : Functions) : Prop :=
  ∀ {name : String} {body : List Node}, functions.bodies.find? name = some body →
    ∀ node ∈ body, node.Known nodes

theorem Functions.known_initial (nodes : List Node) : Functions.initial.Known nodes := by
  intro name body hbody node hnode
  unfold Functions.initial at hbody
  rw [Table.find?_insert] at hbody
  split at hbody
  · cases hbody
    exact .inr (List.mem_singleton.1 hnode)
  · rw [Table.find?_empty] at hbody
    cases hbody

namespace Job

def Awaits (nodes : List Node) : Job → Prop
  | statements more => ∀ node ∈ more, node.Known nodes
  | located _ | closeConditional _ | closeLoop _ | leaveFunction => True
  | _ => False

def Works (body : List Node) : Job → Prop
  | operations nodes => ∀ node ∈ nodes, node.Within body
  | operation node => node.Within body
  | closeUnsafeLoop _ | freeRegion .. => True
  | _ => False

variable {options : CompileOptions} {job : Job} {jobs : List Job} {c d : Compilation}
  {error : CompileError} {node : Node} {nodes body : List Node}

theorem Works.isInner (h : job.Works body) : job.isInner = true := by
  cases job <;> first | rfl | cases h

theorem Awaits.run (hjob : job.Awaits nodes) (h : job.run options c = .ok jobs d) :
    jobs = [] ∨ ∃ node more, node.Known nodes ∧ (statements more).Awaits nodes ∧
      jobs = [statement node, located node.line, statements more] := by
  cases job
  case statements more =>
    cases more with
    | nil => exact .inl (pure_ok.1 h).1.symm
    | cons node more =>
        obtain ⟨hnode, hmore⟩ := List.forall_mem_cons.1 hjob
        rw [Job.run] at h
        split at h
        · simp only [bind_ok, get_ok, record_ok, pure_ok] at h
          obtain ⟨_, _, -, _, _, -, rfl, -⟩ := h
          exact .inr ⟨node, more, hnode, hmore, rfl⟩
        · exact absurd h fail_ok
  case located line => exact .inl (pure_ok.1 h).1.symm
  all_goals first | exact .inl (done_ok h).1 | cases hjob

theorem Awaits.run_ok (hjob : job.Awaits nodes)
    (hformed : ∀ node : Node, node.Within nodes → node.isStatement = true) :
    job.run options c ≠ .error error d := by
  intro h
  cases job
  case statements more =>
    cases more with
    | nil => cases h
    | cons node more =>
        have hnode : node.isStatement = true := by
          rcases hjob node List.mem_cons_self with hwithin | rfl
          · exact hformed node hwithin
          · rfl
        rw [Job.run, if_pos hnode] at h
        cases h
  all_goals first | cases h | cases hjob

theorem isSome_of_context (h : d.context = c.context) (hc : c.unsafePointer.isSome = true) :
    d.unsafePointer.isSome = true := by
  rw [← hc]
  exact congrArg (·.unsafePointer.isSome) h

theorem openOperation_context (hnode : ∀ line offset, node ≠ .unsafeGoto line offset) :
    Fixes context (openOperation options node) := by
  cases node
  case unsafeGoto line offset => exact absurd rfl (hnode line offset)
  case unsafeAdd line amount =>
    exact .bind (drainAmount_fixes options amount .plus) fun _ => .pure _
  case unsafeReduce line amount =>
    exact .bind (drainAmount_fixes options amount .minus) fun _ => .pure _
  case unsafeShow line =>
    exact .bind (.bind unsafePointer_fixes fun _ =>
      .modify fun c => context_of_scope (by simp)) fun _ => .pure _
  case unsafeLoop line body => exact .bind openUnsafeLoop_fixes fun _ => .pure _
  case verbatim line code =>
    exact .bind (.bind unsafePointer_fixes fun _ => .modify fun _ => rfl) fun _ => .pure _
  all_goals exact .bind (.fail (by simp)) fun _ => .pure _

theorem openOperation_pointer (h : openOperation options node c = .ok jobs d)
    (hpointer : c.unsafePointer.isSome = true) : d.unsafePointer.isSome = true := by
  by_cases hgoto : ∃ line offset, node = .unsafeGoto line offset
  · obtain ⟨line, offset, rfl⟩ := hgoto
    obtain ⟨_, _, -, -, -, rfl⟩ := goto_ok (done_ok h).2
    rfl
  · have hnode : ∀ line offset, node ≠ .unsafeGoto line offset := by simpa using hgoto
    exact isSome_of_context ((openOperation_context hnode).ok h) hpointer

theorem Works.run (hjob : job.Works body) (hpointer : c.unsafePointer.isSome = true)
    (h : job.run options c = .ok jobs d) :
    (∀ t ∈ jobs, t.Works body) ∧ d.unsafePointer.isSome = true := by
  cases job
  case operations nodes =>
    cases nodes with
    | nil =>
        obtain ⟨rfl, rfl⟩ := pure_ok.1 h
        exact ⟨by simp, hpointer⟩
    | cons node rest =>
        obtain ⟨rfl, rfl⟩ := pure_ok.1 h
        obtain ⟨hnode, hrest⟩ := List.forall_mem_cons.1 hjob
        exact ⟨List.forall_mem_cons.2 ⟨hnode, List.forall_mem_singleton.2 hrest⟩, hpointer⟩
  case operation node =>
    refine ⟨?_, openOperation_pointer h hpointer⟩
    cases node
    case unsafeLoop line inner =>
      simp only [Job.run, openOperation, bind_ok, pure_ok] at h
      obtain ⟨entry, _, -, rfl, -⟩ := h
      exact List.forall_mem_cons.2 ⟨fun node hnode => Node.Within.member hjob hnode,
        List.forall_mem_singleton.2 trivial⟩
    all_goals simp [(done_ok h).1]
  case closeUnsafeLoop entry =>
    obtain ⟨rfl, hd⟩ := done_ok h
    rw [Compile.closeUnsafeLoop, modify_ok] at hd
    subst hd
    exact ⟨by simp, rfl⟩
  case freeRegion start size =>
    obtain ⟨rfl, hd⟩ := done_ok h
    rw [modify_ok] at hd
    subst hd
    exact ⟨by simp, isSome_of_context (context_of_scope (by simp)) hpointer⟩
  all_goals cases hjob

theorem Works.run_error (hjob : job.Works body) (h : job.run options c = .error error d) :
    ∃ node, job = .operation node ∧ node.Within body := by
  cases job
  case operations nodes => cases nodes <;> cases h
  case operation node => exact ⟨node, rfl, hjob⟩
  all_goals first | cases h | cases hjob

theorem awaits_body (hbody : ∀ node ∈ body, node.Known nodes) (hjob : job.Awaits nodes) :
    ∀ t ∈ [statements body, job], t.Awaits nodes :=
  List.forall_mem_cons.2 ⟨hbody, List.forall_mem_singleton.2 hjob⟩

theorem openStatement_awaits (hnode : node.Known nodes) (hfunctions : c.functions.Known nodes)
    (hpointer : c.unsafePointer = none) (h : openStatement options node c = .ok jobs d) :
    (∀ t ∈ jobs, t.Awaits nodes) ∨ ∃ line size body start, node = .unsafeBlock line size body ∧
      jobs = [operations body, freeRegion start size, leaveBlock] ∧
      d.unsafePointer.isSome = true := by
  cases node
  case conditional line test body =>
    simp only [openStatement, bind_ok, pure_ok] at h
    obtain ⟨address, _, -, rfl, -⟩ := h
    exact .inl (awaits_body (fun _ h => hnode.member (by simp [Node.dump]) h) trivial)
  case loop line test body =>
    simp only [openStatement, bind_ok, pure_ok] at h
    obtain ⟨address, _, -, rfl, -⟩ := h
    exact .inl (awaits_body (fun _ h => hnode.member (by simp [Node.dump]) h) trivial)
  case unsafeBlock line size body =>
    simp only [openStatement, bind_ok, pure_ok] at h
    obtain ⟨start, _, hopen, rfl, rfl⟩ := h
    obtain ⟨-, -, rfl⟩ := openBlock_ok hopen
    exact .inr ⟨line, size, body, start, rfl, rfl,
      isSome_of_context (context_of_scope (scope_moveTo _ _)) rfl⟩
  case call line name =>
    simp only [openStatement, openCall, bind_ok, get_ok, record_ok, pure_ok] at h
    obtain ⟨body, _, ⟨_, e, henter, _, _, ⟨rfl, rfl⟩, _, _, rfl, rfl, rfl⟩, rfl, rfl⟩ := h
    obtain ⟨functions, hentered, rfl⟩ := enterFunction_ok.1 henter
    exact .inl (awaits_body (hfunctions (Functions.enter_ok.1 hentered).1) trivial)
  all_goals first
    | exact .inl (by simp [(done_ok h).1])
    | rw [openStatement_operation rfl, openOperation_outside rfl hpointer] at h
      cases h

theorem Moves.known {functions functions' : Functions} (h : Moves job functions jobs functions')
    (hjob : ∀ node, job = .statement node → node.Known nodes) (hfunctions : functions.Known nodes) :
    functions'.Known nodes := by
  cases h with
  | keep => exact hfunctions
  | @define _ line name body =>
      intro other found hfound
      change (functions.bodies.insert name body).find? other = some found at hfound
      rw [Table.find?_insert] at hfound
      split at hfound
      · cases hfound
        exact fun node hnode => (hjob _ rfl).member (by simp [Node.dump]) hnode
      · exact hfunctions hfound
  | enter henter =>
      obtain ⟨-, -, rfl⟩ := Functions.enter_ok.1 henter
      exact hfunctions
  | leave => exact hfunctions

theorem dump_opens (hpointer : c.unsafePointer = none) :
    (statement .dump).run options c ≠ .error error d := by
  intro h
  rcases bind_error.1 h with h | ⟨_, _, -, h⟩
  · rw [openBlock_eq, if_neg (by decide), if_neg (by simp [hpointer])] at h
    cases h
  · cases h

theorem dump_works (hnode : node.Within Node.dump.body) (hpointer : c.unsafePointer.isSome = true) :
    (operation node).run options c ≠ .error error d := by
  intro h
  have hverbatim : node = .verbatim 0 "&" := by
    cases hnode with
    | here h => exact List.mem_singleton.1 h
    | inside houter h =>
        cases List.mem_singleton.1 houter
        cases h with
        | here h => cases h
        | inside h => cases h
  subst hverbatim
  obtain ⟨p, hp⟩ := Option.isSome_iff_exists.1 hpointer
  have hok : Compile.unsafePointer c = .ok p c := unsafePointer_ok.2 ⟨hp, rfl⟩
  rcases bind_error.1 h with h | ⟨_, _, -, h⟩
  · rcases bind_error.1 h with h | ⟨_, _, -, h⟩
    · cases hok.symm.trans h
    · cases h
  · cases h

end Job

namespace Agenda

variable {options : CompileOptions} {nodes : List Node}

inductive Place (options : CompileOptions) (nodes : List Node) : List Job → Compilation → Prop where
  | between {jobs : List Job} {c : Compilation} (hjobs : ∀ job ∈ jobs, job.Awaits nodes) :
      Place options nodes jobs c
  | before {node : Node} {rest : List Job} {c : Compilation} (hnode : node.Known nodes)
      (hrest : ∀ job ∈ rest, job.Awaits nodes) :
      Place options nodes (.statement node :: .located node.line :: rest) c
  | inside {line size : Int} {body : List Node} {inner rest : List Job} {c d : Compilation}
      (hblock : (Node.unsafeBlock line size body).Known nodes)
      (hinner : ∀ job ∈ inner, job.Works body) (hrest : ∀ job ∈ rest, job.Awaits nodes)
      (hpointer : d.unsafePointer.isSome = true)
      (hmet : Reaches options (start nodes .initial)
        ⟨none, .statement (.unsafeBlock line size body) :: .located line :: rest, c⟩)
      (hway : Reaches options
        ⟨none, .statement (.unsafeBlock line size body) :: .located line :: rest, c⟩
        ⟨none, inner ++ .leaveBlock :: .located line :: rest, d⟩) :
      Place options nodes (inner ++ .leaveBlock :: .located line :: rest) d

variable {s : Agenda} {job : Job} {jobs rest : List Job} {c d : Compilation} {error : CompileError}

theorem Reaches.run (h : Reaches options s ⟨none, job :: rest, c⟩)
    (hrun : job.run options c = .ok jobs d) : Reaches options s ⟨none, jobs ++ rest, d⟩ := by
  refine h.trans (.step ?_)
  rw [step_ok rest hrun]
  exact .refl

theorem Place.run (h : Place options nodes (job :: rest) c)
    (hmet : Reaches options (start nodes .initial) ⟨none, job :: rest, c⟩)
    (hfunctions : c.functions.Known nodes)
    (houtside : job.isOuter = true → c.unsafePointer = none)
    (hrun : job.run options c = .ok jobs d) : Place options nodes (jobs ++ rest) d := by
  generalize hall : job :: rest = all at h
  cases h with
  | between hjobs =>
      subst hall
      obtain ⟨hjob, hrest⟩ := List.forall_mem_cons.1 hjobs
      rcases hjob.run hrun with rfl | ⟨node, more, hnode, hmore, rfl⟩
      · exact .between hrest
      · exact .before hnode (List.forall_mem_cons.2 ⟨hmore, hrest⟩)
  | @before node rest _ hnode hrest =>
      cases hall
      have hwaiting : ∀ job ∈ Job.located node.line :: rest, job.Awaits nodes :=
        List.forall_mem_cons.2 ⟨trivial, hrest⟩
      rcases Job.openStatement_awaits hnode hfunctions (houtside rfl) hrun with
        hjobs | ⟨line, size, body, start, rfl, rfl, hpointer⟩
      · exact .between (List.forall_mem_append.2 ⟨hjobs, hwaiting⟩)
      · have hinner : ∀ job ∈ [Job.operations body, .freeRegion start size], job.Works body :=
          List.forall_mem_cons.2 ⟨fun _ h => .here h, List.forall_mem_singleton.2 trivial⟩
        have hentered : Reaches options
            ⟨none, .statement (.unsafeBlock line size body) :: .located line :: rest, c⟩
            ⟨none, _, d⟩ := .run .refl hrun
        exact .inside hnode hinner hrest hpointer hmet hentered
  | @inside line size body inner rest e _ hblock hinner hrest hpointer hblockmet hway =>
      cases inner with
      | nil =>
          cases hall
          obtain ⟨rfl, -⟩ := Job.done_ok hrun
          exact .between (List.forall_mem_cons.2 ⟨trivial, hrest⟩)
      | cons first inner =>
          obtain ⟨rfl, rfl⟩ := List.cons.inj hall
          obtain ⟨hfirst, hothers⟩ := List.forall_mem_cons.1 hinner
          obtain ⟨hleft, hopen⟩ := hfirst.run hpointer hrun
          have hreached := hway.run hrun
          rw [List.append_eq, ← List.append_assoc] at hreached ⊢
          exact .inside hblock (List.forall_mem_append.2 ⟨hleft, hothers⟩) hrest hopen hblockmet
            hreached

theorem Place.run_error (h : Place options nodes (job :: rest) c)
    (hformed : ∀ node : Node, node.Within nodes → node.isStatement = true)
    (houtside : job.isOuter = true → c.unsafePointer = none)
    (hrun : job.run options c = .error error d) :
    (∃ node more, job = .statement node ∧ rest = .located node.line :: more ∧
      node.Within nodes) ∨
    ∃ line size body node inner more e, job = .operation node ∧
      rest = inner ++ .leaveBlock :: .located line :: more ∧
      (Node.unsafeBlock line size body).Within nodes ∧ node.Within body ∧
      (∀ job ∈ inner, job.isInner = true) ∧
      Reaches options (start nodes .initial)
        ⟨none, .statement (.unsafeBlock line size body) :: .located line :: more, e⟩ ∧
      Reaches options ⟨none, .statement (.unsafeBlock line size body) :: .located line :: more, e⟩
        ⟨none, job :: rest, c⟩ := by
  generalize hall : job :: rest = all at h ⊢
  cases h with
  | between hjobs =>
      subst hall
      exact absurd hrun ((List.forall_mem_cons.1 hjobs).1.run_ok hformed)
  | @before node rest _ hnode hrest =>
      cases hall
      -- No block is open where a statement comes, so the one that was not parsed can be opened.
      rcases hnode with hwithin | rfl
      · exact .inl ⟨node, rest, rfl, rfl, hwithin⟩
      · exact absurd hrun (Job.dump_opens (houtside rfl))
  | @inside line size body inner rest e _ hblock hinner hrest hpointer hblockmet hway =>
      cases inner with
      | nil =>
          cases hall
          cases hrun
      | cons first inner =>
          cases hall
          obtain ⟨hfirst, hothers⟩ := List.forall_mem_cons.1 hinner
          obtain ⟨node, rfl, hnode⟩ := hfirst.run_error hrun
          rcases hblock with hwithin | hdump
          · exact .inr ⟨line, size, body, node, inner, rest, e, rfl, rfl, hwithin, hnode,
              fun job hjob => (hothers job hjob).isInner, hblockmet, hway⟩
          · cases hdump
            exact absurd hrun (Job.dump_works hnode hpointer)

theorem Place.known {node : Node} (h : Place options nodes (.statement node :: rest) c) :
    node.Known nodes := by
  generalize hall : Job.statement node :: rest = all at h
  cases h with
  | between hjobs =>
      subst hall
      cases hjobs _ List.mem_cons_self
  | before hnode =>
      cases hall
      exact hnode
  | @inside _ _ _ inner _ _ _ _ hinner =>
      cases inner with
      | nil => cases hall
      | cons first inner =>
          cases hall
          cases hinner _ List.mem_cons_self

structure Tracked (options : CompileOptions) (nodes : List Node) (s : Agenda) : Prop where
  met : Reaches options (start nodes .initial) s
  sheltered : s.Sheltered
  functions : s.raised = none → s.state.functions.Known nodes
  place : s.raised = none → Place options nodes s.jobs s.state

theorem Tracked.start (nodes : List Node) : Tracked options nodes (start nodes .initial) where
  met := .refl
  sheltered := .start nodes rfl rfl
  functions _ := Functions.known_initial nodes
  place _ := .between (List.forall_mem_singleton.2 fun _ h => .inl (.here h))

theorem Tracked.step (h : Tracked options nodes s) : Tracked options nodes (s.step options) := by
  obtain ⟨hmet, hsheltered, hfunctions, hplace⟩ := h
  have hnext : (s.step options).raised = none → (s.step options).state.functions.Known nodes ∧
      Place options nodes (s.step options).jobs (s.step options).state := by
    intro hraised
    obtain ⟨raised, jobs, c⟩ := s
    cases jobs with
    | nil => exact ⟨hfunctions hraised, hplace hraised⟩
    | cons job rest =>
        cases raised with
        | some error => cases hraised
        | none =>
            cases hrun : job.run options c with
            | error error d =>
                rw [step_error rest hrun] at hraised
                cases hraised
            | ok jobs d =>
                rw [step_ok rest hrun]
                have hhere := hplace rfl
                refine ⟨(Job.run_moves hrun).known ?_ (hfunctions rfl),
                  hhere.run hmet (hfunctions rfl) (hsheltered.outside rfl) hrun⟩
                rintro node rfl
                exact hhere.known
  exact ⟨hmet.trans (.step .refl), hsheltered.step, fun h => (hnext h).1, fun h => (hnext h).2⟩

theorem tracked_after (options : CompileOptions) (nodes : List Node) (n : Nat) :
    Tracked options nodes ((start nodes .initial).after options n) :=
  after_invariant (fun h => h.step) (.start nodes) n

def passed (jobs : List Job) (error : CompileError) : CompileError :=
  jobs.foldl (fun error job => job.locate error) error

theorem after_raised {n : Nat} (h : (after options n ⟨some error, jobs, c⟩).jobs = []) :
    (after options n ⟨some error, jobs, c⟩).raised = some (passed jobs error) := by
  induction n generalizing error jobs c with
  | zero =>
      have hjobs : jobs = [] := h
      subst hjobs
      rfl
  | succ n ih =>
      cases jobs with
      | nil => exact ih h
      | cons job rest => exact ih h

theorem passed_of_line (h : error.line ≠ 0) : passed jobs error = error := by
  induction jobs with
  | nil => rfl
  | cons job rest ih =>
      have hjob : job.locate error = error := by
        cases job <;> first | rfl | exact if_neg h
      rw [passed, List.foldl_cons, hjob]
      exact ih

theorem passed_located {line : Int} (h : error.line = 0) (hline : line ≠ 0) :
    passed (.located line :: rest) error = ⟨error.fault, line⟩ := by
  have hlocate : Job.locate (.located line) error = ⟨error.fault, line⟩ := if_pos h
  rw [passed, List.foldl_cons, hlocate]
  exact passed_of_line hline

theorem passed_inner {inner : List Job} (h : ∀ job ∈ inner, job.isInner = true) :
    passed (inner ++ .leaveBlock :: rest) error = passed rest error := by
  induction inner with
  | nil => rfl
  | cons job inner ih =>
      obtain ⟨hjob, hinner⟩ := List.forall_mem_cons.1 h
      have hsame : job.locate error = error := by
        cases job <;> first | rfl | cases hjob
      rw [List.cons_append, passed, List.foldl_cons, hsame]
      exact ih hinner

theorem exists_raising {n : Nat} (hstart : s.raised = none)
    (hend : (s.after options n).raised = some error) : ∃ m job rest c cause d k,
    s.after options m = ⟨none, job :: rest, c⟩ ∧ job.run options c = .error cause d ∧
      s.after options n = after options k ⟨some cause, rest, d⟩ := by
  induction n generalizing s with
  | zero => cases hstart.symm.trans hend
  | succ n ih =>
      obtain ⟨raised, jobs, c⟩ := s
      cases hstart
      cases jobs with
      | nil =>
          obtain ⟨m, hm⟩ := ih (s := ⟨none, [], c⟩) rfl hend
          exact ⟨m, hm⟩
      | cons job rest =>
          cases hrun : job.run options c with
          | error cause d =>
              refine ⟨0, job, rest, c, cause, d, n, rfl, hrun, ?_⟩
              rw [after, step_error rest hrun]
          | ok jobs d =>
              have hstep := step_ok rest hrun
              rw [after, hstep] at hend
              obtain ⟨m, job', rest', c', cause, d', k, hm, hcause, hk⟩ := ih rfl hend
              refine ⟨m + 1, job', rest', c', cause, d', k, ?_, hcause, ?_⟩
              · rw [after, hstep, hm]
              · rw [after, hstep, hk]

end Agenda

namespace Node

open Agenda

/-- In a compilation of `nodes` it is the turn of a statement, and what it starts with fails, before
any statement inside it is started. -/
def Raises (options : CompileOptions) (nodes : List Node) (node : Node) (fault : CompileFault) :
    Prop := ∃ rest c d, Reaches options (start nodes .initial) ⟨none, .statement node :: rest, c⟩ ∧
  Job.run options (.statement node) c = .error ⟨fault, 0⟩ d

def RaisesIn (options : CompileOptions) (nodes : List Node) (block node : Node)
    (fault : CompileFault) : Prop := ∃ inner outer c d e,
  Reaches options (start nodes .initial) ⟨none, .statement block :: outer, c⟩ ∧
  Reaches options ⟨none, .statement block :: outer, c⟩
    ⟨none, .operation node :: inner ++ .leaveBlock :: outer, d⟩ ∧
  (∀ job ∈ inner, job.isInner = true) ∧
  Job.run options (.operation node) d = .error ⟨fault, 0⟩ e

theorem raises_of_error {options : CompileOptions} {nodes : List Node} {c d : Compilation}
    {error : CompileError}
    (hstatement : ∀ node : Node, node.Within nodes → node.isStatement = true)
    (hline : ∀ node : Node, node.Within nodes → node.line ≠ 0)
    (h : program options nodes c = .error error d) :
    (∃ node : Node, node.Within nodes ∧ node.Raises options nodes error.fault ∧
      error.line = node.line) ∨
    ∃ size body node, (unsafeBlock error.line size body).Within nodes ∧ node.Within body ∧
      RaisesIn options nodes (unsafeBlock error.line size body) node error.fault := by
  obtain ⟨n, hjobs, hresult⟩ := program_ends options nodes
  have hraised : ((start nodes .initial).after options n).raised = some error := by
    rw [hresult c] at h
    unfold Agenda.result at h
    split at h
    · cases h
    · rename_i raised hraised
      cases h
      exact hraised
  -- The error is the one that some job raised, and has since passed the jobs behind that one.
  obtain ⟨m, job, rest, e, cause, f, k, hm, hrun, hk⟩ := exists_raising rfl hraised
  rw [hk] at hjobs hraised
  have herror : error = passed rest cause :=
    Option.some.inj (hraised.symm.trans (after_raised hjobs))
  have hzero := Job.run_unlocated hrun
  have hcause : cause = ⟨cause.fault, 0⟩ := by rw [← hzero]
  obtain ⟨hmet, hsheltered, -, hplace⟩ := hm ▸ tracked_after options nodes m
  rcases (hplace rfl).run_error hstatement (hsheltered.outside rfl) hrun with
    ⟨node, more, rfl, rfl, hwithin⟩ |
    ⟨line, size, body, node, inner, more, b, rfl, rfl, hwithin, hnode, hinner, hblock, hway⟩
  · rw [passed_located hzero (hline node hwithin)] at herror
    subst herror
    exact .inl ⟨node, hwithin, ⟨_, e, f, hmet, hcause ▸ hrun⟩, rfl⟩
  · have hblockline : line ≠ 0 := hline _ hwithin
    rw [passed_inner hinner, passed_located hzero hblockline] at herror
    subst herror
    exact .inr ⟨size, body, node, hwithin, hnode, inner, _, b, e, f, hblock, hway, hinner,
      hcause ▸ hrun⟩

end Node

theorem compileSource_error_iff {options : CompileOptions} {source : List CodePoint}
    {nodes : List Node}
    {failure : Failure} {events : List Event} (hparse : parse source = .ok nodes) :
    compileSource options source = (.error failure, events) ↔
      ∃ error d, program options nodes .initial = .error error d ∧
        error.failure source = failure ∧ d.events.toList = events := by
  simp only [compileSource, hparse, compileTree]
  cases program options nodes .initial with
  | ok u d => simp
  | error error d => simp

theorem error_line {options : CompileOptions} {source : List CodePoint} {nodes : List Node}
    {failure : Failure} {events : List Event} (hparse : parse source = .ok nodes)
    (h : compileSource options source = (.error failure, events)) : ∃ fault line,
    failure = CompileError.failure source ⟨fault, line⟩ ∧
    (∀ kind diagnostic, failure = .program kind diagnostic → diagnostic.line = line) ∧
    ((∃ node : Node, node.Within nodes ∧ node.Raises options nodes fault ∧ line = node.line) ∨
      ∃ size body node, (Node.unsafeBlock line size body).Within nodes ∧ node.Within body ∧
        Node.RaisesIn options nodes (.unsafeBlock line size body) node fault) := by
  obtain ⟨⟨fault, line⟩, d, hprogram, rfl, -⟩ := (compileSource_error_iff hparse).1 h
  refine ⟨fault, line, rfl, fun kind diagnostic hfailure => ?_, ?_⟩
  · unfold CompileError.failure at hfailure
    split at hfailure
    · cases hfailure
    · cases hfailure
      rfl
  · exact Node.raises_of_error (fun node hnode => isStatement_of_parse hparse hnode)
      (fun node hnode => Int.ne_of_gt (line_pos_of_parse hparse hnode)) hprogram

theorem error_line_called : ∃ nodes diagnostic events fault line,
    parse "function f \x7b\n loop x \x7b\n $g\n\x7d\n\x7d\ndefine x\n$f" = .ok nodes ∧
    compileSource ⟨false, false⟩
      "function f \x7b\n loop x \x7b\n $g\n\x7d\n\x7d\ndefine x\n$f" =
      (.error (.program .unknownFunction diagnostic), events) ∧
    diagnostic.line = 3 ∧ line = 3 ∧
    ((∃ node : Node, node.Within nodes ∧ node.Raises ⟨false, false⟩ nodes fault ∧
        line = node.line) ∨
      ∃ size body node, (Node.unsafeBlock line size body).Within nodes ∧ node.Within body ∧
        Node.RaisesIn ⟨false, false⟩ nodes (.unsafeBlock line size body) node fault) := by
  let nodes : List Node := [.function 1 "f" [.loop 2 (.var "x" none) [.call 3 "g"]],
    .declare 6 "x" .number none, .call 7 "f"]
  have hparse : parse "function f \x7b\n loop x \x7b\n $g\n\x7d\n\x7d\ndefine x\n$f" =
      .ok nodes := by cbv
  obtain ⟨d, hprogram⟩ : ∃ d, program ⟨false, false⟩ nodes .initial =
      .error ⟨.unknownFunction "g", 3⟩ d := ⟨_, rfl⟩
  have hcompile := (compileSource_error_iff hparse).2 ⟨_, d, hprogram, rfl, rfl⟩
  obtain ⟨fault, line, -, hline, hraised⟩ := error_line hparse hcompile
  exact ⟨nodes, _, _, fault, line, hparse, hcompile, rfl, (hline _ _ rfl).symm, hraised⟩

theorem operation_line_lost : ∃ diagnostic events,
    parse "unsafe 1 \x7b\n goto 5\n\x7d" = .ok [.unsafeBlock 1 1 [.unsafeGoto 2 5]] ∧
    compileSource ⟨false, false⟩ "unsafe 1 \x7b\n goto 5\n\x7d" =
      (.error (.program .unsafeContext diagnostic), events) ∧
    diagnostic.line = 1 ∧
    Node.RaisesIn ⟨false, false⟩ [.unsafeBlock 1 1 [.unsafeGoto 2 5]]
      (.unsafeBlock 1 1 [.unsafeGoto 2 5]) (.unsafeGoto 2 5) (.leavesRegion 5 5 1) := by
  have hparse : parse "unsafe 1 \x7b\n goto 5\n\x7d" =
      .ok [.unsafeBlock 1 1 [.unsafeGoto 2 5]] := by cbv
  obtain ⟨d, hprogram⟩ : ∃ d, program ⟨false, false⟩ [.unsafeBlock 1 1 [.unsafeGoto 2 5]] .initial =
      .error ⟨.leavesRegion 5 5 1, 1⟩ d := ⟨_, rfl⟩
  have hwritable : (CompileFault.leavesRegion 5 5 1).kind = .ok .unsafeContext := by decide +kernel
  have hcompile := (compileSource_error_iff hparse).2 ⟨_, d, hprogram, rfl, rfl⟩
  simp only [CompileError.failure, hwritable] at hcompile
  exact ⟨_, _, hparse, hcompile, rfl, [.operations [], .freeRegion 0 1],
    [.located 1, .statements []], _, _, _, ⟨1, rfl⟩, ⟨2, rfl⟩, by decide, rfl⟩

end TapeCompiler
