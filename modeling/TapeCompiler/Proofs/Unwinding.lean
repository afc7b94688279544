import TapeCompiler.Proofs.Termination

namespace TapeCompiler

open Compile Compilation

namespace Job

variable {options : CompileOptions} {job : Job} {jobs : List Job} {c d : Compilation}
  {error : CompileError} {node : Node}

theorem openOperation_outside (hnode : node.isUnsafeOperation = true)
    (hnone : c.unsafePointer = none) :
    openOperation options node c = .error ⟨.outsideBlock, 0⟩ c := by
  have hpointer : Compile.unsafePointer c = .error ⟨.outsideBlock, 0⟩ c := by
    refine bind_error.2 (.inr ⟨c, c, rfl, ?_⟩)
    rw [hnone]
    rfl
  cases node <;> first | exact bind_error.2 (.inl (bind_error.2 (.inl hpointer))) | cases hnode

theorem openOperation_unknown (hnode : node.isUnsafeOperation = false) :
    openOperation options node c = .error ⟨.unknownOperation node.kind, 0⟩ c := by
  cases node <;> first | rfl | cases hnode

theorem run_inner (hjob : job.isInner = true) (h : job.run options c = .ok jobs d) :
    ∀ t ∈ jobs, t.isInner = true := by
  cases job
  case operations nodes =>
    cases nodes with
    | nil =>
        obtain ⟨rfl, -⟩ := pure_ok.1 h
        simp
    | cons node rest =>
        obtain ⟨rfl, -⟩ := pure_ok.1 h
        simp [isInner]
  case operation node => exact fun t ht => (openOperation_left h t ht).1
  case closeUnsafeLoop entry => simp [(done_ok h).1]
  case freeRegion start size => simp [(done_ok h).1]
  all_goals cases hjob

theorem run_left (hjob : job.keepsContext = true) (h : job.run options c = .ok jobs d) :
    ∀ t ∈ jobs, t.isOuter = true := by
  cases job
  case statements nodes =>
    cases nodes with
    | nil => simp [(pure_ok.1 h).1.symm]
    | cons node rest =>
        rw [run] at h
        split at h
        · simp only [bind_ok, get_ok, record_ok, pure_ok] at h
          obtain ⟨_, _, -, _, _, -, rfl, -⟩ := h
          simp [isOuter]
        · exact absurd h fail_ok
  case statement node => exact fun t ht => (openStatement_left hjob h t ht).1
  case located line => simp [(pure_ok.1 h).1.symm]
  case closeConditional address => simp [(done_ok h).1]
  case closeLoop address => simp [(done_ok h).1]
  all_goals cases hjob

theorem outer_cases (hjob : job.isOuter = true) (hkeeps : ¬job.keepsContext = true) :
    (∃ line size body, job = .statement (.unsafeBlock line size body)) ∨
      (∃ line name body, job = .statement (.function line name body)) ∨
      (∃ line name, job = .statement (.call line name)) ∨
      (∃ node, node.isUnsafeOperation = true ∧ job = .statement node) ∨ job = .leaveFunction := by
  cases job
  case statement node => cases node <;> simp_all [keepsContext, Node.keepsContext]
  all_goals simp_all [keepsContext, isOuter]

theorem run_outer (hjob : job.isOuter = true) (hpointer : c.unsafePointer = none)
    (hregion : c.unsafeRegion = none) (h : job.run options c = .ok jobs d) :
    ((∀ t ∈ jobs, t.isOuter = true) ∧ d.unsafePointer = none ∧ d.unsafeRegion = none) ∨
      ∃ inner, jobs = inner ++ [.leaveBlock] ∧ ∀ t ∈ inner, t.isInner = true := by
  by_cases hkeeps : job.keepsContext = true
  · have hcontext := (run_fixes options hkeeps).ok h
    exact .inl ⟨run_left hkeeps h, (congrArg Context.unsafePointer hcontext).trans hpointer,
      (congrArg Context.unsafeRegion hcontext).trans hregion⟩
  · rcases outer_cases hjob hkeeps with ⟨line, size, body, rfl⟩ | ⟨line, name, body, rfl⟩ |
      ⟨line, name, rfl⟩ | ⟨node, hnode, rfl⟩ | rfl
    · simp only [run, openStatement, bind_ok, pure_ok] at h
      obtain ⟨start, _, -, rfl, -⟩ := h
      exact .inr ⟨[.operations body, .freeRegion start size], rfl, by simp [isInner]⟩
    · obtain ⟨rfl, hd⟩ := done_ok h
      simp only [Compile.define, bind_ok, record_ok, modify_ok] at hd
      obtain ⟨_, _, rfl, rfl⟩ := hd
      exact .inl ⟨by simp, hpointer, hregion⟩
    · simp only [run, openStatement, openCall, bind_ok, get_ok, record_ok, pure_ok] at h
      obtain ⟨body, _, ⟨_, e, henter, _, _, ⟨rfl, rfl⟩, _, _, rfl, rfl, rfl⟩, rfl, rfl⟩ := h
      obtain ⟨functions, -, rfl⟩ := enterFunction_ok.1 henter
      exact .inl ⟨by simp [isOuter], hpointer, hregion⟩
    · rw [run, openStatement_operation hnode, openOperation_outside hnode hpointer] at h
      cases h
    · obtain ⟨rfl, hd⟩ := done_ok h
      rw [modify_ok] at hd
      subst hd
      exact .inl ⟨by simp, hpointer, hregion⟩

theorem run_outer_error (hjob : job.isOuter = true) (hpointer : c.unsafePointer = none)
    (h : job.run options c = .error error d) :
    d.unsafePointer = c.unsafePointer ∧ d.unsafeRegion = c.unsafeRegion ∧
      error.fault ≠ .nestedBlock := by
  by_cases hkeeps : job.keepsContext = true
  · obtain ⟨hcontext, hfault⟩ := (run_fixes options hkeeps).error h
    exact ⟨congrArg Context.unsafePointer hcontext, congrArg Context.unsafeRegion hcontext, hfault⟩
  · rcases outer_cases hjob hkeeps with ⟨line, size, body, rfl⟩ | ⟨line, name, body, rfl⟩ |
      ⟨line, name, rfl⟩ | ⟨node, hnode, rfl⟩ | rfl
    · rcases bind_error.1 h with h | ⟨_, _, -, h⟩
      · obtain ⟨rfl, hfault⟩ := openBlock_error h
        exact ⟨rfl, rfl, hfault hpointer⟩
      · cases h
    · cases h
    · rcases bind_error.1 h with h | ⟨_, _, -, h⟩
      · obtain ⟨rfl, hfault⟩ := openCall_error h
        exact ⟨rfl, rfl, hfault⟩
      · cases h
    · rw [run, openStatement_operation hnode, openOperation_outside hnode hpointer] at h
      cases h
      exact ⟨rfl, rfl, by simp⟩
    · cases h

theorem isInner_of_isOuter (hjob : job.isOuter = true) : job.isInner = false := by
  cases job <;> first | rfl | cases hjob

theorem fault_locate (job : Job) (error : CompileError) :
    (job.locate error).fault = error.fault := by
  cases job <;> try rfl
  simp only [locate, CompileError.locate]
  split <;> rfl

end Job

namespace Agenda

variable {options : CompileOptions} {s : Agenda}

structure Outside (s : Agenda) : Prop where
  jobs : ∀ job ∈ s.jobs, job.isOuter = true
  pointer : s.state.unsafePointer = none
  region : s.state.unsafeRegion = none

def Inside (s : Agenda) : Prop := ∃ inner outer, s.jobs = inner ++ .leaveBlock :: outer ∧
  (∀ job ∈ inner, job.isInner = true) ∧ ∀ job ∈ outer, job.isOuter = true

structure Sheltered (s : Agenda) : Prop where
  place : s.Outside ∨ s.Inside
  unnested : ∀ error, s.raised = some error → error.fault ≠ .nestedBlock

theorem Outside.step (h : s.Outside) (hraised : ∀ error, s.raised = some error →
    error.fault ≠ .nestedBlock) : (s.step options).Sheltered := by
  obtain ⟨raised, jobs, c⟩ := s
  obtain ⟨hjobs, hpointer, hregion⟩ := h
  cases jobs with
  | nil => exact ⟨.inl ⟨hjobs, hpointer, hregion⟩, hraised⟩
  | cons job rest =>
      obtain ⟨hjob, hrest⟩ := List.forall_mem_cons.1 hjobs
      cases raised with
      | none =>
          rw [Agenda.step]
          split
          · rename_i jobs d hrun
            refine ⟨?_, fun error herror => by cases herror⟩
            rcases Job.run_outer hjob hpointer hregion hrun with
              ⟨hnew, hp, hr⟩ | ⟨inner, rfl, hinner⟩
            · exact .inl ⟨fun t ht => (List.mem_append.1 ht).elim (hnew t) (hrest t), hp, hr⟩
            · exact .inr ⟨inner, rest, by simp, hinner, hrest⟩
          · rename_i error d hrun
            obtain ⟨hp, hr, hfault⟩ := Job.run_outer_error hjob hpointer hrun
            exact ⟨.inl ⟨hrest, hp.trans hpointer, hr.trans hregion⟩, fun e he => by
              cases he
              exact hfault⟩
      | some error =>
          have hleave : (job.leave c).unsafePointer = none ∧ (job.leave c).unsafeRegion = none := by
            cases job <;> first | exact ⟨hpointer, hregion⟩ | cases hjob
          refine ⟨.inl ⟨hrest, hleave.1, hleave.2⟩, fun e he => ?_⟩
          cases he
          rw [Job.fault_locate]
          exact hraised error rfl

theorem Inside.step (h : s.Inside) (hraised : ∀ error, s.raised = some error →
    error.fault ≠ .nestedBlock) : (s.step options).Sheltered := by
  obtain ⟨raised, jobs, c⟩ := s
  obtain ⟨inner, outer, hjobs, hinner, houter⟩ := h
  dsimp only at hjobs
  subst hjobs
  cases inner with
  | nil =>
      cases raised with
      | none => exact ⟨.inl ⟨houter, rfl, rfl⟩, hraised⟩
      | some error => exact ⟨.inl ⟨houter, rfl, rfl⟩, hraised⟩
  | cons job inner =>
      obtain ⟨hjob, hrest⟩ := List.forall_mem_cons.1 hinner
      cases raised with
      | none =>
          rw [List.cons_append, Agenda.step]
          split
          · rename_i jobs d hrun
            refine ⟨.inr ⟨jobs ++ inner, outer, by simp, fun t ht => ?_, houter⟩,
              fun e he => by cases he⟩
            exact (List.mem_append.1 ht).elim (Job.run_inner hjob hrun t) (hrest t)
          · rename_i error d hrun
            refine ⟨.inr ⟨inner, outer, rfl, hrest, houter⟩, fun e he => ?_⟩
            cases he
            exact ((Job.run_fixes_inner options hjob).error hrun).2
      | some error =>
          refine ⟨.inr ⟨inner, outer, rfl, hrest, houter⟩, fun e he => ?_⟩
          cases he
          rw [Job.fault_locate]
          exact hraised error rfl

theorem Sheltered.step (h : s.Sheltered) : (s.step options).Sheltered :=
  h.place.elim (fun hout => hout.step h.unnested) fun hin => hin.step h.unnested

theorem Sheltered.start (nodes : List Node) {c : Compilation} (hpointer : c.unsafePointer = none)
    (hregion : c.unsafeRegion = none) : (start nodes c).Sheltered :=
  ⟨.inl ⟨by simp [Agenda.start, Job.isOuter], hpointer, hregion⟩, fun error h => by cases h⟩

theorem Sheltered.outside (h : s.Sheltered) {job : Job} {rest : List Job}
    (hjobs : s.jobs = job :: rest) (hjob : job.isOuter = true) : s.state.unsafePointer = none := by
  rcases h.place with hout | ⟨inner, outer, hin, hinner, -⟩
  · exact hout.pointer
  · rw [hjobs] at hin
    cases inner with
    | nil =>
        cases hin
        cases hjob
    | cons head inner =>
        cases hin
        have hhead := hinner job List.mem_cons_self
        rw [Job.isInner_of_isOuter hjob] at hhead
        cases hhead

theorem ended_restored {nodes : List Node} {c : Compilation} (hpointer : c.unsafePointer = none)
    (hregion : c.unsafeRegion = none) {result : EStateM.Result CompileError Compilation Unit}
    (h : Reaches options (start nodes c) (ended [] result)) :
    (ended [] result).state.unsafePointer = none ∧ (ended [] result).state.unsafeRegion = none ∧
      (ended [] result).state.functions.expanding = c.functions.expanding := by
  obtain ⟨n, hn⟩ := h
  have hsheltered : ((start nodes c).after options n).Sheltered :=
    after_invariant (fun hs => hs.step) (.start nodes hpointer hregion) n
  have hnested : ((start nodes c).after options n).Nested c.functions.expanding :=
    after_invariant (fun hs => hs.step) ⟨[], (List.append_nil _).symm, rfl⟩ n
  rw [hn] at hsheltered hnested
  have hjobs : (ended [] result).jobs = [] := by cases result <;> rfl
  obtain ⟨inner, hexpanding, hlength⟩ := hnested
  rw [nesting, hjobs, List.countP_nil, List.length_eq_zero_iff] at hlength
  rw [hlength, List.append_nil] at hexpanding
  rcases hsheltered.place with hout | ⟨inner, outer, hin, -⟩
  · exact ⟨hout.pointer, hout.region, hexpanding⟩
  · rw [hjobs] at hin
    simp at hin

section

variable {c : Compilation} {node : Node} {nodes : List Node} {jobs : List Job}

theorem after_statements (hnode : node.isUnsafeOperation = true)
    (hpointer : c.unsafePointer = none) :
    (after options 3 ⟨none, .statements (node :: nodes) :: jobs, c⟩).raised =
      some ⟨.outsideBlock, node.line⟩ := by
  have hstatement : node.isStatement = true := by
    cases node <;> first | rfl | cases hnode
  have hfirst : Agenda.step options ⟨none, .statements (node :: nodes) :: jobs, c⟩ =
      ⟨none, .statement node :: .located node.line :: .statements nodes :: jobs,
        c.record (.statement node.line node.kind c.pointer)⟩ := by
    simp only [Agenda.step, Job.run, if_pos hstatement]
    rfl
  have hsecond (d : Compilation) (hd : d.unsafePointer = none) (rest : List Job) :
      Agenda.step options ⟨none, .statement node :: rest, d⟩ =
        ⟨some ⟨.outsideBlock, 0⟩, rest, d⟩ := by
    refine step_error rest ?_
    rw [Job.run, Job.openStatement_operation hnode, Job.openOperation_outside hnode hd]
  rw [after, hfirst, after, hsecond (c.record _) hpointer]
  rfl

theorem after_operations (hnode : node.isUnsafeOperation = false) :
    (after options 2 ⟨none, .operations (node :: nodes) :: jobs, c⟩).raised =
      some ⟨.unknownOperation node.kind, 0⟩ := by
  have hsecond (rest : List Job) : Agenda.step options ⟨none, .operation node :: rest, c⟩ =
      ⟨some ⟨.unknownOperation node.kind, 0⟩, rest, c⟩ :=
    step_error rest (Job.openOperation_unknown hnode)
  change (after options 1 ⟨none, .operation node :: .operations nodes :: jobs, c⟩).raised = _
  rw [after, hsecond]
  rfl

end

end Agenda

open Agenda in
theorem context_restored (options : CompileOptions) :
    (∀ (node : Node) (c d : Compilation), c.unsafePointer = none → c.unsafeRegion = none →
      (statements options [node] c = .ok () d ∨
        ∃ error, statements options [node] c = .error error d) →
      d.unsafePointer = none ∧ d.unsafeRegion = none ∧
        d.functions.expanding = c.functions.expanding) ∧
    ∀ nodes : List Node,
      (∃ n, ((start nodes .initial).after options n).jobs = [] ∧
        ∀ c, program options nodes c = ((start nodes .initial).after options n).result nodes) ∧
      (∀ n, let s := (start nodes .initial).after options n
        (∀ node rest jobs, s.raised = none → s.jobs = .statements (node :: rest) :: jobs →
          s.state.unsafePointer = none ∧ (node.isUnsafeOperation = true → ∃ error,
            (s.after options 3).raised = some error ∧ error.fault.kind = .ok .unsafeContext ∧
              error.fault = .outsideBlock ∧ error.line = node.line)) ∧
        (∀ node rest jobs, s.raised = none → s.jobs = .operations (node :: rest) :: jobs →
          node.isUnsafeOperation = false → ∃ error, (s.after options 2).raised = some error ∧
            error.fault.kind = .ok .unknownNode ∧ error.fault = .unknownOperation node.kind)) ∧
      ∀ c error d, program options nodes c = .error error d → error.fault ≠ .nestedBlock := by
  refine ⟨fun node c d hpointer hregion hd => ?_, fun nodes => ?_⟩
  · have hrestored := ended_restored hpointer hregion (statements_reaches options [node] c)
    rcases hd with hd | ⟨error, hd⟩
    · rwa [hd] at hrestored
    · rwa [hd] at hrestored
  · obtain ⟨n, hjobs, hresult⟩ := program_ends options nodes
    -- The invariant of all steps: the context fits the jobs that are left.
    have hsheltered (k : Nat) : ((start nodes .initial).after options k).Sheltered :=
      after_invariant (fun hs => hs.step) (.start nodes rfl rfl) k
    refine ⟨⟨n, hjobs, hresult⟩, fun k => ⟨fun node rest jobs hraised hhead => ?_,
      fun node rest jobs hraised hhead hnode => ?_⟩, fun c error d hd => ?_⟩
    · have hpointer := (hsheltered k).outside hhead rfl
      generalize (start nodes .initial).after options k = s at hraised hhead hpointer ⊢
      obtain ⟨raised, jobs, c⟩ := s
      cases hraised
      cases hhead
      exact ⟨hpointer, fun hnode => ⟨_, after_statements hnode hpointer, rfl, rfl, rfl⟩⟩
    · generalize (start nodes .initial).after options k = s at hraised hhead ⊢
      obtain ⟨raised, jobs, c⟩ := s
      cases hraised
      cases hhead
      exact ⟨_, after_operations hnode, rfl, rfl⟩
    · have hunnested := (hsheltered n).unnested
      rw [hresult c] at hd
      unfold Agenda.result at hd
      split at hd
      · cases hd
      · rename_i raised hraised
        cases hd
        exact hunnested error hraised

theorem context_restored_midway : ∃ c error d,
    c.unsafePointer = none ∧ c.unsafeRegion = none ∧ c.functions.expanding = ["outer"] ∧
    statements ⟨false, false⟩ [.call 5 "inner"] c = .error error d ∧
    error.fault = .unknownOperation "Show" ∧ d.unsafePointer = none ∧ d.unsafeRegion = none ∧
    d.functions.expanding = ["outer"] := by
  let body : List Node := [.unsafeBlock 2 1 [.unsafeLoop 3 [.display 4 .max]]]
  let c : Compilation := { Compilation.initial with
    functions := ⟨Functions.initial.bodies.insert "inner" body, ["outer"]⟩ }
  obtain ⟨error, d, hd, hfault⟩ : ∃ error d, statements ⟨false, false⟩ [.call 5 "inner"] c =
    .error error d ∧ error.fault = .unknownOperation "Show" := ⟨_, _, rfl, rfl⟩
  exact ⟨c, error, d, rfl, rfl, rfl, hd, hfault,
    (context_restored ⟨false, false⟩).1 _ c d rfl rfl (.inr ⟨error, hd⟩)⟩

end TapeCompiler
