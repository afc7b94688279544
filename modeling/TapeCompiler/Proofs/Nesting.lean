import TapeCompiler.Proofs.Agenda
import TapeCompiler.Proofs.Failure

namespace TapeCompiler

open Compile Compilation

def Node.keepsContext : Node → Bool
  | unsafeBlock .. | function .. | call .. => false
  | node => !node.isUnsafeOperation

namespace Job

def names : Job → List String
  | statements nodes => Node.definedIn nodes
  | statement node => node.defined
  | _ => []

def isReturn : Job → Bool
  | leaveFunction => true
  | _ => false

def isOuter : Job → Bool
  | statements _ | statement _ | located _ => true
  | closeConditional _ | closeLoop _ | leaveFunction => true
  | _ => false

def isInner : Job → Bool
  | operations _ | operation _ | closeUnsafeLoop _ | freeRegion .. => true
  | _ => false

variable {options : CompileOptions} {job : Job} {jobs : List Job} {c d : Compilation}
  {error : CompileError} {node : Node}

theorem done_ok {x : Compile Unit} (h : (do x; return ([] : List Job)) c = .ok jobs d) :
    jobs = [] ∧ x c = .ok () d := by
  simp only [bind_ok, pure_ok] at h
  obtain ⟨_, _, hx, rfl, rfl⟩ := h
  exact ⟨rfl, hx⟩

theorem openOperation_fixes (options : CompileOptions) (node : Node) :
    Fixes Compilation.functions (openOperation options node) := by
  cases node
  case unsafeLoop line body => exact .bind openUnsafeLoop_fixes.functions fun _ => .pure _
  all_goals exact .bind (operation_fixes options _ (by simp)) fun _ => .pure _

theorem openOperation_left (h : openOperation options node c = .ok jobs d) :
    ∀ t ∈ jobs, t.isInner = true ∧ t.names = [] := by
  cases node
  case unsafeLoop line body =>
    simp only [openOperation, bind_ok, pure_ok] at h
    obtain ⟨entry, _, -, rfl, -⟩ := h
    simp [isInner, names]
  all_goals
    obtain ⟨rfl, -⟩ := done_ok h
    intro t ht
    cases ht

theorem openStatement_fixes (options : CompileOptions) (hnode : node.keepsContext = true) :
    Fixes context (openStatement options node) := by
  cases node
  case declare line name type length =>
    exact .bind (declare_fixes name type length) fun _ => .pure _
  case assign line name index value =>
    exact .bind (assign_fixes options name index value) fun _ => .pure _
  case display line value => exact .bind (display_fixes options value) fun _ => .pure _
  case input line name => exact .bind (input_fixes name) fun _ => .pure _
  case remove line name => exact .bind (remove_fixes name) fun _ => .pure _
  case conditional line test body => exact .bind (openLoop_fixes options test) fun _ => .pure _
  case loop line test body => exact .bind (openLoop_fixes options test) fun _ => .pure _
  all_goals first | exact .bind (.fail (by simp)) fun _ => .pure _ | cases hnode

theorem openStatement_left (hnode : node.keepsContext = true)
    (h : openStatement options node c = .ok jobs d) :
    ∀ t ∈ jobs, t.isOuter = true ∧ t.isReturn = false ∧ ∀ n ∈ t.names, n ∈ node.defined := by
  cases node
  case conditional line test body =>
    simp only [openStatement, bind_ok, pure_ok] at h
    obtain ⟨address, _, -, rfl, -⟩ := h
    simp [isOuter, isReturn, names, Node.defined]
  case loop line test body =>
    simp only [openStatement, bind_ok, pure_ok] at h
    obtain ⟨address, _, -, rfl, -⟩ := h
    simp [isOuter, isReturn, names, Node.defined]
  all_goals first
    | obtain ⟨rfl, -⟩ := done_ok h
      intro t ht
      cases ht
    | cases hnode

theorem openStatement_operation (h : node.isUnsafeOperation = true) :
    openStatement options node = openOperation options node := by
  cases node <;> first | rfl | cases h

theorem openBlock_error {size : Int} (h : openBlock size c = .error error d) :
    d = c ∧ (c.unsafePointer = none → error.fault ≠ .nestedBlock) := by
  rw [openBlock_eq] at h
  split at h
  · cases h
    exact ⟨rfl, fun _ => by simp⟩
  · split at h
    · rename_i hnested
      cases h
      exact ⟨rfl, fun hnone => by simp [hnone] at hnested⟩
    · cases h

theorem openCall_error {name : String} (h : openCall name c = .error error d) :
    d = c ∧ error.fault ≠ .nestedBlock := by
  rcases bind_error.1 h with h | ⟨body, e, -, h⟩
  · refine ⟨enterFunction_clean name c error d h, ?_⟩
    rcases bind_error.1 h with h | ⟨_, _, hget, h⟩
    · cases h
    · obtain ⟨rfl, rfl⟩ := get_ok.1 hget
      cases henter : c.functions.enter name with
      | ok entered =>
          rw [henter] at h
          cases h
      | error fault =>
          rw [henter] at h
          cases h
          obtain ⟨-, rfl⟩ | ⟨-, rfl⟩ := Functions.enter_error henter
          · simp
          · simp
  · cases h

inductive Moves : Job → Functions → List Job → Functions → Prop where
  | keep {job : Job} {functions : Functions} {jobs : List Job} (hreturn : job.isReturn = false)
      (hjobs : ∀ t ∈ jobs, t.isReturn = false ∧ ∀ n ∈ t.names, n ∈ job.names) :
      Moves job functions jobs functions
  | define {functions : Functions} {line : Int} {name : String} {body : List Node} :
      Moves (.statement (.function line name body)) functions [] (functions.define name body)
  | enter {functions entered : Functions} {line : Int} {name : String} {body : List Node}
      (henter : functions.enter name = .ok (body, entered)) :
      Moves (.statement (.call line name)) functions [.statements body, .leaveFunction] entered
  | leave {functions : Functions} : Moves .leaveFunction functions [] functions.leave

namespace Moves

theorem same (hd : d.functions = c.functions) (hreturn : job.isReturn = false)
    (hjobs : ∀ t ∈ jobs, t.isReturn = false ∧ ∀ n ∈ t.names, n ∈ job.names) :
    Moves job c.functions jobs d.functions :=
  hd ▸ .keep hreturn hjobs

theorem vanish (hd : d.functions = c.functions) (hreturn : job.isReturn = false) :
    Moves job c.functions [] d.functions :=
  same hd hreturn fun t ht => by cases ht

theorem done {x : Compile Unit} (hx : Fixes Compilation.functions x)
    (hreturn : job.isReturn = false) (h : (do x; return ([] : List Job)) c = .ok jobs d) :
    Moves job c.functions jobs d.functions := by
  obtain ⟨rfl, hd⟩ := done_ok h
  exact vanish (hx.ok hd) hreturn

theorem openOperation (hreturn : job.isReturn = false)
    (h : Job.openOperation options node c = .ok jobs d) :
    Moves job c.functions jobs d.functions := by
  refine same ((openOperation_fixes options node).ok h) hreturn fun t ht => ?_
  obtain ⟨hinner, hnames⟩ := openOperation_left h t ht
  have hleft : t.isReturn = false := by
    cases t <;> first | rfl | cases hinner
  exact ⟨hleft, by simp [hnames]⟩

theorem openStatement (h : Job.openStatement options node c = .ok jobs d) :
    Moves (.statement node) c.functions jobs d.functions := by
  by_cases hnode : node.keepsContext = true
  · exact same ((openStatement_fixes options hnode).functions.ok h) rfl fun t ht =>
      (openStatement_left hnode h t ht).2
  · cases node
    case unsafeBlock line size body =>
      simp only [Job.openStatement, bind_ok, pure_ok] at h
      obtain ⟨start, _, hopen, rfl, rfl⟩ := h
      exact same (openBlock_functions hopen) rfl (by simp [isReturn, names])
    case function line name body =>
      obtain ⟨rfl, hd⟩ := done_ok h
      simp only [Compile.define, bind_ok, record_ok, modify_ok] at hd
      obtain ⟨_, _, rfl, rfl⟩ := hd
      exact .define
    case call line name =>
      simp only [Job.openStatement, openCall, bind_ok, get_ok, record_ok, pure_ok] at h
      obtain ⟨body, _, ⟨_, e, henter, _, _, ⟨rfl, rfl⟩, _, _, rfl, rfl, rfl⟩, rfl, rfl⟩ := h
      obtain ⟨functions, hentered, rfl⟩ := enterFunction_ok.1 henter
      exact .enter hentered
    all_goals first
      | exact absurd rfl hnode
      | rw [openStatement_operation rfl] at h
        exact openOperation rfl h

end Moves

theorem run_moves (h : job.run options c = .ok jobs d) :
    Moves job c.functions jobs d.functions := by
  cases job
  case statements nodes =>
    cases nodes with
    | nil => exact .done (.pure ()) rfl h
    | cons node rest =>
        rw [run] at h
        split at h
        · simp only [bind_ok, get_ok, record_ok, pure_ok] at h
          obtain ⟨_, _, ⟨rfl, rfl⟩, _, _, rfl, rfl, rfl⟩ := h
          exact .same rfl rfl (by simp +contextual [isReturn, names, Node.definedIn])
        · exact absurd h fail_ok
  case statement node => exact .openStatement h
  case located line => exact .done (.pure ()) rfl h
  case closeConditional address => exact .done (closeConditional_fixes address).functions rfl h
  case closeLoop address => exact .done (closeLoop_fixes address).functions rfl h
  case operations nodes =>
    cases nodes with
    | nil => exact .done (.pure ()) rfl h
    | cons node rest =>
        obtain ⟨rfl, rfl⟩ := pure_ok.1 h
        exact .keep rfl (by simp [isReturn, names])
  case operation node => exact .openOperation rfl h
  case closeUnsafeLoop entry =>
    obtain ⟨rfl, hd⟩ := done_ok h
    exact .vanish (closeUnsafeLoop_functions hd) rfl
  case freeRegion start size =>
    exact .done (.modify fun c => functions_of_scope (by simp)) rfl h
  case leaveBlock =>
    obtain ⟨rfl, hd⟩ := done_ok h
    rw [modify_ok] at hd
    subst hd
    exact .vanish rfl rfl
  case leaveFunction =>
    obtain ⟨rfl, hd⟩ := done_ok h
    rw [modify_ok] at hd
    subst hd
    exact .leave

def keepsContext : Job → Bool
  | statements _ | located _ | closeConditional _ | closeLoop _ => true
  | statement node => node.keepsContext
  | _ => false

theorem run_fixes (options : CompileOptions) (hjob : job.keepsContext = true) :
    Fixes context (job.run options) := by
  cases job
  case statements nodes =>
    cases nodes with
    | nil => exact .pure _
    | cons node rest =>
        rw [run]
        split
        · exact .bind .get fun _ => .bind (record_fixes _) fun _ => .pure _
        · exact .fail (by simp)
  case statement node => exact openStatement_fixes options hjob
  case located line => exact .pure _
  case closeConditional address => exact .bind (closeConditional_fixes address) fun _ => .pure _
  case closeLoop address => exact .bind (closeLoop_fixes address) fun _ => .pure _
  all_goals cases hjob

theorem run_fixes_inner (options : CompileOptions) (hjob : job.isInner = true) :
    Fixes Compilation.functions (job.run options) := by
  cases job
  case operations nodes => cases nodes <;> exact .pure _
  case operation node => exact openOperation_fixes options node
  case closeUnsafeLoop entry =>
    exact .bind (.modify fun c => (functions_of_scope (scope_moveTo c entry) :)) fun _ => .pure _
  case freeRegion start size =>
    exact .bind (.modify fun c => functions_of_scope (by simp)) fun _ => .pure _
  all_goals cases hjob

theorem run_error (h : job.run options c = .error error d) :
    d.functions = c.functions ∧ job.isReturn = false := by
  cases job
  case statement node =>
    refine ⟨?_, rfl⟩
    by_cases hnode : node.keepsContext = true
    · exact ((openStatement_fixes options hnode).functions.error h).1
    · cases node
      case unsafeBlock line size body =>
        rcases bind_error.1 h with h | ⟨_, _, -, h⟩
        · rw [(openBlock_error h).1]
        · cases h
      case function line name body => cases h
      case call line name =>
        rcases bind_error.1 h with h | ⟨_, _, -, h⟩
        · rw [(openCall_error h).1]
        · cases h
      all_goals first
        | exact absurd rfl hnode
        | rw [run, openStatement_operation rfl] at h
          exact ((openOperation_fixes options _).error h).1
  case leaveBlock => cases h
  case leaveFunction => cases h
  all_goals first
    | exact ⟨((run_fixes options rfl).functions.error h).1, rfl⟩
    | exact ⟨((run_fixes_inner options rfl).error h).1, rfl⟩

end Job

namespace Agenda

open Job (Moves)

variable {options : CompileOptions} {s : Agenda}

theorem step_moves (options : CompileOptions) (raised : Option CompileError) (job : Job)
    (rest : List Job) (c : Compilation) : ∃ jobs,
    (step options ⟨raised, job :: rest, c⟩).jobs = jobs ++ rest ∧
      Moves job c.functions jobs (step options ⟨raised, job :: rest, c⟩).state.functions := by
  cases raised with
  | none =>
      rw [step]
      split
      · rename_i hrun
        exact ⟨_, rfl, Job.run_moves hrun⟩
      · rename_i hrun
        obtain ⟨hfunctions, hreturn⟩ := Job.run_error hrun
        exact ⟨[], rfl, .vanish hfunctions hreturn⟩
  | some error =>
      refine ⟨[], rfl, ?_⟩
      cases job
      case leaveFunction => exact .leave
      all_goals exact .vanish rfl rfl

def nesting (s : Agenda) : Nat := s.jobs.countP Job.isReturn

def Nested (base : List String) (s : Agenda) : Prop :=
  ∃ inner, s.state.functions.expanding = base ++ inner ∧ inner.length = s.nesting

theorem Nested.step {base : List String} (h : s.Nested base) : (s.step options).Nested base := by
  obtain ⟨raised, jobs, c⟩ := s
  cases jobs with
  | nil => exact h
  | cons job rest =>
      obtain ⟨inner, hexpanding, hlength⟩ := h
      change c.functions.expanding = base ++ inner at hexpanding
      obtain ⟨jobs, hjobs, hmoves⟩ := step_moves options raised job rest c
      unfold nesting at hlength
      simp only [List.countP_cons] at hlength
      unfold Nested nesting
      rw [hjobs, List.countP_append]
      generalize (Agenda.step options ⟨raised, job :: rest, c⟩).state.functions = functions
        at hmoves ⊢
      cases hmoves with
      | keep hreturn hleft =>
          have hnone : jobs.countP Job.isReturn = 0 :=
            List.countP_eq_zero.2 fun t ht => by simp [(hleft t ht).1]
          refine ⟨inner, hexpanding, ?_⟩
          simp only [hreturn] at hlength
          simp only [hnone]
          simpa using hlength
      | define => exact ⟨inner, hexpanding, by simpa [Job.isReturn] using hlength⟩
      | enter henter =>
          rename_i line name body
          obtain ⟨-, -, rfl⟩ := Functions.enter_ok.1 henter
          refine ⟨inner ++ [name], ?_, ?_⟩
          · rw [hexpanding, List.append_assoc]
          · simp only [Job.isReturn] at hlength
            simp [Job.isReturn, hlength, Nat.add_comm]
      | leave =>
          simp only [Job.isReturn] at hlength
          have hne : inner ≠ [] := by
            rintro rfl
            simp at hlength
          refine ⟨inner.dropLast, ?_, ?_⟩
          · rw [Functions.leave, hexpanding, List.dropLast_append_of_ne_nil hne]
          · simp [hlength]

end Agenda

end TapeCompiler
