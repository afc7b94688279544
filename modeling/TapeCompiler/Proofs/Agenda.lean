import TapeCompiler.Proofs.Context
import TapeCompiler.Proofs.Expansion

namespace TapeCompiler

inductive Job where
  | statements (nodes : List Node)
  | statement (node : Node)
  | located (line : Int)
  | closeConditional (address : Int)
  | closeLoop (address : Int)
  | operations (nodes : List Node)
  | operation (node : Node)
  | closeUnsafeLoop (entry : Int)
  | freeRegion (start size : Int)
  | leaveBlock
  | leaveFunction

namespace Compile

def openBlock (size : Int) : Compile Int := do
  if size ≤ 0 then fail (.blockSize size)
  let c ← get
  if c.unsafePointer.isSome then fail .nestedBlock
  let start := c.layout.firstFit size
  modify (·.enterBlock size)
  modify (·.moveTo start)
  return start

def openCall (name : String) : Compile (List Node) := do
  let body ← enterFunction name
  record (.inlining name (← get).pointer)
  return body

def openUnsafeLoop : Compile Int := do
  let entry ← unsafePointer
  modify fun c => (c.moveTo entry).emit "["
  return entry

def closeUnsafeLoop (entry : Int) : Compile Unit :=
  modify fun c => { (c.moveTo entry).emit "]" with unsafePointer := some entry }

end Compile

open Compile Compilation

namespace Job

variable (options : CompileOptions)

def openOperation : Node → Compile (List Job)
  | .unsafeLoop _ body => do
      let entry ← openUnsafeLoop
      return [operations body, closeUnsafeLoop entry]
  | node => do
      Compile.operation options node
      return []

def openStatement : Node → Compile (List Job)
  | .declare _ name type length => do
      declare name type length
      return []
  | .assign _ name index value => do
      assign options name index value
      return []
  | .display _ value => do
      display options value
      return []
  | .input _ name => do
      input name
      return []
  | .remove _ name => do
      remove name
      return []
  | .conditional _ condition body => do
      let address ← openLoop options condition
      return [statements body, closeConditional address]
  | .loop _ condition body => do
      let address ← openLoop options condition
      return [statements body, closeLoop address]
  | .unsafeBlock _ size body => do
      let start ← openBlock size
      return [operations body, freeRegion start size, leaveBlock]
  | .function _ name body => do
      define name body
      return []
  | .call _ name => do
      let body ← openCall name
      return [statements body, leaveFunction]
  | node => openOperation options node

def run : Job → Compile (List Job)
  | statements [] => return []
  | statements (node :: rest) =>
      if node.isStatement then do
        record (.statement node.line node.kind (← get).pointer)
        return [statement node, located node.line, statements rest]
      else fail (.unknownStatement node.kind)
  | statement node => openStatement options node
  | located _ => return []
  | closeConditional address => do
      Compile.closeConditional address
      return []
  | closeLoop address => do
      Compile.closeLoop address
      return []
  | operations [] => return []
  | operations (node :: rest) => return [operation node, operations rest]
  | operation node => openOperation options node
  | closeUnsafeLoop entry => do
      Compile.closeUnsafeLoop entry
      return []
  | freeRegion start size => do
      modify (·.clearAndFree (addresses start size.toNat))
      return []
  | leaveBlock => do
      modify Compilation.leaveBlock
      return []
  | leaveFunction => do
      modify Compile.leaveFunction
      return []

def locate : Job → CompileError → CompileError
  | located line, error => error.locate line
  | _, error => error

def leave : Job → Compilation → Compilation
  | leaveBlock, c => c.leaveBlock
  | leaveFunction, c => Compile.leaveFunction c
  | _, c => c

end Job

/-- How a compilation stands: the error that is being handed down if any, what is left to do and the
state. -/
structure Agenda where
  raised : Option CompileError
  jobs : List Job
  state : Compilation

namespace Agenda

variable (options : CompileOptions)

def start (nodes : List Node) (c : Compilation) : Agenda := ⟨none, [.statements nodes], c⟩

def step : Agenda → Agenda
  | ⟨raised, [], c⟩ => ⟨raised, [], c⟩
  | ⟨none, job :: rest, c⟩ =>
      match job.run options c with
      | .ok jobs d => ⟨none, jobs ++ rest, d⟩
      | .error error d => ⟨some error, rest, d⟩
  | ⟨some error, job :: rest, c⟩ => ⟨some (job.locate error), rest, job.leave c⟩

def after : Nat → Agenda → Agenda
  | 0, s => s
  | n + 1, s => after n (s.step options)

def ended (rest : List Job) : EStateM.Result CompileError Compilation Unit → Agenda
  | .ok _ d => ⟨none, rest, d⟩
  | .error error d => ⟨some error, rest, d⟩

def Reaches (s t : Agenda) : Prop := ∃ n, s.after options n = t

variable {options} {s t u : Agenda}

section

variable {job : Job} {jobs : List Job} {error : CompileError} {c d : Compilation} (rest : List Job)

theorem step_ok (h : job.run options c = .ok jobs d) :
    step options ⟨none, job :: rest, c⟩ = ⟨none, jobs ++ rest, d⟩ := by
  simp only [step, h]

theorem step_error (h : job.run options c = .error error d) :
    step options ⟨none, job :: rest, c⟩ = ⟨some error, rest, d⟩ := by
  simp only [step, h]

end

theorem after_add (m n : Nat) : s.after options (m + n) = (s.after options m).after options n := by
  induction m generalizing s with
  | zero => rw [Nat.zero_add, after]
  | succ m ih => rw [Nat.add_right_comm, after, after, ih]

theorem after_invariant {P : Agenda → Prop} (hstep : ∀ {s}, P s → P (s.step options)) (h : P s)
    (n : Nat) : P (s.after options n) := by
  induction n generalizing s with
  | zero => exact h
  | succ n ih => exact ih (hstep h)

theorem Reaches.refl : Reaches options s s := ⟨0, rfl⟩

theorem Reaches.trans (h : Reaches options s t) (h' : Reaches options t u) :
    Reaches options s u := by
  obtain ⟨m, rfl⟩ := h
  obtain ⟨n, rfl⟩ := h'
  exact ⟨m + n, after_add m n⟩

theorem Reaches.step (h : Reaches options (s.step options) t) : Reaches options s t := by
  obtain ⟨n, rfl⟩ := h
  exact ⟨n + 1, rfl⟩

end Agenda

open Agenda

variable {options : CompileOptions} {α : Type}

def Performs (options : CompileOptions) (pre : Compilation → Prop) (jobs : List Job)
    (x : Compile Unit) (post : Compilation → Prop) : Prop := ∀ c, pre c →
  (∀ rest, Reaches options ⟨none, jobs ++ rest, c⟩ (ended rest (x c))) ∧
    ∀ d, x c = .ok () d → post d

def Job.isPassive : Job → Bool
  | located _ | leaveBlock | leaveFunction => false
  | _ => true

namespace Performs

variable {pre mid post : Compilation → Prop} {job : Job} {jobs jobs' : List Job}
  {x y : Compile Unit}

theorem unwind (h : jobs.all Job.isPassive) (rest : List Job) (error : CompileError)
    (c : Compilation) : Reaches options ⟨some error, jobs ++ rest, c⟩ ⟨some error, rest, c⟩ := by
  induction jobs with
  | nil => exact .refl
  | cons job jobs ih =>
      simp only [List.all_cons, Bool.and_eq_true] at h
      refine .step ?_
      cases job <;> first | exact ih h.2 | cases h.1

theorem seq (hx : Performs options pre jobs x mid) (hy : Performs options mid jobs' y post)
    (h : jobs'.all Job.isPassive) : Performs options pre (jobs ++ jobs') (do x; y) post := by
  intro c hc
  obtain ⟨hreach, hmid⟩ := hx c hc
  refine ⟨fun rest => ?_, fun d hd => ?_⟩
  · have hfirst := hreach (jobs' ++ rest)
    rw [← List.append_assoc] at hfirst
    refine hfirst.trans ?_
    change Reaches options _ (ended rest (EStateM.bind x (fun _ => y) c))
    unfold EStateM.bind
    cases hxc : x c with
    | ok u d => exact (hy d (hmid d hxc)).1 rest
    | error error d => exact unwind h rest error d
  · obtain ⟨_, e, hxc, hd⟩ := bind_ok.1 hd
    exact (hy e (hmid e hxc)).2 d hd

theorem opening {first : Compile α} {left : α → List Job} {next : α → Compile Unit}
    (mid : α → Compilation → Prop) (hrun : job.run options = do return left (← first))
    (hfirst : ∀ {c a d}, pre c → first c = .ok a d → mid a d)
    (h : ∀ a, Performs options (mid a) (left a) (next a) post) :
    Performs options pre [job] (first >>= next) post := by
  intro c hc
  refine ⟨fun rest => .step ?_, fun d hd => ?_⟩
  · change Reaches options (Agenda.step options ⟨none, job :: rest, c⟩)
      (ended rest (EStateM.bind first next c))
    simp only [Agenda.step, hrun, bind, EStateM.bind]
    cases hfc : first c with
    | ok a d => exact (h a d (hfirst hc hfc)).1 rest
    | error error d => exact .refl
  · obtain ⟨a, e, hfc, hd⟩ := bind_ok.1 hd
    exact (h a e (hfirst hc hfc)).2 d hd

theorem done (hrun : job.run options = do x; return [])
    (h : ∀ {c d}, pre c → x c = .ok () d → post d) :
    Performs options pre [job] x post := by
  rw [← bind_pure x]
  exact opening (fun _ => post) hrun h fun _ c hc =>
    ⟨fun _ => .refl, fun d hd => (pure_ok.1 hd).2 ▸ hc⟩

theorem push (hrun : job.run options = return jobs) (h : Performs options pre jobs x post) :
    Performs options pre [job] x post := by
  intro c hc
  have hjob : job.run options c = .ok jobs c := by
    rw [hrun]
    rfl
  exact ⟨fun rest => .step (step_ok rest hjob ▸ (h c hc).1 rest), (h c hc).2⟩

theorem failing (h : ∀ c, pre c → ∃ error d, job.run options c = .error error d ∧
    x c = .error error d) : Performs options pre [job] x post := by
  intro c hc
  obtain ⟨error, d, hrun, hx⟩ := h c hc
  rw [hx]
  exact ⟨fun rest => .step (step_error rest hrun ▸ .refl), fun d hd => by cases hd⟩

theorem weaken (post' : Compilation → Prop) (h : Performs options pre jobs x post)
    (hpost : ∀ {d}, post d → post' d) : Performs options pre jobs x post' :=
  fun c hc => ⟨(h c hc).1, fun d hd => hpost ((h c hc).2 d hd)⟩

theorem locate (line : Int) (h : Performs options pre jobs x post) :
    Performs options pre (jobs ++ [.located line]) (Compile.locate line x) post := by
  intro c hc
  obtain ⟨hreach, hpost⟩ := h c hc
  refine ⟨fun rest => ?_, fun d hd => hpost d (locate_ok.1 hd)⟩
  have hfirst := hreach (.located line :: rest)
  rw [List.append_assoc]
  refine hfirst.trans ?_
  unfold Compile.locate
  cases x c with
  | ok u d => exact .step .refl
  | error error d => exact .step .refl

theorem ensuring (job : Job) {finish : Compilation → Compilation}
    (hrun : job.run options = do modify finish; return []) (hleave : job.leave = finish)
    (hlocate : job.locate = id) (h : Performs options pre jobs x (post ∘ finish)) :
    Performs options pre (jobs ++ [job]) (Compile.ensuring finish x) post := by
  intro c hc
  obtain ⟨hreach, hpost⟩ := h c hc
  refine ⟨fun rest => ?_, fun d hd => ?_⟩
  · have hfirst := hreach (job :: rest)
    rw [List.append_assoc]
    refine hfirst.trans (.step ?_)
    unfold Compile.ensuring
    cases x c with
    | ok u d =>
        have hjob : job.run options d = .ok [] (finish d) := by
          rw [hrun]
          rfl
        exact step_ok rest hjob ▸ .refl
    | error error d =>
        have hstep : Agenda.step options (ended (job :: rest) (.error error d)) =
            ⟨some error, rest, finish d⟩ := by
          simp only [ended, Agenda.step, hleave, hlocate, id]
        rw [hstep]
        exact .refl
  · obtain ⟨e, hx, rfl⟩ := ensuring_ok.1 hd
    exact hpost e hx

end Performs

structure Knows (names expanding : List String) (c : Compilation) : Prop where
  known : ∀ {name : String} {body : List Node}, c.functions.bodies.find? name = some body →
    name ∈ names ∧ ∀ n ∈ Node.definedIn body, n ∈ names
  expanding : c.functions.expanding = expanding

section

variable {names expanding : List String} {c d : Compilation}

theorem Knows.of_functions (h : Knows names expanding c) (hd : d.functions = c.functions) :
    Knows names expanding d := by
  obtain ⟨hknown, hexpanding⟩ := h
  exact ⟨hd ▸ hknown, hd ▸ hexpanding⟩

theorem Knows.define {name : String} {body : List Node} (h : Knows names expanding c)
    (hname : name ∈ names) (hbody : ∀ n ∈ Node.definedIn body, n ∈ names) :
    Knows names expanding { c with functions := c.functions.define name body } :=
  ⟨Functions.known_define h.known hname hbody, h.expanding⟩

theorem Knows.of_fixes {x : Compile α} {a : α} (hx : Fixes context x) (h : Knows names expanding c)
    (hd : x c = .ok a d) : Knows names expanding d :=
  h.of_functions (congrArg Context.functions (hx.ok hd))

theorem openUnsafeLoop_fixes : Fixes context openUnsafeLoop :=
  .bind unsafePointer_fixes fun _ =>
    .bind (.modify fun c => context_of_scope (by simp)) fun _ => .pure _

theorem closeUnsafeLoop_functions {entry : Int}
    (h : Compile.closeUnsafeLoop entry c = .ok () d) : d.functions = c.functions := by
  rw [Compile.closeUnsafeLoop, modify_ok] at h
  subst h
  exact (functions_of_scope (scope_moveTo c entry) :)

mutual

theorem operation_performs {job : Job} (node : Node)
    (hrun : job.run options = Job.openOperation options node) :
    Performs options (Knows names expanding) [job] (Compile.operation options node)
      (Knows names expanding) := by
  cases node
  case unsafeLoop line body =>
    have hopened : Compile.operation options (.unsafeLoop line body) =
        openUnsafeLoop >>= fun entry => (do
          operations options body
          Compile.closeUnsafeLoop entry) := by
      simp only [Compile.operation, openUnsafeLoop, bind_assoc, pure_bind]
      rfl
    rw [hopened]
    exact .opening (fun _ => Knows names expanding) hrun
      (fun hc hd => hc.of_fixes openUnsafeLoop_fixes hd) fun entry =>
        .seq (operations_performs body)
          (.done rfl fun hc hd => hc.of_functions (closeUnsafeLoop_functions hd)) rfl
  all_goals
    exact .done hrun fun hc hd => hc.of_functions ((operation_fixes options _ (by simp)).ok hd)

theorem operations_performs (nodes : List Node) :
    Performs options (Knows names expanding) [.operations nodes] (operations options nodes)
      (Knows names expanding) := by
  match nodes with
  | [] => exact .done (by rfl) fun hc hd => (pure_ok.1 hd).2 ▸ hc
  | node :: rest =>
      rw [Compile.operations]
      exact .push rfl (.seq (operation_performs node rfl) (operations_performs rest) rfl)

end

theorem openBlock_eq (size : Int) (c : Compilation) : openBlock size c =
    if size ≤ 0 then .error ⟨.blockSize size, 0⟩ c
    else if c.unsafePointer.isSome then .error ⟨.nestedBlock, 0⟩ c
    else .ok (c.layout.firstFit size) ((c.enterBlock size).moveTo (c.layout.firstFit size)) := by
  unfold openBlock
  by_cases hsize : size ≤ 0
  · rw [if_pos hsize, if_pos hsize]
    rfl
  · rw [if_neg hsize, if_neg hsize]
    by_cases hnested : c.unsafePointer.isSome
    · rw [if_pos hnested]
      change (if c.unsafePointer.isSome then _ else _ : Compile Int) c = _
      rw [if_pos hnested]
      rfl
    · rw [if_neg hnested]
      change (if c.unsafePointer.isSome then _ else _ : Compile Int) c = _
      rw [if_neg hnested]
      rfl

theorem openBlock_ok {size start : Int} (h : openBlock size c = .ok start d) :
    c.unsafePointer = none ∧ start = c.layout.firstFit size ∧
      d = (c.enterBlock size).moveTo start := by
  rw [openBlock_eq] at h
  split at h
  · cases h
  · split at h
    · cases h
    · rename_i hnone
      cases h
      exact ⟨by simpa using hnone, rfl, rfl⟩

theorem functions_enterBlock (c : Compilation) (size : Int) :
    (c.enterBlock size).functions = c.functions :=
  (functions_of_scope (scope_clearReused c (c.layout.firstFit size) size) :)

theorem openBlock_functions {size start : Int} (h : openBlock size c = .ok start d) :
    d.functions = c.functions := by
  obtain ⟨-, -, rfl⟩ := openBlock_ok h
  exact (functions_of_scope (scope_moveTo _ _)).trans (functions_enterBlock c size)

theorem unsafeBlock_eq (size : Int) (body : List Node) : unsafeBlock options size body =
    openBlock size >>= fun start => ensuring Compilation.leaveBlock (do
      operations options body
      modify (·.clearAndFree (addresses start size.toNat))) := by
  funext c
  change _ = EStateM.bind (openBlock size) _ c
  unfold EStateM.bind unsafeBlock
  rw [openBlock_eq]
  by_cases hsize : size ≤ 0
  · rw [if_pos hsize, if_pos hsize]
    rfl
  · rw [if_neg hsize, if_neg hsize]
    change (if c.unsafePointer.isSome then _ else _ : Compile Unit) c = _
    by_cases hnested : c.unsafePointer.isSome
    · rw [if_pos hnested, if_pos hnested]
      rfl
    · rw [if_neg hnested, if_neg hnested]
      rfl

theorem unsafeBlock_performs {job : Job} (size : Int) (body : List Node)
    (hrun : job.run options = do
      let start ← openBlock size
      return [.operations body, .freeRegion start size, .leaveBlock]) :
    Performs options (Knows names expanding) [job] (unsafeBlock options size body)
      (Knows names expanding) := by
  rw [unsafeBlock_eq]
  refine .opening (fun _ => Knows names expanding) hrun
    (fun hc hd => hc.of_functions (openBlock_functions hd)) fun start => ?_
  refine .ensuring .leaveBlock rfl rfl rfl (.seq (operations_performs body)
    (.done rfl fun hc hd => ?_) rfl)
  rw [modify_ok] at hd
  subst hd
  exact hc.of_functions (functions_of_scope (scope_clearAndFree _ _) :)

end

section

variable {names : List String} {call : String → Compile Unit}

mutual

theorem form_performs {expanding : List String} (hcall : ∀ line name, Performs options
      (Knows names expanding) [.statement (.call line name)] (call name) (Knows names expanding))
    (node : Node) (hn : ∀ n ∈ node.defined, n ∈ names) :
    Performs options (Knows names expanding) [.statement node] (form options call node)
      (Knows names expanding) := by
  cases node
  case declare line name type length =>
    exact .done rfl fun hc hd => hc.of_fixes (declare_fixes name type length) hd
  case assign line name index value =>
    exact .done rfl fun hc hd => hc.of_fixes (assign_fixes options name index value) hd
  case display line value =>
    exact .done rfl fun hc hd => hc.of_fixes (display_fixes options value) hd
  case input line name => exact .done rfl fun hc hd => hc.of_fixes (input_fixes name) hd
  case remove line name => exact .done rfl fun hc hd => hc.of_fixes (remove_fixes name) hd
  case conditional line test body =>
    rw [form]
    exact .opening (fun _ => Knows names expanding) rfl
      (fun hc hd => hc.of_fixes (openLoop_fixes options test) hd) fun address =>
        .seq (block_performs hcall body hn)
          (.done rfl fun hc hd => hc.of_fixes (closeConditional_fixes address) hd) rfl
  case loop line test body =>
    rw [form]
    exact .opening (fun _ => Knows names expanding) rfl
      (fun hc hd => hc.of_fixes (openLoop_fixes options test) hd) fun address =>
        .seq (block_performs hcall body hn)
          (.done rfl fun hc hd => hc.of_fixes (closeLoop_fixes address) hd) rfl
  case unsafeBlock line size body => exact unsafeBlock_performs size body rfl
  case function line name body =>
    refine .done rfl fun hc hd => ?_
    simp only [form, define, bind_ok, record_ok, modify_ok] at hd
    obtain ⟨_, _, rfl, rfl⟩ := hd
    have hrecorded := hc.of_functions (d := Compilation.record _ (.registered name body.length)) rfl
    exact hrecorded.define (hn name List.mem_cons_self) fun n h => hn n (List.mem_cons_of_mem _ h)
  case call line name => exact hcall line name
  all_goals exact operation_performs _ rfl

theorem block_performs {expanding : List String} (hcall : ∀ line name, Performs options
      (Knows names expanding) [.statement (.call line name)] (call name) (Knows names expanding))
    (nodes : List Node) (hn : ∀ n ∈ Node.definedIn nodes, n ∈ names) :
    Performs options (Knows names expanding) [.statements nodes] (block options call nodes)
      (Knows names expanding) := by
  match nodes with
  | [] => exact .done rfl fun hc hd => (pure_ok.1 hd).2 ▸ hc
  | node :: rest =>
      have hnode := form_performs hcall node fun n h => hn n (List.mem_append_left _ h)
      have hrest := block_performs hcall rest fun n h => hn n (List.mem_append_right _ h)
      by_cases hstatement : node.isStatement
      · have hblock : block options call (node :: rest) =
            (do record (.statement node.line node.kind (← get).pointer)) >>= fun _ => (do
              Compile.locate node.line (form options call node)
              block options call rest) := by
          rw [block, asStatement, if_pos hstatement]
          rfl
        rw [hblock]
        refine .opening (fun _ => Knows names expanding) ?_ (fun hc hd => ?_) fun _ =>
          (hnode.locate node.line).seq hrest rfl
        · rw [Job.run, if_pos hstatement]
          rfl
        · exact hc.of_fixes (.bind .get fun _ => record_fixes _) hd
      · refine .failing fun c _ => ⟨⟨.unknownStatement node.kind, 0⟩, c, ?_, ?_⟩
        · rw [Job.run, if_neg hstatement]
          rfl
        · rw [block, asStatement, if_neg hstatement]
          rfl

end

theorem enterFunction_knows {expanding : List String} {name : String} {body : List Node}
    {c d : Compilation} (h : Knows names expanding c) (hd : enterFunction name c = .ok body d) :
    Knows names (expanding ++ [name]) d ∧ (∀ n ∈ Node.definedIn body, n ∈ names) ∧
      name ∈ names ∧ name ∉ expanding := by
  obtain ⟨functions, henter, rfl⟩ := enterFunction_ok.1 hd
  obtain ⟨hbody, hnot, rfl⟩ := Functions.enter_ok.1 henter
  obtain ⟨hname, hdefined⟩ := h.known hbody
  rw [h.expanding] at hnot
  exact ⟨⟨h.known, by rw [h.expanding]⟩, hdefined, hname, hnot⟩

def room (names expanding : List String) : Nat := (names.filter (· ∉ expanding)).length

theorem room_append_lt {names expanding : List String} {name : String} (hname : name ∈ names)
    (hnot : name ∉ expanding) : room names (expanding ++ [name]) < room names expanding := by
  have hsplit : names.filter (· ∉ expanding ++ [name]) =
      (names.filter (· ∉ expanding)).filter (· ≠ name) := by
    rw [List.filter_filter]
    refine List.filter_congr fun n _ => ?_
    simp [not_or, and_comm]
  unfold room
  rw [hsplit, List.length_filter_lt_length_iff_exists]
  exact ⟨name, List.mem_filter.2 ⟨hname, by simpa using hnot⟩, by simp⟩

theorem inline_eq (depth : Nat) (name : String) : inline options (depth + 1) name =
    openCall name >>= fun body =>
      ensuring Compile.leaveFunction (block options (inline options depth) body) := by
  funext c
  change EStateM.bind (enterFunction name) _ c = EStateM.bind (openCall name) _ c
  simp only [EStateM.bind, openCall, bind]
  cases enterFunction name c <;> rfl

theorem inline_performs (options : CompileOptions) (depth : Nat) {expanding : List String}
    (hroom : room names expanding ≤ depth) (line : Int) (name : String) :
    Performs options (Knows names expanding) [.statement (.call line name)]
      (inline options depth name) (Knows names expanding) := by
  induction depth generalizing expanding line name with
  | zero =>
      -- All that is known is being inlined, so entering fails before the depth is asked for.
      refine .failing fun c hc => ?_
      cases hd : enterFunction name c with
      | ok body d =>
          obtain ⟨-, -, hname, hnot⟩ := enterFunction_knows hc hd
          have := room_append_lt hname hnot
          omega
      | error error d =>
          have hcall : openCall name c = .error error d := bind_error.2 (.inl hd)
          exact ⟨error, d, bind_error.2 (.inl hcall), bind_error.2 (.inl hd)⟩
  | succ depth ih =>
      rw [inline_eq]
      refine .opening (fun body d => Knows names (expanding ++ [name]) d ∧
        (∀ n ∈ Node.definedIn body, n ∈ names) ∧ room names (expanding ++ [name]) ≤ depth) rfl
        (fun hc hd => ?_) fun body => ?_
      · simp only [openCall, bind_ok, get_ok, record_ok, pure_ok] at hd
        obtain ⟨body, e, hd, _, _, ⟨rfl, rfl⟩, _, _, rfl, rfl, rfl⟩ := hd
        obtain ⟨hknows, hdefined, hname, hnot⟩ := enterFunction_knows hc hd
        have hless := room_append_lt hname hnot
        exact ⟨hknows.of_functions rfl, hdefined, by omega⟩
      · intro c hc
        obtain ⟨hknows, hdefined, hroom⟩ := hc
        have hbody := (block_performs (ih hroom) body hdefined).weaken
          (Knows names expanding ∘ Compile.leaveFunction) fun hd => ⟨hd.known, by
            simp only [Compile.leaveFunction, Functions.leave, hd.expanding, List.dropLast_concat]⟩
        exact Performs.ensuring .leaveFunction rfl rfl rfl hbody c hknows

theorem statements_reaches (options : CompileOptions) (nodes : List Node) (c : Compilation) :
    Reaches options (Agenda.start nodes c) (ended [] (statements options nodes c)) := by
  have hroom : room (c.functions.reachable nodes) c.functions.expanding ≤
      c.functions.bound nodes := by
    rw [← Functions.length_reachable]
    exact List.length_filter_le _ _
  have hperforms := block_performs (inline_performs options _ hroom) nodes
    fun n hn => List.mem_append_right _ hn
  exact (hperforms c ⟨Functions.mem_reachable_of_find?, rfl⟩).1 []

end

end TapeCompiler
