import TapeCompiler.Proofs.Agenda
import TapeCompiler.Proofs.Numerals

namespace TapeCompiler

open Compile Compilation

def Text.NumeralFault.StemsFrom (N : Int → Prop) : NumeralFault → Prop
  | .unwritable => ∃ n, N n ∧ Nat.pow 10 maxDigits ≤ 2 * n.natAbs
  | .uncountable => ∃ n, N n ∧ countLimit ≤ n.natAbs
  | _ => False

def CompileFault.StemsFrom (N : Int → Prop) (fault : CompileFault) : Prop :=
  ∀ cause, fault.kind = .error cause → cause.StemsFrom N

theorem CompileFault.stemsFrom_of_kind {N : Int → Prop} {fault : CompileFault} {kind : FaultKind}
    (h : fault.kind = .ok kind) : fault.StemsFrom N := by
  intro cause hcause
  cases h.symm.trans hcause

namespace Compile

variable {α β : Type} {N : Int → Prop}

def Plain (N : Int → Prop) (x : Compile α) : Prop :=
  ∀ c error d, x c = .error error d → error.line = 0 ∧ error.fault.StemsFrom N

namespace Plain

variable {x : Compile α} {f : α → Compile β}

theorem pure (a : α) : Plain N (pure a : Compile α) := by
  intro c error d h
  cases h

theorem get : Plain N (get : Compile Compilation) := by
  intro c error d h
  cases h

theorem modify (g : Compilation → Compilation) : Plain N (modify g : Compile Unit) := by
  intro c error d h
  cases h

theorem modifyGet (g : Compilation → α × Compilation) : Plain N (modifyGet g : Compile α) := by
  intro c error d h
  cases h

theorem fail {fault : CompileFault} {kind : FaultKind} (h : fault.kind = .ok kind) :
    Plain N (Compile.fail fault : Compile α) := by
  intro c error d herror
  cases herror
  exact ⟨rfl, CompileFault.stemsFrom_of_kind h⟩

theorem bind (hx : Plain N x) (hf : ∀ a, Plain N (f a)) : Plain N (x >>= f) := by
  intro c error d h
  rcases bind_error.1 h with h | ⟨a, e, -, h⟩
  · exact hx c error d h
  · exact hf a e error d h

end Plain

theorem setValue_plain {value : Int} (h : N value) (address : Int) :
    Plain N (setValue value address) := by
  intro c error d herror
  obtain ⟨hlimit, rfl, -⟩ := setValue_error.1 herror
  refine ⟨rfl, fun cause hcause => ?_⟩
  cases hcause
  exact ⟨value, h, hlimit⟩

theorem constant_plain {value : Int} (h : N value) : Plain N (constant value) :=
  .bind (.modifyGet _) fun address => .bind (setValue_plain h address) fun _ => .pure _

theorem binding_plain (name : String) : Plain N (binding name) := .bind .get fun c => by
  split
  · exact .pure _
  · exact .fail rfl

theorem element_plain (name : String) (index : Int) : Plain N (element name index) :=
  .bind (binding_plain name) fun found => by
    split
    · exact .pure _
    · exact .fail rfl

theorem readElement_plain (name : String) {index : Compile Int} (h : Plain N index) :
    Plain N (readElement name index) :=
  .bind (binding_plain name) fun _ => .bind h fun _ => .bind (.modifyGet _) fun _ =>
    .bind (.modify _) fun _ => .bind (.modify _) fun _ => .bind (.modify _) fun _ => .pure _

theorem writeElement_plain (name : String) {index value : Compile Int} (hindex : Plain N index)
    (hvalue : Plain N value) : Plain N (writeElement name index value) := by
  refine .bind (binding_plain name) fun _ => .bind hindex fun _ => .bind .get fun c => ?_
  dsimp only
  split
  · exact .bind (.pure _) fun _ => .bind hvalue fun _ => .bind (.modify _) fun _ =>
      .bind (.modify _) fun _ => .modify _
  · exact .bind (.modifyGet _) fun _ => .bind hvalue fun _ => .bind (.modify _) fun _ =>
      .bind (.modify _) fun _ => .modify _

theorem evaluate_plain (options : CompileOptions) {node : Node} (h : node.Holds N) :
    Plain N (evaluate options node) := by
  fun_induction evaluate options node with
  | case1 value => exact constant_plain (h value List.mem_cons_self)
  | case2 name => exact element_plain name 0
  | case3 name index value => exact element_plain name value
  | case4 name index _ ih => exact readElement_plain name (ih (Node.holds_var.1 h index rfl))
  | case5 left right ihleft ihright =>
      obtain ⟨hleft, hright⟩ := Node.holds_math.1 h
      exact .bind (ihleft hleft) fun _ => .bind (ihright hright) fun _ => .bind (.modifyGet _)
        fun _ => .bind (.modify _) fun _ => .pure _
  | case6 left right ihleft ihright =>
      obtain ⟨hleft, hright⟩ := Node.holds_math.1 h
      exact .bind (ihleft hleft) fun _ => .bind (ihright hright) fun _ => .bind (.modifyGet _)
        fun _ => .bind (.modify _) fun _ => .pure _
  | case7 => exact .fail rfl
  | case8 => exact .modifyGet _
  | case9 => exact .fail rfl

theorem isTextual_plain (node : Node) : Plain N (isTextual node) := by
  unfold isTextual
  split
  · exact .pure _
  · exact .bind (binding_plain _) fun _ => .pure _
  · exact .pure _

theorem declare_plain (name : String) (type : CellType) (length : Option Int) :
    Plain N (declare name type length) := by
  have hrecorded {x : Compile Unit} (event : Event) (hx : Plain N x) :
      Plain N (record event >>= fun _ => x) := .bind (.modify _) fun _ => hx
  refine .bind .get fun c => ?_
  cases length with
  | none =>
      have hplaced : Plain N (modify (·.declareScalar name type)) := .modify _
      dsimp only
      split
      · exact hrecorded _ hplaced
      · exact hplaced
  | some length =>
      have hplaced : Plain N (if length ≤ 0 then fail (.arrayLength name length)
          else modify (·.declareArray name type length.toNat)) := by
        split
        · exact .fail rfl
        · exact .modify _
      dsimp only
      split
      · exact hrecorded _ hplaced
      · exact hplaced

theorem assignTo_plain (options : CompileOptions) (target : Int) {value : Node}
    (h : value.Holds N) : Plain N (assignTo options target value) := by
  unfold assignTo
  split
  · rename_i number _
    exact setValue_plain (h number List.mem_cons_self) target
  · exact .modify _
  · exact .bind (evaluate_plain options h) fun _ => .modify _

theorem assign_plain (options : CompileOptions) (name : String) {index : Option Node}
    {value : Node} (hindex : ∀ i ∈ index, i.Holds N) (hvalue : value.Holds N) :
    Plain N (assign options name index value) := by
  unfold assign
  split
  · exact .bind (element_plain name 0) fun target => assignTo_plain options target hvalue
  · split
    · exact .bind (element_plain name _) fun target => assignTo_plain options target hvalue
    · exact writeElement_plain name (evaluate_plain options (hindex _ rfl))
        (evaluate_plain options hvalue)

theorem display_plain (options : CompileOptions) {value : Node} (h : value.Holds N) :
    Plain N (display options value) :=
  .bind (evaluate_plain options h) fun _ => .bind (.modify _) fun _ =>
    .bind (isTextual_plain value) fun _ => .bind (.modify _) fun _ => .modify _

theorem input_plain (name : String) : Plain N (input name) :=
  .bind (element_plain name 0) fun _ => .modify _

theorem remove_plain (name : String) : Plain N (remove name) :=
  .bind (binding_plain name) fun _ => .modify _

theorem openLoop_plain (options : CompileOptions) {node : Node} (h : node.Holds N) :
    Plain N (openLoop options node) := by
  refine .bind ?_ fun _ => .bind (.modify _) fun _ => .pure _
  unfold condition
  split
  · exact evaluate_plain options h
  · exact .fail rfl

theorem unsafePointer_plain : Plain N Compile.unsafePointer := .bind .get fun c => by
  split
  · exact .pure _
  · exact .fail rfl

theorem drainAmount_plain (options : CompileOptions) (amount : Node) (sign : Sign)
    (h : amount.Holds N) : Plain N (drainAmount options amount sign) :=
  .bind unsafePointer_plain fun _ => .bind (evaluate_plain options h) fun _ =>
    .bind (.modify _) fun _ => .modify _

structure Careful (N : Int → Prop) (I : Context → Prop) (x : Compile α) (J : Context → Prop) :
    Prop where
  ok : ∀ {c a d}, I c.context → x c = .ok a d → J d.context
  error : ∀ {c error d}, I c.context → x c = .error error d → error.fault.StemsFrom N

namespace Careful

variable {I J K : Context → Prop} {x : Compile α} {f : α → Compile β}

theorem of_fixes (hx : Fixes context x) (hplain : Plain N x) : Careful N I x I := by
  refine ⟨fun hc h => ?_, fun _ h => (hplain _ _ _ h).2⟩
  rw [hx.ok h]
  exact hc

theorem pure (a : α) : Careful N I (pure a : Compile α) I := .of_fixes (.pure a) (.pure a)

theorem fail {fault : CompileFault} (h : fault.StemsFrom N) :
    Careful N I (Compile.fail fault : Compile α) J := by
  refine ⟨fun _ hok => absurd hok fail_ok, fun _ herror => ?_⟩
  cases herror
  exact h

theorem refuse {fault : CompileFault} {kind : FaultKind} (h : fault.kind = .ok kind) :
    Careful N I (Compile.fail fault : Compile α) J :=
  .fail (CompileFault.stemsFrom_of_kind h)

theorem modify {g : Compilation → Compilation} (h : ∀ c, I c.context → J (g c).context) :
    Careful N I (modify g : Compile Unit) J := by
  refine ⟨fun hc hok => ?_, fun _ herror => by cases herror⟩
  exact modify_ok.1 hok ▸ h _ hc

theorem bind (hx : Careful N I x J)
    (hf : ∀ {c a d}, I c.context → x c = .ok a d → Careful N J (f a) K) :
    Careful N I (x >>= f) K := by
  refine ⟨fun hc h => ?_, fun hc h => ?_⟩
  · obtain ⟨a, e, hfirst, hnext⟩ := bind_ok.1 h
    exact (hf hc hfirst).ok (hx.ok hc hfirst) hnext
  · rcases bind_error.1 h with hfirst | ⟨a, e, hfirst, hnext⟩
    · exact hx.error hc hfirst
    · exact (hf hc hfirst).error (hx.ok hc hfirst) hnext

theorem of_exists {ι : Type} {F : ι → Context → Prop} (h : ∀ i, Careful N (F i) x J) :
    Careful N (fun k => ∃ i, F i k) x J :=
  ⟨fun ⟨i, hc⟩ hok => (h i).ok hc hok, fun ⟨i, hc⟩ herror => (h i).error hc herror⟩

theorem locate {line : Int} (hx : Careful N I x J) : Careful N I (locate line x) J := by
  refine ⟨fun hc h => hx.ok hc (locate_ok.1 h), fun {c error d} hc h => ?_⟩
  unfold Compile.locate at h
  split at h
  · cases h
  · rename_i cause _ herror
    cases h
    have hfault : (cause.locate line).fault = cause.fault := by
      unfold CompileError.locate
      split <;> rfl
    rw [hfault]
    exact hx.error hc herror

theorem ensuring {finish : Compilation → Compilation} (hx : Careful N I x J)
    (h : ∀ c, J c.context → K (finish c).context) : Careful N I (ensuring finish x) K := by
  refine ⟨fun hc hok => ?_, fun {c error d} hc herror => ?_⟩
  · obtain ⟨e, hdone, rfl⟩ := ensuring_ok.1 hok
    exact h e (hx.ok hc hdone)
  · unfold Compile.ensuring at herror
    split at herror
    · cases herror
    · rename_i hfailed
      cases herror
      exact hx.error hc hfailed

end Careful

end Compile

def Functions.Hold (N : Int → Prop) (functions : Functions) : Prop :=
  ∀ name body, functions.bodies.find? name = some body → Node.HoldIn N body

namespace Context

structure InBlock (N : Int → Prop) (r : Region) (k : Context) : Prop where
  functions : k.functions.Hold N
  region : k.unsafeRegion = some r
  size : N r.size
  pointer : ∀ {p}, k.unsafePointer = some p → r.start ≤ p ∧ p < r.start + r.size

structure OutOfBlock (N : Int → Prop) (k : Context) : Prop where
  functions : k.functions.Hold N
  pointer : k.unsafePointer = none

variable {N : Int → Prop} {r : Region} {c : Compilation} {p : Int}

theorem InBlock.pointTo (h : c.context.InBlock N r)
    (hp : r.start ≤ p ∧ p < r.start + r.size) :
    (context { c.moveTo p with unsafePointer := some p }).InBlock N r := by
  have hmoved := context_of_scope (scope_moveTo c p)
  refine ⟨?_, ?_, h.size, ?_⟩
  · exact congrArg Context.functions hmoved ▸ h.functions
  · exact (congrArg Context.unsafeRegion hmoved).trans h.region
  · rintro _ ⟨⟩
    exact hp

theorem OutOfBlock.enterBlock {size : Int} (h : c.context.OutOfBlock N) (hpos : 0 < size)
    (hsize : N size) :
    (c.enterBlock size).context.InBlock N ⟨c.layout.firstFit size, size⟩ := by
  refine ⟨?_, rfl, hsize, ?_⟩
  · change (c.enterBlock size).functions.Hold N
    rw [functions_enterBlock]
    exact h.functions
  · rintro _ ⟨⟩
    exact ⟨Int.le_refl _, Int.lt_add_of_pos_right _ hpos⟩

end Context

namespace Compile

open Context

variable {α : Type} {options : CompileOptions} {r : Region} {N : Int → Prop}

theorem unsafePointer_careful {I : Context → Prop} : Careful N I Compile.unsafePointer I :=
  .of_fixes unsafePointer_fixes unsafePointer_plain

theorem leavesRegion_stemsFrom {offset target size : Int} (hoffset : N offset) (hsize : N size)
    (h : target.natAbs ≤ offset.natAbs + size.natAbs) :
    (CompileFault.leavesRegion offset target size).StemsFrom N := by
  intro cause hcause
  simp only [CompileFault.kind] at hcause
  split at hcause
  · rename_i hlong
    cases hcause
    rcases Nat.le_total offset.natAbs size.natAbs with hle | hle
    · exact ⟨size, hsize, by omega⟩
    · exact ⟨offset, hoffset, by omega⟩
  · cases hcause

theorem goto_careful {offset : Int} (hoffset : N offset) :
    Careful N (InBlock N r) (goto offset) (InBlock N r) := by
  refine .bind unsafePointer_careful fun {_ p _} hc hp => ?_
  have hsize := hc.size
  have hinside := hc.pointer (unsafePointer_ok.1 hp).1
  refine .bind (.of_fixes .get .get) fun {c _ _} hc hget => ?_
  obtain ⟨rfl, -⟩ := get_ok.1 hget
  have hregion : c.unsafeRegion = some r := hc.region
  simp only [hregion]
  split
  · rename_i htarget
    exact .modify fun c hc => hc.pointTo htarget
  · -- The goto starts inside the block, so its place is within the size and the offset.
    refine .fail (leavesRegion_stemsFrom hoffset hsize ?_)
    omega

mutual

theorem operation_careful (node : Node) (h : node.Holds N) :
    Careful N (InBlock N r) (operation options node) (InBlock N r) := by
  cases node
  case unsafeGoto line offset => exact goto_careful (h offset List.mem_cons_self)
  case unsafeAdd line amount =>
    exact .of_fixes (drainAmount_fixes options amount .plus)
      (drainAmount_plain options amount .plus h)
  case unsafeReduce line amount =>
    exact .of_fixes (drainAmount_fixes options amount .minus)
      (drainAmount_plain options amount .minus h)
  case unsafeShow line =>
    exact .bind unsafePointer_careful fun _ _ =>
      .of_fixes (.modify fun c => context_of_scope (by simp)) (.modify _)
  case unsafeLoop line body =>
    refine .bind unsafePointer_careful fun {_ p _} hc hp => ?_
    have hinside := hc.pointer (unsafePointer_ok.1 hp).1
    refine .bind (.of_fixes (.modify fun c => context_of_scope (by simp)) (.modify _)) fun _ _ => ?_
    exact .bind (operations_careful body h) fun _ _ => .modify fun c hc => hc.pointTo hinside
  case verbatim line code =>
    exact .bind unsafePointer_careful fun _ _ => .of_fixes (.modify fun _ => rfl) (.modify _)
  all_goals exact .refuse rfl

theorem operations_careful (nodes : List Node) (h : Node.HoldIn N nodes) :
    Careful N (InBlock N r) (operations options nodes) (InBlock N r) := by
  match nodes with
  | [] => exact .pure ()
  | node :: rest =>
      obtain ⟨hnode, hrest⟩ := Node.holdIn_cons.1 h
      exact .bind (operation_careful node hnode) fun _ _ => operations_careful rest hrest

end

theorem openBlock_careful {size : Int} (hsize : N size) :
    Careful N (OutOfBlock N) (openBlock size) fun k => ∃ r, k.InBlock N r := by
  refine ⟨fun {c _ d} hc h => ?_, fun {c _ d} hc h => ?_⟩
  · rw [openBlock_eq] at h
    split at h
    · cases h
    · rename_i hpos
      split at h
      · cases h
      · cases h
        rw [context_of_scope (scope_moveTo _ _)]
        exact ⟨_, hc.enterBlock (by omega) hsize⟩
  · rw [openBlock_eq] at h
    split at h
    · cases h
      exact CompileFault.stemsFrom_of_kind rfl
    · split at h
      · cases h
        exact CompileFault.stemsFrom_of_kind rfl
      · cases h

theorem unsafeBlock_careful {size : Int} {body : List Node} (hsize : N size)
    (hbody : Node.HoldIn N body) :
    Careful N (OutOfBlock N) (unsafeBlock options size body) (OutOfBlock N) := by
  rw [unsafeBlock_eq]
  refine .bind (openBlock_careful hsize) fun _ _ => .of_exists fun r => ?_
  refine .ensuring (.bind (operations_careful body hbody) fun _ _ =>
    .of_fixes (.modify fun c => context_of_scope (scope_clearAndFree c _)) (.modify _)) ?_
  intro c hc
  exact ⟨hc.functions, rfl⟩

theorem outside_careful {f : Int → Compile α} :
    Careful N (OutOfBlock N) (Compile.unsafePointer >>= f) (OutOfBlock N) := by
  refine .bind unsafePointer_careful fun hc hp => ?_
  cases hc.pointer.symm.trans (unsafePointer_ok.1 hp).1

theorem operation_outside_careful (node : Node) :
    Careful N (OutOfBlock N) (operation options node) (OutOfBlock N) := by
  cases node <;> first | exact outside_careful | exact .refuse rfl

theorem define_careful {name : String} {body : List Node} (h : Node.HoldIn N body) :
    Careful N (OutOfBlock N) (define name body) (OutOfBlock N) := by
  refine .bind (.of_fixes (record_fixes _) (.modify _)) fun _ _ => .modify fun c hc => ?_
  refine ⟨?_, hc.pointer⟩
  intro other found hfound
  change (c.functions.bodies.insert name body).find? other = some found at hfound
  rw [Table.find?_insert] at hfound
  split at hfound
  · cases hfound
    exact h
  · exact hc.functions _ _ hfound

theorem enterFunction_plain (name : String) : Plain N (enterFunction name) := .bind .get fun c => by
  split
  · intro c error d h
    cases h
  · rename_i henter
    obtain ⟨-, rfl⟩ | ⟨-, rfl⟩ := Functions.enter_error henter
    · exact .fail rfl
    · exact .fail rfl

section

variable {call : String → Compile Unit}

mutual

theorem form_careful
    (hcall : ∀ name, Careful N (OutOfBlock N) (call name) (OutOfBlock N)) (node : Node)
    (h : node.Holds N) :
    Careful N (OutOfBlock N) (form options call node) (OutOfBlock N) := by
  cases node
  case declare line name type length =>
    exact .of_fixes (declare_fixes name type length) (declare_plain name type length)
  case assign line name index value =>
    obtain ⟨hindex, hvalue⟩ := Node.holds_assign.1 h
    exact .of_fixes (assign_fixes options name index value)
      (assign_plain options name hindex hvalue)
  case display line value =>
    exact .of_fixes (display_fixes options value) (display_plain options h)
  case input line name => exact .of_fixes (input_fixes name) (input_plain name)
  case remove line name => exact .of_fixes (remove_fixes name) (remove_plain name)
  case conditional line condition body =>
    obtain ⟨hcondition, hbody⟩ := Node.holds_conditional.1 h
    exact .bind (.of_fixes (openLoop_fixes options condition) (openLoop_plain options hcondition))
      fun _ _ => .bind (block_careful hcall body hbody) fun _ _ =>
        .of_fixes (closeConditional_fixes _) (.modify _)
  case loop line condition body =>
    obtain ⟨hcondition, hbody⟩ := Node.holds_loop.1 h
    exact .bind (.of_fixes (openLoop_fixes options condition) (openLoop_plain options hcondition))
      fun _ _ => .bind (block_careful hcall body hbody) fun _ _ =>
        .of_fixes (closeLoop_fixes _) (.modify _)
  case unsafeBlock line size body =>
    obtain ⟨hsize, hbody⟩ := Node.holds_unsafeBlock.1 h
    exact unsafeBlock_careful hsize hbody
  case function line name body => exact define_careful h
  case call line name => exact hcall name
  all_goals exact operation_outside_careful _

theorem block_careful
    (hcall : ∀ name, Careful N (OutOfBlock N) (call name) (OutOfBlock N)) (nodes : List Node)
    (h : Node.HoldIn N nodes) :
    Careful N (OutOfBlock N) (block options call nodes) (OutOfBlock N) := by
  match nodes with
  | [] => exact .pure ()
  | node :: rest =>
      obtain ⟨hnode, hrest⟩ := Node.holdIn_cons.1 h
      refine .bind ?_ fun _ _ => block_careful hcall rest hrest
      unfold asStatement
      split
      · exact .bind (.of_fixes .get .get) fun _ _ =>
          .bind (.of_fixes (record_fixes _) (.modify _)) fun _ _ =>
            (form_careful hcall node hnode).locate
      · exact .refuse rfl

end

end

end Compile

end TapeCompiler
