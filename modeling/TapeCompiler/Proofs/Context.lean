import TapeCompiler.Proofs.Acceptance

namespace TapeCompiler

open Compile Compilation

structure Context where
  functions : Functions
  unsafePointer : Option Int
  unsafeRegion : Option Region

namespace Compilation

def context (c : Compilation) : Context := ⟨c.functions, c.unsafePointer, c.unsafeRegion⟩

variable {c d : Compilation}

theorem context_of_scope (h : d.scope = c.scope) : d.context = c.context := by
  simp only [scope, Scope.mk.injEq] at h
  simp only [context, h]

theorem functions_of_scope (h : d.scope = c.scope) : d.functions = c.functions :=
  congrArg Context.functions (context_of_scope h)

section

variable (c : Compilation)

@[simp] theorem scope_allocateTemp : c.allocateTemp.2.scope = c.scope := rfl

@[simp] theorem scope_countAt (value a : Int) : (c.countAt value a).scope = c.scope := by
  unfold countAt countHere clearHere
  dsimp only
  split <;> simp

@[simp] theorem scope_greatest : c.greatest.2.scope = c.scope := by simp [greatest]

@[simp] theorem scope_addCopy (a b : Int) (sign : Sign) : (c.addCopy a b sign).scope = c.scope := by
  simp [addCopy]

@[simp] theorem scope_sum (a b : Int) : (c.sum a b).2.scope = c.scope := by
  unfold sum
  rw [scope_free, scope_free, scope_drain, scope_drain, scope_clear, scope_allocateTemp, scope_copy,
    scope_copy]

@[simp] theorem scope_difference (options : CompileOptions) (a b : Int) :
    (c.difference options a b).2.scope = c.scope := by
  unfold difference
  dsimp only
  split
  · rw [scope_free, scope_free, scope_drain, scope_drain, scope_clear, scope_allocateTemp,
      scope_copy, scope_copy]
  · rw [scope_drain, scope_drain, scope_clear, scope_allocateTemp, scope_copy, scope_copy]

theorem scope_whenIndexIs {body : Compilation → Compilation} (hbody : ∀ c, (body c).scope = c.scope)
    (index slot : Int) : (c.whenIndexIs index slot body).scope = c.scope := by
  unfold whenIndexIs
  dsimp only
  split <;> simp [hbody]

theorem scope_atElement {body : Int → Compilation → Compilation}
    (hbody : ∀ a c, (body a c).scope = c.scope) (binding : Binding) (index : Int) :
    (c.atElement binding index body).scope = c.scope := by
  unfold atElement
  generalize List.range binding.length = slots
  induction slots generalizing c with
  | nil => rfl
  | cons slot slots ih => rw [List.foldl_cons, ih, scope_whenIndexIs c (hbody _)]

@[simp] theorem scope_clearAndFree (cells : List Int) : (c.clearAndFree cells).scope = c.scope := by
  unfold clearAndFree
  induction cells generalizing c with
  | nil => rfl
  | cons a cells ih => rw [List.foldl_cons, ih, scope_free, scope_clear]

theorem context_declareScalar (name : String) (type : CellType) :
    (c.declareScalar name type).context = c.context := by
  change (c.clearReused c.layout.lowestFree 1).context = c.context
  exact context_of_scope (by simp)

theorem context_declareArray (name : String) (type : CellType) (length : Nat) :
    (c.declareArray name type length).context = c.context := by
  unfold declareArray
  generalize c.layout.firstFit length = base
  change (List.foldl _ c (List.range length)).context = c.context
  generalize List.range length = slots
  induction slots generalizing c with
  | nil => rfl
  | cons slot slots ih =>
      rw [List.foldl_cons, ih]
      exact context_of_scope (scope_clear _ _)

theorem context_removeVariable (name : String) (binding : Binding) :
    (c.removeVariable name binding).context = c.context := by
  change (c.clearAndFree (addresses binding.base binding.length)).context = c.context
  exact context_of_scope (by simp)

end

end Compilation

namespace Compile

variable {α β γ : Type} {part : Compilation → γ} {x : Compile α}

def Fixes (part : Compilation → γ) (x : Compile α) : Prop := ∀ c,
  match x c with
  | .ok _ d => part d = part c
  | .error error d => part d = part c ∧ error.fault ≠ .nestedBlock

namespace Fixes

theorem pure (a : α) : Fixes part (pure a : Compile α) := fun _ => rfl

theorem fail {fault : CompileFault} (h : fault ≠ .nestedBlock) :
    Fixes part (Compile.fail fault : Compile α) := fun _ => ⟨rfl, h⟩

theorem get : Fixes part (get : Compile Compilation) := fun _ => rfl

theorem modify {f : Compilation → Compilation} (h : ∀ c, part (f c) = part c) :
    Fixes part (modify f : Compile Unit) := fun c => h c

theorem modifyGet {f : Compilation → α × Compilation} (h : ∀ c, part (f c).2 = part c) :
    Fixes part (modifyGet f : Compile α) := fun c => h c

theorem ok (hx : Fixes part x) {c d : Compilation} {a : α} (h : x c = .ok a d) :
    part d = part c := by
  have hc := hx c
  rw [h] at hc
  exact hc

theorem error (hx : Fixes part x) {c d : Compilation} {error : CompileError}
    (h : x c = .error error d) : part d = part c ∧ error.fault ≠ .nestedBlock := by
  have hc := hx c
  rw [h] at hc
  exact hc

theorem bind {f : α → Compile β} (hx : Fixes part x) (hf : ∀ a, Fixes part (f a)) :
    Fixes part (x >>= f) := by
  intro c
  cases h : (x >>= f) c with
  | ok b d =>
      obtain ⟨a, e, h₁, h₂⟩ := bind_ok.1 h
      exact ((hf a).ok h₂).trans (hx.ok h₁)
  | error error d =>
      rcases bind_error.1 h with h₁ | ⟨a, e, h₁, h₂⟩
      · exact hx.error h₁
      · exact ⟨((hf a).error h₂).1.trans (hx.ok h₁), ((hf a).error h₂).2⟩

theorem functions (hx : Fixes context x) : Fixes Compilation.functions x := by
  intro c
  have hc := hx c
  split at hc
  · exact congrArg Context.functions hc
  · exact ⟨congrArg Context.functions hc.1, hc.2⟩

end Fixes

theorem record_fixes (event : Event) : Fixes context (record event) := .modify fun _ => rfl

theorem binding_fixes (name : String) : Fixes context (binding name) := .bind .get fun c => by
  split
  · exact .pure _
  · exact .fail (by simp)

theorem element_fixes (name : String) (index : Int) : Fixes context (element name index) :=
  .bind (binding_fixes name) fun found => by
    split
    · exact .pure _
    · exact .fail (by simp)

theorem readElement_fixes (name : String) {index : Compile Int} (h : Fixes context index) :
    Fixes context (readElement name index) :=
  .bind (binding_fixes name) fun _ => .bind h fun _ =>
    .bind (.modifyGet fun _ => rfl) fun result =>
    .bind (.modify fun c => context_of_scope (scope_clear c result)) fun _ =>
    .bind (.modify fun c => context_of_scope (scope_atElement c (fun _ _ => scope_addCopy ..) ..))
      fun _ => .bind (.modify fun c => context_of_scope (scope_release c _)) fun _ => .pure _

theorem writeElement_fixes (name : String) {index value : Compile Int}
    (hindex : Fixes context index) (hvalue : Fixes context value) :
    Fixes context (writeElement name index value) := by
  refine .bind (binding_fixes name) fun found => .bind hindex fun indexCell =>
    .bind .get fun c => ?_
  have hwritten (indexCell : Int) : Fixes context (do
      let valueCell ← value
      modify (·.atElement found indexCell fun cell c =>
        let copied := (c.copy valueCell).1
        (((c.copy valueCell).2.clear cell).drain copied cell .plus).free copied)
      modify (·.release valueCell)
      modify (·.release indexCell)) :=
    .bind hvalue fun valueCell =>
      .bind (.modify fun c => context_of_scope (scope_atElement c (fun _ _ => by simp) ..)) fun _ =>
      .bind (.modify fun c => context_of_scope (scope_release c valueCell)) fun _ =>
      .modify fun c => context_of_scope (scope_release c indexCell)
  dsimp only
  split
  · exact .bind (.pure _) hwritten
  · exact .bind (.modifyGet fun c => context_of_scope (scope_copy c indexCell)) hwritten

theorem setValue_fixes (value address : Int) : Fixes context (setValue value address) := by
  intro c
  rw [setValue_eq]
  by_cases hvalue : value.natAbs < countLimit
  · rw [if_pos hvalue]
    exact context_of_scope (scope_countAt c _ _)
  · rw [if_neg hvalue]
    exact ⟨context_of_scope (scope_clear c _), by simp⟩

theorem constant_fixes (value : Int) : Fixes context (constant value) :=
  .bind (.modifyGet fun c => context_of_scope (scope_allocateTemp c)) fun address =>
    .bind (setValue_fixes value address) fun _ => .pure address

theorem evaluate_fixes (options : CompileOptions) (node : Node) :
    Fixes context (evaluate options node) := by
  fun_induction evaluate options node with
  | case1 value => exact constant_fixes value
  | case2 name => exact element_fixes name 0
  | case3 name index value => exact element_fixes name value
  | case4 name index _ ih => exact readElement_fixes name ih
  | case5 left right ihleft ihright =>
      exact .bind ihleft fun a => .bind ihright fun b =>
        .bind (.modifyGet fun c => context_of_scope (scope_sum c _ _)) fun _ =>
        .bind (.modify fun c => context_of_scope (by simp)) fun _ => .pure _
  | case6 left right ihleft ihright =>
      exact .bind ihleft fun a => .bind ihright fun b =>
        .bind (.modifyGet fun c => context_of_scope (scope_difference c _ _ _)) fun _ =>
        .bind (.modify fun c => context_of_scope (by simp)) fun _ => .pure _
  | case7 => exact .fail (by simp)
  | case8 => exact .modifyGet fun c => context_of_scope (scope_greatest c)
  | case9 => exact .fail (by simp)

theorem isTextual_fixes (node : Node) : Fixes context (isTextual node) := by
  unfold isTextual
  split
  · exact .pure _
  · exact .bind (binding_fixes _) fun _ => .pure _
  · exact .pure _

theorem declare_fixes (name : String) (type : CellType) (length : Option Int) :
    Fixes context (declare name type length) := by
  have hrecorded {x : Compile Unit} (event : Event) (hx : Fixes context x) :
      Fixes context (record event >>= fun _ => x) := .bind (record_fixes event) fun _ => hx
  refine .bind .get fun c => ?_
  cases length with
  | none =>
      have hplaced : Fixes context (modify (·.declareScalar name type)) :=
        .modify fun c => context_declareScalar c name type
      dsimp only
      split
      · exact hrecorded _ hplaced
      · exact hplaced
  | some length =>
      have hplaced : Fixes context (if length ≤ 0 then fail (.arrayLength name length)
          else modify (·.declareArray name type length.toNat)) := by
        split
        · exact .fail (by simp)
        · exact .modify fun c => context_declareArray c name type _
      dsimp only
      split
      · exact hrecorded _ hplaced
      · exact hplaced

theorem assignTo_fixes (options : CompileOptions) (target : Int) (value : Node) :
    Fixes context (assignTo options target value) := by
  unfold assignTo
  split
  · exact setValue_fixes _ target
  · exact .modify fun c => context_of_scope (by simp)
  · exact .bind (evaluate_fixes options value) fun source =>
      .modify fun c => context_of_scope (scope_assignCell c _ _)

theorem assign_fixes (options : CompileOptions) (name : String) (index : Option Node)
    (value : Node) : Fixes context (assign options name index value) := by
  unfold assign
  split
  · exact .bind (element_fixes name 0) fun target => assignTo_fixes options target value
  · split
    · exact .bind (element_fixes name _) fun target => assignTo_fixes options target value
    · exact writeElement_fixes name (evaluate_fixes options _) (evaluate_fixes options value)

theorem display_fixes (options : CompileOptions) (value : Node) :
    Fixes context (display options value) :=
  .bind (evaluate_fixes options value) fun _ =>
    .bind (.modify fun c => context_of_scope (scope_moveTo c _)) fun _ =>
    .bind (isTextual_fixes value) fun _ => .bind (.modify fun _ => rfl) fun _ =>
    .modify fun c => context_of_scope (scope_release c _)

theorem input_fixes (name : String) : Fixes context (input name) :=
  .bind (element_fixes name 0) fun _ => .modify fun c => context_of_scope (by simp)

theorem remove_fixes (name : String) : Fixes context (remove name) :=
  .bind (binding_fixes name) fun found => .modify fun c => context_removeVariable c name found

theorem openLoop_fixes (options : CompileOptions) (node : Node) :
    Fixes context (openLoop options node) := by
  refine .bind ?_ fun _ => .bind (.modify fun c => context_of_scope (by simp)) fun _ => .pure _
  unfold condition
  split
  · exact evaluate_fixes options node
  · exact .fail (by simp)

theorem closeLoop_fixes (address : Int) : Fixes context (closeLoop address) :=
  .modify fun c => context_of_scope (by simp)

theorem closeConditional_fixes (address : Int) : Fixes context (closeConditional address) :=
  .modify fun c => context_of_scope (by simp)

theorem unsafePointer_fixes : Fixes context Compile.unsafePointer := .bind .get fun c => by
  split
  · exact .pure _
  · exact .fail (by simp)

theorem goto_fixes (offset : Int) : Fixes Compilation.functions (goto offset) :=
  .bind unsafePointer_fixes.functions fun address => .bind .get fun c => by
    dsimp only
    split
    · exact .fail (by simp)
    · split
      · exact .modify fun c => (functions_of_scope (scope_moveTo c _) :)
      · exact .fail (by simp)

theorem drainAmount_fixes (options : CompileOptions) (amount : Node) (sign : Sign) :
    Fixes context (drainAmount options amount sign) :=
  .bind unsafePointer_fixes fun _ => .bind (evaluate_fixes options amount) fun _ =>
    .bind (.modify fun c => context_of_scope (scope_addCopy c _ _ _)) fun _ =>
    .modify fun c => context_of_scope (scope_release c _)

theorem operation_fixes (options : CompileOptions) (node : Node)
    (hnode : ∀ line body, node ≠ .unsafeLoop line body) :
    Fixes Compilation.functions (operation options node) := by
  cases node
  case unsafeLoop line body => exact absurd rfl (hnode line body)
  case unsafeGoto line offset => exact goto_fixes offset
  case unsafeAdd line amount => exact (drainAmount_fixes options amount .plus).functions
  case unsafeReduce line amount => exact (drainAmount_fixes options amount .minus).functions
  case unsafeShow line =>
    exact .bind unsafePointer_fixes.functions fun _ =>
      .modify fun c => functions_of_scope (by simp)
  case verbatim line code =>
    exact .bind unsafePointer_fixes.functions fun _ => .modify fun _ => rfl
  all_goals exact .fail (by simp)

end Compile

end TapeCompiler
