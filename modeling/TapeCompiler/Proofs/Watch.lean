import TapeCompiler.Proofs.Expansion

namespace TapeCompiler

/-- The states that a computation passes are those behind its steps. To declare or remove a
variable is one step, and so is to open or leave a block. -/
structure Watch (α : Type) where
  compile : Compile α
  passed : Compilation → List Compilation

namespace Watch

variable {α β : Type}

instance : Monad Watch where
  pure a := ⟨pure a, fun _ => []⟩
  bind w f := ⟨w.compile >>= fun a => (f a).compile, fun c =>
    w.passed c ++ match w.compile c with
      | .ok a d => (f a).passed d
      | .error _ _ => []⟩

def step (x : Compile α) : Watch α where
  compile := x
  passed c := match x c with
    | .ok _ d => [d]
    | .error _ d => [d]

def quiet (x : Compile α) : Watch α := ⟨x, fun _ => []⟩

def locate (line : Int) (w : Watch α) : Watch α := ⟨Compile.locate line w.compile, w.passed⟩

def ensuring (finish : Compilation → Compilation) (w : Watch α) : Watch α where
  compile := Compile.ensuring finish w.compile
  passed c := w.passed c ++ match w.compile c with
    | .ok _ d => [finish d]
    | .error _ _ => []

theorem compile_bind (w : Watch α) (f : α → Watch β) :
    (w >>= f).compile = w.compile >>= fun a => (f a).compile := rfl

theorem compile_step (x : Compile α) : (step x).compile = x := rfl

theorem compile_ensuring (finish : Compilation → Compilation) (w : Watch α) :
    (ensuring finish w).compile = Compile.ensuring finish w.compile := rfl

theorem compile_quiet (x : Compile α) : (quiet x).compile = x := rfl

theorem mem_passed_bind {w : Watch α} {f : α → Watch β} {c x : Compilation} :
    x ∈ (w >>= f).passed c ↔
      x ∈ w.passed c ∨ ∃ a d, w.compile c = .ok a d ∧ x ∈ (f a).passed d := by
  simp only [bind]
  cases w.compile c <;> simp

theorem mem_passed_ensuring {finish : Compilation → Compilation} {w : Watch α} {c x : Compilation} :
    x ∈ (ensuring finish w).passed c ↔
      x ∈ w.passed c ∨ ∃ a d, w.compile c = .ok a d ∧ x = finish d := by
  simp only [ensuring]
  cases w.compile c <;> simp

def allocate : Watch Int := step (modifyGet (·.allocateTemp))

def copy (source : Int) : Watch Int := do
  let kept ← allocate
  let back ← allocate
  step (modify fun c => (c.copyInto source kept back).free back)
  return kept

def addCopy (source target : Int) (sign : Sign) : Watch Unit := do
  let copied ← copy source
  step (modify fun c => (c.drain copied target sign).free copied)

def constant (value : Int) : Watch Int := do
  let address ← allocate
  step (Compile.setValue value address)
  return address

def greatest : Watch Int := do
  let address ← allocate
  step (modify fun c => (c.clear address).emit "-")
  return address

def join (sign : Sign) (giveBack : Bool) (a b : Int) : Watch Int := do
  let copiedA ← copy a
  let copiedB ← copy b
  let result ← allocate
  step (modify (·.joinInto copiedA copiedB result sign))
  if giveBack then
    step (modify (·.free copiedA))
    step (modify (·.free copiedB))
  return result

def whenIndexIs (index slot : Int) (body : Watch Unit) : Watch Unit := do
  let probe ← copy index
  let guard ← step (modifyGet fun c => (if 0 < slot then
    (c.moveTo probe).emit (repeated '-' slot.toNat) else c).allocateTemp)
  step (modify fun c => ((c.testProbe probe guard).moveTo guard).emit "[")
  body
  step (modify fun c => ((c.clear guard).emit "]").free guard)
  step (modify (·.free probe))

def atElement (binding : Binding) (index : Int) (body : Int → Watch Unit) : Watch Unit :=
  (List.range binding.length).forM fun slot => whenIndexIs index slot (body (binding.base + slot))

def detach (address : Int) : Watch Int := do
  let c ← quiet get
  if c.layout.isTemp address then return address else copy address

def readElement (name : String) (index : Watch Int) : Watch Int := do
  let found ← step (Compile.binding name)
  let indexCell ← index
  let result ← allocate
  step (modify (·.clear result))
  atElement found indexCell fun cell => addCopy cell result .plus
  step (modify (·.release indexCell))
  return result

def writeElement (name : String) (index value : Watch Int) : Watch Unit := do
  let found ← step (Compile.binding name)
  let indexCell ← index
  let indexCell ← detach indexCell
  let valueCell ← value
  atElement found indexCell fun cell => do
    let copied ← copy valueCell
    step (modify fun c => ((c.clear cell).drain copied cell .plus).free copied)
  step (modify (·.release valueCell))
  step (modify (·.release indexCell))

def evaluate (options : CompileOptions) : Node → Watch Int
  | .literal value _ => constant value
  | .var name none => step (Compile.element name 0)
  | .var name (some index) =>
      match index.literalValue? with
      | some value => step (Compile.element name value)
      | none => readElement name (evaluate options index)
  | .math .plus left right => do
      let a ← evaluate options left
      let b ← evaluate options right
      let result ← join .plus true a b
      step (modify (·.release b))
      step (modify (·.release a))
      return result
  | .math .minus left right => do
      let a ← evaluate options left
      let b ← evaluate options right
      let result ← join .minus options.freeSubtractionCopies a b
      step (modify (·.release b))
      step (modify (·.release a))
      return result
  | .math operator _ _ => step (Compile.fail (.unsupportedOperator operator))
  | .max => greatest
  | node => step (Compile.fail (.unknownValue node.kind))

def condition (options : CompileOptions) (node : Node) : Watch Int :=
  if node.isValue then evaluate options node else step (Compile.fail (.malformedCondition node))

def drainAmount (options : CompileOptions) (amount : Node) (sign : Sign) : Watch Unit := do
  let address ← step Compile.unsafePointer
  let amountCell ← evaluate options amount
  addCopy amountCell address sign
  step (modify (·.release amountCell))

mutual

def operation (options : CompileOptions) : Node → Watch Unit
  | .unsafeAdd _ amount => drainAmount options amount .plus
  | .unsafeReduce _ amount => drainAmount options amount .minus
  | .unsafeLoop _ body => do
      let entry ← step Compile.unsafePointer
      step (modify fun c => (c.moveTo entry).emit "[")
      operations options body
      step (modify fun c => { (c.moveTo entry).emit "]" with unsafePointer := some entry })
  | node => step (Compile.operation options node)

def operations (options : CompileOptions) : List Node → Watch Unit
  | [] => return ()
  | node :: rest => do
      operation options node
      operations options rest

end

def assignCell (source target : Int) : Watch Unit :=
  if source = target then return ()
  else do
    let source ← detach source
    step (modify fun c => ((c.clear target).drain source target .plus).free source)

def assignTo (options : CompileOptions) (target : Int) (value : Node) : Watch Unit :=
  match value with
  | .literal number _ => step (Compile.setValue number target)
  | .max => step (modify fun c => (c.clear target).emit "-")
  | value => do
      let source ← evaluate options value
      assignCell source target

def assign (options : CompileOptions) (name : String) (index : Option Node) (value : Node) :
    Watch Unit :=
  match index with
  | none => do
      let target ← step (Compile.element name 0)
      assignTo options target value
  | some index =>
      match index.literalValue? with
      | some number => do
          let target ← step (Compile.element name number)
          assignTo options target value
      | none => writeElement name (evaluate options index) (evaluate options value)

def display (options : CompileOptions) (value : Node) : Watch Unit := do
  let address ← evaluate options value
  step (modify (·.moveTo address))
  let textual ← step (Compile.isTextual value)
  step (modify (·.emit (if textual then "~" else ".")))
  step (modify (·.release address))

def openLoop (options : CompileOptions) (node : Node) : Watch Int := do
  let address ← condition options node
  step (modify fun c => (c.moveTo address).emit "[")
  return address

def unsafeBlock (options : CompileOptions) (size : Int) (body : List Node) : Watch Unit :=
  if size ≤ 0 then step (Compile.fail (.blockSize size))
  else do
    let c ← quiet get
    if c.unsafePointer.isSome then step (Compile.fail .nestedBlock)
    else do
      let start := c.layout.firstFit size
      step (modify (·.enterBlock size))
      ensuring Compilation.leaveBlock do
        step (modify (·.moveTo start))
        operations options body
        quiet (modify (·.clearAndFree (addresses start size.toNat)))

def asStatement (node : Node) (form : Watch Unit) : Watch Unit :=
  if node.isStatement then do
    let c ← quiet get
    step (Compile.record (.statement node.line node.kind c.pointer))
    locate node.line form
  else step (Compile.fail (.unknownStatement node.kind))

mutual

def form (options : CompileOptions) (call : String → Watch Unit) : Node → Watch Unit
  | .declare _ name type length => step (Compile.declare name type length)
  | .assign _ name index value => assign options name index value
  | .display _ value => display options value
  | .input _ name => step (Compile.input name)
  | .remove _ name => step (Compile.remove name)
  | .conditional _ condition body => do
      let address ← openLoop options condition
      block options call body
      step (Compile.closeConditional address)
  | .loop _ condition body => do
      let address ← openLoop options condition
      block options call body
      step (Compile.closeLoop address)
  | .unsafeBlock _ size body => unsafeBlock options size body
  | .function _ name body => step (Compile.define name body)
  | .call _ name => call name
  | node => operation options node

def block (options : CompileOptions) (call : String → Watch Unit) : List Node → Watch Unit
  | [] => return ()
  | node :: rest => do
      asStatement node (form options call node)
      block options call rest

end

def inline (options : CompileOptions) : Nat → String → Watch Unit
  | 0, name => do
      let _ ← step (Compile.enterFunction name)
      step (modify Compile.leaveFunction)
  | depth + 1, name => do
      let body ← step (Compile.enterFunction name)
      ensuring Compile.leaveFunction do
        let c ← quiet get
        step (Compile.record (.inlining name c.pointer))
        block options (inline options depth) body

def statements (options : CompileOptions) (nodes : List Node) : Watch Unit := do
  let c ← quiet get
  block options (inline options (c.functions.bound nodes)) nodes

def program (options : CompileOptions) (nodes : List Node) : Watch Unit := do
  step (set Compilation.initial)
  statements options nodes
  let c ← quiet get
  step (Compile.record (.compiled nodes.length c.code.length c.layout.highWater))

theorem compile_copy (source : Int) : (copy source).compile = modifyGet (·.copy source) := rfl

theorem compile_copied (source : Int) (g : Int → Compilation → Compilation) :
    (copy source >>= fun copied => step (modify (g copied))).compile =
      modify fun c => g (c.copy source).1 (c.copy source).2 := by
  rw [compile_bind, compile_copy]
  rfl

theorem compile_addCopy (source target : Int) (sign : Sign) :
    (addCopy source target sign).compile = modify (·.addCopy source target sign) := by
  rw [addCopy, compile_copied source fun copied c => (c.drain copied target sign).free copied]
  refine congrArg modify (funext fun c => ?_)
  cases hcopy : c.copy source
  simp only [Compilation.addCopy, hcopy]

theorem compile_sum (a b : Int) : (join .plus true a b).compile = modifyGet (·.sum a b) := rfl

theorem compile_difference (options : CompileOptions) (a b : Int) :
    (join .minus options.freeSubtractionCopies a b).compile =
      modifyGet (·.difference options a b) := by
  unfold Compilation.difference
  cases options.freeSubtractionCopies
  · rfl
  · rfl

theorem compile_whenIndexIs {body : Watch Unit} {f : Compilation → Compilation} (index slot : Int)
    (hbody : body.compile = modify f) :
    (whenIndexIs index slot body).compile = modify (·.whenIndexIs index slot f) := by
  simp only [whenIndexIs, compile_bind, hbody]
  rfl

theorem compile_atElement {body : Int → Watch Unit} {f : Int → Compilation → Compilation}
    (b : Binding) (index : Int) (hbody : ∀ cell, (body cell).compile = modify (f cell)) :
    (atElement b index body).compile = modify (·.atElement b index f) := by
  unfold atElement Compilation.atElement
  induction List.range b.length with
  | nil => rfl
  | cons slot slots ih =>
      change ((whenIndexIs index slot (body (b.base + slot))).compile >>= fun _ =>
        (slots.forM fun slot => whenIndexIs index slot (body (b.base + slot))).compile) = _
      rw [compile_whenIndexIs _ _ (hbody _), ih]
      rfl

theorem compile_detach (address : Int) : (detach address).compile = get >>= fun c =>
    if c.layout.isTemp address then pure address else modifyGet (·.copy address) := by
  simp only [detach, compile_bind, compile_quiet]
  congr 1
  funext c
  split
  · rfl
  · rfl

theorem compile_readElement (name : String) (index : Watch Int) :
    (readElement name index).compile = Compile.readElement name index.compile := by
  simp only [readElement, compile_bind, compile_atElement _ _ fun _ => compile_addCopy _ _ _]
  rfl

theorem compile_writeElement (name : String) (index value : Watch Int) :
    (writeElement name index value).compile =
      Compile.writeElement name index.compile value.compile := by
  have hstore (a cell : Int) := compile_copied a
    fun copied c => ((c.clear cell).drain copied cell .plus).free copied
  have hsplit {p : Prop} [Decidable p] (x y : Compile Int) (f : Int → Compile Unit) :
      (if p then x else y) >>= f = if p then x >>= f else y >>= f := by
    split
    · rfl
    · rfl
  simp only [writeElement, Compile.writeElement, compile_bind, compile_step, compile_detach,
    compile_atElement _ _ (hstore _), bind_assoc, hsplit]

theorem compile_evaluate (options : CompileOptions) (node : Node) :
    (evaluate options node).compile = Compile.evaluate options node := by
  fun_induction Compile.evaluate options node with
  | case1 => rfl
  | case2 => rfl
  | case3 name index value hliteral =>
      simp only [evaluate, hliteral]
      rfl
  | case4 name index hliteral ih =>
      simp only [evaluate, hliteral, compile_readElement, ih]
  | case5 left right ihl ihr =>
      simp only [evaluate, compile_bind, ihl, ihr, compile_sum]
      rfl
  | case6 left right ihl ihr =>
      simp only [evaluate, compile_bind, ihl, ihr, compile_difference]
      rfl
  | case7 operator left right hplus hminus =>
      cases operator
      case plus => exact absurd rfl hplus
      case minus => exact absurd rfl hminus
      all_goals rfl
  | case8 => rfl
  | case9 node hliteral hown hindex hplus hminus hmath hmax =>
      clear hplus hminus
      cases node
      case literal => exact absurd rfl (hliteral _ _)
      case var name index =>
        cases index with
        | none => exact absurd rfl (hown name)
        | some index => exact absurd rfl (hindex name index)
      case math => exact absurd rfl (hmath _ _ _)
      case max => exact absurd rfl hmax
      all_goals rfl

theorem compile_condition (options : CompileOptions) (node : Node) :
    (condition options node).compile = Compile.condition options node := by
  unfold condition Compile.condition
  split
  · exact compile_evaluate options node
  · rfl

theorem compile_drainAmount (options : CompileOptions) (amount : Node) (sign : Sign) :
    (drainAmount options amount sign).compile = Compile.drainAmount options amount sign := by
  simp only [drainAmount, compile_bind, compile_evaluate, compile_addCopy]
  rfl

mutual

theorem compile_operation (options : CompileOptions) (node : Node) :
    (operation options node).compile = Compile.operation options node := by
  cases node
  case unsafeAdd => exact compile_drainAmount ..
  case unsafeReduce => exact compile_drainAmount ..
  case unsafeLoop line body =>
    simp only [operation, compile_bind, compile_operations options body]
    rfl
  all_goals rfl

theorem compile_operations (options : CompileOptions) (nodes : List Node) :
    (operations options nodes).compile = Compile.operations options nodes := by
  match nodes with
  | [] => rfl
  | node :: rest =>
      simp only [operations, compile_bind, compile_operation options node,
        compile_operations options rest]
      rfl

end

theorem compile_assignCell (source target : Int) :
    (assignCell source target).compile = modify (·.assignCell source target) := by
  unfold assignCell
  split
  · rename_i heq
    funext c
    change _ = EStateM.Result.ok () (c.assignCell source target)
    rw [Compilation.assignCell, if_pos heq]
    rfl
  · rename_i hne
    simp only [compile_bind, compile_detach]
    funext c
    change _ = EStateM.Result.ok () (c.assignCell source target)
    rw [Compilation.assignCell, if_neg hne]
    change EStateM.bind (if c.layout.isTemp source then pure source
      else modifyGet fun c : Compilation => c.copy source) _ c = _
    split
    · rfl
    · rfl

theorem compile_assignTo (options : CompileOptions) (target : Int) (value : Node) :
    (assignTo options target value).compile = Compile.assignTo options target value := by
  cases value
  case literal => rfl
  case max => rfl
  all_goals
    simp only [assignTo, compile_bind, compile_evaluate, compile_assignCell]
    rfl

theorem compile_assign (options : CompileOptions) (name : String) (index : Option Node)
    (value : Node) : (assign options name index value).compile =
      Compile.assign options name index value := by
  cases index with
  | none =>
      simp only [assign, compile_bind, compile_assignTo]
      rfl
  | some index =>
      cases hliteral : index.literalValue? with
      | some number =>
          simp only [assign, Compile.assign, hliteral, compile_bind, compile_assignTo]
          rfl
      | none =>
          simp only [assign, Compile.assign, hliteral, compile_writeElement, compile_evaluate]

theorem compile_display (options : CompileOptions) (value : Node) :
    (display options value).compile = Compile.display options value := by
  simp only [display, compile_bind, compile_evaluate]
  rfl

theorem compile_openLoop (options : CompileOptions) (node : Node) :
    (openLoop options node).compile = Compile.openLoop options node := by
  simp only [openLoop, compile_bind, compile_condition]
  rfl

theorem compile_unsafeBlock (options : CompileOptions) (size : Int) (body : List Node) :
    (unsafeBlock options size body).compile = Compile.unsafeBlock options size body := by
  unfold unsafeBlock Compile.unsafeBlock
  split
  · rfl
  · simp only [compile_bind]
    congr 1
    funext c
    split
    · rfl
    · simp only [compile_bind, compile_ensuring, compile_operations]
      rfl

theorem compile_asStatement (node : Node) (w : Watch Unit) :
    (asStatement node w).compile = Compile.asStatement node w.compile := by
  unfold asStatement Compile.asStatement
  split
  · rfl
  · rfl

mutual

theorem compile_form (options : CompileOptions) {call : String → Watch Unit}
    {call' : String → Compile Unit} (hcall : ∀ name, (call name).compile = call' name)
    (node : Node) : (form options call node).compile = Compile.form options call' node := by
  cases node
  case assign => exact compile_assign ..
  case display => exact compile_display ..
  case unsafeBlock => exact compile_unsafeBlock ..
  case call => exact hcall _
  case conditional line test body =>
    simp only [form, compile_bind, compile_openLoop, compile_block options hcall body]
    rfl
  case loop line test body =>
    simp only [form, compile_bind, compile_openLoop, compile_block options hcall body]
    rfl
  case declare => rfl
  case input => rfl
  case remove => rfl
  case function => rfl
  all_goals exact compile_operation ..

theorem compile_block (options : CompileOptions) {call : String → Watch Unit}
    {call' : String → Compile Unit} (hcall : ∀ name, (call name).compile = call' name)
    (nodes : List Node) : (block options call nodes).compile = Compile.block options call' nodes := by
  match nodes with
  | [] => rfl
  | node :: rest =>
      simp only [block, compile_bind, compile_asStatement, compile_form options hcall node,
        compile_block options hcall rest]
      rfl

end

theorem compile_inline (options : CompileOptions) (depth : Nat) (name : String) :
    (inline options depth name).compile = Compile.inline options depth name := by
  induction depth generalizing name with
  | zero => rfl
  | succ depth ih =>
      simp only [inline, compile_bind, compile_ensuring, compile_block options ih]
      rfl

theorem compile_statements (options : CompileOptions) (nodes : List Node) :
    (statements options nodes).compile = Compile.statements options nodes := by
  simp only [statements, compile_bind, compile_block options (compile_inline options _)]
  rfl

theorem compile_program (options : CompileOptions) (nodes : List Node) :
    (program options nodes).compile = Compile.program options nodes := by
  simp only [program, compile_bind, compile_statements]
  rfl

end Watch

end TapeCompiler
