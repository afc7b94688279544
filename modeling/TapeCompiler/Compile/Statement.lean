import TapeCompiler.Compile.Operation

namespace TapeCompiler

namespace Compilation

def declareScalar (c : Compilation) (name : String) (type : CellType) : Compilation :=
  let address := c.layout.lowestFree
  let c := c.clearReused address 1
  { c with
    layout := c.layout.bind address name 0 type
    bindings := c.bindings.insert name ⟨address, 1, type⟩ }

def declareArray (c : Compilation) (name : String) (type : CellType) (length : Nat) :
    Compilation :=
  let base := c.layout.firstFit length
  let place (c : Compilation) (index : Nat) : Compilation :=
    { c with layout := c.layout.bind (base + index) name index type }.clear (base + index)
  let c := (List.range length).foldl place c
  { c with bindings := c.bindings.insert name ⟨base, length, type⟩ }

def clearAndFree (c : Compilation) (cells : List Int) : Compilation :=
  cells.foldl (fun c address => (c.clear address).free address) c

def removeVariable (c : Compilation) (name : String) (binding : Binding) : Compilation :=
  let c := c.clearAndFree (addresses binding.base binding.length)
  { c with bindings := c.bindings.erase name }

def assignCell (c : Compilation) (source target : Int) : Compilation :=
  if source = target then c
  else
    let (source, c) := if c.layout.isTemp source then (source, c) else c.copy source
    ((c.clear target).drain source target .plus).free source

def freeCondition (c : Compilation) (address : Int) : Compilation :=
  if c.layout.isTemp address then c.free address else c

def enterBlock (c : Compilation) (size : Int) : Compilation :=
  let start := c.layout.firstFit size
  let c := c.clearReused start size
  let layout := (addresses start size.toNat).foldl Layout.reserve c.layout
  let c := { c with layout }.record (.reserved start (start + size))
  { c with unsafeRegion := some ⟨start, size⟩, unsafePointer := some start }

def leaveBlock (c : Compilation) : Compilation :=
  { c with unsafeRegion := none, unsafePointer := none }

end Compilation

namespace Compile

def declare (name : String) (type : CellType) (length : Option Int) : Compile Unit := do
  if (← get).bindings.contains name then record (.redeclared name)
  match length with
  | none => modify (·.declareScalar name type)
  | some length =>
      if length ≤ 0 then fail (.arrayLength name length)
      else modify (·.declareArray name type length.toNat)

def assignTo (options : CompileOptions) (target : Int) (value : Node) : Compile Unit :=
  match value with
  | .literal number _ => setValue number target
  | .max => modify fun c => (c.clear target).emit "-"
  | value => do
      let source ← evaluate options value
      modify (·.assignCell source target)

def assign (options : CompileOptions) (name : String) (index : Option Node) (value : Node) :
    Compile Unit :=
  match index with
  | none => do
      let target ← element name 0
      assignTo options target value
  | some index =>
      match index.literalValue? with
      | some number => do
          let target ← element name number
          assignTo options target value
      | none => writeElement name (evaluate options index) (evaluate options value)

def display (options : CompileOptions) (value : Node) : Compile Unit := do
  let address ← evaluate options value
  modify (·.moveTo address)
  let textual ← isTextual value
  modify (·.emit (if textual then "~" else "."))
  modify (·.release address)

def input (name : String) : Compile Unit := do
  let address ← element name 0
  modify fun c => (c.moveTo address).emit ","

def remove (name : String) : Compile Unit := do
  let found ← binding name
  modify (·.removeVariable name found)

def openLoop (options : CompileOptions) (node : Node) : Compile Int := do
  let address ← condition options node
  modify fun c => (c.moveTo address).emit "["
  return address

def closeLoop (address : Int) : Compile Unit :=
  modify fun c => ((c.moveTo address).emit "]").freeCondition address

def closeConditional (address : Int) : Compile Unit :=
  modify fun c => ((c.clear address).emit "]").freeCondition address

def unsafeBlock (options : CompileOptions) (size : Int) (body : List Node) : Compile Unit := do
  if size ≤ 0 then fail (.blockSize size)
  let c ← get
  if c.unsafePointer.isSome then fail .nestedBlock
  let start := c.layout.firstFit size
  modify (·.enterBlock size)
  ensuring Compilation.leaveBlock do
    modify (·.moveTo start)
    operations options body
    modify (·.clearAndFree (addresses start size.toNat))

def define (name : String) (body : List Node) : Compile Unit := do
  record (.registered name body.length)
  modify fun c => { c with functions := c.functions.define name body }

def enterFunction (name : String) : Compile (List Node) := do
  let c ← get
  match c.functions.enter name with
  | .ok (body, functions) => do
      set { c with functions }
      return body
  | .error fault => fail fault

def leaveFunction (c : Compilation) : Compilation := { c with functions := c.functions.leave }

def asStatement (node : Node) (form : Compile Unit) : Compile Unit :=
  if node.isStatement then do
    record (.statement node.line node.kind (← get).pointer)
    locate node.line form
  else fail (.unknownStatement node.kind)

mutual

def form (options : CompileOptions) (call : String → Compile Unit) : Node → Compile Unit
  | .declare _ name type length => declare name type length
  | .assign _ name index value => assign options name index value
  | .display _ value => display options value
  | .input _ name => input name
  | .remove _ name => remove name
  | .conditional _ condition body => do
      let address ← openLoop options condition
      block options call body
      closeConditional address
  | .loop _ condition body => do
      let address ← openLoop options condition
      block options call body
      closeLoop address
  | .unsafeBlock _ size body => unsafeBlock options size body
  | .function _ name body => define name body
  | .call _ name => call name
  | node => operation options node

def block (options : CompileOptions) (call : String → Compile Unit) : List Node → Compile Unit
  | [] => return ()
  | node :: rest => do
      asStatement node (form options call node)
      block options call rest

end

/-- Inlines a function, inside which at most `depth` more can be entered. When that is none, every
function is being inlined already or not defined, so that entering fails. -/
def inline (options : CompileOptions) : Nat → String → Compile Unit
  | 0, name => do
      let _ ← enterFunction name
      modify leaveFunction
  | depth + 1, name => do
      let body ← enterFunction name
      ensuring leaveFunction do
        record (.inlining name (← get).pointer)
        block options (inline options depth) body

def statements (options : CompileOptions) (nodes : List Node) : Compile Unit := do
  let depth := (← get).functions.bound nodes
  block options (inline options depth) nodes

def program (options : CompileOptions) (nodes : List Node) : Compile Unit := do
  set Compilation.initial
  statements options nodes
  let c ← get
  record (.compiled nodes.length c.code.length c.layout.highWater)

end Compile

end TapeCompiler
