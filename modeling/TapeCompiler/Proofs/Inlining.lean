import TapeCompiler.Program
import TapeCompiler.Proofs.Acceptance
import TapeCompiler.Proofs.Expansion

namespace TapeCompiler

open Compile Compilation

namespace Node

def isExpanded : Node → Bool
  | function .. | call .. => false
  | _ => true

mutual

def parts : Node → List Node
  | var name (some index) => var name (some index) :: index.parts
  | math operator left right => math operator left right :: (left.parts ++ right.parts)
  | assign line name none value => assign line name none value :: value.parts
  | assign line name (some index) value =>
      assign line name (some index) value :: (index.parts ++ value.parts)
  | display line value => display line value :: value.parts
  | conditional line condition body =>
      conditional line condition body :: (condition.parts ++ partsIn body)
  | loop line condition body => loop line condition body :: (condition.parts ++ partsIn body)
  | unsafeBlock line size body => unsafeBlock line size body :: partsIn body
  | function line name body => function line name body :: partsIn body
  | unsafeAdd line amount => unsafeAdd line amount :: amount.parts
  | unsafeReduce line amount => unsafeReduce line amount :: amount.parts
  | unsafeLoop line body => unsafeLoop line body :: partsIn body
  | node => [node]

def partsIn : List Node → List Node
  | [] => []
  | node :: rest => node.parts ++ partsIn rest

end

end Node

namespace Compile

variable {options : CompileOptions} {c d : Compilation} {a : Int}

theorem evaluate_expanded {node : Node} (he : evaluate options node c = .ok a d) :
    ∀ part ∈ node.parts, part.isExpanded = true := by
  fun_induction evaluate options node generalizing c d a with
  | case1 value isChar => simp [Node.parts, Node.isExpanded]
  | case2 name => simp [Node.parts, Node.isExpanded]
  | case3 name index value hindex =>
      cases index <;> cases hindex
      simp [Node.parts, Node.isExpanded]
  | case4 name index hindex ih =>
      simp only [readElement, bind_ok] at he
      obtain ⟨_, _, -, _, _, hi, -⟩ := he
      simpa [Node.parts, Node.isExpanded] using ih hi
  | case5 left right ihl ihr =>
      simp only [bind_ok] at he
      obtain ⟨_, _, hl, _, _, hr, -⟩ := he
      simpa [Node.parts, Node.isExpanded, or_imp, forall_and] using ⟨ihl hl, ihr hr⟩
  | case6 left right ihl ihr =>
      simp only [bind_ok] at he
      obtain ⟨_, _, hl, _, _, hr, -⟩ := he
      simpa [Node.parts, Node.isExpanded, or_imp, forall_and] using ⟨ihl hl, ihr hr⟩
  | case7 => exact absurd he fail_ok
  | case8 => simp [Node.parts, Node.isExpanded]
  | case9 => exact absurd he fail_ok

theorem assignTo_expanded {value : Node} (hd : assignTo options a value c = .ok () d) :
    ∀ part ∈ value.parts, part.isExpanded = true := by
  unfold assignTo at hd
  split at hd
  · simp [Node.parts, Node.isExpanded]
  · simp [Node.parts, Node.isExpanded]
  · simp only [bind_ok] at hd
    obtain ⟨_, _, hvalue, -⟩ := hd
    exact evaluate_expanded hvalue

theorem assign_expanded {line : Int} {name : String} {index : Option Node} {value : Node}
    (hd : assign options name index value c = .ok () d) :
    ∀ part ∈ (Node.assign line name index value).parts, part.isExpanded = true := by
  cases index with
  | none =>
      simp only [assign, bind_ok] at hd
      obtain ⟨_, _, -, hto⟩ := hd
      simpa [Node.parts, Node.isExpanded] using assignTo_expanded hto
  | some index =>
      have hboth : (∀ part ∈ index.parts, part.isExpanded = true) ∧
          ∀ part ∈ value.parts, part.isExpanded = true := by
        cases hnumber : index.literalValue? with
        | some number =>
            simp only [assign, hnumber, bind_ok] at hd
            obtain ⟨_, _, -, hto⟩ := hd
            refine ⟨?_, assignTo_expanded hto⟩
            cases index <;> cases hnumber
            simp [Node.parts, Node.isExpanded]
        | none =>
            simp only [assign, hnumber, writeElement, bind_ok, get_ok] at hd
            obtain ⟨_, _, -, _, _, hindex, _, _, -, hd⟩ := hd
            refine ⟨evaluate_expanded hindex, ?_⟩
            split at hd <;> simp only [bind_ok] at hd <;>
              obtain ⟨_, _, -, _, _, hvalue, -⟩ := hd <;> exact evaluate_expanded hvalue
      simpa [Node.parts, Node.isExpanded, or_imp, forall_and] using hboth

theorem drainAmount_expanded {amount : Node} {sign : Sign}
    (hd : drainAmount options amount sign c = .ok () d) :
    ∀ part ∈ amount.parts, part.isExpanded = true := by
  simp only [drainAmount, bind_ok] at hd
  obtain ⟨_, _, -, _, _, hamount, -⟩ := hd
  exact evaluate_expanded hamount

mutual

theorem operation_expanded (node : Node) {c d : Compilation}
    (hd : operation options node c = .ok () d) : ∀ part ∈ node.parts, part.isExpanded = true := by
  cases node
  case unsafeAdd line amount =>
    simpa [Node.parts, Node.isExpanded] using drainAmount_expanded hd
  case unsafeReduce line amount =>
    simpa [Node.parts, Node.isExpanded] using drainAmount_expanded hd
  case unsafeLoop line body =>
    simp only [operation, bind_ok] at hd
    obtain ⟨_, _, -, _, _, -, _, _, hbody, -⟩ := hd
    simpa [Node.parts, Node.isExpanded] using operations_expanded body hbody
  all_goals first | exact absurd hd fail_ok | simp [Node.parts, Node.isExpanded]

theorem operations_expanded (nodes : List Node) {c d : Compilation}
    (hd : operations options nodes c = .ok () d) :
    ∀ part ∈ Node.partsIn nodes, part.isExpanded = true := by
  match nodes with
  | [] => simp [Node.partsIn]
  | node :: rest =>
      simp only [operations, bind_ok] at hd
      obtain ⟨_, _, hnode, hrest⟩ := hd
      simpa [Node.partsIn, or_imp, forall_and] using
        ⟨operation_expanded node hnode, operations_expanded rest hrest⟩

end

theorem plain_expanded {call : String → Compile Unit} {node : Node} (hplain : node.isPlain = true)
    (hd : form options call node c = .ok () d) : ∀ part ∈ node.parts, part.isExpanded = true := by
  cases node
  case assign line name index value => exact assign_expanded hd
  case display line value =>
    obtain ⟨_, _, _, hvalue, -⟩ := display_ok hd
    simpa [Node.parts, Node.isExpanded] using evaluate_expanded hvalue
  case unsafeBlock line size body =>
    obtain ⟨-, -, e, hbody, -⟩ := unsafeBlock_ok hd
    simpa [Node.parts, Node.isExpanded] using operations_expanded body hbody
  case declare => simp [Node.parts, Node.isExpanded]
  case input => simp [Node.parts, Node.isExpanded]
  case remove => simp [Node.parts, Node.isExpanded]
  case conditional => cases hplain
  case loop => cases hplain
  case function => cases hplain
  case call => cases hplain
  all_goals
    simp only [form] at hd
    exact operation_expanded _ hd

end Compile

theorem Lowered.expanded {options : CompileOptions} {flat : List Node} {c d : Compilation}
    (h : Lowered options flat c d) : ∀ part ∈ Node.partsIn flat, part.isExpanded = true := by
  induction h with
  | nil => simp [Node.partsIn]
  | noted _ _ ih => exact ih
  | plain hplain hform _ ih =>
      simpa [Node.partsIn, or_imp, forall_and] using ⟨plain_expanded hplain hform, ih⟩
  | conditional hopen _ _ _ ihbody ihrest =>
      obtain ⟨_, -, htest, -⟩ := openLoop_ok.1 hopen
      simpa [Node.partsIn, Node.parts, Node.isExpanded, or_imp, forall_and, and_assoc] using
        ⟨evaluate_expanded htest, ihbody, ihrest⟩
  | loop hopen _ _ _ ihbody ihrest =>
      obtain ⟨_, -, htest, -⟩ := openLoop_ok.1 hopen
      simpa [Node.partsIn, Node.parts, Node.isExpanded, or_imp, forall_and, and_assoc] using
        ⟨evaluate_expanded htest, ihbody, ihrest⟩

namespace Compilation

namespace Noted

variable {c c' d : Compilation}

theorem emit (h : Noted c c') (code : String) : Noted (c.emit code) (c'.emit code) :=
  { h with code := congrArg (· ++ code) h.code }

theorem entries_eq {entries entries' : List (String × Binding)}
    (h : List.Forall₂ (Entries Eq) entries entries') : entries = entries' := by
  induction h with
  | nil => rfl
  | @cons e e' l l' he _ ih =>
      obtain ⟨name, base, length, type⟩ := e
      obtain ⟨name', base', length', type'⟩ := e'
      obtain ⟨rfl, rfl, rfl, rfl⟩ := he
      rw [ih]

theorem parallel : Parallel Noted Eq Eq where
  bindings {c c'} hs := by
    rw [hs.bindings]
    exact List.forall₂_same.2 fun e _ => ⟨rfl, rfl, rfl, rfl⟩
  cursor {c c'} hs := by
    rw [hs.unsafePointer]
    cases c.unsafePointer with
    | none => exact .none
    | some p => exact .some rfl
  region {c c' p p'} hs hp := by
    subst hp
    rw [hs.unsafeRegion]
    cases c.unsafeRegion with
    | none => exact .none
    | some r => exact .some ⟨rfl, rfl⟩
  address hp := hp
  shift ha i := congrArg (· + i) ha
  shiftCursor hp i := congrArg (· + i) hp
  record hs _ _ := ⟨hs.layout, hs.bindings, hs.pointer, hs.code, hs.unsafePointer, hs.unsafeRegion⟩
  emit hs code := hs.emit code
  moveTo {c c' a a'} hs ha := by
    subst ha
    unfold Compilation.moveTo
    rw [hs.pointer]
    split
    · exact { hs.emit _ with pointer := rfl }
    · exact { hs.emit _ with pointer := rfl }
  mark {c c' a a'} hs ha o := by
    subst ha
    exact { hs with layout := congrArg (Layout.set · a o) hs.layout }
  lowestFree hs := congrArg Layout.lowestFree hs.layout.symm
  firstFit hs size := congrArg (Layout.firstFit · size) hs.layout.symm
  rebind hs ht := { hs with bindings := congrArg Table.mk (entries_eq ht).symm }
  point hs hp := { hs with unsafePointer := congrArg some hp.symm }
  define hs _ _ := ⟨hs.layout, hs.bindings, hs.pointer, hs.code, hs.unsafePointer, hs.unsafeRegion⟩

theorem own {a : Int} (h : Noted c c') :
    (if c.layout.isTemp a then (a, c) else c.copy a).1 =
        (if c'.layout.isTemp a then (a, c') else c'.copy a).1 ∧
      Noted (if c.layout.isTemp a then (a, c) else c.copy a).2
        (if c'.layout.isTemp a then (a, c') else c'.copy a).2 := by
  rw [h.layout]
  split
  · exact ⟨rfl, h⟩
  · exact parallel.copy h rfl

theorem settles (options : CompileOptions) : Settles options options Noted Eq where
  release {c c' a a'} hs ha := by
    subst ha
    unfold Compilation.release
    rw [hs.layout]
    split
    · exact parallel.free (parallel.clear hs rfl) rfl
    · exact hs
  own {c c' a a'} hs ha := by
    subst ha
    exact hs.own
  assignCell {c c' a a' b b'} hs ha hb := by
    subst ha hb
    unfold Compilation.assignCell
    split
    · exact hs
    · obtain ⟨hsource, hs⟩ := hs.own (a := a)
      exact parallel.free (parallel.drain (parallel.clear hs rfl) hsource rfl .plus) hsource
  freeCondition {c c' a a'} hs ha := by
    subst ha
    unfold Compilation.freeCondition
    rw [hs.layout]
    split
    · exact parallel.free hs rfl
    · exact hs
  clearReused {c c' a a'} hs ha count := by
    subst ha
    unfold Compilation.clearReused
    rw [hs.layout]
    exact parallel.clearAll hs (parallel.addresses rfl _)
  leave {c c' a a' b b'} hs ha hb := by
    split
    · exact parallel.free (parallel.free hs ha) hb
    · exact hs

theorem nests (options : CompileOptions) : Nests options options Noted Eq := by
  intro c c' hs size
  refine ⟨Noted, Eq, parallel, settles options, ?_, fun hd =>
    { hd with unsafePointer := rfl, unsafeRegion := rfl }⟩
  have hcleared := (settles options).clearReused hs (parallel.firstFit hs size) size
  unfold Compilation.enterBlock
  rw [hs.layout] at hcleared ⊢
  exact { hcleared with
    layout := congrArg (List.foldl Layout.reserve · _) hcleared.layout
    unsafePointer := rfl
    unsafeRegion := rfl }

end Noted

end Compilation

namespace Compile

variable {options : CompileOptions} {call call' : String → Compile Unit} {c c' d : Compilation}

theorem asStatement_of_ok {node : Node} {x : Compile Unit} (hnode : node.isStatement = true)
    (hx : x (c.record (.statement node.line node.kind c.pointer)) = .ok () d) :
    asStatement node x c = .ok () d := by
  unfold asStatement
  rw [if_pos hnode]
  simp only [bind_ok, get_ok, record_ok, locate_ok]
  exact ⟨c, c, ⟨rfl, rfl⟩, (), _, rfl, hx⟩

theorem plain_form {node : Node} (hplain : node.isPlain = true)
    (hd : form options call node c = .ok () d) (call' : String → Compile Unit) :
    node.isStatement = true ∧ form options call' node = form options call node := by
  cases node
  case conditional => cases hplain
  case loop => cases hplain
  case function => cases hplain
  case call => cases hplain
  all_goals simp only [form, operation] at hd
  all_goals first | exact absurd hd fail_ok | exact ⟨rfl, by simp only [form]⟩

theorem plain_noted {node : Node} (hplain : node.isPlain = true) (hc : Noted c c')
    (hd : form options call node c = .ok () d) :
    ∃ d', asStatement node (form options call' node) c' = .ok () d' ∧ Noted d d' := by
  obtain ⟨hnode, hform⟩ := plain_form hplain hd fun _ => fail .outsideBlock
  rw [← hform] at hd
  have htogether := form_together Noted.parallel (Noted.settles options) (Noted.nests options)
    (fun _ => .fail .outsideBlock) node
  obtain ⟨_, d', hd', -, hnoted⟩ := htogether.ok (hc.trans (.record c' _)) hd
  exact ⟨d', asStatement_of_ok hnode ((plain_form hplain hd' call').2 ▸ hd'), hnoted⟩

end Compile

theorem Lowered.compiles {options : CompileOptions} {flat : List Node} {c c' d : Compilation}
    (h : Lowered options flat c d) (hc : Noted c c') (call : String → Compile Unit) :
    ∃ d', block options call flat c' = .ok () d' ∧ Noted d d' := by
  induction h generalizing c' with
  | nil => exact ⟨c', rfl, hc⟩
  | noted hn _ ih => exact ih (hn.symm.trans hc)
  | plain hplain hform _ ih =>
      obtain ⟨e, he, hnoted⟩ := plain_noted hplain hc hform
      obtain ⟨d', hd', hend⟩ := ih hnoted
      exact ⟨d', bind_ok.2 ⟨(), e, he, hd'⟩, hend⟩
  | @conditional line test body rest a c c₁ c₂ c₃ d hopen _ hclose _ ihbody ihrest =>
      obtain ⟨_, e₁, he₁, rfl, hopened⟩ := (openLoop_together Noted.parallel (Noted.settles options)
        test).ok (hc.trans (.record c' (.statement line "If" c'.pointer))) hopen
      obtain ⟨e₂, he₂, hbody⟩ := ihbody hopened
      obtain ⟨_, e₃, he₃, -, hclosed⟩ := (closeConditional_together Noted.parallel
        (Noted.settles options) rfl).ok hbody hclose
      obtain ⟨d', hd', hend⟩ := ihrest hclosed
      refine ⟨d', bind_ok.2 ⟨(), e₃, asStatement_of_ok rfl ?_, hd'⟩, hend⟩
      exact bind_ok.2 ⟨a, e₁, he₁, bind_ok.2 ⟨(), e₂, he₂, he₃⟩⟩
  | @loop line test body rest a c c₁ c₂ c₃ d hopen _ hclose _ ihbody ihrest =>
      obtain ⟨_, e₁, he₁, rfl, hopened⟩ := (openLoop_together Noted.parallel (Noted.settles options)
        test).ok (hc.trans (.record c' (.statement line "Loop" c'.pointer))) hopen
      obtain ⟨e₂, he₂, hbody⟩ := ihbody hopened
      obtain ⟨_, e₃, he₃, -, hclosed⟩ := (closeLoop_together Noted.parallel
        (Noted.settles options) rfl).ok hbody hclose
      obtain ⟨d', hd', hend⟩ := ihrest hclosed
      refine ⟨d', bind_ok.2 ⟨(), e₃, asStatement_of_ok rfl ?_, hd'⟩, hend⟩
      exact bind_ok.2 ⟨a, e₁, he₁, bind_ok.2 ⟨(), e₂, he₂, he₃⟩⟩

theorem Compile.program_of_lowered {options : CompileOptions} {flat : List Node} {d : Compilation}
    (h : Lowered options flat Compilation.initial d) (c : Compilation) :
    ∃ d', program options flat c = .ok () d' ∧ Noted d d' := by
  obtain ⟨e, he, hnoted⟩ := h.compiles ⟨rfl, rfl, rfl, rfl, rfl, rfl⟩
    (inline options (Compilation.initial.functions.bound flat))
  refine ⟨_, ?_, hnoted.trans (.record e (.compiled flat.length e.code.length e.layout.highWater))⟩
  simp only [program, statements, bind_ok, set_ok, get_ok, record_ok]
  exact ⟨(), _, rfl, (), e, ⟨_, _, ⟨rfl, rfl⟩, he⟩, _, _, ⟨rfl, rfl⟩, rfl⟩

theorem compileTree_ok {options : CompileOptions} {nodes : List Node} {compiled : Compiled} :
    (compileTree options nodes).1 = .ok compiled ↔
      ∃ d, Compile.program options nodes Compilation.initial = .ok () d ∧
        compiled = ⟨d.code, d.bindings, d.layout.highWater, d.trace options⟩ := by
  unfold compileTree
  cases Compile.program options nodes Compilation.initial with
  | ok u d =>
      constructor
      · rintro h
        cases h
        exact ⟨d, rfl, rfl⟩
      · rintro ⟨_, h, rfl⟩
        cases h
        rfl
  | error error d =>
      constructor
      · intro h
        cases h
      · rintro ⟨_, h, -⟩
        cases h

theorem inlining_textual {options : CompileOptions} {nodes : List Node} {compiled : Compiled}
    (h : (compileTree options nodes).1 = .ok compiled) :
    ∃ flat bodies, Expands Functions.initial.bodies nodes flat bodies ∧
      (∀ flat' bodies', Expands Functions.initial.bodies nodes flat' bodies' → flat' = flat) ∧
      (∀ line name, Node.call line name ∉ Node.partsIn flat) ∧
      (∀ line name body, Node.function line name body ∉ Node.partsIn flat) ∧
      ∀ options', ∃ whole expanded, (compileTree options' nodes).1 = .ok whole ∧
        (compileTree options' flat).1 = .ok expanded ∧ expanded.code = whole.code ∧
        expanded.bindings = whole.bindings ∧ expanded.cells = whole.cells := by
  obtain ⟨d, hd, -⟩ := compileTree_ok.1 h
  obtain ⟨flat, hexpands, hlowered⟩ := Compile.program_lowered hd
  refine ⟨flat, d.functions.bodies, hexpands, fun flat' bodies' h' => (h'.unique hexpands).1,
    fun line name hmem => ?_, fun line name body hmem => ?_, fun options' => ?_⟩
  · cases hlowered.expanded _ hmem
  · cases hlowered.expanded _ hmem
  · obtain ⟨_, d', hd', -, -⟩ := Together.ok (S := Alike none none)
      (fun c c' _ => Compile.program_alike options options' nodes c c') .initial hd
    obtain ⟨flat', hexpands', hlowered'⟩ := Compile.program_lowered hd'
    obtain rfl := (hexpands'.unique hexpands).1
    obtain ⟨e, he, hnoted⟩ := Compile.program_of_lowered hlowered' Compilation.initial
    exact ⟨_, _, compileTree_ok.2 ⟨d', hd', rfl⟩, compileTree_ok.2 ⟨e, he, rfl⟩, hnoted.code,
      hnoted.bindings, congrArg Layout.highWater hnoted.layout⟩

def Node.redefinition : List Node :=
  [.declare 1 "x" .number none,
    .function 2 "step" [
      .assign 3 "x" none (.math .minus (.var "x" none) (.literal 1 false)), .call 4 "__dump"],
    .function 5 "twice" [.call 6 "step", .call 7 "step"],
    .call 8 "twice",
    .conditional 9 (.var "x" none) [.function 10 "step" [.display 11 (.var "x" none)], .call 12 "twice"],
    .call 13 "step"]

theorem inlining_textual_redefinition :
    ∃ compiled, (compileTree {} Node.redefinition).1 = .ok compiled ∧
    ∃ flat bodies, Expands Functions.initial.bodies Node.redefinition flat bodies ∧
      (∀ flat' bodies',
        Expands Functions.initial.bodies Node.redefinition flat' bodies' → flat' = flat) ∧
      (∀ line name, Node.call line name ∉ Node.partsIn flat) ∧
      (∀ line name body, Node.function line name body ∉ Node.partsIn flat) ∧
      ∀ options', ∃ whole expanded, (compileTree options' Node.redefinition).1 = .ok whole ∧
        (compileTree options' flat).1 = .ok expanded ∧ expanded.code = whole.code ∧
        expanded.bindings = whole.bindings ∧ expanded.cells = whole.cells := by
  obtain ⟨d, hd, -⟩ := Compile.exists_of_fits
    (show Compile.fits {} Node.redefinition 20 = true by decide +kernel)
  have hcompiled := compileTree_ok.2 ⟨d, hd, rfl⟩
  exact ⟨_, hcompiled, inlining_textual hcompiled⟩

end TapeCompiler
