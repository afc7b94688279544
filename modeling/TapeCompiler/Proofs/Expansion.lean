import TapeCompiler.Proofs.Lowering
import Mathlib.Data.List.Perm.Subperm

namespace TapeCompiler

open Compile Compilation

namespace Functions

structure Scoped (names : List String) (depth : Nat) (functions : Functions) : Prop where
  known : ∀ {name : String} {body : List Node}, functions.bodies.find? name = some body →
    name ∈ names ∧ ∀ n ∈ Node.definedIn body, n ∈ names
  nodup : functions.expanding.Nodup
  inside : ∀ n ∈ functions.expanding, n ∈ names
  room : names.length ≤ depth + functions.expanding.length

variable {names : List String} {depth : Nat} {functions functions' : Functions} {name : String}
  {body : List Node}

theorem enter_ok : functions.enter name = .ok (body, functions') ↔
    functions.bodies.find? name = some body ∧ name ∉ functions.expanding ∧
      functions' = { functions with expanding := functions.expanding ++ [name] } := by
  unfold enter resolve
  cases functions.bodies.find? name with
  | none =>
      constructor
      · intro h
        cases h
      · rintro ⟨h, -⟩
        cases h
  | some found =>
      change (if name ∈ functions.expanding then _ else _) = _ ↔ _
      split
      · rename_i hmem
        constructor
        · intro h
          cases h
        · rintro ⟨-, hnot, -⟩
          exact absurd hmem hnot
      · rename_i hnot
        constructor
        · intro h
          cases h
          exact ⟨rfl, hnot, rfl⟩
        · rintro ⟨h, -, rfl⟩
          cases h
          rfl

theorem enter_error {fault : CompileFault} (h : functions.enter name = .error fault) :
    functions.bodies.find? name = none ∧ fault = .unknownFunction name ∨
      name ∈ functions.expanding ∧ fault = .recursiveCall (functions.expanding ++ [name]) := by
  unfold enter resolve at h
  cases hfind : functions.bodies.find? name with
  | none =>
      rw [hfind] at h
      cases h
      exact .inl ⟨rfl, rfl⟩
  | some body =>
      rw [hfind] at h
      change (if name ∈ functions.expanding then _ else _) = _ at h
      split at h
      · rename_i hmem
        cases h
        exact .inr ⟨hmem, rfl⟩
      · cases h

theorem Scoped.enter (h : Scoped names depth functions)
    (he : functions.enter name = .ok (body, functions')) :
    ∃ rest, depth = rest + 1 ∧ Scoped names rest functions' := by
  obtain ⟨hbody, hnot, rfl⟩ := enter_ok.1 he
  have hnodup : (functions.expanding ++ [name]).Nodup :=
    List.nodup_append.2 ⟨h.nodup, List.nodup_singleton name, fun a ha b hb => by
      rintro rfl
      exact hnot (List.mem_singleton.1 hb ▸ ha)⟩
  have hsub : ∀ n ∈ functions.expanding ++ [name], n ∈ names := by
    intro n hn
    rcases List.mem_append.1 hn with hn | hn
    · exact h.inside n hn
    · rw [List.mem_singleton.1 hn]
      exact (h.known hbody).1
  have hlength := (hnodup.subperm hsub).length_le
  have hroom := h.room
  simp only [List.length_append, List.length_singleton] at hlength
  refine ⟨depth - 1, by omega, h.known, hnodup, hsub, ?_⟩
  simp only [List.length_append, List.length_singleton]
  omega

theorem known_define (h : ∀ {name : String} {body : List Node},
      functions.bodies.find? name = some body →
      name ∈ names ∧ ∀ n ∈ Node.definedIn body, n ∈ names)
    (hname : name ∈ names) (hbody : ∀ n ∈ Node.definedIn body, n ∈ names) {name' : String}
    {body' : List Node} (hfind : (functions.define name body).bodies.find? name' = some body') :
    name' ∈ names ∧ ∀ n ∈ Node.definedIn body', n ∈ names := by
  rw [Functions.define, Table.find?_insert] at hfind
  split at hfind
  · rename_i heq
    cases hfind
    exact ⟨heq ▸ hname, hbody⟩
  · exact h hfind

theorem Scoped.define (h : Scoped names depth functions) (hname : name ∈ names)
    (hbody : ∀ n ∈ Node.definedIn body, n ∈ names) :
    Scoped names depth (functions.define name body) :=
  ⟨known_define h.known hname hbody, h.nodup, h.inside, h.room⟩

def reachable (functions : Functions) (program : List Node) : List String :=
  functions.bodies.entries.flatMap (fun entry => entry.1 :: Node.definedIn entry.2) ++
    Node.definedIn program

theorem length_reachable (functions : Functions) (program : List Node) :
    (functions.reachable program).length = functions.bound program := by
  unfold reachable bound
  induction functions.bodies.entries with
  | nil => simp [Node.length_definedIn]
  | cons entry rest ih =>
      simp only [List.flatMap_cons, List.append_assoc, List.length_append, List.length_cons,
        Node.length_definedIn, List.foldr_cons] at ih ⊢
      omega

theorem mem_reachable_of_find? {program : List Node}
    (h : functions.bodies.find? name = some body) :
    name ∈ functions.reachable program ∧
      ∀ n ∈ Node.definedIn body, n ∈ functions.reachable program := by
  obtain ⟨entry, hentry, rfl⟩ := Option.map_eq_some_iff.1 h
  have hmem := List.mem_of_find?_eq_some hentry
  have hname : entry.1 = name := by simpa using List.find?_some hentry
  have hall (n : String) (hn : n ∈ entry.1 :: Node.definedIn entry.2) :
      n ∈ functions.reachable program :=
    List.mem_append_left _ (List.mem_flatMap.2 ⟨entry, hmem, hn⟩)
  exact ⟨hname ▸ hall _ List.mem_cons_self, fun n hn => hall n (List.mem_cons_of_mem _ hn)⟩

theorem scoped_bound (hnodup : functions.expanding.Nodup)
    (hknown : ∀ n ∈ functions.expanding, (functions.bodies.find? n).isSome) (program : List Node) :
    Scoped (functions.reachable program) (functions.bound program) functions := by
  refine ⟨mem_reachable_of_find?, hnodup, fun n hn => ?_, ?_⟩
  · obtain ⟨body, hbody⟩ := Option.isSome_iff_exists.1 (hknown n hn)
    exact (mem_reachable_of_find? hbody).1
  · rw [length_reachable]
    omega

end Functions

namespace Compile

open Functions

variable {options : CompileOptions} {names : List String} {depth : Nat}
  {call : String → Compile Unit} {c d : Compilation}

def Inlined (options : CompileOptions) (names : List String) (depth : Nat) (nodes : List Node)
    (c d : Compilation) : Prop :=
  ∃ flat, Expands c.functions.bodies nodes flat d.functions.bodies ∧ Lowered options flat c d ∧
    Scoped names depth d.functions ∧ d.functions.expanding = c.functions.expanding

def Inlines (options : CompileOptions) (names : List String) (depth : Nat)
    (call : String → Compile Unit) : Prop :=
  ∀ {name : String} {c d : Compilation}, Sound c → c.unsafePointer = none →
    Scoped names depth c.functions → call name c = .ok () d →
    ∃ body, c.functions.bodies.find? name = some body ∧ Inlined options names depth body c d

theorem form_of_asStatement {node : Node} {x : Compile Unit}
    (hd : asStatement node x c = .ok () d) :
    x (c.record (.statement node.line node.kind c.pointer)) = .ok () d := by
  unfold asStatement at hd
  split at hd
  · simp only [bind_ok, get_ok, record_ok, locate_ok] at hd
    obtain ⟨_, _, ⟨rfl, rfl⟩, _, _, rfl, hx⟩ := hd
    exact hx
  · exact absurd hd fail_ok

theorem asStatement_ok {node : Node} {x : Compile Unit} (hd : asStatement node x c = .ok () d) :
    ∃ event, x (c.record event) = .ok () d :=
  ⟨_, form_of_asStatement hd⟩

theorem functions_closeConditional {a : Int} (hd : closeConditional a c = .ok () d) :
    d.functions = c.functions := by
  rw [closeConditional, modify_ok] at hd
  subst hd
  exact (functions_freeCondition _ a).trans (Same.clear c a).functions

theorem functions_closeLoop {a : Int} (hd : closeLoop a c = .ok () d) :
    d.functions = c.functions := by
  rw [closeLoop, modify_ok] at hd
  subst hd
  exact (functions_freeCondition _ a).trans (Same.moveTo c a).functions

theorem functions_openLoop {node : Node} {a : Int} (h : Sound c)
    (hd : openLoop options node c = .ok a d) : d.functions = c.functions := by
  obtain ⟨e, -, he, rfl⟩ := openLoop_ok.1 hd
  obtain ⟨value, hyields, -, -⟩ := evaluate_yields h he
  exact (Same.moveTo e a).functions.trans hyields.step.ext.functions

theorem conditional_ok {line : Int} {test : Node} {body : List Node} (h : Sound c)
    (hu : c.unsafePointer = none) (hd : form options call (.conditional line test body) c = .ok () d) :
    ∃ a c₁ c₂, openLoop options test c = .ok a c₁ ∧ block options call body c₁ = .ok () c₂ ∧
      closeConditional a c₂ = .ok () d ∧ Sound c₁ ∧ c₁.unsafePointer = none ∧
      c₁.functions = c.functions ∧ d.functions = c₂.functions := by
  simp only [form, bind_ok] at hd
  obtain ⟨a, c₁, hopen, _, c₂, hbody, hclose⟩ := hd
  obtain ⟨hsound, hpoint⟩ := opened_sound h hopen
  exact ⟨a, c₁, c₂, hopen, hbody, hclose, hsound, hpoint.trans hu, functions_openLoop h hopen,
    functions_closeConditional hclose⟩

theorem loop_ok {line : Int} {test : Node} {body : List Node} (h : Sound c)
    (hu : c.unsafePointer = none) (hd : form options call (.loop line test body) c = .ok () d) :
    ∃ a c₁ c₂, openLoop options test c = .ok a c₁ ∧ block options call body c₁ = .ok () c₂ ∧
      closeLoop a c₂ = .ok () d ∧ Sound c₁ ∧ c₁.unsafePointer = none ∧
      c₁.functions = c.functions ∧ d.functions = c₂.functions := by
  simp only [form, bind_ok] at hd
  obtain ⟨a, c₁, hopen, _, c₂, hbody, hclose⟩ := hd
  obtain ⟨hsound, hpoint⟩ := opened_sound h hopen
  exact ⟨a, c₁, c₂, hopen, hbody, hclose, hsound, hpoint.trans hu, functions_openLoop h hopen,
    functions_closeLoop hclose⟩

mutual

theorem form_inlined (hcall : Inlines options names depth call) (node : Node) {c d : Compilation}
    (h : Sound c) (hu : c.unsafePointer = none) (hs : Scoped names depth c.functions)
    (hn : ∀ n ∈ node.defined, n ∈ names) (hd : form options call node c = .ok () d) :
    Inlined options names depth [node] c d := by
  cases node
  case conditional line test body =>
    obtain ⟨a, c₁, c₂, hopen, hbody, hclose, hsound, hpoint, hsame, hclosed⟩ := conditional_ok h hu hd
    obtain ⟨flat, hexpands, hlowered, hscoped, hexpanding⟩ := block_inlined hcall body hsound
      hpoint (hsame ▸ hs) hn hbody
    refine ⟨[.conditional line test flat], ?_, .conditional hopen hlowered hclose .nil, ?_, ?_⟩
    · rw [hsame] at hexpands
      rw [hclosed]
      exact .conditional hexpands .nil
    · rw [hclosed]
      exact hscoped
    · rw [hclosed, hexpanding, hsame]
  case loop line test body =>
    obtain ⟨a, c₁, c₂, hopen, hbody, hclose, hsound, hpoint, hsame, hclosed⟩ := loop_ok h hu hd
    obtain ⟨flat, hexpands, hlowered, hscoped, hexpanding⟩ := block_inlined hcall body hsound
      hpoint (hsame ▸ hs) hn hbody
    refine ⟨[.loop line test flat], ?_, .loop hopen hlowered hclose .nil, ?_, ?_⟩
    · rw [hsame] at hexpands
      rw [hclosed]
      exact .loop hexpands .nil
    · rw [hclosed]
      exact hscoped
    · rw [hclosed, hexpanding, hsame]
  case function line name body =>
    simp only [form, define, bind_ok, record_ok, modify_ok] at hd
    obtain ⟨_, _, rfl, rfl⟩ := hd
    refine ⟨[], .function .nil, .of_noted ⟨rfl, rfl, rfl, rfl, rfl, rfl⟩, ?_, rfl⟩
    exact hs.define (hn name (by simp [Node.defined])) fun n hmem => hn n (by simp [Node.defined, hmem])
  case call line name =>
    obtain ⟨body, hbody, flat, hexpands, hlowered, hscoped, hexpanding⟩ := hcall h hu hs hd
    exact ⟨flat, .of_call hbody hexpands, hlowered, hscoped, hexpanding⟩
  all_goals
    obtain ⟨-, hfunctions, -⟩ := plain_keeps rfl h hu hd
    exact ⟨_, by rw [hfunctions]; exact .plain rfl .nil, .plain rfl hd .nil, hfunctions ▸ hs,
      by rw [hfunctions]⟩

theorem block_inlined (hcall : Inlines options names depth call) (nodes : List Node)
    {c d : Compilation} (h : Sound c) (hu : c.unsafePointer = none)
    (hs : Scoped names depth c.functions) (hn : ∀ n ∈ Node.definedIn nodes, n ∈ names)
    (hd : block options call nodes c = .ok () d) : Inlined options names depth nodes c d := by
  match nodes with
  | [] =>
      obtain ⟨-, rfl⟩ := pure_ok.1 hd
      exact ⟨[], .nil, .nil, hs, rfl⟩
  | node :: rest =>
      simp only [block, bind_ok] at hd
      obtain ⟨_, e, hnode, hrest⟩ := hd
      obtain ⟨event, hnode⟩ := asStatement_ok hnode
      obtain ⟨flat, hexpands, hlowered, hscoped, hexpanding⟩ := form_inlined hcall node
        (h.record event) hu hs (fun n hmem => hn n (List.mem_append_left _ hmem)) hnode
      have hfirst : Lowered options flat c e := .noted (.record c event) hlowered
      obtain ⟨hkeeps, hnone⟩ := hfirst.keeps h hu
      obtain ⟨flat', hexpands', hlowered', hscoped', hexpanding'⟩ := block_inlined hcall rest
        hkeeps.sound hnone hscoped (fun n hmem => hn n (List.mem_append_right _ hmem)) hrest
      exact ⟨flat ++ flat', hexpands.cons hexpands', hfirst.append hlowered', hscoped',
        hexpanding'.trans hexpanding⟩

end

theorem enterFunction_ok {name : String} {body : List Node} :
    enterFunction name c = .ok body d ↔
      ∃ functions, c.functions.enter name = .ok (body, functions) ∧ d = { c with functions } := by
  simp only [enterFunction, bind_ok, get_ok]
  constructor
  · rintro ⟨_, _, ⟨rfl, rfl⟩, h⟩
    cases he : c.functions.enter name with
    | ok entered =>
        obtain ⟨body', functions⟩ := entered
        rw [he] at h
        simp only [bind_ok, set_ok, pure_ok] at h
        obtain ⟨_, _, rfl, rfl, rfl⟩ := h
        exact ⟨functions, rfl, rfl⟩
    | error fault =>
        rw [he] at h
        exact absurd h fail_ok
  · rintro ⟨functions, he, rfl⟩
    exact ⟨c, c, ⟨rfl, rfl⟩, by rw [he]; rfl⟩

theorem inline_ok {name : String} (hs : Scoped names depth c.functions)
    (hd : inline options depth name c = .ok () d) :
    ∃ rest body c₁ e, depth = rest + 1 ∧ c.functions.bodies.find? name = some body ∧
      enterFunction name c = .ok body c₁ ∧
      c₁.functions = { c.functions with expanding := c.functions.expanding ++ [name] } ∧
      Noted c (c₁.record (.inlining name c₁.pointer)) ∧ Scoped names rest c₁.functions ∧
      block options (inline options rest) body (c₁.record (.inlining name c₁.pointer)) = .ok () e ∧
      d = leaveFunction e := by
  cases depth with
  | zero =>
      simp only [inline, bind_ok, enterFunction_ok] at hd
      obtain ⟨body, _, ⟨functions, he, -⟩, -⟩ := hd
      obtain ⟨rest, hzero, -⟩ := hs.enter he
      cases hzero
  | succ depth =>
      simp only [inline, bind_ok, ensuring_ok, get_ok, record_ok] at hd
      obtain ⟨body, c₁, henter, e, ⟨_, _, ⟨rfl, rfl⟩, _, _, rfl, hbody⟩, rfl⟩ := hd
      obtain ⟨functions, he, rfl⟩ := enterFunction_ok.1 henter
      obtain ⟨rest, hrest, hscoped⟩ := hs.enter he
      obtain rfl : depth = rest := by omega
      obtain ⟨hfind, -, rfl⟩ := enter_ok.1 he
      exact ⟨depth, body, _, e, rfl, hfind, henter, rfl, ⟨rfl, rfl, rfl, rfl, rfl, rfl⟩, hscoped,
        hbody, rfl⟩

theorem inline_inlines (options : CompileOptions) (names : List String) (depth : Nat) :
    Inlines options names depth (inline options depth) := by
  induction depth with
  | zero =>
      intro name c d _ _ hs hd
      obtain ⟨rest, _, _, _, hzero, -⟩ := inline_ok hs hd
      cases hzero
  | succ depth ih =>
      intro name c d h hu hs hd
      obtain ⟨rest, body, c₁, e, hdepth, hfind, -, hfunctions, hentered, hscoped, hbody, rfl⟩ :=
        inline_ok hs hd
      cases hdepth
      obtain ⟨flat, hexpands, hlowered, hscoped', hexpanding⟩ := block_inlined ih body
        (hentered.sound h) (hentered.unsafePointer.trans hu) hscoped (hs.known hfind).2 hbody
      have hstart : Lowered options flat c e := .noted hentered hlowered
      have hleave : (leaveFunction e).functions.expanding = c.functions.expanding := by
        simp only [leaveFunction, Functions.leave, hexpanding, Compilation.record, hfunctions,
          List.dropLast_concat]
      refine ⟨body, hfind, flat, ?_, ?_, ⟨hscoped'.known, ?_, ?_, ?_⟩, hleave⟩
      · rwa [Compilation.record, hfunctions] at hexpands
      · have hend := hstart.append (Lowered.of_noted (d := leaveFunction e)
          ⟨rfl, rfl, rfl, rfl, rfl, rfl⟩)
        rwa [List.append_nil] at hend
      · rw [hleave]
        exact hs.nodup
      · rw [hleave]
        exact hs.inside
      · rw [hleave]
        exact hs.room

theorem statements_lowered {nodes : List Node} (h : Sound c) (hu : c.unsafePointer = none)
    (hnodup : c.functions.expanding.Nodup)
    (hknown : ∀ n ∈ c.functions.expanding, (c.functions.bodies.find? n).isSome)
    (hd : statements options nodes c = .ok () d) :
    ∃ flat, Expands c.functions.bodies nodes flat d.functions.bodies ∧ Lowered options flat c d := by
  simp only [statements, bind_ok, get_ok] at hd
  obtain ⟨_, _, ⟨rfl, rfl⟩, hd⟩ := hd
  obtain ⟨flat, hexpands, hlowered, -⟩ := block_inlined (inline_inlines options _ _) nodes h hu
    (Functions.scoped_bound hnodup hknown nodes) (fun n hn => List.mem_append_right _ hn) hd
  exact ⟨flat, hexpands, hlowered⟩

theorem program_lowered {nodes : List Node} (hd : program options nodes c = .ok () d) :
    ∃ flat, Expands Functions.initial.bodies nodes flat d.functions.bodies ∧
      Lowered options flat Compilation.initial d := by
  simp only [program, bind_ok, set_ok, get_ok, record_ok] at hd
  obtain ⟨_, _, rfl, _, e, hstatements, _, _, ⟨rfl, rfl⟩, rfl⟩ := hd
  obtain ⟨flat, hexpands, hlowered⟩ := statements_lowered Sound.initial rfl List.nodup_nil
    (fun n hn => by cases hn) hstatements
  refine ⟨flat, hexpands, ?_⟩
  have hend := hlowered.append (Lowered.of_noted (.record e
    (.compiled nodes.length e.code.length e.layout.highWater)))
  rwa [List.append_nil] at hend

def fits (options : CompileOptions) (nodes : List Node) (size : Int) : Bool :=
  match program options nodes Compilation.initial with
  | .ok _ d => max 1 d.layout.highWater ≤ size
  | .error _ _ => false

theorem exists_of_fits {nodes : List Node} {size : Int} (h : fits options nodes size = true) :
    ∃ d, program options nodes Compilation.initial = .ok () d ∧
      max 1 d.layout.highWater ≤ size := by
  unfold fits at h
  split at h
  · rename_i d hd
    exact ⟨d, hd, of_decide_eq_true h⟩
  · cases h

end Compile

end TapeCompiler
