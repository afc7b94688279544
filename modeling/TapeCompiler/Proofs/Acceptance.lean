import TapeCompiler.Program
import TapeCompiler.Proofs.Parallel

namespace TapeCompiler

open Compile Compilation

structure Scope where
  bindings : Table Binding
  functions : Functions
  unsafePointer : Option Int
  unsafeRegion : Option Region

namespace Compilation

def scope (c : Compilation) : Scope :=
  ⟨c.bindings, c.functions, c.unsafePointer, c.unsafeRegion⟩

variable (c : Compilation)

@[simp] theorem scope_record (event : Event) : (c.record event).scope = c.scope := rfl

@[simp] theorem scope_emit (code : String) : (c.emit code).scope = c.scope := rfl

@[simp] theorem scope_free (a : Int) : (c.free a).scope = c.scope := rfl

@[simp] theorem scope_moveTo (a : Int) : (c.moveTo a).scope = c.scope := by
  unfold moveTo
  split <;> rfl

@[simp] theorem scope_clear (a : Int) : (c.clear a).scope = c.scope := scope_moveTo c a

@[simp] theorem scope_drain (a b : Int) (sign : Sign) : (c.drain a b sign).scope = c.scope := by
  simp [drain]

@[simp] theorem scope_copy (a : Int) : (c.copy a).2.scope = c.scope := by
  simp only [copy, scope_free, scope_drain, scope_emit, scope_moveTo, scope_clear]
  rfl

@[simp] theorem scope_release (a : Int) : (c.release a).scope = c.scope := by
  unfold release
  split <;> simp

@[simp] theorem scope_assignCell (a b : Int) : (c.assignCell a b).scope = c.scope := by
  have hown : (if c.layout.isTemp a then (a, c) else c.copy a).2.scope = c.scope := by
    split <;> simp
  unfold assignCell
  split
  · rfl
  · simpa using hown

@[simp] theorem scope_freeCondition (a : Int) : (c.freeCondition a).scope = c.scope := by
  unfold freeCondition
  split <;> simp

@[simp] theorem scope_clearReused (a n : Int) : (c.clearReused a n).scope = c.scope := by
  unfold clearReused clearAll
  generalize addresses a _ = cells
  induction cells generalizing c with
  | nil => rfl
  | cons a cells ih => rw [List.foldl_cons, ih, scope_clear]

end Compilation

def Abreast (region region' : Option Region) (p p' : Int) : Prop :=
  ∃ r r', region = some r ∧ region' = some r' ∧ r.size = r'.size ∧ p - r.start = p' - r'.start

structure Alike (region region' : Option Region) (c c' : Compilation) : Prop where
  bindings : List.Forall₂ (Entries Any) c.bindings.entries c'.bindings.entries
  functions : c.functions = c'.functions
  inside : c.unsafeRegion = region
  inside' : c'.unsafeRegion = region'
  cursor : Option.Rel (Abreast region region') c.unsafePointer c'.unsafePointer

namespace Alike

variable {region region' : Option Region} {c c' d d' : Compilation}

theorem of_scope (h : Alike region region' c c') (hd : d.scope = c.scope)
    (hd' : d'.scope = c'.scope) : Alike region region' d d' := by
  simp only [scope, Scope.mk.injEq] at hd hd'
  obtain ⟨hbindings, hfunctions, hpointer, hregion⟩ := hd
  obtain ⟨hbindings', hfunctions', hpointer', hregion'⟩ := hd'
  refine ⟨?_, ?_, hregion.trans h.inside, hregion'.trans h.inside', ?_⟩
  · rw [hbindings, hbindings']
    exact h.bindings
  · rw [hfunctions, hfunctions', h.functions]
  · rw [hpointer, hpointer']
    exact h.cursor

theorem parallel (region region' : Option Region) :
    Parallel (Alike region region') Any (Abreast region region') where
  bindings hs := hs.bindings
  cursor hs := hs.cursor
  region hs hp := by
    obtain ⟨r, r', rfl, rfl, hsize, hlevel⟩ := hp
    rw [hs.inside, hs.inside']
    exact .some ⟨hsize, hlevel⟩
  address _ := trivial
  shift _ _ := trivial
  shiftCursor := by
    rintro p p' ⟨r, r', hr, hr', hsize, hlevel⟩ i
    exact ⟨r, r', hr, hr', hsize, by omega⟩
  record hs _ _ := hs.of_scope rfl rfl
  emit hs _ := hs.of_scope rfl rfl
  moveTo hs _ := hs.of_scope (scope_moveTo _ _) (scope_moveTo _ _)
  mark hs _ _ := hs.of_scope rfl rfl
  lowestFree _ := trivial
  firstFit _ _ := trivial
  rebind hs ht := { hs with bindings := ht }
  point hs hp := { hs with cursor := .some hp }
  define hs name body :=
    { hs with functions := congrArg (Functions.define · name body) hs.functions }

theorem settles (region region' : Option Region) (options options' : CompileOptions) :
    Settles options options' (Alike region region') Any where
  release hs _ := hs.of_scope (scope_release _ _) (scope_release _ _)
  own hs _ := ⟨trivial, hs.of_scope (by split <;> simp) (by split <;> simp)⟩
  assignCell hs _ _ := hs.of_scope (scope_assignCell _ _ _) (scope_assignCell _ _ _)
  freeCondition hs _ := hs.of_scope (scope_freeCondition _ _) (scope_freeCondition _ _)
  clearReused hs _ _ := hs.of_scope (scope_clearReused _ _ _) (scope_clearReused _ _ _)
  leave hs _ _ := hs.of_scope (by split <;> simp) (by split <;> simp)

theorem nests (options options' : CompileOptions) : Nests options options' (Alike none none) Any := by
  intro c c' hs size
  have hscope (c : Compilation) : (c.enterBlock size).bindings = c.bindings ∧
      (c.enterBlock size).functions = c.functions := by
    have hcleared := scope_clearReused c (c.layout.firstFit size) size
    simp only [scope, Scope.mk.injEq] at hcleared
    exact ⟨hcleared.1, hcleared.2.1⟩
  refine ⟨_, _, parallel (some ⟨c.layout.firstFit size, size⟩)
    (some ⟨c'.layout.firstFit size, size⟩), settles _ _ options options', ?_, fun hd => ?_⟩
  · refine ⟨?_, ?_, rfl, rfl, .some ⟨_, _, rfl, rfl, rfl, by simp⟩⟩
    · rw [(hscope c).1, (hscope c').1]
      exact hs.bindings
    · rw [(hscope c).2, (hscope c').2, hs.functions]
  · exact { hd with inside := rfl, inside' := rfl, cursor := .none }

theorem initial : Alike none none Compilation.initial Compilation.initial :=
  ⟨.nil, rfl, rfl, rfl, .none⟩

end Alike

namespace Compile

variable (options options' : CompileOptions)

theorem block_alike {call call' : String → Compile Unit}
    (hcall : ∀ name, Together (Alike none none) Any (call name) (call' name)) (nodes : List Node) :
    Together (Alike none none) Any (block options call nodes) (block options' call' nodes) :=
  block_together (Alike.parallel none none) (Alike.settles none none options options')
    (Alike.nests options options') hcall nodes

theorem enterFunction_alike (name : String) :
    Together (Alike none none) Eq (enterFunction name) (enterFunction name) := by
  refine .get fun {c c'} hs => ?_
  rw [hs.functions]
  cases c'.functions.enter name with
  | ok entered => exact .ok rfl { hs with functions := rfl }
  | error fault => exact .error hs

theorem inline_alike (depth : Nat) (name : String) :
    Together (Alike none none) Any (inline options depth name) (inline options' depth name) := by
  have hleave {c c' : Compilation} (hs : Alike none none c c') :
      Alike none none (leaveFunction c) (leaveFunction c') :=
    { hs with functions := congrArg Functions.leave hs.functions }
  induction depth generalizing name with
  | zero => exact (enterFunction_alike name).bind fun _ => .modify hleave
  | succ depth ih =>
      refine (enterFunction_alike name).bind fun {body body'} hbody c c' hs => ?_
      subst hbody
      refine Matched.ensuring (Together.get (fun {c c'} hs => ?_) c c' hs) hleave
      exact (record_together (Alike.parallel none none) _ _ c c' hs).bind fun _ =>
        block_alike options options' ih body

theorem statements_alike (nodes : List Node) :
    Together (Alike none none) Any (statements options nodes) (statements options' nodes) := by
  refine .get fun {c c'} hs => ?_
  rw [hs.functions]
  exact block_alike options options' (inline_alike options options' _) nodes c c' hs

theorem program_alike (nodes : List Node) (c c' : Compilation) :
    Matched (Alike none none) Any (program options nodes c) (program options' nodes c') := by
  refine Matched.bind (R := @Any PUnit PUnit) (.ok trivial .initial) fun _ => ?_
  exact (statements_alike options options' nodes).bind fun _ =>
    .get fun hs => record_together (Alike.parallel none none) _ _ _ _ hs

end Compile

def Compiled.variables (compiled : Compiled) : List (String × Nat × CellType) :=
  compiled.bindings.entries.map fun entry => (entry.1, entry.2.length, entry.2.type)

theorem Entries.variables {R : Int → Int → Prop} {entries entries' : List (String × Binding)}
    (h : List.Forall₂ (Entries R) entries entries') :
    entries.map (fun entry => (entry.1, entry.2.length, entry.2.type)) =
      entries'.map fun entry => (entry.1, entry.2.length, entry.2.type) := by
  induction h with
  | nil => rfl
  | cons he _ ih => rw [List.map_cons, List.map_cons, he.name, he.length, he.type, ih]

theorem acceptance_independent_of_options (options options' : CompileOptions) (nodes : List Node) :
    (∃ compiled compiled', (compileTree options nodes).1 = .ok compiled ∧
        (compileTree options' nodes).1 = .ok compiled' ∧
        compiled.variables = compiled'.variables) ∨
      ∃ error, (compileTree options nodes).1 = .error error ∧
        (compileTree options' nodes).1 = .error error := by
  have hmatched := Compile.program_alike options options' nodes Compilation.initial
    Compilation.initial
  simp only [compileTree]
  revert hmatched
  generalize Compile.program options nodes Compilation.initial = r
  generalize Compile.program options' nodes Compilation.initial = r'
  rintro (⟨-, hd⟩ | -)
  · exact .inl ⟨_, _, rfl, rfl, Entries.variables hd.bindings⟩
  · exact .inr ⟨_, rfl, rfl⟩

end TapeCompiler
