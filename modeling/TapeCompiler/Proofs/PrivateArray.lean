import TapeCompiler.Proofs.Bench
import TapeCompiler.Proofs.Evaluation

namespace TapeCompiler

open Compile Compilation

structure PrivateArray (size : Nat) where
  elements : Fin size → Int
  place : Fin size
  printed : List Printed

namespace PrivateArray

variable {size : Nat}

def zeros (h : 0 < size) : PrivateArray size := ⟨fun _ => 0, ⟨0, h⟩, []⟩

def read (σ : PrivateArray size) : Int := σ.elements σ.place

def write (σ : PrivateArray size) (value : Int) : PrivateArray size :=
  { σ with elements := Function.update σ.elements σ.place value }

def perform (modulus : Int) (amount : Node → Option Int) (σ : PrivateArray size) :
    Node → Option (PrivateArray size)
  | .unsafeGoto _ steps =>
      if h : 0 ≤ σ.place + steps ∧ σ.place + steps < size then
        some { σ with place := ⟨(σ.place + steps).toNat, by omega⟩ }
      else none
  | .unsafeAdd _ node => (amount node).map fun value => σ.write ((σ.read + value) % modulus)
  | .unsafeReduce _ node => (amount node).map fun value => σ.write ((σ.read - value) % modulus)
  | .unsafeShow _ => some { σ with printed := σ.printed ++ [.number σ.read] }
  | _ => none

inductive Leads (modulus : Int) (amount : Node → Option Int) :
    List Node → PrivateArray size → PrivateArray size → Prop where
  | nil {σ} : Leads modulus amount [] σ σ
  | simple {node rest σ σ' τ} : σ.perform modulus amount node = some σ' →
      Leads modulus amount rest σ' τ → Leads modulus amount (node :: rest) σ τ
  | loop_zero {line body rest σ τ} : σ.read = 0 → Leads modulus amount rest σ τ →
      Leads modulus amount (.unsafeLoop line body :: rest) σ τ
  | loop_step {line body rest σ σ' τ} : σ.read ≠ 0 → Leads modulus amount body σ σ' →
      Leads modulus amount (.unsafeLoop line body :: rest) { σ' with place := σ.place } τ →
      Leads modulus amount (.unsafeLoop line body :: rest) σ τ

def run? (modulus : Int) (amount : Node → Option Int) :
    Nat → List Node → PrivateArray size → Option (PrivateArray size)
  | 0, _, _ => none
  | _ + 1, [], σ => some σ
  | steps + 1, .unsafeLoop line body :: rest, σ =>
      if σ.read = 0 then run? modulus amount steps rest σ
      else (run? modulus amount steps body σ).bind fun σ' =>
        run? modulus amount steps (.unsafeLoop line body :: rest) { σ' with place := σ.place }
  | steps + 1, node :: rest, σ =>
      (σ.perform modulus amount node).bind fun σ' => run? modulus amount steps rest σ'

theorem Leads.of_run? {modulus : Int} {amount : Node → Option Int} {steps : Nat} {nodes : List Node}
    {σ τ : PrivateArray size} (h : run? modulus amount steps nodes σ = some τ) :
    Leads modulus amount nodes σ τ := by
  fun_induction run? modulus amount steps nodes σ generalizing τ with
  | case1 => cases h
  | case2 =>
      cases h
      exact .nil
  | case3 steps line body rest σ h0 ih => exact .loop_zero h0 (ih h)
  | case4 steps line body rest σ hne ihbody ih =>
      obtain ⟨σ', hbody, hmore⟩ := Option.bind_eq_some_iff.1 h
      exact .loop_step hne (ihbody hbody) (ih σ' hmore)
  | case5 steps node rest σ hnode ih =>
      obtain ⟨σ', hσ', hrest⟩ := Option.bind_eq_some_iff.1 h
      exact .simple hσ' (ih σ' hrest)

end PrivateArray

namespace Node

mutual

def travel? (size place : Int) : Node → Option Int
  | unsafeGoto _ steps =>
      if 0 ≤ place + steps ∧ place + steps < size then some (place + steps) else none
  | unsafeLoop _ body => (travelIn? size place body).map fun _ => place
  | _ => some place

def travelIn? (size place : Int) : List Node → Option Int
  | [] => some place
  | node :: rest => (node.travel? size place).bind fun place => travelIn? size place rest

end

end Node

namespace Compile

variable {options : CompileOptions} {start size : Int}

mutual

theorem operation_travels (node : Node) {c d : Compilation} {place : Int} (h : Sound c)
    (hr : c.unsafeRegion = some ⟨start, size⟩) (hp : c.unsafePointer = some (start + place))
    (hd : operation options node c = .ok () d) :
    ∃ place', node.travel? size place = some place' ∧ d.unsafePointer = some (start + place') := by
  cases node
  case unsafeGoto line steps =>
    obtain ⟨p, r, hp', hr', htarget, rfl⟩ := goto_ok hd
    cases hp.symm.trans hp'
    cases hr.symm.trans hr'
    dsimp only at htarget
    exact ⟨place + steps, if_pos (by omega), congrArg some (by omega)⟩
  case unsafeAdd line amount =>
    obtain ⟨p, value, -, -, hdoes⟩ := drainAmount_does h hd
    exact ⟨place, rfl, hdoes.ext.unsafePointer.trans hp⟩
  case unsafeReduce line amount =>
    obtain ⟨p, value, -, -, hdoes⟩ := drainAmount_does h hd
    exact ⟨place, rfl, hdoes.ext.unsafePointer.trans hp⟩
  case unsafeShow line =>
    obtain ⟨p, -, rfl⟩ := unsafeShow_ok hd
    exact ⟨place, rfl, ((Same.moveTo c p).trans (.emit _ ".")).unsafePointer.trans hp⟩
  case unsafeLoop line body =>
    obtain ⟨p, e, hp', hbody, rfl⟩ := unsafeLoop_ok hd
    cases hp.symm.trans hp'
    have hsame := (Same.moveTo c (start + place)).trans (.emit _ "[")
    obtain ⟨place', htravel, -⟩ := operations_travel body (loopStart_sound h hp)
      (hsame.unsafeRegion.trans hr) (hsame.unsafePointer.trans hp) hbody
    exact ⟨place, by rw [Node.travel?, htravel]; rfl, rfl⟩
  case verbatim line code =>
    obtain ⟨p, -, rfl⟩ := verbatim_ok hd
    exact ⟨place, rfl, hp⟩
  all_goals exact absurd hd fail_ok

theorem operations_travel (nodes : List Node) {c d : Compilation} {place : Int} (h : Sound c)
    (hr : c.unsafeRegion = some ⟨start, size⟩) (hp : c.unsafePointer = some (start + place))
    (hd : operations options nodes c = .ok () d) :
    ∃ place', Node.travelIn? size place nodes = some place' ∧
      d.unsafePointer = some (start + place') := by
  match nodes with
  | [] =>
      obtain ⟨-, rfl⟩ := pure_ok.1 hd
      exact ⟨place, rfl, hp⟩
  | node :: rest =>
      simp only [operations, bind_ok] at hd
      obtain ⟨_, e, hnode, hrest⟩ := hd
      obtain ⟨hkeeps, hscope⟩ := operation_sound node h hnode
      obtain ⟨place₁, hfirst, hp₁⟩ := operation_travels node h hr hp hnode
      obtain ⟨place', htravel, hp'⟩ := operations_travel rest hkeeps.sound
        (hscope.unsafeRegion.trans hr) hp₁ hrest
      exact ⟨place', by rw [Node.travelIn?, hfirst]; exact htravel, hp'⟩

end

theorem unsafeBlock_travels {c d : Compilation} {body : List Node} (h : Sound c)
    (hd : unsafeBlock options size body c = .ok () d) :
    ∃ place, Node.travelIn? size 0 body = some place := by
  obtain ⟨hsize, hnone, e, hbody, -⟩ := unsafeBlock_ok hd
  have hstart := startBlock_sound h hd
  have hsame := Same.moveTo (c.enterBlock size) (c.layout.firstFit size)
  have hspot : (c.startBlock size).unsafePointer = some (c.layout.firstFit size + 0) := by
    rw [Int.add_zero]
    exact hsame.unsafePointer
  obtain ⟨place, htravel, -⟩ := operations_travel body hstart.sound hsame.unsafeRegion hspot hbody
  exact ⟨place, htravel⟩

end Compile

structure Bench.Pictured {bits size : Nat} (β : Bench bits) (σ : PrivateArray size) : Prop where
  place : β.offset = σ.place
  elements : ∀ i : Fin size, σ.elements i = (β.cells i).toNat
  printed : σ.printed = β.printed

namespace Bench.Pictured

variable {bits size : Nat} {env : Env bits} {amount : Node → Option Int} {node : Node}
  {nodes : List Node} {β β' γ : Bench bits} {σ σ' τ : PrivateArray size}

theorem read (h : β.Pictured σ) : σ.read = β.read.toNat := by
  rw [PrivateArray.read, Bench.read, h.place, h.elements]

theorem write (h : β.Pictured σ) (word : BitVec bits) :
    (β.write word).Pictured (σ.write word.toNat) := by
  refine ⟨h.place, fun i => ?_, h.printed⟩
  simp only [PrivateArray.write, Bench.write, h.place]
  by_cases hi : i = σ.place
  · subst hi
    simp
  · have hne : ((i : Nat) : Int) ≠ (σ.place : Nat) := by
      intro heq
      exact hi (Fin.ext (by omega))
    rw [Function.update_of_ne hi, Function.update_of_ne hne, h.elements]

theorem add (h : β.Pictured σ) (word : BitVec bits) :
    (β.write (β.read + word)).Pictured (σ.write ((σ.read + word.toNat) % 2 ^ bits)) := by
  rw [h.read, ← toNat_add_eq]
  exact h.write _

theorem reduce (h : β.Pictured σ) (word : BitVec bits) :
    (β.write (β.read - word)).Pictured (σ.write ((σ.read - word.toNat) % 2 ^ bits)) := by
  rw [h.read, ← toNat_sub_eq]
  exact h.write _

theorem goto (h : β.Pictured σ) {offset : Int} {place : Fin size} (hplace : offset = place) :
    ({ β with offset } : Bench bits).Pictured { σ with place } :=
  ⟨hplace, h.elements, h.printed⟩

theorem perform (h : β.Pictured σ)
    (hamount : ∀ node, amount node = (env.value node).map fun word => (word.toNat : Int))
    (hcodes : node.verbatims = []) {place : Int}
    (htravel : node.travel? size σ.place = some place) (hβ : β.perform env node = some β') :
    ∃ σ', σ.perform (2 ^ bits) amount node = some σ' ∧ β'.Pictured σ' ∧
      (σ'.place : Int) = place := by
  cases node
  case unsafeGoto line steps =>
    rw [Node.travel?] at htravel
    split at htravel
    · rename_i hinside
      cases htravel
      cases hβ
      have hcast : (((σ.place + steps).toNat : Nat) : Int) = σ.place + steps := by omega
      exact ⟨_, dif_pos hinside, h.goto (by rw [h.place, hcast]), hcast⟩
    · cases htravel
  case unsafeAdd line node =>
    cases htravel
    obtain ⟨word, hword, rfl⟩ := Option.map_eq_some_iff.1 hβ
    refine ⟨_, ?_, h.add word, rfl⟩
    rw [PrivateArray.perform, hamount, hword]
    rfl
  case unsafeReduce line node =>
    cases htravel
    obtain ⟨word, hword, rfl⟩ := Option.map_eq_some_iff.1 hβ
    refine ⟨_, ?_, h.reduce word, rfl⟩
    rw [PrivateArray.perform, hamount, hword]
    rfl
  case unsafeShow line =>
    cases htravel
    cases hβ
    exact ⟨_, rfl, ⟨h.place, h.elements, by simp only [h.printed, h.read]⟩, rfl⟩
  case verbatim line code => cases hcodes
  all_goals cases hβ

theorem of_perform (h : β.Pictured σ)
    (hamount : ∀ node, amount node = (env.value node).map fun word => (word.toNat : Int))
    (hσ : σ.perform (2 ^ bits) amount node = some σ') :
    ∃ β', β.perform env node = some β' ∧ β'.Pictured σ' := by
  cases node
  case unsafeGoto line steps =>
    rw [PrivateArray.perform] at hσ
    split at hσ
    · rename_i hinside
      cases hσ
      have hcast : (((σ.place + steps).toNat : Nat) : Int) = σ.place + steps := by omega
      exact ⟨_, rfl, h.goto (by rw [h.place, hcast])⟩
    · cases hσ
  case unsafeAdd line node =>
    rw [PrivateArray.perform, hamount, Option.map_map] at hσ
    obtain ⟨word, hword, rfl⟩ := Option.map_eq_some_iff.1 hσ
    refine ⟨_, ?_, h.add word⟩
    rw [Bench.perform, hword]
    rfl
  case unsafeReduce line node =>
    rw [PrivateArray.perform, hamount, Option.map_map] at hσ
    obtain ⟨word, hword, rfl⟩ := Option.map_eq_some_iff.1 hσ
    refine ⟨_, ?_, h.reduce word⟩
    rw [Bench.perform, hword]
    rfl
  case unsafeShow line =>
    cases hσ
    exact ⟨_, rfl, h.place, h.elements, by simp only [h.printed, h.read]⟩
  all_goals cases hσ

theorem read_eq_zero (h : β.Pictured σ) : σ.read = 0 ↔ β.read = 0 := by
  rw [h.read, Int.natCast_eq_zero, ← BitVec.toNat_inj]
  rfl

theorem leads (h : β.Pictured σ)
    (hamount : ∀ node, amount node = (env.value node).map fun word => (word.toNat : Int))
    (hcodes : Node.verbatimsIn nodes = []) {place : Int}
    (htravel : Node.travelIn? size σ.place nodes = some place) (hworks : Works env nodes β γ) :
    ∃ τ, PrivateArray.Leads (2 ^ bits) amount nodes σ τ ∧ γ.Pictured τ := by
  induction hworks generalizing σ place with
  | nil => exact ⟨σ, .nil, h⟩
  | simple hβ _ ih =>
      rw [Gathers.verbatims.cons, List.append_eq_nil_iff] at hcodes
      obtain ⟨place₁, hfirst, htravel⟩ := Option.bind_eq_some_iff.1 htravel
      obtain ⟨σ', hσ', h', rfl⟩ := h.perform hamount
        (by simpa [Node.verbatimsIn] using hcodes.1) hfirst hβ
      obtain ⟨τ, hleads, hτ⟩ := ih h' hcodes.2 htravel
      exact ⟨τ, .simple hσ' hleads, hτ⟩
  | loop_zero h0 _ ih =>
      rw [Gathers.verbatims.cons, List.append_eq_nil_iff] at hcodes
      obtain ⟨place₁, hfirst, htravel⟩ := Option.bind_eq_some_iff.1 htravel
      obtain ⟨_, -, rfl⟩ := Option.map_eq_some_iff.1 hfirst
      obtain ⟨τ, hleads, hτ⟩ := ih h hcodes.2 htravel
      exact ⟨τ, .loop_zero (h.read_eq_zero.2 h0) hleads, hτ⟩
  | @loop_step line body rest β β' γ hne _ _ ihbody ih =>
      have hround := htravel
      obtain ⟨place₁, hfirst, -⟩ := Option.bind_eq_some_iff.1 hround
      obtain ⟨_, hbody, -⟩ := Option.map_eq_some_iff.1 hfirst
      have hinner : Node.verbatimsIn body = [] := by
        rw [Gathers.verbatims.cons, List.append_eq_nil_iff] at hcodes
        simpa [Node.verbatimsIn, Node.verbatims] using hcodes.1
      obtain ⟨σ', hleads, h'⟩ := ihbody h hinner hbody
      have hback : ({ β' with offset := β.offset } : Bench bits).Pictured
          { σ' with place := σ.place } := h'.goto h.place
      obtain ⟨τ, hmore, hτ⟩ := ih hback hcodes htravel
      exact ⟨τ, .loop_step (fun h0 => hne (h.read_eq_zero.1 h0)) hleads hmore, hτ⟩

theorem works (h : β.Pictured σ)
    (hamount : ∀ node, amount node = (env.value node).map fun word => (word.toNat : Int))
    (hleads : PrivateArray.Leads (2 ^ bits) amount nodes σ τ) :
    ∃ γ, Works env nodes β γ ∧ γ.Pictured τ := by
  induction hleads generalizing β with
  | nil => exact ⟨β, .nil, h⟩
  | simple hσ _ ih =>
      obtain ⟨β', hβ', h'⟩ := h.of_perform hamount hσ
      obtain ⟨γ, hworks, hγ⟩ := ih h'
      exact ⟨γ, .simple hβ' hworks, hγ⟩
  | loop_zero h0 _ ih =>
      obtain ⟨γ, hworks, hγ⟩ := ih h
      exact ⟨γ, .loop_zero (h.read_eq_zero.1 h0) hworks, hγ⟩
  | @loop_step line body rest σ σ' τ hne _ _ ihbody ih =>
      obtain ⟨β', hworks, h'⟩ := ihbody h
      have hback : ({ β' with offset := β.offset } : Bench bits).Pictured
          { σ' with place := σ.place } := h'.goto h.place
      obtain ⟨γ, hmore, hγ⟩ := ih hback
      exact ⟨γ, .loop_step (fun h0 => hne (h.read_eq_zero.2 h0)) hworks hmore, hγ⟩

theorem blank (hn : 0 < size) : (Bench.blank bits []).Pictured (.zeros hn) :=
  ⟨rfl, fun _ => by simp [Bench.blank, PrivateArray.zeros], rfl⟩

end Bench.Pictured

section

variable {options : CompileOptions} {c d : Compilation} {line size : Int} {body : List Node}

theorem Compile.unsafeBlock_frees (h : Sound c) (hd : unsafeBlock options size body c = .ok () d)
    {i : Nat} (hi : i < size) : c.layout.status (c.layout.firstFit size + i) = .free ∧
      d.layout.status (c.layout.firstFit size + i) = .free := by
  obtain ⟨-, -, e, -, rfl⟩ := unsafeBlock_ok hd
  obtain ⟨-, -, hfree⟩ := Layout.firstFit_spec h.dense size
  refine ⟨hfree _ (by omega) (by omega), ?_⟩
  rw [layout_leaveBlock]
  exact Layout.status_setRange_inside (by omega)

structure Emptied (c d : Compilation) (size : Int) {bits : Nat} (w w' : World bits) : Prop where
  pointer : w'.pointer = d.pointer
  region : ∀ i : Nat, i < size → w'.cells (c.layout.firstFit size + i) = 0
  others : ∀ x, Protected [] c x → w'.cells x = w.cells x

theorem Compile.unsafeBlock_array (h : Sound c) (hcodes : Node.verbatimsIn body = [])
    (hd : unsafeBlock options size body c = .ok () d) {n : Nat} (hn : 0 < n) (hsize : size = n) :
    ∃ k, Emits d.layout.highWater c d k ∧ ∀ {s : Setting} {w : World s.bits}
      {amount : Node → Option Int}, w.pointer = c.pointer → w.printed = [] → Ready true c w.cells →
      (∀ node, amount node =
        ((view c.bindings w.cells).value node).map fun word => (word.toNat : Int)) →
      (∀ {τ}, PrivateArray.Leads (2 ^ s.bits) amount body (.zeros hn) τ →
        ∃ w', Runs s k w (.done w') ∧ w'.printed = τ.printed) ∧
      ∀ {e}, Runs s k w e → ∃ w', e = .done w' ∧ Emptied c d size w w' ∧
        ∃ τ, PrivateArray.Leads (2 ^ s.bits) amount body (.zeros hn) τ ∧
          τ.printed = w'.printed := by
  subst hsize
  have hdumps : ∀ code ∈ Node.verbatimsIn body, code = "&" := by simp [hcodes]
  have hapart : Apart (Protected [] c) c := Protected.apart
  obtain ⟨place, htravel⟩ := unsafeBlock_travels h hd
  obtain ⟨-, k, hk, hserves⟩ := unsafeBlock_serves h hdumps hd
  obtain ⟨k', hk', hkeep⟩ := (unsafeBlock_keeps h hapart hd).1.code (by simp [hcodes])
  obtain rfl := hk.unique hk'
  refine ⟨k, hk, fun {s w amount} hpointer hprinted hready hamount => ?_⟩
  have htidy : Tidy (· < c.layout.highWater) c w.cells := fun x _ hx => hready rfl x (by omega)
  have hserves := hserves (σ := ⟨view c.bindings w.cells, w.input, []⟩) (fun _ hx => hx)
    ⟨hpointer, rfl, rfl, hprinted⟩ htidy
  have hblank : (Bench.blank s.bits []).Pictured (.zeros hn) := .blank hn
  refine ⟨fun {τ} hleads => ?_, fun {e} hrun => ?_⟩
  · obtain ⟨γ, hworks, hγ⟩ := hblank.works hamount hleads
    obtain ⟨w', hrun, hmatch, -⟩ := hserves.works hworks
    exact ⟨w', hrun, hmatch.printed.trans hγ.printed.symm⟩
  · obtain ⟨w', γ, rfl, hworks, hmatch, -, hzero⟩ := hserves.runs hrun
    obtain ⟨τ, hleads, hτ⟩ := hblank.leads hamount hcodes htravel hworks
    exact ⟨w', rfl, ⟨hmatch.pointer, fun i hi => hzero i (by omega) hi,
      fun x hx => hkeep hdumps hpointer hrun hx⟩, τ, hleads,
      hτ.printed.trans hmatch.printed.symm⟩

theorem Compile.unsafeBlock_of_statements
    (hd : statements options [.unsafeBlock line size body] c = .ok () d) :
    ∃ event, unsafeBlock options size body (c.record event) = .ok () d := by
  simp only [statements, block, bind_ok, get_ok, pure_ok] at hd
  obtain ⟨_, _, ⟨rfl, rfl⟩, _, _, hnode, -, rfl⟩ := hd
  exact asStatement_ok hnode

theorem Ready.of_tape {tape : Tape} {s : Setting} (input : List CodePoint)
    (hzero : ∀ x : Nat, c.layout.highWater ≤ x → tape.value x = 0) :
    Ready true c (World.ofTape s.bits tape input).cells := by
  intro _ x hx
  have hvalue := hzero x.toNat (hx.trans (Int.self_le_toNat x))
  rw [Tape.value] at hvalue
  simp only [World.ofTape, hvalue]
  rfl

theorem Emptied.tape {s : Setting} {m' : Machine} {tape : Tape} {input : List CodePoint}
    {start : Nat}
    {w' : World s.bits} (h : Emptied c d size (World.ofTape s.bits tape input) w') (hc : Sound c)
    (hstart : c.layout.firstFit size = start) (hroom : c.layout.highWater ≤ s.size)
    (hfits : tape.Fits s) (hshows : Shows s m' w') :
    (m'.tape.pointer : Int) = d.pointer ∧
      (∀ i : Nat, i < size → m'.tape.value (start + i) = 0) ∧
      ∀ x : Nat, Protected [] c x → m'.tape.value x = tape.value x := by
  have hvalue (x : Nat) (hx : x < s.size) : m'.tape.value x = (w'.cells x).toNat := by
    rw [Tape.value, Array.getD_eq_getD_getElem?, hshows.cells x hx]
    rfl
  refine ⟨hshows.pointer.trans h.pointer, fun i hi => ?_, fun x hx => ?_⟩
  · by_cases hlt : start + i < s.size
    · rw [hvalue _ hlt, Int.natCast_add, ← hstart, h.region i hi]
      rfl
    · exact Tape.value_eq_zero (by rw [hshows.size]; omega)
  · have hbounds := hc.dense.bounds hx.live
    rw [hvalue x (by omega), h.others x hx]
    exact hfits.toNat_word x

end

theorem block_is_private_array {options : CompileOptions} {program : List Node}
    {origin c d : Compilation} {line size : Int} {body : List Node}
    (hc : c ∈ (Watch.program options program).passed origin) (hcodes : Node.verbatimsIn body = [])
    (hd : statements options [.unsafeBlock line size body] c = .ok () d) :
    (Node.travelIn? size 0 body).isSome = true ∧
    ∃ (n start : Nat) (hn : 0 < n) (added : String), size = n ∧
      c.layout.firstFit size = start ∧ d.code = c.code ++ added ∧
      (∀ i : Nat, i < n →
        c.layout.status (start + i) = .free ∧ d.layout.status (start + i) = .free) ∧
      ∀ (m : Machine) (tape : Tape), m.setting.stepLimit = none →
        d.layout.highWater ≤ m.setting.size → tape.Fits m.setting →
        (tape.pointer : Int) = c.pointer →
        (∀ x : Nat, c.layout.highWater ≤ x → tape.value x = 0) →
        (m.load added).2 = none ∧ ∀ (chunk : Nat) (input : List CodePoint), 0 < chunk →
          (∀ output, (∃ rounds m', Machine.resume chunk rounds input
              { (m.load added).1 with tape } = (m', .finished) ∧ m'.printed.toList = output) ↔
            ∃ array, PrivateArray.Leads (2 ^ m.setting.bits)
              (tape.denotation m.setting.bits c.bindings) body (.zeros hn) array ∧
              array.printed = output) ∧
          ∀ rounds m' outcome, Machine.resume chunk rounds input
              { (m.load added).1 with tape } = (m', outcome) → outcome ≠ .unfinished →
            outcome = .finished ∧ (m'.tape.pointer : Int) = d.pointer ∧
            (∀ i : Nat, i < n → m'.tape.value (start + i) = 0) ∧
            ∀ x : Nat, (c.layout.status x = .temp ∨
              ∃ name i type, c.layout.status x = .named name i type) →
              m'.tape.value x = tape.value x := by
  have h := ((Watch.program_safe options program origin).passed c hc).sound
  obtain ⟨event, hblock⟩ := unsafeBlock_of_statements hd
  have hsound := h.record event
  obtain ⟨hsize, -, -⟩ := unsafeBlock_ok hblock
  obtain ⟨place, htravel⟩ := unsafeBlock_travels hsound hblock
  obtain ⟨h0, -, -⟩ := Layout.firstFit_spec h.dense size
  lift size to Nat using hsize.le with n
  have hn : 0 < n := by omega
  obtain ⟨start, hstart⟩ : ∃ start : Nat, c.layout.firstFit n = start :=
    ⟨_, (Int.toNat_of_nonneg h0).symm⟩
  obtain ⟨k, hk, harray⟩ := unsafeBlock_array hsound hcodes hblock hn rfl
  obtain ⟨added, hadded, htext⟩ := hk.text
  refine ⟨by rw [htravel]; rfl, n, start, hn, added, rfl, hstart, hadded, fun i hi => ?_,
    fun m tape hlimit hroom hfits hpointer hzero => ?_⟩
  · rw [← hstart]
    exact unsafeBlock_frees hsound hblock (i := i) (by omega)
  obtain ⟨hload, hholds⟩ := m.load_holds htext
  refine ⟨hload, fun chunk input hchunk => ?_⟩
  have hgrows : c.layout.highWater ≤ d.layout.highWater :=
    (unsafeBlock_keeps (S := fun _ => False) hsound (fun hx => hx.elim) hblock).1.grows
  have hshows := m.load_shows_tape added hfits.size hfits.pointer
    (by simpa only [m.setting.modulus_eq_pow] using hfits.cells) input
  obtain ⟨hworks, hruns⟩ := harray (w := .ofTape m.setting.bits tape input) hpointer rfl
    (.of_tape input hzero) fun node => hfits.denotation_eq node
  obtain ⟨hhalts, hends⟩ := resume_ended (w := .ofTape m.setting.bits tape input) hroom hlimit
    hchunk hshows (hpointer ▸ hk.leads) (hholds.replace tape)
  refine ⟨fun output => ⟨?_, ?_⟩, fun rounds m' outcome hresume houtcome => ?_⟩
  · rintro ⟨rounds, m', hresume, rfl⟩
    obtain ⟨e, he, -, hshows'⟩ := hends hresume (by simp)
    obtain ⟨w', rfl, -, array, hleads, hprinted⟩ := hruns he
    exact ⟨array, hleads, hprinted.trans hshows'.printed.symm⟩
  · rintro ⟨array, hleads, rfl⟩
    obtain ⟨w', hrun, hprinted⟩ := hworks hleads
    obtain ⟨rounds, m', hresume, hshows'⟩ := hhalts hrun
    exact ⟨rounds, m', hresume, hshows'.printed.trans hprinted⟩
  · obtain ⟨e, he, rfl, hshows'⟩ := hends hresume houtcome
    obtain ⟨w', rfl, hemptied, -⟩ := hruns he
    obtain ⟨hpointer', hregion, hothers⟩ :=
      hemptied.tape hsound hstart (hgrows.trans hroom) hfits hshows'
    refine ⟨rfl, hpointer', fun i hi => hregion i (by omega), fun x hx => hothers x ?_⟩
    exact hx.imp_right fun ⟨name, i, type, hnamed⟩ => ⟨name, i, type, hnamed, List.not_mem_nil⟩

def Node.vacated : List Node :=
  [.declare 1 "x" .number none, .declare 2 "b" .number none, .declare 3 "t" .number none,
    .remove 4 "t"]

def Node.product : List Node :=
  [.unsafeAdd 6 (.var "b" none),
    .unsafeLoop 7 [.unsafeReduce 8 (.literal 1 false), .unsafeGoto 9 1,
      .unsafeAdd 10 (.var "x" none)],
    .unsafeGoto 11 1, .unsafeShow 12]

def Tape.littered : Tape := ⟨#[2, 3, 9] ++ Array.replicate 17 0, 2⟩

theorem Tape.littered_fits : littered.Fits (Machine.small none).setting :=
  ⟨rfl, by decide, by decide⟩

theorem Tape.littered_value {x : Nat} (hx : 3 ≤ x) : littered.value x = 0 := by
  have hcells : ∀ x < 20, 3 ≤ x → littered.value x = 0 := by decide
  by_cases hlt : x < 20
  · exact hcells x hlt hx
  · exact value_eq_zero (Nat.le_of_not_lt hlt)

theorem block_is_private_array_product :
    ∃ c ∈ (Watch.program {} Node.vacated).passed Compilation.initial, ∃ d added rounds m',
      c.layout.highWater = 3 ∧ c.layout.firstFit 2 = 2 ∧
      statements {} [.unsafeBlock 5 2 Node.product] c = .ok () d ∧ d.code = c.code ++ added ∧
      Machine.resume Machine.sliceSteps rounds []
        { ((Machine.small none).load added).1 with tape := .littered } = (m', .finished) ∧
      m'.printed.toList = [.number 6] ∧ m'.tape.value 0 = 2 ∧ m'.tape.value 1 = 3 ∧
      m'.tape.value 2 = 0 ∧ m'.tape.value 3 = 0 := by
  have hany : ((Watch.program {} Node.vacated).passed Compilation.initial).any (fun c =>
      (c.pointer = 2 ∧ c.layout.highWater = 3 ∧ c.layout.firstFit 2 = 2 ∧
        c.layout.status 0 = .named "x" 0 .number ∧ c.layout.status 1 = .named "b" 0 .number ∧
        (PrivateArray.run? (2 ^ 8) (Tape.littered.denotation 8 c.bindings) 20 Node.product
          (.zeros Nat.two_pos)).map (·.printed) = some [.number 6]) &&
      (statements {} [.unsafeBlock 5 2 Node.product]).endsWithin c 20) = true := by
    decide +kernel
  obtain ⟨c, hc, hstate⟩ := List.any_eq_true.1 hany
  obtain ⟨hstate, hends⟩ := Bool.and_eq_true_iff.1 hstate
  obtain ⟨hpointer, hwater, hfit, hx, hb, hrun⟩ := of_decide_eq_true hstate
  obtain ⟨array, harray, hprinted⟩ := Option.map_eq_some_iff.1 hrun
  obtain ⟨_, d, hd, hroom⟩ := exists_of_endsWithin hends
  obtain ⟨-, n, start, hn, added, hsize, hstart, hadded, -, hruns⟩ :=
    block_is_private_array hc rfl hd
  obtain rfl : n = 2 := by omega
  obtain rfl : start = 2 := by omega
  have hzero (x : Nat) (hlow : c.layout.highWater ≤ x) : Tape.littered.value x = 0 :=
    Tape.littered_value (by omega)
  obtain ⟨-, hmachine⟩ := hruns (Machine.small none) .littered rfl hroom Tape.littered_fits
    hpointer.symm hzero
  obtain ⟨houtput, hafter⟩ := hmachine Machine.sliceSteps [] (by decide)
  obtain ⟨rounds, m', hresume, hshown⟩ := (houtput [.number 6]).2 ⟨array, .of_run? harray, hprinted⟩
  obtain ⟨-, -, hregion, hothers⟩ := hafter rounds m' .finished hresume (by simp)
  exact ⟨c, hc, d, added, rounds, m', hwater, hfit, hd, hadded, hresume, hshown,
    hothers 0 (.inr ⟨"x", 0, .number, hx⟩), hothers 1 (.inr ⟨"b", 0, .number, hb⟩),
    hregion 0 (by decide), hregion 1 (by decide)⟩

end TapeCompiler
