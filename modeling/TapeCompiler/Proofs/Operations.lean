import TapeCompiler.Proofs.Frame
import TapeCompiler.Proofs.Syntax

namespace TapeCompiler

open Compilation

theorem moveless_dump : Moveless "&" := by
  simp [Moveless]

namespace Instruction

def still? : Instruction → Option Action
  | increment => some .increment
  | decrement => some .decrement
  | put => some .put
  | putChar => some .putChar
  | get => some .get
  | dump => some .dump
  | _ => none

theorem still?_of_moveless {code : String} (h : Moveless code) {i : Instruction}
    (hi : i ∈ ofText code) : ∃ a, i.still? = some a := by
  obtain ⟨ch, hch, hof⟩ := List.mem_filterMap.1 hi
  have hne := h ch hch
  cases i
  case right => exact absurd hof (by unfold ofChar?; split <;> simp_all)
  case left => exact absurd hof (by unfold ofChar?; split <;> simp_all)
  case loopStart => exact absurd hof (by unfold ofChar?; split <;> simp_all)
  case loopEnd => exact absurd hof (by unfold ofChar?; split <;> simp_all)
  all_goals exact ⟨_, rfl⟩

theorem exists_code {program : List Instruction} (h : ∀ i ∈ program, ∃ a, i.still? = some a) :
    ∃ k : Code, k.flatten = program ∧
      ∀ {bound p : Int}, 0 ≤ p ∧ p < bound → k.Leads bound p p := by
  induction program with
  | nil => exact ⟨.done, rfl, fun _ => rfl⟩
  | cons i rest ih =>
      obtain ⟨a, ha⟩ := h i (by simp)
      obtain ⟨k, hk, hl⟩ := ih fun j hj => h j (by simp [hj])
      have hi : a.instruction = i ∧ a.shift = 0 := by
        cases i <;> cases ha <;> exact ⟨rfl, rfl⟩
      refine ⟨.act a k, by rw [Code.flatten, hi.1, hk], fun {bound p} hp => ?_⟩
      have hp' : p + a.shift = p := by omega
      exact ⟨by omega, by omega, by rw [hp']; exact hl hp⟩

end Instruction

namespace Compilation

variable {codes : List String} {S : Int → Prop} {c d : Compilation}

theorem Keeps.verbatim (h : Sound c) (code : String)
    (hp : 0 ≤ c.pointer ∧ c.pointer < c.layout.highWater) : Keeps [code] S c (c.emit code) := by
  by_cases hcode : code = "&"
  · subst hcode
    exact Keeps.act h .dump rfl rfl hp fun hw => by cases hw
  · refine ⟨h.of_same (.emit c code) h.tracked, Int.le_refl _, fun _ => rfl, fun hm => ?_⟩
    obtain ⟨k, hk, hl⟩ := Instruction.exists_code fun _ hi =>
      Instruction.still?_of_moveless (hm code (by simp)) hi
    exact ⟨k, ⟨⟨code, rfl, hk.symm⟩, hl hp⟩, fun hq => absurd (hq code (by simp)) hcode⟩

theorem Sound.reserved_of_unsafePointer (h : Sound c) {p : Int} (hp : c.unsafePointer = some p) :
    c.layout.status p = .reserved := by
  obtain ⟨r, hr, hlow, hhigh⟩ := h.inside hp
  exact (h.reserved p).2 ⟨r, hr, hlow, hhigh⟩

theorem Sound.pointTo (h : Sound c) {p : Int} {r : Region} (hr : c.unsafeRegion = some r)
    (hp : r.start ≤ p ∧ p < r.start + r.size) : Sound { c with unsafePointer := some p } := by
  refine ⟨⟨h.dense, h.bound⟩, h.reserved, ?_, ?_, h.tracked⟩
  · intro q hq
    cases hq
    exact ⟨r, hr, hp⟩
  · intro hnone
    cases hnone

theorem Keeps.pointTo (h : Keeps codes S c d) {p : Int} {r : Region}
    (hr : d.unsafeRegion = some r) (hp : r.start ≤ p ∧ p < r.start + r.size) :
    Keeps codes S c { d with unsafePointer := some p } := by
  refine ⟨h.sound.pointTo hr hp, h.grows, h.status, fun hm => ?_⟩
  obtain ⟨k, hk, hkeep⟩ := h.code hm
  exact ⟨k, ⟨hk.text, hk.leads⟩, hkeep⟩

def Apart (S : Int → Prop) (c : Compilation) : Prop :=
  ∀ {x}, S x → c.layout.status x ≠ .free ∧ c.layout.status x ≠ .reserved

theorem Keeps.apart (h : Keeps codes S c d) (hS : Apart S c) : Apart S d := by
  intro x hx
  rw [h.status hx]
  exact hS hx

end Compilation

namespace Compile

variable {codes : List String} {S : Int → Prop} {c d : Compilation} {options : CompileOptions}

theorem unsafePointer_ok {p : Int} :
    unsafePointer c = .ok p d ↔ c.unsafePointer = some p ∧ c = d := by
  simp only [unsafePointer, bind_ok, get_ok]
  constructor
  · rintro ⟨_, _, ⟨rfl, rfl⟩, h⟩
    cases hp : c.unsafePointer with
    | some q =>
        rw [hp] at h
        obtain ⟨rfl, rfl⟩ := pure_ok.1 h
        exact ⟨rfl, rfl⟩
    | none =>
        rw [hp] at h
        exact absurd h fail_ok
  · rintro ⟨hp, rfl⟩
    exact ⟨c, c, ⟨rfl, rfl⟩, by rw [hp]; rfl⟩

theorem goto_ok {offset : Int} (hd : goto offset c = .ok () d) :
    ∃ p r, c.unsafePointer = some p ∧ c.unsafeRegion = some r ∧
      (r.start ≤ p + offset ∧ p + offset < r.start + r.size) ∧
      d = { c.moveTo (p + offset) with unsafePointer := some (p + offset) } := by
  simp only [goto, bind_ok, unsafePointer_ok, get_ok] at hd
  obtain ⟨p, _, ⟨hp, rfl⟩, _, _, ⟨rfl, rfl⟩, hd⟩ := hd
  cases hr : c.unsafeRegion with
  | none =>
      rw [hr] at hd
      exact absurd hd fail_ok
  | some r =>
      rw [hr] at hd
      dsimp only at hd
      split at hd
      · rename_i htarget
        rw [modify_ok] at hd
        exact ⟨p, r, hp, rfl, htarget, hd.symm⟩
      · exact absurd hd fail_ok

theorem drainAmount_ok {amount : Node} {sign : Sign}
    (hd : drainAmount options amount sign c = .ok () d) :
    ∃ p a e, c.unsafePointer = some p ∧ evaluate options amount c = .ok a e ∧
      d = (e.addCopy a p sign).release a := by
  simp only [drainAmount, bind_ok, unsafePointer_ok, modify_ok] at hd
  obtain ⟨p, _, ⟨hp, rfl⟩, a, e, ha, _, _, rfl, rfl⟩ := hd
  exact ⟨p, a, e, hp, ha, rfl⟩

theorem unsafeShow_ok {line : Int} (hd : operation options (.unsafeShow line) c = .ok () d) :
    ∃ p, c.unsafePointer = some p ∧ d = (c.moveTo p).emit "." := by
  simp only [operation, bind_ok, unsafePointer_ok, modify_ok] at hd
  obtain ⟨p, _, ⟨hp, rfl⟩, rfl⟩ := hd
  exact ⟨p, hp, rfl⟩

theorem unsafeLoop_ok {line : Int} {body : List Node}
    (hd : operation options (.unsafeLoop line body) c = .ok () d) :
    ∃ p e, c.unsafePointer = some p ∧ operations options body ((c.moveTo p).emit "[") = .ok () e ∧
      d = { (e.moveTo p).emit "]" with unsafePointer := some p } := by
  simp only [operation, bind_ok, unsafePointer_ok, modify_ok] at hd
  obtain ⟨p, _, ⟨hp, rfl⟩, _, _, rfl, _, e, hbody, rfl⟩ := hd
  exact ⟨p, e, hp, hbody, rfl⟩

theorem verbatim_ok {line : Int} {code : String}
    (hd : operation options (.verbatim line code) c = .ok () d) :
    ∃ p, c.unsafePointer = some p ∧ d = c.emit code := by
  simp only [operation, bind_ok, unsafePointer_ok, modify_ok] at hd
  obtain ⟨p, _, ⟨hp, rfl⟩, rfl⟩ := hd
  exact ⟨p, hp, rfl⟩

theorem loopStart_sound {p : Int} (h : Sound c) (hp : c.unsafePointer = some p) :
    Sound ((c.moveTo p).emit "[") := by
  have hreserved := h.reserved_of_unsafePointer hp
  have hbounds := h.dense.bounds (show c.layout.status p ≠ .free by simp [hreserved])
  have hmove : Keeps [] (fun _ => False) c (c.moveTo p) := .moveTo h hbounds
  exact hmove.sound.of_same (.emit _ "[") hmove.sound.tracked

theorem goto_keeps {offset : Int} (h : Sound c) (hd : goto offset c = .ok () d) :
    Keeps codes S c d ∧ SameScope c d := by
  obtain ⟨p, r, -, hr, htarget, rfl⟩ := goto_ok hd
  have hlive := (h.reserved (p + offset)).2 ⟨r, hr, htarget⟩
  have hmove : Keeps codes S c (c.moveTo (p + offset)) := Keeps.moveTo h
    (h.dense.bounds (show c.layout.status (p + offset) ≠ .free by simp [hlive]))
  have hsame := SameScope.of_same (Same.moveTo c (p + offset))
  exact ⟨hmove.pointTo (hsame.unsafeRegion.trans hr) htarget, hsame.bindings, hsame.functions,
    hsame.unsafeRegion⟩

theorem drainAmount_does {amount : Node} {sign : Sign} (h : Sound c)
    (hd : drainAmount options amount sign c = .ok () d) :
    ∃ p value, c.unsafePointer = some p ∧ Means c amount value ∧ Does c d fun bits cells =>
      Function.update cells p (sign.apply (cells p) (value bits cells)) := by
  obtain ⟨p, a, c₁, hp, ha, rfl⟩ := drainAmount_ok hd
  have hlive : c.layout.status p ≠ .free := by simp [h.reserved_of_unsafePointer hp]
  obtain ⟨value, hyields, hmeans, -⟩ := evaluate_yields h ha
  have hadd := does_addCopy hyields.step.sound hyields.live (hyields.step.ext.live hlive) sign
  refine ⟨p, value, hp, hmeans, hyields.consumeDoes hadd ?_ ?_⟩
  · intro bits y v hv
    exact Function.update_of_ne (by rintro rfl; exact hlive hv) _ _
  · intro bits x y hkeep hval v hv
    rw [hkeep p hlive, hval]
    by_cases hvp : v = p
    · subst hvp
      rw [Function.update_self, Function.update_self]
    · rw [Function.update_of_ne hvp, Function.update_of_ne hvp, hkeep v hv]

theorem drainAmount_keeps {amount : Node} {sign : Sign} (h : Sound c) (hS : Apart S c)
    (hd : drainAmount options amount sign c = .ok () d) :
    Keeps codes S c d ∧ SameScope c d := by
  obtain ⟨p, value, hp, -, hdoes⟩ := drainAmount_does h hd
  refine ⟨Keeps.of_does hdoes (fun hx => (hS hx).1) fun bits y x hx =>
    Function.update_of_ne ?_ _ _, .of_extends hdoes.ext⟩
  rintro rfl
  exact (hS hx).2 (h.reserved_of_unsafePointer hp)

mutual

theorem operation_keeps (node : Node) {c d : Compilation} (h : Sound c) (hS : Apart S c)
    (hd : operation options node c = .ok () d) :
    Keeps node.verbatims S c d ∧ SameScope c d := by
  cases node
  case unsafeGoto line offset => exact goto_keeps h hd
  case unsafeAdd line amount => exact drainAmount_keeps h hS hd
  case unsafeReduce line amount => exact drainAmount_keeps h hS hd
  case unsafeShow line =>
    obtain ⟨p, hp, rfl⟩ := unsafeShow_ok hd
    have hreserved := h.reserved_of_unsafePointer hp
    have hbounds := h.dense.bounds (show c.layout.status p ≠ .free by simp [hreserved])
    have hmove : Keeps (Node.unsafeShow line).verbatims S c (c.moveTo p) := Keeps.moveTo h hbounds
    refine ⟨hmove.trans (Keeps.act hmove.sound .put rfl rfl ?_ fun hw => by cases hw),
      .of_same ((Same.moveTo c p).trans (.emit _ _))⟩
    rw [layout_moveTo, pointer_moveTo]
    exact hbounds
  case unsafeLoop line body =>
    obtain ⟨p, e, hp, hbody, rfl⟩ := unsafeLoop_ok hd
    have hreserved := h.reserved_of_unsafePointer hp
    have hbounds := h.dense.bounds (show c.layout.status p ≠ .free by simp [hreserved])
    have hmove : Keeps (Node.verbatimsIn body) S c (c.moveTo p) := Keeps.moveTo h hbounds
    obtain ⟨hkeeps, hscope⟩ := operations_keeps body (loopStart_sound h hp) (hmove.apart hS) hbody
    have hback : Keeps (Node.verbatimsIn body) S e (e.moveTo p) := by
      have hgrows := hkeeps.grows
      rw [layout_emit, layout_moveTo] at hgrows
      exact Keeps.moveTo hkeeps.sound (by omega)
    have hsame : SameScope c ((e.moveTo p).emit "]") :=
      ((SameScope.of_same ((Same.moveTo c p).trans (.emit _ "["))).trans hscope).trans
        (.of_same ((Same.moveTo e p).trans (.emit _ "]")))
    obtain ⟨r, hr, hinside⟩ := h.inside hp
    exact ⟨(hmove.trans ((hkeeps.trans hback).loop rfl)).pointTo (hsame.unsafeRegion.trans hr)
      hinside, hsame.bindings, hsame.functions, hsame.unsafeRegion⟩
  case verbatim line code =>
    obtain ⟨p, hp, rfl⟩ := verbatim_ok hd
    have hreserved := h.reserved_of_unsafePointer hp
    exact ⟨Keeps.verbatim h code (h.tracked_of_live (x := p) (by simp [hreserved])),
      .of_same (.emit _ _)⟩
  all_goals exact absurd hd fail_ok

theorem operations_keeps (nodes : List Node) {c d : Compilation} (h : Sound c) (hS : Apart S c)
    (hd : operations options nodes c = .ok () d) :
    Keeps (Node.verbatimsIn nodes) S c d ∧ SameScope c d := by
  match nodes with
  | [] =>
      obtain ⟨-, rfl⟩ := pure_ok.1 hd
      exact ⟨.refl h, rfl, rfl, rfl⟩
  | node :: rest =>
      simp only [operations, bind_ok] at hd
      obtain ⟨_, e, hnode, hrest⟩ := hd
      obtain ⟨hfirst, hscope⟩ := operation_keeps node h hS hnode
      obtain ⟨hsecond, hscope'⟩ := operations_keeps rest hfirst.sound (hfirst.apart hS) hrest
      refine ⟨(hfirst.mono ?_ id).trans (hsecond.mono ?_ id), hscope.trans hscope'⟩
      · exact fun code hc => List.mem_append_left _ hc
      · exact fun code hc => List.mem_append_right _ hc

end

theorem operation_sound (node : Node) (h : Sound c) (hd : operation options node c = .ok () d) :
    Keeps node.verbatims (fun _ => False) c d ∧ SameScope c d :=
  operation_keeps node h (fun hx => hx.elim) hd

theorem operations_sound (nodes : List Node) (h : Sound c)
    (hd : operations options nodes c = .ok () d) :
    Keeps (Node.verbatimsIn nodes) (fun _ => False) c d ∧ SameScope c d :=
  operations_keeps nodes h (fun hx => hx.elim) hd

end Compile

end TapeCompiler
