import TapeCompiler.Proofs.Landmarks
import TapeCompiler.Proofs.Tidiness
import TapeCompiler.Proofs.Visits

namespace TapeCompiler

open Compile Compilation

namespace Compilation

def position (c : Compilation) : Nat := (Instruction.ofText c.code).length

structure Precedes (c d : Compilation) : Prop where
  code : ∃ added, d.code = c.code ++ added
  grows : c.layout.highWater ≤ d.layout.highWater

variable {bound : Int} {c d e : Compilation} {k : Code}

theorem Emits.position (h : Emits bound c d k) : d.position = c.position + k.size := by
  obtain ⟨added, hadded, hk⟩ := h.text
  rw [Compilation.position, Compilation.position, hadded, ofText_append, hk, List.length_append,
    Code.size]

theorem Emits.precedes (h : Emits bound c d k)
    (hgrows : c.layout.highWater ≤ d.layout.highWater) : c.Precedes d := by
  obtain ⟨added, hadded, -⟩ := h.text
  exact ⟨⟨added, hadded⟩, hgrows⟩

namespace Precedes

theorem refl (c : Compilation) : c.Precedes c := ⟨⟨"", String.append_empty.symm⟩, Int.le_refl _⟩

theorem trans (h : c.Precedes d) (h' : d.Precedes e) : c.Precedes e := by
  obtain ⟨added, hadded⟩ := h.code
  obtain ⟨more, hmore⟩ := h'.code
  exact ⟨⟨added ++ more, by rw [hmore, hadded, String.append_assoc]⟩, h.grows.trans h'.grows⟩

theorem position_le (h : c.Precedes d) : c.position ≤ d.position := by
  obtain ⟨added, hadded⟩ := h.code
  rw [position, position, hadded, ofText_append, List.length_append]
  exact Nat.le_add_right _ _

theorem emit (h : c.Precedes d) (text : String) : c.Precedes (d.emit text) :=
  h.trans ⟨⟨text, rfl⟩, Int.le_refl _⟩

theorem freeCondition (h : c.Precedes d) {a : Int} (ha : 0 ≤ a ∧ a < c.layout.highWater) :
    c.Precedes (d.freeCondition a) := by
  have hgrows := h.grows
  refine ⟨?_, ?_⟩
  · rw [code_freeCondition]
    exact h.code
  · rwa [highWater_freeCondition (by omega)]

end Precedes

theorem Emits.offset {p q : Compilation} {bound' : Int} {n : Code} {i : Nat} (h : Emits bound c d k)
    (hn : Emits bound' p q n) (hbefore : c.Precedes p) (hafter : q.Precedes d) (hi : i ≤ n.size) :
    ∃ j, c.position + j = p.position + i ∧ j ≤ k.size := by
  have hle := hbefore.position_le
  have hle' := hafter.position_le
  rw [hn.position, h.position] at hle'
  exact ⟨p.position + i - c.position, by omega, by omega⟩

theorem position_open (c : Compilation) : (c.emit "[").position = c.position + 1 := by
  rw [position, position, emit, ofText_append, List.length_append]
  rfl

end Compilation

variable {options : CompileOptions} {s : Setting}

namespace Lowered

variable {flat : List Node} {c d : Compilation}

theorem ready (h : Lowered options flat c d) (hc : Sound c) (hu : c.unsafePointer = none) {k : Code}
    (hk : Emits d.layout.highWater c d k) {w v : World s.bits} (hw : w.pointer = c.pointer)
    (hrun : Runs s k w (.done v)) (hready : Ready true c w.cells) : Ready true d v.cells := by
  intro _ x hx
  have hgrows := (h.keeps hc hu).1.grows
  exact (hrun.cells_outside hk.leads hw (.inr hx)).trans (hready rfl x (by omega))

end Lowered

theorem Table.mem_names {α : Type} {table : Table α} {name : String} {entry : α}
    (h : table.find? name = some entry) : name ∈ table.names := by
  obtain ⟨⟨n, e⟩, hfound, -⟩ := Option.map_eq_some_iff.1 h
  have hname : n = name := by simpa using List.find?_some hfound
  exact List.mem_map.2 ⟨(n, e), List.mem_of_find?_eq_some hfound, hname⟩

def Compilation.Owns (c : Compilation) (node : Node) : Prop :=
  ∀ flat bodies, Expands c.functions.bodies [node] flat bodies →
    (Node.ownIn? false c.bindings.names [] flat).isSome = true

def Owned (around : Option (Compilation × Node)) : Prop :=
  ∀ start loop, around = some (start, loop) → start.Owns loop

/-- The statements to come keep to their own, in a body that started in the state `b`, and the cells
that nobody has hold zero, but for some that had been used before. -/
structure Kept {bits : Nat} (held : Int → Prop) (looped : Bool) (outer own : List String)
    (b : Compilation) (flat : List Node) (c : Compilation) (cells : Int → BitVec bits) : Prop where
  inside : Inside (fun _ => False) looped outer own b c
  owned : (Node.ownIn? looped outer own flat).isSome = true
  used : ∀ x, held x → x < c.layout.highWater
  tidy : Tidy held c cells

namespace Kept

variable {held : Int → Prop} {looped : Bool} {outer own : List String} {b c d : Compilation}
  {flat flat' : List Node}

theorem start {bits : Nat} {cells : Int → BitVec bits} {node : Node} {bodies : Table (List Node)}
    (h : Sound c) (hu : c.unsafePointer = none) (hready : Ready true c cells) (howns : c.Owns node)
    (hflat : Expands c.functions.bodies [node] flat bodies) :
    Kept (· < c.layout.highWater) false c.bindings.names [] c flat c cells where
  inside := ⟨h, hu, .refl Table.mem_names, fun _ hx => hx.elim⟩
  owned := howns flat bodies hflat
  used _ hx := hx
  tidy x _ hx := hready rfl x (by omega)

theorem ready {bits : Nat} {cells : Int → BitVec bits}
    (h : Kept held looped outer own b flat c cells) : Ready true c cells := by
  intro _ x hx
  have hfree : c.layout.status x = .free := by
    by_contra hlive
    have := h.inside.sound.dense.bounds hlive
    omega
  exact h.tidy x (.inl hfree) fun hheld => Int.not_lt.2 hx (h.used x hheld)

theorem first {bits : Nat} {cells : Int → BitVec bits}
    (h : Kept held looped outer own b (flat ++ flat') c cells) :
    Kept held looped outer own b flat c cells := by
  refine ⟨h.inside, ?_, h.used, h.tidy⟩
  have howned := h.owned
  rw [Node.ownIn?_append] at howned
  cases hown : Node.ownIn? looped outer own flat with
  | none =>
      rw [hown] at howned
      cases howned
  | some own' => rfl

variable {k : Code} {w v : World s.bits}

theorem rest (h : Kept held looped outer own b (flat ++ flat') c w.cells)
    (hflat : Lowered options flat c d) (hcodes : ∀ code ∈ Node.verbatimsIn flat, code = "&")
    {bound : Int} (hk : Emits bound c d k) (hw : w.pointer = c.pointer)
    (hrun : Runs s k w (.done v)) : ∃ own', Kept held looped outer own' b flat' d v.cells := by
  obtain ⟨own', hown⟩ := Option.isSome_iff_exists.1 h.first.owned
  have howned := h.owned
  rw [Node.ownIn?_append, hown] at howned
  obtain ⟨hkeeps, hnone⟩ := hflat.keeps h.inside.sound h.inside.outside
  have hwithin := hflat.within h.inside.sound h.inside.outside hcodes hown h.inside.within
  exact ⟨own', ⟨hkeeps.sound, hnone, hwithin, h.inside.held⟩, howned,
    fun x hx => (h.used x hx).trans_le hkeeps.grows,
    hflat.cleans h.inside hcodes hown hk h.used hw h.tidy hrun⟩

variable {inner : Bool} {left : List String} {test : Node} {a : Int} {e c₂ : Compilation}
  {l m : Code}

theorem opened (h : Kept held looped outer own b flat' c w.cells)
    (hbracketed : Bracketed test a c e c₂ l m)
    (hopen : openLoop options test c = .ok a (e.emit "["))
    (hflat : Lowered options flat (e.emit "[") c₂)
    (hcodes : ∀ code ∈ Node.verbatimsIn flat, code = "&")
    (hleft : Node.ownIn? inner (outer ++ own) [] flat = some left) (hw : w.pointer = c.pointer)
    (hrun : Runs s l w (.done v)) :
    Kept (Also a held) inner (outer ++ own) [] (e.emit "[") flat (e.emit "[") v.cells := by
  obtain ⟨-, -, -, hinside⟩ := h.inside.enclosed hopen hflat hcodes hleft
  exact ⟨hinside.unheld, by rw [hleft]; rfl, hbracketed.held_lt h.used,
    (hbracketed.entered hw h.tidy hrun).2⟩

theorem again (h : Kept (Also a held) true (outer ++ own) [] (e.emit "[") flat (e.emit "[") w.cells)
    (hc : Inside (fun _ => False) looped outer own b c)
    (hbracketed : Bracketed test a c e c₂ l m)
    (hopen : openLoop options test c = .ok a (e.emit "["))
    (hflat : Lowered options flat (e.emit "[") c₂)
    (hcodes : ∀ code ∈ Node.verbatimsIn flat, code = "&")
    (hleft : Node.ownIn? true (outer ++ own) [] flat = some []) (hw : w.pointer = e.pointer)
    (hrun : Runs s m w (.done v)) :
    Kept (Also a held) true (outer ++ own) [] (e.emit "[") flat (e.emit "[") v.cells := by
  obtain ⟨e', heq, henclosed, -⟩ := hc.enclosed hopen hflat hcodes hleft
  obtain rfl := emit_injective heq
  exact ⟨h.inside, h.owned, h.used, (hflat.cleans h.inside hcodes hleft hbracketed.body h.used hw
    h.tidy hrun).congr henclosed.idle_again⟩

end Kept

theorem Node.own?_of_singleton {looped : Bool} {outer own : List String} {node : Node}
    (h : (Node.ownIn? looped outer own [node]).isSome = true) :
    ∃ own', node.own? looped outer own = some own' := by
  obtain ⟨own', hown⟩ := Option.isSome_iff_exists.1 h
  obtain ⟨own₁, hfirst, -⟩ := Option.bind_eq_some_iff.1 hown
  exact ⟨own₁, hfirst⟩

theorem Code.le_size_append {l : Code} {i : Nat} (hi : i ≤ l.size) (m : Code) :
    i ≤ (l ++ m).size := by
  rw [Code.size, Code.flatten_append, List.length_append]
  exact hi.trans (Nat.le_add_right _ _)

namespace Bracketed

variable {test : Node} {a bound : Int} {c d e c₂ : Compilation} {k l code : Code}
  {w v : World s.bits} {i j : Nat}

theorem precedes (h : Bracketed test a c e c₂ k l) : c.Precedes (e.emit "[") :=
  (h.opening.precedes h.opens.ext.grows).emit "["

theorem ready (h : Bracketed test a c e c₂ k l) {u : World s.bits} (hw : w.pointer = c.pointer)
    (hrun : Runs s k w (.done u)) (hready : Ready true c w.cells) :
    Ready true (e.emit "[") u.cells := by
  intro _ x hx
  have hgrows := h.opens.ext.grows
  rw [layout_emit] at hx
  exact (hrun.cells_outside h.opening.leads hw (.inr hx)).trans (hready rfl x (by omega))

theorem precedes_close (h : Bracketed test a c e c₂ k l) {m : Code} (hsame : Same c₂ d)
    (hm : Emits bound c₂ d m) : c₂.Precedes ((d.emit "]").freeCondition a) :=
  ((hm.precedes (hsame.layout ▸ Int.le_refl _)).emit "]").freeCondition h.cell

theorem precedes_closeConditional (h : Bracketed test a c e c₂ k l)
    (hclose : closeConditional a c₂ = .ok () d) : c₂.Precedes d := by
  rw [closeConditional, modify_ok] at hclose
  subst hclose
  obtain ⟨m, hm, -⟩ := turns_clear h.tracked h.cell
  exact h.precedes_close (.clear c₂ a) hm

theorem precedes_closeLoop (h : Bracketed test a c e c₂ k l) (hclose : closeLoop a c₂ = .ok () d) :
    c₂.Precedes d := by
  rw [closeLoop, modify_ok] at hclose
  subst hclose
  obtain ⟨m, hm, -⟩ := turns_moveTo h.tracked h.cell
  exact h.precedes_close (.moveTo c₂ a) hm

theorem enters (h : Bracketed test a c e c₂ k l) {m : Code}
    (hj : c.position + j = (e.emit "[").position + i)
    (hvisit : Visits s (k ++ .loop (l ++ m) .done) w j v) :
    ∃ u, Runs s k w (.done u) ∧ Visits s (.loop (l ++ m) .done) u (i + 1) v := by
  rw [position_open, h.opening.position] at hj
  rw [show j = k.size + (i + 1) by omega] at hvisit
  exact hvisit.append_right

theorem of_conditional (h : Bracketed test a c e c₂ k l) (hclose : closeConditional a c₂ = .ok () d)
    (hcode : Emits bound c d code) (hw : w.pointer = c.pointer)
    (hj : c.position + j = (e.emit "[").position + i) (hi : i ≤ l.size)
    (hvisit : Visits s code w j v) :
    ∃ u, Runs s k w (.done u) ∧ u.pointer = e.pointer ∧ Visits s l u i v := by
  obtain ⟨m, rfl, hclear⟩ := h.conditional hclose hcode
  obtain ⟨u, hu, hloop⟩ := h.enters hj hvisit
  have hpointer := hu.pointer_eq h.opening.leads hw
  obtain ⟨u', hround, hread, hbody⟩ := hloop.of_loop
    (P := fun u' => u' = u ∨ u'.read = 0) (Code.le_size_append hi m) (.inl rfl)
    fun {x y} hx h0 hrun => by
      obtain rfl := hx.resolve_right h0
      obtain ⟨z, -, rfl⟩ := hrun.round h.body.leads hpointer hclear
      exact .inr (Function.update_self ..)
  obtain rfl := hround.resolve_right hread
  exact ⟨u', hu, hpointer, hbody.append_left hi⟩

theorem of_loop (h : Bracketed test a c e c₂ k l) (hclose : closeLoop a c₂ = .ok () d)
    (hcode : Emits bound c d code) (hw : w.pointer = c.pointer)
    (hj : c.position + j = (e.emit "[").position + i) (hi : i ≤ l.size)
    {P : (Int → BitVec s.bits) → Prop}
    (hfirst : ∀ {u}, Runs s k w (.done u) → P u.cells)
    (hround : ∀ {u u'}, u.pointer = e.pointer → P u.cells → Runs s l u (.done u') → P u'.cells)
    (hvisit : Visits s code w j v) :
    ∃ u, u.pointer = e.pointer ∧ P u.cells ∧ Visits s l u i v := by
  obtain ⟨m, rfl, hmove⟩ := h.loop hclose hcode
  obtain ⟨u, hu, hloop⟩ := h.enters hj hvisit
  obtain ⟨u', ⟨hpointer, hP⟩, -, hbody⟩ := hloop.of_loop
    (P := fun u => u.pointer = e.pointer ∧ P u.cells) (Code.le_size_append hi m)
    ⟨hu.pointer_eq h.opening.leads hw, hfirst hu⟩ fun {x y} hx _ hrun => by
      obtain ⟨z, hz, rfl⟩ := hrun.round h.body.leads hx.1 hmove
      exact ⟨h.opens.pointer.symm, (hround hx.1 hx.2 hz : P z.cells)⟩
  exact ⟨u', hpointer, hP, hbody.append_left hi⟩

end Bracketed

namespace Passes

variable {flag around : Option (Compilation × Node)} {node : Node} {p q c d : Compilation}
  {flat : List Node}

theorem around_eq {x : Compilation × Node}
    (h : Passes options flag (.statement node p q around) flat c d) (hflag : flag = some x) :
    around = some x := by
  generalize hmark : Landmark.statement node p q around = mark at h
  induction h with
  | statement =>
      cases hmark
      exact hflag
  | endConditional => cases hmark
  | endLoop => cases hmark
  | conditional _ _ _ ih => exact ih hflag hmark
  | loop _ _ _ _ ih => exact ih (by rw [hflag, Option.some_or]) hmark
  | before _ _ ih => exact ih hflag hmark
  | after _ _ ih => exact ih hflag hmark

theorem place (h : Passes options flag (.statement node p q around) flat c d) (hc : Sound c)
    (hu : c.unsafePointer = none) (hcodes : ∀ code ∈ Node.verbatimsIn flat, code = "&") :
    Sound p ∧ p.unsafePointer = none ∧ (∀ code ∈ node.verbatims, code = "&") ∧
      (∃ call, form options call node p = .ok () q) ∧ c.Precedes p ∧ q.Precedes d := by
  generalize hmark : Landmark.statement node p q around = mark at h
  induction h with
  | statement _ hform =>
      cases hmark
      exact ⟨hc, hu, by simpa [Node.verbatimsIn] using hcodes, ⟨_, hform⟩, .refl _, .refl _⟩
  | endConditional => cases hmark
  | endLoop => cases hmark
  | conditional hopen hbody hclose ih =>
      rw [Gathers.verbatims.conditional] at hcodes
      obtain ⟨hsound, hpoint⟩ := opened_sound hc hopen
      obtain ⟨hp, hnone, hnode, hform, hbefore, hafter⟩ := ih hsound (hpoint.trans hu) hcodes hmark
      obtain ⟨e, k, l, rfl, hbracketed⟩ := hbody.lowered.bracketed hc hu hopen hcodes
      exact ⟨hp, hnone, hnode, hform, hbracketed.precedes.trans hbefore,
        hafter.trans (hbracketed.precedes_closeConditional hclose)⟩
  | loop hopen _ hbody hclose ih =>
      rw [Gathers.verbatims.loop] at hcodes
      obtain ⟨hsound, hpoint⟩ := opened_sound hc hopen
      obtain ⟨hp, hnone, hnode, hform, hbefore, hafter⟩ := ih hsound (hpoint.trans hu) hcodes hmark
      obtain ⟨e, k, l, rfl, hbracketed⟩ := hbody.lowered.bracketed hc hu hopen hcodes
      exact ⟨hp, hnone, hnode, hform, hbracketed.precedes.trans hbefore,
        hafter.trans (hbracketed.precedes_closeLoop hclose)⟩
  | before hfirst hrest ih =>
      rw [Gathers.verbatims.append, List.forall_mem_append] at hcodes
      obtain ⟨hkeeps, hnone'⟩ := hfirst.lowered.keeps hc hu
      obtain ⟨hp, hnone, hnode, hform, hbefore, hafter⟩ := ih hc hu hcodes.1 hmark
      obtain ⟨k, hk⟩ := hrest.emits hkeeps.sound hnone' hcodes.2
      exact ⟨hp, hnone, hnode, hform, hbefore,
        hafter.trans (hk.precedes (hrest.keeps hkeeps.sound hnone').1.grows)⟩
  | after hfirst _ ih =>
      rw [Gathers.verbatims.append, List.forall_mem_append] at hcodes
      obtain ⟨hkeeps, hnone'⟩ := hfirst.keeps hc hu
      obtain ⟨hp, hnone, hnode, hform, hbefore, hafter⟩ := ih hkeeps.sound hnone' hcodes.2 hmark
      obtain ⟨k, hk⟩ := hfirst.emits hc hu hcodes.1
      exact ⟨hp, hnone, hnode, hform, (hk.precedes hkeeps.grows).trans hbefore, hafter⟩

theorem visits (h : Passes options flag (.statement node p q around) flat c d) (hc : Sound c)
    (hu : c.unsafePointer = none) (hcodes : ∀ code ∈ Node.verbatimsIn flat, code = "&")
    {bound bound' : Int} {k n : Code} (hk : Emits bound c d k) (hn : Emits bound' p q n)
    {w v : World s.bits} (hw : w.pointer = c.pointer) {i j : Nat} (hi : i ≤ n.size)
    (hj : c.position + j = p.position + i) (hvisit : Visits s k w j v) :
    ∃ u, u.pointer = p.pointer ∧ Visits s n u i v ∧
      (flag = none → Ready true c w.cells → Owned around → Ready true p u.cells) ∧
      ∀ {held inner outer own b}, Kept held inner outer own b flat c w.cells →
        Ready true p u.cells := by
  generalize hmark : Landmark.statement node p q around = mark at h
  induction h generalizing bound k w j with
  | statement =>
      cases hmark
      obtain rfl := hk.unique hn
      obtain rfl : j = i := by omega
      exact ⟨w, hw, hvisit, fun _ hready _ => hready, fun hkept => hkept.ready⟩
  | endConditional => cases hmark
  | endLoop => cases hmark
  | @conditional _ _ line test flat a c c₁ c₂ d hopen hbody hclose ih =>
      rw [Gathers.verbatims.conditional] at hcodes
      obtain ⟨hsound, hpoint⟩ := opened_sound hc hopen
      obtain ⟨e, l, m, rfl, hbracketed⟩ := hbody.lowered.bracketed hc hu hopen hcodes
      subst hmark
      obtain ⟨-, -, -, -, hbefore, hafter⟩ := hbody.place hsound (hpoint.trans hu) hcodes
      obtain ⟨i', hi', hle⟩ := hbracketed.body.offset hn hbefore hafter hi
      obtain ⟨u₁, hrun, hpointer, hvisit⟩ := hbracketed.of_conditional hclose hk hw
        (hj.trans hi'.symm) hle hvisit
      obtain ⟨u, hu', hvisits, hready, hkept⟩ := ih hsound (hpoint.trans hu) hcodes
        hbracketed.body hpointer hi' hvisit rfl
      refine ⟨u, hu', hvisits,
        fun hflag hready' => hready hflag (hbracketed.ready hw hrun hready'), fun hkept' => ?_⟩
      obtain ⟨own₁, hfirst⟩ := Node.own?_of_singleton hkept'.owned
      obtain ⟨left, hleft⟩ := Node.own?_conditional hfirst
      exact hkept (hkept'.opened hbracketed hopen hbody.lowered hcodes hleft hw hrun)
  | @loop flag _ line test body flat bodies a c c₁ c₂ d hopen hexpands hbody hclose ih =>
      rw [Gathers.verbatims.loop] at hcodes
      obtain ⟨hsound, hpoint⟩ := opened_sound hc hopen
      have hfunctions := functions_openLoop hc hopen
      obtain ⟨e, l, m, rfl, hbracketed⟩ := hbody.lowered.bracketed hc hu hopen hcodes
      subst hmark
      obtain ⟨-, -, -, -, hbefore, hafter⟩ := hbody.place hsound (hpoint.trans hu) hcodes
      obtain ⟨i', hi', hle⟩ := hbracketed.body.offset hn hbefore hafter hi
      have hleft {held inner outer own b}
          (hkept : Kept held inner outer own b [.loop line test flat] c w.cells) :
          Node.ownIn? true (outer ++ own) [] flat = some [] := by
        obtain ⟨_, hfirst⟩ := Node.own?_of_singleton hkept.owned
        exact Node.own?_loop hfirst
      -- Carried from round to round: what the body starts with, for a loop that keeps to its own.
      obtain ⟨u₁, hpointer, hrounds, hvisit⟩ := hbracketed.of_loop hclose hk hw
        (hj.trans hi'.symm) hle
        (P := fun cells => ∀ held inner outer own b,
          Kept held inner outer own b [.loop line test flat] c w.cells →
          Kept (Also a held) true (outer ++ own) [] (e.emit "[") flat (e.emit "[") cells)
        (fun hrun held inner outer own b hkept => hkept.opened hbracketed hopen hbody.lowered
          hcodes (hleft hkept) hw hrun)
        (fun hx hround hrun held inner outer own b hkept => (hround _ _ _ _ _ hkept).again
          hkept.inside hbracketed hopen hbody.lowered hcodes (hleft hkept) hx hrun)
        hvisit
      obtain ⟨u, hu', hvisits, -, hkept⟩ := ih hsound (hpoint.trans hu) hcodes hbracketed.body
        hpointer hi' hvisit rfl
      refine ⟨u, hu', hvisits, fun hflag hready howns => ?_, fun hkept' =>
        hkept (hrounds _ _ _ _ _ hkept')⟩
      have hnode : Expands c.functions.bodies [.loop line test body] [.loop line test flat]
          bodies := .loop (hfunctions ▸ hexpands) .nil
      have howned := howns c (.loop line test body)
        (hbody.around_eq (by rw [hflag, Option.none_or]))
      exact hkept (hrounds _ _ _ _ _ (.start hc hu hready howned hnode))
  | @before _ _ flat flat' c d e hfirst hrest ih =>
      rw [Gathers.verbatims.append, List.forall_mem_append] at hcodes
      obtain ⟨hkeeps, hnone⟩ := hfirst.lowered.keeps hc hu
      obtain ⟨l, hl⟩ := hfirst.lowered.emits hc hu hcodes.1
      obtain ⟨m, hm⟩ := hrest.emits hkeeps.sound hnone hcodes.2
      subst hmark
      obtain ⟨-, -, -, -, hbefore, hafter⟩ := hfirst.place hc hu hcodes.1
      obtain ⟨j', hj', hle⟩ := hl.offset hn hbefore hafter hi
      obtain rfl : j = j' := by omega
      obtain rfl := hk.split hl hm
      obtain ⟨u, hu', hvisits, hready, hkept⟩ := ih hc hu hcodes.1 hl hw hj
        (hvisit.append_left hle) rfl
      exact ⟨u, hu', hvisits, hready, fun hkept' => hkept hkept'.first⟩
  | @after _ _ flat flat' c d e hfirst hrest ih =>
      rw [Gathers.verbatims.append, List.forall_mem_append] at hcodes
      obtain ⟨hkeeps, hnone⟩ := hfirst.keeps hc hu
      obtain ⟨l, hl⟩ := hfirst.emits hc hu hcodes.1
      obtain ⟨m, hm⟩ := hrest.lowered.emits hkeeps.sound hnone hcodes.2
      subst hmark
      obtain ⟨-, -, -, -, hbefore, -⟩ := hrest.place hkeeps.sound hnone hcodes.2
      have hle := hbefore.position_le
      obtain rfl := hk.split hl hm
      have hposition := hl.position
      obtain ⟨i', hi'⟩ : ∃ i', j = l.size + i' := ⟨j - l.size, by omega⟩
      rw [hi'] at hvisit
      obtain ⟨u₁, hrun, hvisit⟩ := hvisit.append_right
      obtain ⟨u, hu', hvisits, hready, hkept⟩ := ih hkeeps.sound hnone hcodes.2 hm
        (hrun.pointer_eq hl.leads hw) (by omega) hvisit rfl
      refine ⟨u, hu', hvisits, fun hflag hready' => hready hflag
        (hfirst.ready hc hu hl hw hrun hready'), fun hkept' => ?_⟩
      obtain ⟨own', hkept'⟩ := hkept'.rest hfirst hcodes.1 hl hw hrun
      exact hkept hkept'

end Passes

end TapeCompiler
