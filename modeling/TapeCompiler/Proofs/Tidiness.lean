import TapeCompiler.Proofs.Lockstep

namespace TapeCompiler

open Compile Compilation

variable {options : CompileOptions} {s : Setting}

def Cleans (c d : Compilation) : Prop :=
  ∀ ⦃bound : Int⦄ ⦃k : Code⦄, Emits bound c d k → ∀ ⦃s : Setting⦄ ⦃held : Int → Prop⦄
    ⦃w v : World s.bits⦄, (∀ x, held x → x < c.layout.highWater) → w.pointer = c.pointer →
    Tidy held c w.cells → Runs s k w (.done v) → Tidy held d v.cells

theorem plain_cleans {call : String → Compile Unit} {node : Node} {c d : Compilation}
    (hplain : node.isPlain = true) (h : Sound c) (hu : c.unsafePointer = none)
    (hcodes : ∀ code ∈ node.verbatims, code = "&") (hd : form options call node c = .ok () d) :
    Cleans c d := by
  intro bound k hk s held w v hheld hw htidy hrun
  by_cases hblocks : node.blocks = []
  · exact plain_tidies hplain h hu hblocks hd hk hw htidy hrun
  · cases node
    case unsafeBlock line size body =>
      obtain ⟨-, k', hk', hserves⟩ := unsafeBlock_serves h hcodes hd
      obtain rfl := hk.unique hk'
      obtain ⟨w', γ, heq, -, -, htidy', -⟩ := (hserves hheld
        (σ := ⟨view c.bindings w.cells, w.input, w.printed⟩) ⟨hw, rfl, rfl, rfl⟩ htidy).runs hrun
      cases heq
      exact htidy'
    all_goals first | exact absurd rfl hblocks | cases hplain

theorem Lowered.emits {flat : List Node} {c d : Compilation} (h : Lowered options flat c d)
    (hc : Sound c) (hu : c.unsafePointer = none)
    (hcodes : ∀ code ∈ Node.verbatimsIn flat, code = "&") :
    ∃ k, Emits d.layout.highWater c d k := by
  obtain ⟨k, hk, -⟩ := (h.keeps hc hu).1.code fun code hmem => hcodes code hmem ▸ moveless_dump
  exact ⟨k, hk⟩

theorem Compilation.emit_injective {c d : Compilation} {text : String}
    (h : c.emit text = d.emit text) : c = d := by
  obtain ⟨layout, bindings, functions, pointer, code, unsafePointer, unsafeRegion, events⟩ := c
  cases d
  simpa [emit] using h

theorem Compilation.Emits.split {bound bound₁ bound₂ : Int} {c d e : Compilation} {k l m : Code}
    (h : Emits bound c e k) (hl : Emits bound₁ c d l) (hm : Emits bound₂ d e m) : k = l ++ m :=
  h.unique ((hl.mono (Int.le_max_left _ bound₂)).trans (hm.mono (Int.le_max_right bound₁ _)))

structure Bracketed (test : Node) (a : Int) (c e c₂ : Compilation) (k l : Code) : Prop where
  opens : Opens test a c e
  opening : Emits e.layout.highWater c e k
  body : Emits c₂.layout.highWater (e.emit "[") c₂ l
  grows : e.layout.highWater ≤ c₂.layout.highWater
  tracked : 0 ≤ c₂.pointer ∧ c₂.pointer < c₂.layout.highWater

theorem Lowered.bracketed {flat : List Node} {test : Node} {a : Int} {c c₁ c₂ : Compilation}
    (h : Lowered options flat c₁ c₂) (hc : Sound c) (hu : c.unsafePointer = none)
    (hopen : openLoop options test c = .ok a c₁)
    (hcodes : ∀ code ∈ Node.verbatimsIn flat, code = "&") :
    ∃ e k l, c₁ = Compilation.emit e "[" ∧ Bracketed test a c e c₂ k l := by
  obtain ⟨hsound, hpoint⟩ := opened_sound hc hopen
  obtain ⟨hkeeps, -⟩ := h.keeps hsound (hpoint.trans hu)
  obtain ⟨l, hl⟩ := h.emits hsound (hpoint.trans hu) hcodes
  obtain ⟨e, rfl, hopens⟩ := openLoop_opens hc hopen
  obtain ⟨k, hk, -⟩ := hopens.code
  have hbounds := hopens.sound.dense.bounds hopens.live
  have hgrows := hkeeps.grows
  have htracked := hkeeps.sound.tracked
  rw [layout_emit] at hgrows
  exact ⟨e, k, l, rfl, hopens, hk, hl, hgrows, by omega⟩

namespace Bracketed

variable {test : Node} {a bound : Int} {c d e c₂ : Compilation} {k l code : Code}
  {held : Int → Prop} {w u : World s.bits}

theorem cell (h : Bracketed test a c e c₂ k l) : 0 ≤ a ∧ a < c₂.layout.highWater := by
  have hbounds := h.opens.sound.dense.bounds h.opens.live
  have hgrows := h.grows
  omega

theorem conditional (h : Bracketed test a c e c₂ k l) (hclose : closeConditional a c₂ = .ok () d)
    (hcode : Emits bound c d code) : ∃ m, code = k ++ .loop (l ++ m) .done ∧
      ∀ {s : Setting} (w : World s.bits), w.pointer = c₂.pointer →
        Runs s m w (.done { w with cells := Function.update w.cells a 0, pointer := a }) := by
  rw [closeConditional, modify_ok] at hclose
  subst hclose
  obtain ⟨m, hm, hclear⟩ := turns_clear h.tracked h.cell
  exact ⟨m, hcode.split h.opening
    (emits_freeCondition ((h.body.trans hm).loop h.opens.pointer.symm) a), fun w => hclear _ w⟩

theorem loop (h : Bracketed test a c e c₂ k l) (hclose : closeLoop a c₂ = .ok () d)
    (hcode : Emits bound c d code) : ∃ m, code = k ++ .loop (l ++ m) .done ∧
      ∀ {s : Setting} (w : World s.bits), w.pointer = c₂.pointer →
        Runs s m w (.done { w with pointer := a }) := by
  rw [closeLoop, modify_ok] at hclose
  subst hclose
  obtain ⟨m, hm, hmove⟩ := turns_moveTo h.tracked h.cell
  exact ⟨m, hcode.split h.opening
    (emits_freeCondition ((h.body.trans hm).loop h.opens.pointer.symm) a), fun w => hmove _ w⟩

theorem entered (h : Bracketed test a c e c₂ k l) (hw : w.pointer = c.pointer)
    (htidy : Tidy held c w.cells) (hrun : Runs s k w (.done u)) :
    u.pointer = e.pointer ∧ Tidy (Also a held) e u.cells := by
  obtain ⟨k', hk', hruns⟩ := h.opens.code
  obtain rfl := h.opening.unique hk'
  obtain ⟨cells, hcells, -, -, htidy'⟩ := hruns hw htidy
  cases hrun.deterministic hcells
  exact ⟨h.opens.pointer.symm, htidy'⟩

theorem held_lt (h : Bracketed test a c e c₂ k l) (hheld : ∀ x, held x → x < c.layout.highWater)
    (x : Int) (hx : Also a held x) : x < e.layout.highWater := by
  have hbounds := h.opens.sound.dense.bounds h.opens.live
  have hgrows := h.opens.ext.grows
  rcases hx with rfl | hx
  · exact hbounds.2
  · exact (hheld x hx).trans_le hgrows

end Bracketed

theorem Runs.round {l m : Code} {bound p q : Int} {u v : World s.bits}
    {f : World s.bits → World s.bits} (hl : l.Leads bound p q) (hu : u.pointer = p)
    (hm : ∀ w : World s.bits, w.pointer = q → Runs s m w (.done (f w)))
    (h : Runs s (l ++ m) u (.done v)) : ∃ x, Runs s l u (.done x) ∧ v = f x := by
  rcases Runs.append_iff.1 h with ⟨x, hx, hrest⟩ | ⟨g, x, heq, -⟩
  · cases hrest.deterministic (hm x (hx.pointer_eq hl hu))
    exact ⟨x, hx, rfl⟩
  · cases heq

namespace Cleans

variable {c d e : Compilation}

theorem of_noted (h : Noted c d) (hd : Cleans d e) : Cleans c e := by
  intro bound k hk s held w v hheld hw htidy hrun
  refine hd (h.symm.emits hk) (by rwa [h.layout]) (hw.trans h.pointer.symm)
    (htidy.congr fun x hx => ?_) hrun
  rwa [Idle, h.layout] at hx

theorem trans (h : Cleans c d) (h' : Cleans d e) (hgrows : c.layout.highWater ≤ d.layout.highWater)
    {bound bound' : Int} {l m : Code} (hl : Emits bound c d l) (hm : Emits bound' d e m) :
    Cleans c e := by
  intro bound k hk s held w v hheld hw htidy hrun
  obtain rfl := hk.split hl hm
  rcases Runs.append_iff.1 hrun with ⟨u, hu, hrest⟩ | ⟨f, u, heq, -⟩
  · exact h' hm (fun x hx => (hheld x hx).trans_le hgrows) (hu.pointer_eq hl.leads hw)
      (h hl hheld hw htidy hu) hrest
  · cases heq

variable {looped : Bool} {outer left : List String} {test : Node} {a : Int} {c₂ : Compilation}
  {k l : Code}

theorem conditional (hbody : Cleans (e.emit "[") c₂) (h : Bracketed test a c e c₂ k l)
    (henclosed : Enclosed (fun _ => False) looped outer left test a c e c₂)
    (hclose : closeConditional a c₂ = .ok () d) : Cleans c d := by
  intro bound code hcode s held w v hheld hw htidy hrun
  obtain ⟨m, rfl, hclear⟩ := h.conditional hclose hcode
  rw [closeConditional, modify_ok] at hclose
  subst hclose
  obtain ⟨-, -, hidle⟩ := henclosed.closed ((Same.clear c₂ a).trans (.emit _ "]"))
  rcases Runs.append_iff.1 hrun with ⟨u, hu, hloop⟩ | ⟨f, u, heq, -⟩
  · obtain ⟨hpointer, htidy'⟩ := h.entered hw htidy hu
    -- The body runs at most once: it leaves the cell of the condition at zero.
    obtain ⟨hv, hzero⟩ := hloop.loop_invariant (P := fun v => v = u ∨ v.read = 0 ∧
      Tidy held (((c₂.clear a).emit "]").freeCondition a) v.cells) (.inl rfl)
      fun {x y} hx h0 hround => by
        obtain rfl := hx.resolve_right fun hx => h0 hx.1
        obtain ⟨z, hz, rfl⟩ := hround.round h.body.leads hpointer hclear
        exact .inr ⟨Function.update_self .., Enclosed.tidy_close
          (hbody h.body (h.held_lt hheld) hpointer htidy' hz) hidle⟩
    rcases hv with rfl | hv
    · rw [World.read, hpointer, h.opens.pointer] at hzero
      exact henclosed.tidy_skip htidy' hzero hidle
    · exact hv.2
  · cases heq

theorem loop (hbody : Cleans (e.emit "[") c₂) (h : Bracketed test a c e c₂ k l)
    (henclosed : Enclosed (fun _ => False) true outer [] test a c e c₂)
    (hclose : closeLoop a c₂ = .ok () d) : Cleans c d := by
  intro bound code hcode s held w v hheld hw htidy hrun
  obtain ⟨m, rfl, hmove⟩ := h.loop hclose hcode
  rw [closeLoop, modify_ok] at hclose
  subst hclose
  obtain ⟨-, -, hidle⟩ := henclosed.closed ((Same.moveTo c₂ a).trans (.emit _ "]"))
  rcases Runs.append_iff.1 hrun with ⟨u, hu, hloop⟩ | ⟨f, u, heq, -⟩
  · obtain ⟨⟨hpointer, htidy'⟩, hzero⟩ := hloop.loop_invariant
      (P := fun v => v.pointer = e.pointer ∧ Tidy (Also a held) e v.cells)
      (h.entered hw htidy hu) fun {x y} hx _ hround => by
        obtain ⟨z, hz, rfl⟩ := hround.round h.body.leads hx.1 hmove
        exact ⟨h.opens.pointer.symm, (hbody h.body (h.held_lt hheld) hx.1 hx.2 hz).congr
          henclosed.idle_again⟩
    rw [World.read, hpointer, h.opens.pointer] at hzero
    exact henclosed.tidy_skip htidy' hzero hidle
  · cases heq

end Cleans

theorem Node.ownIn?_append (looped : Bool) (outer own : List String) (flat flat' : List Node) :
    Node.ownIn? looped outer own (flat ++ flat') =
      (Node.ownIn? looped outer own flat).bind fun own => Node.ownIn? looped outer own flat' := by
  induction flat generalizing own with
  | nil => rfl
  | cons node rest ih =>
      rw [List.cons_append, Node.ownIn?, Node.ownIn?]
      cases node.own? looped outer own with
      | none => rfl
      | some own₁ => exact ih own₁

theorem Node.own?_conditional {looped : Bool} {outer own own' : List String} {line : Int}
    {test : Node} {body : List Node}
    (h : (Node.conditional line test body).own? looped outer own = some own') :
    ∃ left, Node.ownIn? looped (outer ++ own) [] body = some left := by
  obtain ⟨left, hleft, -⟩ := Option.bind_eq_some_iff.1 h
  exact ⟨left, hleft⟩

theorem Node.own?_loop {looped : Bool} {outer own own' : List String} {line : Int} {test : Node}
    {body : List Node} (h : (Node.loop line test body).own? looped outer own = some own') :
    Node.ownIn? true (outer ++ own) [] body = some [] := by
  obtain ⟨left, hleft, hnothing⟩ := Option.bind_eq_some_iff.1 h
  obtain rfl : left = [] := by
    by_contra hne
    rw [if_pos hne] at hnothing
    cases hnothing
  exact hleft

theorem Inside.unheld {held : Int → Prop} {looped : Bool} {outer own : List String}
    {b c : Compilation} (h : Inside held looped outer own b c) :
    Inside (fun _ => False) looped outer own b c :=
  ⟨h.sound, h.outside, h.within, fun _ hx => hx.elim⟩

theorem Cleans.cons {node : Node} {rest : List Node} {looped : Bool} {outer own own' : List String}
    {b c d e : Compilation} (h : Cleans c d) (hnode : Lowered options [node] c d)
    (hrest : Lowered options rest d e) (hc : Inside (fun _ => False) looped outer own b c)
    (hcodes : ∀ code ∈ Node.verbatimsIn (node :: rest), code = "&")
    (hown : Node.ownIn? looped outer own (node :: rest) = some own')
    (ih : ∀ {looped outer own own' b}, Inside (fun _ => False) looped outer own b d →
      (∀ code ∈ Node.verbatimsIn rest, code = "&") →
      Node.ownIn? looped outer own rest = some own' → Cleans d e) : Cleans c e := by
  rw [Gathers.verbatims.cons, List.forall_mem_append] at hcodes
  obtain ⟨own₁, hfirst, hown⟩ := Option.bind_eq_some_iff.1 hown
  have hnext := hc.next hnode hcodes.1 hfirst
  obtain ⟨l, hl⟩ := hnode.emits hc.sound hc.outside hcodes.1
  obtain ⟨m, hm⟩ := hrest.emits hnext.sound hnext.outside hcodes.2
  exact h.trans (ih hnext hcodes.2 hown) (hnode.keeps hc.sound hc.outside).1.grows hl hm

theorem Lowered.cleans {flat : List Node} {looped : Bool} {outer own own' : List String}
    {b c d : Compilation} (h : Lowered options flat c d)
    (hc : Inside (fun _ => False) looped outer own b c)
    (hcodes : ∀ code ∈ Node.verbatimsIn flat, code = "&")
    (hown : Node.ownIn? looped outer own flat = some own') : Cleans c d := by
  induction h generalizing looped outer own own' b with
  | nil =>
      intro bound k hk s held w v _ _ htidy hrun
      obtain rfl := hk.unique (.same rfl rfl : Emits bound _ _ .done)
      cases hrun
      exact htidy
  | noted hn _ ih => exact .of_noted hn (ih (hc.noted hn) hcodes hown)
  | plain hplain hform hrest ih =>
      have hinner := List.forall_mem_append.1 (Gathers.verbatims.cons _ _ ▸ hcodes)
      exact (plain_cleans hplain hc.sound hc.outside (by simpa [Node.verbatimsIn] using hinner.1)
        hform).cons (.plain hplain hform .nil) hrest hc hcodes hown ih
  | @conditional line test body rest a c c₁ c₂ c₃ d hopen hbody hclose hrest ihbody ih =>
      have hinner : ∀ code ∈ Node.verbatimsIn body, code = "&" := by
        rw [Gathers.verbatims.cons, Gathers.verbatims.conditional, List.forall_mem_append] at hcodes
        exact hcodes.1
      obtain ⟨own₁, hfirst, -⟩ := Option.bind_eq_some_iff.1 hown
      obtain ⟨left, hleft⟩ := Node.own?_conditional hfirst
      obtain ⟨e, rfl, henclosed, hin⟩ := hc.enclosed hopen hbody hinner hleft
      obtain ⟨e', k, k', heq, hbracketed⟩ := hbody.bracketed hc.sound hc.outside hopen hinner
      obtain rfl := emit_injective heq
      exact ((ihbody hin.unheld hinner hleft).conditional hbracketed henclosed hclose).cons
        (.conditional hopen hbody hclose .nil) hrest hc hcodes hown ih
  | @loop line test body rest a c c₁ c₂ c₃ d hopen hbody hclose hrest ihbody ih =>
      have hinner : ∀ code ∈ Node.verbatimsIn body, code = "&" := by
        rw [Gathers.verbatims.cons, Gathers.verbatims.loop, List.forall_mem_append] at hcodes
        exact hcodes.1
      obtain ⟨own₁, hfirst, -⟩ := Option.bind_eq_some_iff.1 hown
      have hleft := Node.own?_loop hfirst
      obtain ⟨e, rfl, henclosed, hin⟩ := hc.enclosed hopen hbody hinner hleft
      obtain ⟨e', k, k', heq, hbracketed⟩ := hbody.bracketed hc.sound hc.outside hopen hinner
      obtain rfl := emit_injective heq
      exact ((ihbody hin.unheld hinner hleft).loop hbracketed henclosed hclose).cons
        (.loop hopen hbody hclose .nil) hrest hc hcodes hown ih

end TapeCompiler
