import TapeCompiler.Proofs.Agreement
import TapeCompiler.Proofs.Lowering

namespace TapeCompiler

open Compile Compilation

structure Matches {s : Setting} (c : Compilation) (w : World s.bits) (σ : State s.bits) : Prop where
  pointer : w.pointer = c.pointer
  env : view c.bindings w.cells = σ.env
  input : w.input = σ.input
  printed : w.printed = σ.printed

def Ready {bits : Nat} (top : Bool) (c : Compilation) (cells : Int → BitVec bits) : Prop :=
  top = true → ∀ x, c.layout.highWater ≤ x → cells x = 0

structure Simulates (top : Bool) (flat : List Node) (c d : Compilation) : Prop where
  codes : ∀ code ∈ Node.verbatimsIn flat, code = "&"
  bindings : top = false → d.bindings = c.bindings
  code : ∃ k, Emits d.layout.highWater c d k ∧ ∀ {s : Setting} {w : World s.bits} {σ : State s.bits},
    Ready top c w.cells → Matches c w σ → Agree k flat w σ (Matches d)

variable {options : CompileOptions} {c d : Compilation} {top : Bool}

theorem Simulates.of_silent
    {P : ∀ bits : Nat, (Int → BitVec bits) → (Int → BitVec bits) → Prop} {node : Node}
    (h : Silent c d P) (hnode : node.isCompound = false)
    (hcodes : ∀ code ∈ node.verbatims, code = "&")
    (hbindings : top = false → d.bindings = c.bindings)
    (hperform : ∀ {s : Setting} {w : World s.bits} {σ : State s.bits} {cells : Int → BitVec s.bits},
      Ready top c w.cells → Matches c w σ → P s.bits w.cells cells →
      σ.perform s node = .done { σ with env := view d.bindings cells }) :
    Simulates top [node] c d := by
  obtain ⟨k, hk, hrun⟩ := h
  refine ⟨by simpa [Node.verbatimsIn] using hcodes, hbindings, k, hk, ?_⟩
  intro s w σ hready hmatch
  obtain ⟨cells, hcells, hP⟩ := hrun s w hmatch.pointer
  exact .of_runs hcells (.simple hnode (hperform hready hmatch hP) .nil)
    ⟨rfl, rfl, hmatch.input, hmatch.printed⟩

theorem view_apply_congr {bits : Nat} {bindings bindings' : Table Binding}
    {x y : Int → BitVec bits} {name : String} (hfind : bindings'.find? name = bindings.find? name)
    (hxy : ∀ b, bindings.find? name = some b → ∀ i : Nat, i < b.length →
      y (b.base + i) = x (b.base + i)) : view bindings' y name = view bindings x name := by
  cases hb : bindings.find? name with
  | none => simp [view, hfind, hb]
  | some b =>
      rw [view_eq_some (hfind.trans hb), view_eq_some hb]
      congr 2
      refine List.map_congr_left fun v hv => ?_
      obtain ⟨i, hi, rfl⟩ := List.mem_map.1 hv
      exact hxy b hb i (List.mem_range.1 hi)

theorem view_declare {bits : Nat} {name : String} {type : CellType} {base : Int} {n m : Nat}
    (h : Sound c) (hd : Declares c d name type base n) (hle : m ≤ n)
    (hm : m = n ∨ c.layout.highWater = base + m) {cells : Int → BitVec bits}
    (hblank : ∀ x, c.layout.highWater ≤ x → cells x = 0) :
    view d.bindings (zeroed base m cells) =
      (view c.bindings cells).bind name (.zeros type n) := by
  funext other
  rw [hd.bindings, Env.bind]
  by_cases hname : other = name
  · subst hname
    have hfind : (c.bindings.insert other ⟨base, n, type⟩).find? other = some ⟨base, n, type⟩ := by
      rw [Table.find?_insert, if_pos rfl]
    rw [view_eq_some hfind, Function.update_self, Variable.zeros]
    congr 2
    refine List.eq_replicate_iff.2 ⟨by simp [addresses], fun v hv => ?_⟩
    obtain ⟨x, hx, rfl⟩ := List.mem_map.1 hv
    obtain ⟨i, hi, rfl⟩ := List.mem_map.1 hx
    have hi := List.mem_range.1 hi
    rw [zeroed]
    split
    · rfl
    · rename_i houtside
      dsimp only at hi houtside ⊢
      exact hblank _ (by omega)
  · rw [Function.update_of_ne hname]
    refine view_apply_congr (by rw [Table.find?_insert, if_neg (Ne.symm hname)]) fun b hb i hi => ?_
    refine zeroed_outside ?_
    by_contra hinside
    have hfree := hd.free (b.base + (i : Int) - base).toNat (by omega)
    rw [show base + ((b.base + (i : Int) - base).toNat : Int) = b.base + (i : Int) by omega,
      h.bound hb i hi] at hfree
    cases hfree

theorem view_remove {bits : Nat} {name : String} {b : Binding} (h : Sound c)
    (hb : c.bindings.find? name = some b) (hd : Removes c d name b) (cells : Int → BitVec bits) :
    view d.bindings (zeroed b.base b.length cells) = (view c.bindings cells).unbind name := by
  funext other
  rw [hd.bindings, Env.unbind]
  by_cases hname : other = name
  · subst hname
    rw [Function.update_self]
    simp [view, Table.find?_erase]
  · rw [Function.update_of_ne hname]
    refine view_apply_congr (by rw [Table.find?_erase, if_neg (Ne.symm hname)]) fun b' hb' i hi => ?_
    refine zeroed_outside ?_
    by_contra hinside
    have hnamed := h.bound hb (b'.base + (i : Int) - b.base).toNat (by omega)
    rw [show b.base + ((b'.base + (i : Int) - b.base).toNat : Int) = b'.base + (i : Int) by omega,
      h.bound hb' i hi, Occupancy.named.injEq] at hnamed
    exact hname hnamed.1

theorem declare_simulates {line : Int} {name : String} {type : CellType} {length : Option Int}
    (h : Sound c) (hd : declare name type length c = .ok () d) :
    Simulates true [.declare line name type length] c d := by
  obtain ⟨base, hdeclares⟩ := declare_declares h hd
  obtain ⟨m, hle, hm, hturns⟩ := hdeclares.turns
  refine .of_silent (.of_turns hturns (P := fun _ x y => y = zeroed base m x) fun _ => rfl) rfl
    (by simp [Node.verbatims]) (fun htop => by cases htop) ?_
  rintro s w σ cells hready hmatch rfl
  rw [State.perform, State.withEnv, view_declare h hdeclares hle hm (hready rfl), hmatch.env]

theorem remove_simulates {line : Int} {name : String} (h : Sound c)
    (hd : remove name c = .ok () d) : Simulates true [.remove line name] c d := by
  obtain ⟨b, hb, hremoves⟩ := remove_removes h hd
  refine .of_silent (.of_turns hremoves.turns (P := fun _ x y => y = zeroed b.base b.length x)
    fun _ => rfl) rfl (by simp [Node.verbatims]) (fun htop => by cases htop) ?_
  rintro s w σ cells - hmatch rfl
  rw [State.perform, ← hmatch.env, view_eq_some hb, view_remove h hb hremoves]
  rfl

theorem assign_simulates {line : Int} {name : String} {index : Option Node} {value : Node}
    (h : Sound c) (hd : assign options name index value c = .ok () d) :
    Simulates top [.assign line name index value] c d := by
  obtain ⟨f, hdoes, hmeans, -⟩ := assign_does h hd
  refine .of_silent hdoes.runs rfl (by simp [Node.verbatims]) (fun _ => hdoes.ext.bindings) ?_
  intro s w σ cells _ hmatch hcells
  rw [State.perform, ← hmatch.env, hmeans, hdoes.ext.bindings,
    view_congr h.toCoherent fun v hv => (hcells.1 v hv).symm]
  rfl

theorem release_turns (h : Sound c) {a : Int} (ha : c.layout.status a ≠ .free) :
    (c.release a).layout.highWater = c.layout.highWater ∧
      Turns c.layout.highWater c (c.release a) fun _ cells =>
        if c.layout.isTemp a then Function.update cells a 0 else cells := by
  have hbounds := h.dense.bounds ha
  unfold Compilation.release
  split
  · rename_i htemp
    have hclear := turns_clear (h.tracked_of_live ha) hbounds
    have hfree : Turns c.layout.highWater (c.clear a) ((c.clear a).free a) fun _ cells => cells :=
      .same rfl rfl
    refine ⟨?_, (hclear.trans hfree).congr fun _ _ => rfl⟩
    simp only [Compilation.free, Layout.free, layout_clear, Layout.highWater_set _ hbounds.1]
    omega
  · exact ⟨rfl, .same rfl rfl⟩

theorem exists_put (textual : Bool) : ∃ action : Action,
    Instruction.ofText (if textual then "~" else ".") = [action.instruction] ∧ action.shift = 0 ∧
    ∀ {s : Setting} (w : World s.bits) (σ : State s.bits),
      (∃ piece, action.perform s w = .done (w.print piece) ∧
        σ.print w.read textual = .done { σ with printed := σ.printed ++ [piece] }) ∨
      ∃ f, action.perform s w = .failed f w ∧ σ.print w.read textual = .failed f σ := by
  cases textual with
  | false => exact ⟨.put, rfl, rfl, fun w σ => .inl ⟨_, rfl, rfl⟩⟩
  | true =>
      refine ⟨.putChar, rfl, rfl, fun {s} w σ => ?_⟩
      simp only [Action.perform, State.print, if_true]
      split
      · exact .inr ⟨_, rfl, rfl⟩
      · exact .inl ⟨_, rfl, rfl⟩

theorem display_runs {value : Node} (h : Sound c) (hd : display options value c = .ok () d) :
    ∃ (k l : Code) (action : Action) (a : Int) (v : ∀ bits : Nat, (Int → BitVec bits) → BitVec bits)
      (textual : Bool), Emits d.layout.highWater c d (k ++ .act action l) ∧ Means c value v ∧
      (∀ {bits : Nat} (cells : Int → BitVec bits),
        (view c.bindings cells).textual value = some textual) ∧
      (∀ {s : Setting} (w : World s.bits) (σ : State s.bits),
        (∃ piece, action.perform s w = .done (w.print piece) ∧
          σ.print w.read textual = .done { σ with printed := σ.printed ++ [piece] }) ∨
        ∃ f, action.perform s w = .failed f w ∧ σ.print w.read textual = .failed f σ) ∧
      ∀ (s : Setting) (w : World s.bits), w.pointer = c.pointer → ∃ cells cells',
        Runs s k w (.done { w with cells, pointer := a }) ∧ cells a = v s.bits w.cells ∧
        (∀ printed, Runs s l { w with cells, pointer := a, printed }
          (.done { w with cells := cells', pointer := d.pointer, printed })) ∧
        (∀ x, c.layout.status x ≠ .free → cells' x = w.cells x) ∧
        ∀ x, c.layout.status x = .free → cells' x = w.cells x ∨ cells' x = 0 := by
  obtain ⟨a, c₁, textual, ha, htextual, rfl⟩ := display_ok hd
  obtain ⟨action, htext, hshift, hput⟩ := exists_put textual
  obtain ⟨v, hyields, hmeans, -⟩ := evaluate_yields h ha
  have hlive := hyields.live
  have hbounds := hyields.step.sound.dense.bounds hlive
  have hmove := hyields.step.turn (Same.moveTo c₁ a) hlive
    (turns_moveTo (hyields.step.sound.tracked_of_live hlive) hbounds) id
  obtain ⟨k, hk, hrun⟩ := hmove.runs
  obtain ⟨c₂, hc₂⟩ : ∃ c₂, c₂ = (c₁.moveTo a).emit (if textual then "~" else ".") := ⟨_, rfl⟩
  have hlayout : c₂.layout = c₁.layout := by rw [hc₂, layout_emit, layout_moveTo]
  have hact : Emits c₁.layout.highWater (c₁.moveTo a) c₂ (.act action .done) := by
    rw [hc₂]
    exact .act htext hshift hbounds
  have hsound : Sound c₂ := by
    rw [hc₂]
    exact hmove.sound.of_same (.emit _ _) hmove.sound.tracked
  obtain ⟨hwater, l, hl, hrelease⟩ := release_turns hsound (a := a) (by rw [hlayout]; exact hlive)
  rw [layout_moveTo] at hk
  rw [← hc₂]
  refine ⟨k, l, action, a, v, textual, ?_, hmeans, ?_, hput, fun s w hw => ?_⟩
  · rw [hwater, hlayout]
    rw [hlayout] at hl
    exact hk.trans (hact.trans hl)
  · intro bits cells
    rw [← htextual cells, hyields.step.ext.bindings]
  obtain ⟨cells, hcells, hkeep, htidy, hvalue⟩ := hrun s w hw
  refine ⟨cells, if c₂.layout.isTemp a then Function.update cells a 0 else cells, hcells, hvalue,
    fun printed => hrelease s { w with cells, pointer := a, printed } (by rw [hc₂]; rfl),
    fun x hx => ?_, fun x hx => ?_⟩
  · split
    · rename_i htemp
      have hfree : c.layout.status a = .free := by
        rw [hlayout] at htemp
        exact (hyields.fresh (Layout.isTemp_iff.1 htemp)).free
      rw [Function.update_of_ne (by rintro rfl; exact hx hfree), hkeep x hx]
    · exact hkeep x hx
  · by_cases hxa : x = a
    · subst hxa
      rcases hyields.place with ⟨-, htemp⟩ | ⟨name, i, type, hnamed⟩
      · simp [Layout.isTemp, hlayout, htemp]
      · cases hx.symm.trans hnamed
    · split
      · rw [Function.update_of_ne hxa]
        exact htidy x hxa
      · exact htidy x hxa

theorem display_simulates {line : Int} {value : Node} (h : Sound c)
    (hd : display options value c = .ok () d) : Simulates top [.display line value] c d := by
  have hext := display_extends h hd
  obtain ⟨k, l, action, a, v, textual, hk, hmeans, htextual, hput, hrun⟩ := display_runs h hd
  refine ⟨by simp [Node.verbatimsIn, Node.verbatims], fun _ => hext.bindings, _, hk, ?_⟩
  intro s w σ _ hmatch
  obtain ⟨cells, cells', hcells, hvalue, hrelease, hkeep, -⟩ := hrun s w hmatch.pointer
  have hpv : σ.env.value value = some (cells a) := by
    rw [← hmatch.env, hmeans s.bits w.cells, hvalue]
  have hpt : σ.env.textual value = some textual := by
    rw [← hmatch.env, htextual w.cells]
  have hperform : σ.perform s (.display line value) = σ.print (cells a) textual := by
    rw [State.perform, hpv, hpt]
  refine .before hcells ?_
  rcases hput { w with cells, pointer := a } σ with ⟨piece, hdone, hprint⟩ | ⟨f, hfailed, hprint⟩
  · have hexec : Exec s [.display line value] σ
        (.done { σ with printed := σ.printed ++ [piece] }) :=
      .simple rfl (hperform.trans hprint) .nil
    refine .of_runs (.act hdone (hrelease _)) hexec
      ⟨rfl, ?_, hmatch.input, congrArg (· ++ [piece]) hmatch.printed⟩
    rw [hext.bindings, ← hmatch.env]
    exact view_congr h.toCoherent hkeep
  · exact .of_runs (.act_failed hfailed)
      (.simple_stops rfl (hperform.trans hprint) (Outcome.stops_failed f σ)) ⟨rfl, hmatch.printed⟩

theorem input_simulates {line : Int} {name : String} (h : Sound c)
    (hd : input name c = .ok () d) : Simulates top [.input line name] c d := by
  obtain ⟨b, hb, hlength, rfl⟩ := input_ok hd
  have hnamed := h.bound hb 0 hlength
  rw [Nat.cast_zero, Int.add_zero] at hnamed
  have hlive : c.layout.status b.base ≠ .free := by simp [hnamed]
  have hbounds := h.dense.bounds hlive
  obtain ⟨k, hk, hrun⟩ := turns_moveTo (h.tracked_of_live hlive) hbounds
  have hact : Emits c.layout.highWater (c.moveTo b.base) ((c.moveTo b.base).emit ",")
      (.act .get .done) := .act rfl rfl hbounds
  have hrange : (0 : Int) ≤ 0 ∧ (0 : Int) < b.length := by omega
  refine ⟨by simp [Node.verbatimsIn, Node.verbatims], fun _ => (Same.moveTo c b.base).bindings,
    k ++ .act .get .done, ?_, ?_⟩
  · rw [layout_emit, layout_moveTo]
    exact hk.trans hact
  intro s w σ _ hmatch
  have helement : σ.env.element name 0 = some (w.cells b.base) := by
    rw [← hmatch.env, element_view hb hrange, Int.add_zero]
  obtain ⟨w₁, hw₁⟩ : ∃ w₁ : World s.bits, w₁ = { w with pointer := b.base } := ⟨_, rfl⟩
  have hrun₁ : Runs s k w (.done w₁) := by
    rw [hw₁]
    exact hrun s w hmatch.pointer
  have hinput : w₁.input = σ.input := by
    rw [hw₁]
    exact hmatch.input
  refine .before hrun₁ ?_
  cases hread : (Machine.blank s).readInput σ.input with
  | error f =>
      have hfailed : Action.get.perform s w₁ = .failed f w₁ := by
        simp only [Action.perform, hinput, hread]
      have hexec : σ.perform s (.input line name) = .failed f σ := by
        simp only [State.perform, helement, hread]
      refine .of_runs (.act_failed hfailed) (.simple_stops rfl hexec (Outcome.stops_failed f σ))
        ⟨rfl, ?_⟩
      rw [hw₁]
      exact hmatch.printed
  | ok number =>
      have hdone : Action.get.perform s w₁ = .done
          { w₁.write (BitVec.ofInt s.bits number) with input := w₁.input.tail } := by
        simp only [Action.perform, hinput, hread]
      have hstore : σ.env.store name 0 (BitVec.ofInt s.bits number) =
          some (view c.bindings (Function.update w.cells b.base (BitVec.ofInt s.bits number))) := by
        rw [← hmatch.env, store_view h.toCoherent hb hrange, Int.add_zero]
      have hexec : σ.perform s (.input line name) = .done
          ⟨view c.bindings (Function.update w.cells b.base (BitVec.ofInt s.bits number)),
            σ.input.tail, σ.printed⟩ := by
        simp only [State.perform, helement, hread, hstore, State.withEnv]
      refine .of_runs (.act hdone .done) (.simple rfl hexec .nil) ⟨?_, ?_, ?_, ?_⟩
      · rw [hw₁]
        rfl
      · rw [hw₁]
        exact congrArg (view · _) (Same.moveTo c b.base).bindings
      · exact congrArg List.tail hinput
      · rw [hw₁]
        exact hmatch.printed

theorem Compilation.Sound.protected_of_live (h : Sound c) (hu : c.unsafePointer = none) {x : Int}
    (hx : c.layout.status x ≠ .free) : Protected [] c x := by
  cases hstatus : c.layout.status x with
  | free => exact absurd hstatus hx
  | temp => exact .inl hstatus
  | reserved =>
      obtain ⟨r, hr, -⟩ := (h.reserved x).1 hstatus
      rw [h.outside hu] at hr
      cases hr
  | named name i type => exact .inr ⟨name, i, type, hstatus, List.not_mem_nil⟩

theorem dump_runs {line : Int} (h : Sound c)
    (hd : unsafeBlock options 1 [.verbatim line "&"] c = .ok () d) :
    Silent c d fun _ _ _ => True := by
  obtain ⟨hsize, hnone, e, hbody, rfl⟩ := unsafeBlock_ok hd
  obtain ⟨start, hstart⟩ : ∃ start, c.layout.firstFit 1 = start := ⟨_, rfl⟩
  simp only [operations, operation, bind_ok, unsafePointer_ok, modify_ok, pure_ok] at hbody
  obtain ⟨_, _, ⟨_, _, ⟨-, rfl⟩, rfl⟩, -, rfl⟩ := hbody
  have hsound := enterBlock_sound h hnone hsize
  obtain ⟨htracked, m, -, -, henter⟩ := enterBlock_turns h hsize
  have hopen : (c.enterBlock 1).unsafeRegion = some ⟨start, 1⟩ := by
    rw [← hstart]
    rfl
  have hregion := hsound.region_bounds hsize hopen
  rw [hstart]
  have hmove := turns_moveTo (c := c.enterBlock 1) (t := start) htracked (by omega)
  have hrecord : Turns (c.enterBlock 1).layout.highWater ((c.enterBlock 1).moveTo start)
      (((c.enterBlock 1).moveTo start).emit "&") fun _ cells => cells :=
    ⟨.act .dump .done, .act rfl rfl ⟨hregion.1, by rw [pointer_moveTo]; omega⟩,
      fun s w hw => .act rfl (by rw [pointer_emit, ← hw]; exact .done)⟩
  have hsound : Sound (((c.enterBlock 1).moveTo start).emit "&") :=
    hsound.of_same ((Same.moveTo _ _).trans (.emit _ _))
      (by rw [pointer_emit, pointer_moveTo, layout_emit, layout_moveTo]; omega)
  have hopen' : (((c.enterBlock 1).moveTo start).emit "&").unsafeRegion = some ⟨start, 1⟩ :=
    (Same.moveTo (c.enterBlock 1) start).unsafeRegion.trans hopen
  have hleave := (leaveBlock_turns hsound hsize hopen').2
  have hwater := highWater_leaveBlock hsound hsize hopen'
  rw [layout_emit, layout_moveTo] at hleave hwater
  rw [← hwater] at henter hmove hrecord hleave
  exact .of_turns (((henter.trans hmove).trans hrecord).trans hleave) fun _ => trivial

theorem dump_simulates {line line' : Int} (h : Sound c) (hu : c.unsafePointer = none)
    (hd : unsafeBlock options 1 [.verbatim line' "&"] c = .ok () d) :
    Simulates top [.unsafeBlock line 1 [.verbatim line' "&"]] c d := by
  have hapart : Apart (Protected [] c) c := Protected.apart
  obtain ⟨hkeeps, hscope, -⟩ := unsafeBlock_keeps h hapart hd
  obtain ⟨k, hk, hrun⟩ := dump_runs h hd
  obtain ⟨k', hk', hkeep⟩ :=
    hkeeps.code (by simpa [Node.verbatimsIn, Node.verbatims] using moveless_dump)
  obtain rfl := hk.unique hk'
  refine ⟨by simp [Node.verbatimsIn, Node.verbatims], fun _ => hscope.bindings, k, hk, ?_⟩
  intro s w σ _ hmatch
  obtain ⟨cells, hcells, -⟩ := hrun s w hmatch.pointer
  have hperform : σ.perform s (.unsafeBlock line 1 [.verbatim line' "&"]) = .done σ := rfl
  refine .of_runs hcells (.simple rfl hperform .nil) ⟨rfl, ?_, hmatch.input, hmatch.printed⟩
  rw [hscope.bindings, ← hmatch.env]
  refine view_congr h.toCoherent fun v hv => ?_
  exact hkeep (by simp [Node.verbatimsIn, Node.verbatims]) hmatch.pointer hcells
    (h.protected_of_live hu hv)

theorem plain_simulates {call : String → Compile Unit} {node : Node} (hplain : node.isPlain = true)
    (h : Sound c) (hu : c.unsafePointer = none) (hsteady : node.isSteady top = true)
    (hblocks : ∀ block ∈ node.blocks, block.isDump = true)
    (hd : form options call node c = .ok () d) : Simulates top [node] c d := by
  cases node
  case declare line name type length =>
    obtain rfl : top = true := hsteady
    exact declare_simulates h hd
  case remove line name =>
    obtain rfl : top = true := hsteady
    exact remove_simulates h hd
  case assign line name index value => exact assign_simulates h hd
  case display line value => exact display_simulates h hd
  case input line name => exact input_simulates h hd
  case unsafeBlock line size body =>
    have hdump := hblocks _ (List.mem_singleton.2 rfl)
    unfold Node.isDump at hdump
    split at hdump
    · rename_i heq
      cases heq
      obtain ⟨rfl, rfl⟩ := of_decide_eq_true hdump
      exact dump_simulates h hu hd
    · cases hdump
  all_goals first | exact absurd hd (operation_outside hu) | cases hplain

end TapeCompiler
