import TapeCompiler.Proofs.Expansion
import TapeCompiler.Proofs.Running
import TapeCompiler.Proofs.Simulation

namespace TapeCompiler

open Compile Compilation

variable {options : CompileOptions} {c c₁ c₂ d e : Compilation} {top : Bool} {a : Int}

theorem Simulates.nil (h : Noted c d) : Simulates top [] c d :=
  ⟨by simp [Node.verbatimsIn], fun _ => h.bindings, .done, .same h.code h.pointer,
    fun _ hmatch => .of_runs .done .nil ⟨hmatch.pointer.trans h.pointer.symm,
      by rw [h.bindings]; exact hmatch.env, hmatch.input, hmatch.printed⟩⟩

theorem Ready.of_runs {s : Setting} {k : Code} {w w' : World s.bits} (h : Ready top c w.cells)
    (hk : Emits d.layout.highWater c d k) (hgrows : c.layout.highWater ≤ d.layout.highWater)
    (hw : w.pointer = c.pointer) (hrun : Runs s k w (.done w')) : Ready top d w'.cells := by
  intro htop x hx
  rw [← h htop x (by omega)]
  exact hrun.cells_outside hk.leads hw (.inr hx)

theorem Simulates.cons {node : Node} {rest : List Node} (h : Simulates top [node] c d)
    (h' : Simulates top rest d e) (hgrows : c.layout.highWater ≤ d.layout.highWater)
    (hgrows' : d.layout.highWater ≤ e.layout.highWater) : Simulates top (node :: rest) c e := by
  obtain ⟨k, hk, hagree⟩ := h.code
  obtain ⟨l, hl, hagree'⟩ := h'.code
  refine ⟨?_, fun htop => (h'.bindings htop).trans (h.bindings htop), k ++ l,
    (hk.mono hgrows').trans hl, ?_⟩
  · rw [Gathers.verbatims.cons, List.forall_mem_append]
    exact ⟨h.codes, h'.codes⟩
  · intro s w σ hready hmatch
    refine (hagree hready hmatch).tell.cons fun hnext => ?_
    exact hagree' (hready.of_runs hk hgrows hmatch.pointer hnext.1) hnext.2

theorem opened_yields {test : Node} (h : Sound c) (hopen : openLoop options test c = .ok a c₁) :
    ∃ e value, c₁ = Compilation.emit e "[" ∧ e.pointer = a ∧ Yields c e a value ∧
      Means c test value ∧ (test.place? = none → Fresh c e a value) ∧
      ∀ {name i}, test.place? = some (name, i) →
        ∃ b, c.bindings.find? name = some b ∧ (0 ≤ i ∧ i < b.length) ∧ a = b.base + i := by
  obtain ⟨e, -, hvalue, rfl⟩ := openLoop_ok.1 hopen
  obtain ⟨value, hyields, hmeans, hfresh⟩ := evaluate_yields h hvalue
  have hlive := hyields.live
  have hbounds := hyields.step.sound.dense.bounds hlive
  have hstep := hyields.step.turn (Same.moveTo e a) hlive
    (turns_moveTo (hyields.step.sound.tracked_of_live hlive) hbounds) id
  refine ⟨e.moveTo a, value, rfl, rfl, ⟨hstep, ?_⟩, hmeans, fun hp => ⟨hstep, ?_, ?_⟩,
    fun hp => ?_⟩
  · rw [layout_moveTo]
    exact hyields.place
  · exact (hfresh hp).free
  · rw [layout_moveTo]
    exact (hfresh hp).temp
  · rw [evaluate_place hp, element_ok] at hvalue
    obtain ⟨b, hb, hi, rfl, -⟩ := hvalue
    exact ⟨b, hb, hi, rfl⟩

theorem conditional_simulates {line : Int} {test : Node} {body : List Node} (h : Sound c)
    (hopen : openLoop options test c = .ok a c₁) (hbody : Simulates false body c₁ c₂)
    (hsound : Sound c₂) (hgrows : c₁.layout.highWater ≤ c₂.layout.highWater)
    (hclose : closeConditional a c₂ = .ok () d) :
    Simulates top [.conditional line test body] c d := by
  rw [closeConditional, modify_ok] at hclose
  subst hclose
  obtain ⟨e, value, rfl, rfl, hyields, hmeans, hfresh, hplace⟩ := opened_yields h hopen
  have hbounds := hyields.step.sound.dense.bounds hyields.live
  rw [layout_emit] at hgrows
  have htracked : 0 ≤ c₂.pointer ∧ c₂.pointer < c₂.layout.highWater := by
    have := hsound.tracked
    omega
  have hwater : (((c₂.clear e.pointer).emit "]").freeCondition e.pointer).layout.highWater =
      c₂.layout.highWater := by
    rw [highWater_freeCondition (by rw [layout_emit, layout_clear]; omega), layout_emit,
      layout_clear]
  have hbindings : (((c₂.clear e.pointer).emit "]").freeCondition e.pointer).bindings =
      c.bindings := by
    rw [bindings_freeCondition]
    exact ((Same.clear c₂ e.pointer).bindings.trans (hbody.bindings rfl)).trans
      hyields.step.ext.bindings
  have hbindings₂ : c₂.bindings = c.bindings :=
    (hbody.bindings rfl).trans hyields.step.ext.bindings
  obtain ⟨k, hk, hrun⟩ := hyields.step.runs
  obtain ⟨l, hl, hagree⟩ := hbody.code
  obtain ⟨m, hm, hclear⟩ := turns_clear (c := c₂) (t := e.pointer) htracked (by omega)
  refine ⟨?_, fun _ => hbindings, k ++ .loop (l ++ m) .done, ?_, ?_⟩
  · rw [Gathers.verbatims.conditional]
    exact hbody.codes
  · rw [hwater]
    exact (hk.mono hgrows).trans (emits_freeCondition ((hl.trans hm).loop rfl) _)
  intro s w σ _ hmatch
  obtain ⟨cells, hcells, hkeep, -, hvalue⟩ := hrun s w hmatch.pointer
  have henv : view c.bindings cells = σ.env := by
    rw [← hmatch.env]
    exact view_congr h.toCoherent hkeep
  have hmatch₁ : Matches (e.emit "[") { w with cells, pointer := e.pointer } σ :=
    ⟨rfl, (congrArg (view · cells) hyields.step.ext.bindings).trans henv, hmatch.input,
      hmatch.printed⟩
  refine .before hcells (.conditional (Q := fun w' σ' => ∃ w₂ : World s.bits, Matches c₂ w₂ σ' ∧
    w' = { w₂ with cells := Function.update w₂.cells e.pointer 0, pointer := e.pointer })
    ?_ (fun _ => ?_) (fun _ => ?_) ?_)
  · rw [← hmatch.env, hmeans s.bits w.cells, ← hvalue]
    rfl
  · exact ⟨by rw [pointer_freeCondition]; rfl, by rw [hbindings]; exact henv, hmatch.input,
      hmatch.printed⟩
  · refine (hagree (fun htop => by cases htop) hmatch₁).after fun {w₂ σ'} hmatch₂ => ?_
    exact ⟨_, hclear s w₂ hmatch₂.pointer, w₂, hmatch₂, rfl⟩
  · rintro w' σ' ⟨w₂, hmatch₂, rfl⟩
    have henv₂ : view c.bindings w₂.cells = σ'.env := by
      rw [← hmatch₂.env, hbindings₂]
    refine ⟨Function.update_self .., ?_⟩
    cases hp : test.place? with
    | none =>
        refine ⟨σ', by rw [State.close, hp], by rw [pointer_freeCondition]; rfl, ?_, hmatch₂.input,
          hmatch₂.printed⟩
        rw [hbindings, ← henv₂]
        refine view_congr h.toCoherent fun v hv => Function.update_of_ne ?_ _ _
        rintro rfl
        exact hv (hfresh hp).free
    | some place =>
        obtain ⟨name, i⟩ := place
        obtain ⟨b, hb, hi, ha⟩ := hplace hp
        have hstore := store_view h.toCoherent hb hi w₂.cells 0
        rw [henv₂, ← ha] at hstore
        have hend : σ'.close test = .done
            { σ' with env := view c.bindings (Function.update w₂.cells e.pointer 0) } := by
          rw [State.close, hp]
          simp only [hstore, State.withEnv]
        exact ⟨_, hend, by rw [pointer_freeCondition]; rfl, by rw [hbindings], hmatch₂.input,
          hmatch₂.printed⟩

theorem Env.value_place {bits : Nat} (env : Env bits) {test : Node} {name : String} {i : Int}
    (hp : test.place? = some (name, i)) : env.value test = env.element name i := by
  cases test with
  | var name' index =>
      cases index with
      | none =>
          cases hp
          rfl
      | some index =>
          obtain ⟨number, hnumber, heq⟩ := Option.map_eq_some_iff.1 hp
          cases heq
          simp only [Env.value, hnumber]
  | _ => cases hp

theorem loop_simulates {line : Int} {test : Node} {body : List Node} (h : Sound c)
    (hopen : openLoop options test c = .ok a c₁) (hbody : Simulates false body c₁ c₂)
    (hkeeps : Keeps (Node.verbatimsIn body) (Protected (Node.touchedIn body) c₁) c₁ c₂)
    (hclose : closeLoop a c₂ = .ok () d) : Simulates top [.loop line test body] c d := by
  rw [closeLoop, modify_ok] at hclose
  subst hclose
  obtain ⟨e, value, rfl, rfl, hyields, hmeans, hfresh, hplace⟩ := opened_yields h hopen
  have hbounds := hyields.step.sound.dense.bounds hyields.live
  have hgrows := hkeeps.grows
  rw [layout_emit] at hgrows
  have htracked : 0 ≤ c₂.pointer ∧ c₂.pointer < c₂.layout.highWater := by
    have := hkeeps.sound.tracked
    omega
  have hwater : (((c₂.moveTo e.pointer).emit "]").freeCondition e.pointer).layout.highWater =
      c₂.layout.highWater := by
    rw [highWater_freeCondition (by rw [layout_emit, layout_moveTo]; omega), layout_emit,
      layout_moveTo]
  have hbindings₂ : c₂.bindings = c.bindings :=
    (hbody.bindings rfl).trans hyields.step.ext.bindings
  have hbindings : (((c₂.moveTo e.pointer).emit "]").freeCondition e.pointer).bindings =
      c.bindings := by
    rw [bindings_freeCondition]
    exact (Same.moveTo c₂ e.pointer).bindings.trans hbindings₂
  obtain ⟨k, hk, hrun⟩ := hyields.step.runs
  obtain ⟨l, hl, hagree⟩ := hbody.code
  obtain ⟨m, hm, hmove⟩ := turns_moveTo (c := c₂) (t := e.pointer) htracked (by omega)
  obtain ⟨l', hl', hkeep'⟩ := hkeeps.code fun code hcode => by
    rw [hbody.codes code hcode]
    exact moveless_dump
  obtain rfl := hl.unique hl'
  refine ⟨?_, fun _ => hbindings, k ++ .loop (l ++ m) .done, ?_, ?_⟩
  · rw [Gathers.verbatims.loop]
    exact hbody.codes
  · rw [hwater]
    exact (hk.mono hgrows).trans (emits_freeCondition ((hl.trans hm).loop rfl) _)
  intro s w σ _ hmatch
  obtain ⟨cells, hcells, hkeep, -, hvalue⟩ := hrun s w hmatch.pointer
  have henv : view e.bindings cells = σ.env := by
    rw [← hmatch.env, hyields.step.ext.bindings]
    exact view_congr h.toCoherent hkeep
  have htest : σ.env.value test = some (cells e.pointer) := by
    rw [← hmatch.env, hmeans s.bits w.cells, ← hvalue]
  -- The loop goes on with the same variables on the tape, and with the same value of a condition
  -- that was computed.
  have hloop : Agree (.loop (l ++ m) .done) [.loop line (test.settled (cells e.pointer)) body]
      { w with cells, pointer := e.pointer } σ fun w σ => Matches e w σ ∧
        (test.place? = none → w.cells e.pointer = cells e.pointer) := by
    refine .loop (fun {w' σ'} hQ => ?_) (fun {w' σ'} hQ _ => ?_)
      ⟨⟨rfl, henv, hmatch.input, hmatch.printed⟩, fun _ => rfl⟩
    · obtain ⟨hmatch', hsame⟩ := hQ
      rw [World.read, hmatch'.pointer]
      cases hp : test.place? with
      | none =>
          rw [hsame hp, Node.settled, hp]
          simp [Env.value, Node.settled, Node.place?]
      | some place =>
          obtain ⟨name, i⟩ := place
          obtain ⟨b, hb, hi, ha⟩ := hplace hp
          have hsettled : test.settled (cells e.pointer) = test := by rw [Node.settled, hp]
          refine ⟨?_, by rw [hsettled, Node.settled, hp]⟩
          rw [hsettled, Env.value_place _ hp, ← hmatch'.env, hyields.step.ext.bindings,
            element_view hb hi, ha]
    · obtain ⟨hmatch', hsame⟩ := hQ
      have hin : Matches (e.emit "[") w' σ' :=
        ⟨hmatch'.pointer, hmatch'.env, hmatch'.input, hmatch'.printed⟩
      refine (hagree (fun htop => by cases htop) hin).tell.after fun {w₂ σ₂} hout => ?_
      obtain ⟨hruns, hmatch₂⟩ := hout
      refine ⟨_, hmove s w₂ hmatch₂.pointer, ⟨rfl, ?_, hmatch₂.input, hmatch₂.printed⟩, fun hp => ?_⟩
      · rw [hyields.step.ext.bindings, ← hbindings₂]
        exact hmatch₂.env
      · rw [← hsame hp]
        exact hkeep' hbody.codes hin.pointer hruns (.inl (hfresh hp).temp)
  refine .before hcells (.congr (Exec.loop_settled_iff htest) (hloop.mono fun hQ => ?_))
  exact ⟨by rw [pointer_freeCondition]; exact hQ.1.pointer,
    by rw [hbindings, ← hyields.step.ext.bindings]; exact hQ.1.env, hQ.1.input, hQ.1.printed⟩

theorem Lowered.simulates {flat : List Node} (h : Lowered options flat c d) (hc : Sound c)
    (hu : c.unsafePointer = none) (hsteady : Node.isSteadyIn top flat = true)
    (hblocks : ∀ block ∈ Node.blocksIn flat, block.isDump = true) : Simulates top flat c d := by
  induction h generalizing top with
  | nil => exact .nil ⟨rfl, rfl, rfl, rfl, rfl, rfl⟩
  | @noted flat c d e hn hrest ih =>
      have hsimulates := ih (hn.sound hc) (hn.unsafePointer.trans hu) hsteady hblocks
      obtain ⟨k, hk, hagree⟩ := hsimulates.code
      refine ⟨hsimulates.codes, fun htop => (hsimulates.bindings htop).trans hn.bindings, k,
        hn.emits hk, fun hready hmatch => ?_⟩
      refine hagree (fun htop x hx => hready htop x (by rwa [hn.layout] at hx))
        ⟨hmatch.pointer.trans hn.pointer.symm, ?_, hmatch.input, hmatch.printed⟩
      rw [hn.bindings]
      exact hmatch.env
  | @plain node call rest c d e hplain hform hrest ih =>
      simp only [Node.isSteadyIn, Bool.and_eq_true] at hsteady
      rw [Gathers.blocks.cons, List.forall_mem_append] at hblocks
      have hkeeps := plain_keeps hplain hc hu hform
      have hgrows := (hrest.keeps hkeeps.1.sound hkeeps.2.2).1.grows
      refine (plain_simulates hplain hc hu hsteady.1 ?_ hform).cons
        (ih hkeeps.1.sound hkeeps.2.2 hsteady.2 hblocks.2) hkeeps.1.grows hgrows
      simpa [Node.blocksIn] using hblocks.1
  | @conditional line test body rest a c c₁ c₂ c₃ d hopen hbody hclose hrest ihbody ih =>
      simp only [Node.isSteadyIn, Node.isSteady, Bool.and_eq_true] at hsteady
      rw [Gathers.blocks.cons, Gathers.blocks.conditional, List.forall_mem_append] at hblocks
      obtain ⟨hsound₁, hpointer₁⟩ := opened_sound hc hopen
      have hnone₁ := hpointer₁.trans hu
      have hinner := (hbody.keeps hsound₁ hnone₁).1
      have hnode : Lowered options [.conditional line test body] c c₃ :=
        .conditional hopen hbody hclose .nil
      obtain ⟨hkeeps, hnone⟩ := hnode.keeps hc hu
      exact (conditional_simulates hc hopen (ihbody hsound₁ hnone₁ hsteady.1 hblocks.1)
        hinner.sound hinner.grows hclose).cons (ih hkeeps.sound hnone hsteady.2 hblocks.2)
        hkeeps.grows (hrest.keeps hkeeps.sound hnone).1.grows
  | @loop line test body rest a c c₁ c₂ c₃ d hopen hbody hclose hrest ihbody ih =>
      simp only [Node.isSteadyIn, Node.isSteady, Bool.and_eq_true] at hsteady
      rw [Gathers.blocks.cons, Gathers.blocks.loop, List.forall_mem_append] at hblocks
      obtain ⟨hsound₁, hpointer₁⟩ := opened_sound hc hopen
      have hnone₁ := hpointer₁.trans hu
      have hnode : Lowered options [.loop line test body] c c₃ := .loop hopen hbody hclose .nil
      obtain ⟨hkeeps, hnone⟩ := hnode.keeps hc hu
      exact (loop_simulates hc hopen (ihbody hsound₁ hnone₁ hsteady.1 hblocks.1)
        (hbody.keeps hsound₁ hnone₁).1 hclose).cons (ih hkeeps.sound hnone hsteady.2 hblocks.2)
        hkeeps.grows (hrest.keeps hkeeps.sound hnone).1.grows

theorem program_simulates {nodes flat : List Node} {bodies : Table (List Node)}
    (hd : Compile.program options nodes c = .ok () d)
    (hexpands : Expands Functions.initial.bodies nodes flat bodies)
    (hblocks : Node.blocksIn nodes = []) (hsteady : Node.isSteadyIn true flat = true) :
    Sound d ∧ Simulates true flat Compilation.initial d := by
  obtain ⟨flat', hexpands', hlowered⟩ := program_lowered hd
  obtain ⟨rfl, rfl⟩ := hexpands.unique hexpands'
  have hdumps : ∀ block ∈ Node.blocksIn flat, block.isDump = true :=
    Gathers.blocks.expands_initial hexpands (by simp [Node.blocksIn, Node.blocks, Node.isDump])
      (by simp [hblocks])
  exact ⟨(hlowered.keeps Sound.initial rfl).1.sound,
    hlowered.simulates Sound.initial rfl hsteady hdumps⟩

/-- A program, run on an input, comes to an outcome: its calls are replaced by the bodies that they
stand for, and what is left is run without variables at the start. -/
def Behaves (s : Setting) (nodes : List Node) (input : List CodePoint)
    (o : Outcome s.bits) : Prop :=
  ∃ flat bodies, Expands Functions.initial.bodies nodes flat bodies ∧
    Exec s flat (.initial s.bits input) o

def Tape.word (bits : Nat) (tape : Tape) (address : Int) : BitVec bits :=
  BitVec.ofInt bits (tape.cells.getD address.toNat 0)

theorem Shows.word {s : Setting} {m : Machine} {w : World s.bits} (h : Shows s m w) {x : Int}
    (hx : 0 ≤ x ∧ x < s.size) : m.tape.word s.bits x = w.cells x := by
  rw [Tape.word, Array.getD_eq_getD_getElem?, h.cells x.toNat (by omega)]
  simp [Int.toNat_of_nonneg hx.1]

def Machine.Reports {bits : Nat} (bindings : Table Binding) (m : Machine) :
    Machine.Outcome → TapeCompiler.Outcome bits → Prop
  | .finished, .done σ => m.printed.toList = σ.printed ∧ view bindings (m.tape.word bits) = σ.env
  | .failed f, .failed g σ => f = g ∧ m.printed.toList = σ.printed
  | _, _ => False

theorem Machine.Reports.ended {bits : Nat} {bindings : Table Binding} {m : Machine}
    {outcome : Machine.Outcome} {o : TapeCompiler.Outcome bits}
    (h : m.Reports bindings outcome o) : outcome ≠ .unfinished := by
  rintro rfl
  cases o <;> exact h

theorem Fits.reports {s : Setting} {m : Machine} {e : Ending s.bits}
    {o : TapeCompiler.Outcome s.bits} (h : Fits (Matches d) e o) (hd : Sound d)
    (hshows : Shows s m e.world) (hsize : d.layout.highWater ≤ s.size) :
    m.Reports d.bindings e.progress.outcome o := by
  cases e with
  | done w =>
      obtain ⟨σ, rfl, hmatch⟩ := h.done_left
      refine ⟨hshows.printed.trans hmatch.printed, ?_⟩
      rw [← hmatch.env]
      refine view_congr hd.toCoherent fun x hx => hshows.word ?_
      have := hd.dense.bounds hx
      omega
  | failed f w =>
      cases o with
      | done σ => cases h
      | failed g σ => exact ⟨h.1, hshows.printed.trans h.2⟩
      | unbound => cases h

section

variable {nodes : List Node} {m : Machine}

theorem run_reports (hd : Compile.program options nodes c = .ok () d)
    (hblocks : Node.blocksIn nodes = [])
    (hsteady : ∀ flat bodies, Expands Functions.initial.bodies nodes flat bodies →
      Node.isSteadyIn true flat = true)
    (hlimit : m.setting.stepLimit = none)
    (hsize : max 1 d.layout.highWater ≤ m.setting.size) (input : List CodePoint) :
    (∀ {rounds m' outcome}, m.run rounds d.code input = (m', outcome) → outcome ≠ .unfinished →
      ∃ o, Behaves m.setting nodes input o ∧ m'.Reports d.bindings outcome o) ∧
    ∀ {o}, Behaves m.setting nodes input o →
      ∃ rounds m' outcome, m.run rounds d.code input = (m', outcome) ∧
        m'.Reports d.bindings outcome o := by
  obtain ⟨flat, hexpands, -⟩ := program_lowered hd
  obtain ⟨hsound, hsimulates⟩ := program_simulates hd hexpands hblocks (hsteady _ _ hexpands)
  obtain ⟨k, hk, hagree⟩ := hsimulates.code
  have hagree : Agree k flat (World.initial m.setting.bits input)
      (.initial m.setting.bits input) (Matches d) :=
    hagree (fun _ _ _ => rfl) ⟨rfl, rfl, rfl, rfl⟩
  have hbound : d.layout.highWater ≤ m.setting.size := by omega
  obtain ⟨hruns, hended⟩ := resume_ended hbound hlimit (show 0 < Machine.sliceSteps by decide)
    (m.load_shows d.code input) hk.leads (m.load_holds hk.whole).2
  constructor
  · intro rounds m' outcome hrun houtcome
    rw [Machine.run_eq m hk.whole] at hrun
    obtain ⟨e, he, rfl, hshows⟩ := hended hrun houtcome
    obtain ⟨o, ho, hfits⟩ := hagree.runs he
    exact ⟨o, ⟨flat, _, hexpands, ho⟩, hfits.reports hsound hshows hbound⟩
  · rintro o ⟨flat', bodies, hexpands', ho⟩
    obtain ⟨rfl, rfl⟩ := hexpands.unique hexpands'
    obtain ⟨e, he, hfits⟩ := hagree.exec ho
    obtain ⟨rounds, m', hrun, hshows⟩ := hruns he
    refine ⟨rounds, m', _, ?_, hfits.reports hsound hshows hbound⟩
    rw [Machine.run_eq m hk.whole]
    exact hrun

end

theorem program_preserved {nodes : List Node}
    (hd : Compile.program options nodes c = .ok () d) (hblocks : Node.blocksIn nodes = [])
    (hsteady : ∀ flat bodies, Expands Functions.initial.bodies nodes flat bodies →
      Node.isSteadyIn true flat = true)
    (m : Machine) (hlimit : m.setting.stepLimit = none)
    (hsize : max 1 d.layout.highWater ≤ m.setting.size) (input : List CodePoint) :
    (∀ env printed,
      (∃ rounds m', m.run rounds d.code input = (m', .finished) ∧ m'.printed.toList = printed ∧
        view d.bindings (m'.tape.word m.setting.bits) = env) ↔
      ∃ rest, Behaves m.setting nodes input (.done ⟨env, rest, printed⟩)) ∧
    (∀ fault printed,
      (∃ rounds m', m.run rounds d.code input = (m', .failed fault) ∧
        m'.printed.toList = printed) ↔
      ∃ σ, Behaves m.setting nodes input (.failed fault σ) ∧ σ.printed = printed) ∧
    ((∀ rounds, (m.run rounds d.code input).2 = .unfinished) ↔
      ∀ o, ¬Behaves m.setting nodes input o) ∧
    ¬Behaves m.setting nodes input .unbound := by
  obtain ⟨hrun, hbehaves⟩ := run_reports hd hblocks hsteady hlimit hsize input
  refine ⟨fun env printed => ⟨?_, ?_⟩, fun fault printed => ⟨?_, ?_⟩, ⟨?_, ?_⟩, ?_⟩
  · rintro ⟨rounds, m', hfinished, rfl, rfl⟩
    obtain ⟨o, ho, hreports⟩ := hrun hfinished nofun
    cases o with
    | done σ =>
        obtain ⟨hprinted, henv⟩ := hreports
        rw [hprinted, henv]
        exact ⟨σ.input, ho⟩
    | failed f σ => cases hreports
    | unbound => cases hreports
  · rintro ⟨rest, ho⟩
    obtain ⟨rounds, m', outcome, hfinished, hreports⟩ := hbehaves ho
    cases outcome with
    | finished => exact ⟨rounds, m', hfinished, hreports⟩
    | failed f => cases hreports
    | unfinished => cases hreports
  · rintro ⟨rounds, m', hfailed, rfl⟩
    obtain ⟨o, ho, hreports⟩ := hrun hfailed nofun
    cases o with
    | done σ => cases hreports
    | failed f σ =>
        obtain ⟨rfl, hprinted⟩ := hreports
        exact ⟨σ, ho, hprinted.symm⟩
    | unbound => cases hreports
  · rintro ⟨σ, ho, rfl⟩
    obtain ⟨rounds, m', outcome, hfailed, hreports⟩ := hbehaves ho
    cases outcome with
    | finished => cases hreports
    | failed f =>
        obtain ⟨rfl, hprinted⟩ := hreports
        exact ⟨rounds, m', hfailed, hprinted⟩
    | unfinished => cases hreports
  · intro hforever o ho
    obtain ⟨rounds, m', outcome, hended, hreports⟩ := hbehaves ho
    have := hforever rounds
    rw [hended] at this
    exact hreports.ended this
  · intro hnone rounds
    by_contra hended
    obtain ⟨o, ho, -⟩ := hrun rfl hended
    exact hnone o ho
  · intro ho
    obtain ⟨rounds, m', outcome, -, hreports⟩ := hbehaves ho
    cases outcome <;> exact hreports

def Node.mark : List Node :=
  [.assign 1 "a" (some (.var "i" none)) (.math .minus .max (.var "i" none)),
    .display 2 (.var "a" (some (.var "i" none))),
    .call 3 "__dump"]

def Node.tally : List Node :=
  [.declare 4 "i" .number none, .declare 5 "a" .char (some 3), .input 6 "i",
    .function 7 "mark" mark,
    .loop 8 (.var "i" none) [
      .assign 9 "i" none (.math .minus (.var "i" none) (.literal 1 false)),
      .call 10 "mark"],
    .conditional 11 (.math .plus (.var "i" none) (.literal 1 false)) [
      .display 12 (.var "a" (some (.literal 0 false)))],
    .remove 13 "a"]

theorem isSteadyIn_tally {flat : List Node} {bodies : Table (List Node)}
    (h : Expands Functions.initial.bodies Node.tally flat bodies) :
    Node.isSteadyIn true flat = true := by
  have hmark : (Functions.initial.bodies.insert "mark" Node.mark).find? "mark" = some Node.mark := by
    simp [Table.find?_insert]
  have hdump : (Functions.initial.bodies.insert "mark" Node.mark).find? "__dump" =
      some [.unsafeBlock 0 1 [.verbatim 0 "&"]] := by
    simp [Functions.initial, Table.find?_insert]
  have hexpands : Expands Functions.initial.bodies Node.tally
      [.declare 4 "i" .number none, .declare 5 "a" .char (some 3), .input 6 "i",
        .loop 8 (.var "i" none) [
          .assign 9 "i" none (.math .minus (.var "i" none) (.literal 1 false)),
          .assign 1 "a" (some (.var "i" none)) (.math .minus .max (.var "i" none)),
          .display 2 (.var "a" (some (.var "i" none))),
          .unsafeBlock 0 1 [.verbatim 0 "&"]],
        .conditional 11 (.math .plus (.var "i" none) (.literal 1 false)) [
          .display 12 (.var "a" (some (.literal 0 false)))],
        .remove 13 "a"] (Functions.initial.bodies.insert "mark" Node.mark) :=
    .plain rfl <| .plain rfl <| .plain rfl <| .function <|
      .loop (.plain rfl (.call hmark
        (.plain rfl (.plain rfl (.call hdump (.plain rfl .nil) .nil))) .nil)) <|
      .conditional (.plain rfl .nil) (.plain rfl .nil)
  obtain ⟨rfl, -⟩ := h.unique hexpands
  rfl

theorem program_preserved_tally :
    ∃ d, Compile.program {} Node.tally Compilation.initial = .ok () d ∧
      Node.blocksIn Node.tally = [] ∧
      max 1 d.layout.highWater ≤ ((Machine.small none).setting.size : Int) ∧
      ∀ env printed, (∃ rounds m', (Machine.small none).run rounds d.code "3" = (m', .finished) ∧
          m'.printed.toList = printed ∧
          view d.bindings (m'.tape.word (Machine.small none).setting.bits) = env) ↔
        ∃ rest, Behaves (Machine.small none).setting Node.tally "3".toList
          (.done ⟨env, rest, printed⟩) := by
  obtain ⟨d, hd, hsize⟩ := Compile.exists_of_fits
    (show Compile.fits {} Node.tally 20 = true by decide +kernel)
  exact ⟨d, hd, rfl, hsize, (program_preserved hd rfl (fun _ _ h => isSteadyIn_tally h)
    (Machine.small none) rfl hsize "3").1⟩

end TapeCompiler
