import TapeCompiler.Proofs.Simulation

namespace TapeCompiler

open Compile Compilation

structure Bench (bits : Nat) where
  cells : Int → BitVec bits
  offset : Int
  printed : List Printed

namespace Bench

variable {bits : Nat}

def blank (bits : Nat) (printed : List Printed) : Bench bits := ⟨fun _ => 0, 0, printed⟩

def read (β : Bench bits) : BitVec bits := β.cells β.offset

def write (β : Bench bits) (value : BitVec bits) : Bench bits :=
  { β with cells := Function.update β.cells β.offset value }

def perform (env : Env bits) (β : Bench bits) : Node → Option (Bench bits)
  | .unsafeGoto _ steps => some { β with offset := β.offset + steps }
  | .unsafeAdd _ amount => (env.value amount).map fun v => β.write (β.read + v)
  | .unsafeReduce _ amount => (env.value amount).map fun v => β.write (β.read - v)
  | .unsafeShow _ => some { β with printed := β.printed ++ [.number β.read.toNat] }
  | .verbatim _ code => if code = "&" then some β else none
  | _ => none

end Bench

/-- The operations lead from one state of the block to another. A loop tests the cell where it was
entered, and goes back there after each round. -/
inductive Works {bits : Nat} (env : Env bits) : List Node → Bench bits → Bench bits → Prop where
  | nil {β} : Works env [] β β
  | simple {node rest β β' γ} : β.perform env node = some β' → Works env rest β' γ →
      Works env (node :: rest) β γ
  | loop_zero {line body rest β γ} : β.read = 0 → Works env rest β γ →
      Works env (.unsafeLoop line body :: rest) β γ
  | loop_step {line body rest β β' γ} : β.read ≠ 0 → Works env body β β' →
      Works env (.unsafeLoop line body :: rest) { β' with offset := β.offset } γ →
      Works env (.unsafeLoop line body :: rest) β γ

namespace Works

variable {bits : Nat} {env : Env bits} {node : Node} {rest : List Node} {β β' γ : Bench bits}

theorem cons (h : Works env [node] β β') (h' : Works env rest β' γ) :
    Works env (node :: rest) β γ := by
  generalize hnodes : [node] = nodes at h
  induction h with
  | nil => cases hnodes
  | simple hp h =>
      cases hnodes
      cases h
      exact .simple hp h'
  | loop_zero h0 h =>
      cases hnodes
      cases h
      exact .loop_zero h0 h'
  | loop_step hne hbody _ _ ih =>
      cases hnodes
      exact .loop_step hne hbody (ih h' rfl)

theorem cons_inv (h : Works env (node :: rest) β γ) :
    ∃ β', Works env [node] β β' ∧ Works env rest β' γ := by
  generalize hnodes : node :: rest = nodes at h
  induction h with
  | nil => cases hnodes
  | simple hp h =>
      cases hnodes
      exact ⟨_, .simple hp .nil, h⟩
  | loop_zero h0 h =>
      cases hnodes
      exact ⟨_, .loop_zero h0 .nil, h⟩
  | loop_step hne hbody _ _ ih =>
      cases hnodes
      obtain ⟨β', hloop, hrest⟩ := ih rfl
      exact ⟨β', .loop_step hne hbody hloop, hrest⟩

end Works

variable {s : Setting}

structure Serves (env : Env s.bits) (k : Code) (nodes : List Node) (w : World s.bits)
    (β : Bench s.bits) (Q : World s.bits → Bench s.bits → Prop) : Prop where
  runs : ∀ {e}, Runs s k w e → ∃ w' γ, e = .done w' ∧ Works env nodes β γ ∧ Q w' γ
  works : ∀ {γ}, Works env nodes β γ → ∃ w', Runs s k w (.done w') ∧ Q w' γ

namespace Serves

variable {env : Env s.bits} {k l : Code} {node : Node} {nodes rest body : List Node}
  {w w' : World s.bits} {β β' : Bench s.bits} {Q R : World s.bits → Bench s.bits → Prop}
  {line : Int}

theorem nil (h : Q w β) : Serves env .done [] w β Q := by
  refine ⟨fun hrun => ?_, fun hworks => ?_⟩
  · cases hrun
    exact ⟨w, β, rfl, .nil, h⟩
  · cases hworks
    exact ⟨w, .done, h⟩

theorem simple (hk : Runs s k w (.done w')) (hβ : β.perform env node = some β') (h : Q w' β') :
    Serves env k [node] w β Q := by
  refine ⟨fun hrun => ⟨w', β', hrun.deterministic hk, .simple hβ .nil, h⟩, fun hworks => ?_⟩
  cases hworks with
  | simple hβ' hnil =>
      cases hβ.symm.trans hβ'
      cases hnil
      exact ⟨w', hk, h⟩
  | loop_zero => cases hβ
  | loop_step => cases hβ

theorem mono (h : Serves env k nodes w β Q) (hQ : ∀ {w β}, Q w β → R w β) :
    Serves env k nodes w β R := by
  refine ⟨fun hrun => ?_, fun hworks => ?_⟩
  · obtain ⟨w', γ, rfl, hworks, h⟩ := h.runs hrun
    exact ⟨w', γ, rfl, hworks, hQ h⟩
  · obtain ⟨w', hw', h⟩ := h.works hworks
    exact ⟨w', hw', hQ h⟩

theorem before (hk : Runs s k w (.done w')) (h : Serves env l nodes w' β Q) :
    Serves env (k ++ l) nodes w β Q := by
  refine ⟨fun hrun => ?_, fun hworks => ?_⟩
  · rcases Runs.append_iff.1 hrun with ⟨v, hv, hl⟩ | ⟨f, v, rfl, hv⟩
    · cases hk.deterministic hv
      exact h.runs hl
    · cases hk.deterministic hv
  · obtain ⟨v, hv, hQ⟩ := h.works hworks
    exact ⟨v, hk.append hv, hQ⟩

theorem after (h : Serves env k nodes w β Q)
    (hl : ∀ {w' γ}, Q w' γ → ∃ w'', Runs s l w' (.done w'') ∧ R w'' γ) :
    Serves env (k ++ l) nodes w β R := by
  refine ⟨fun hrun => ?_, fun hworks => ?_⟩
  · rcases Runs.append_iff.1 hrun with ⟨v, hv, hrest⟩ | ⟨f, v, rfl, hv⟩
    · obtain ⟨w', γ, heq, hworks, hQ⟩ := h.runs hv
      cases heq
      obtain ⟨w'', hw'', hR⟩ := hl hQ
      exact ⟨w'', γ, hrest.deterministic hw'', hworks, hR⟩
    · obtain ⟨w', γ, heq, -⟩ := h.runs hv
      cases heq
  · obtain ⟨w', hw', hQ⟩ := h.works hworks
    obtain ⟨w'', hw'', hR⟩ := hl hQ
    exact ⟨w'', hw'.append hw'', hR⟩

theorem cons (h : Serves env k [node] w β Q)
    (hrest : ∀ {w' β'}, Q w' β' → Serves env l rest w' β' R) :
    Serves env (k ++ l) (node :: rest) w β R := by
  refine ⟨fun hrun => ?_, fun hworks => ?_⟩
  · rcases Runs.append_iff.1 hrun with ⟨v, hv, hl⟩ | ⟨f, v, rfl, hv⟩
    · obtain ⟨w', β', heq, hnode, hQ⟩ := h.runs hv
      cases heq
      obtain ⟨w'', γ, rfl, hworks, hR⟩ := (hrest hQ).runs hl
      exact ⟨w'', γ, rfl, hnode.cons hworks, hR⟩
    · obtain ⟨w', β', heq, -⟩ := h.runs hv
      cases heq
  · obtain ⟨β', hnode, hworks⟩ := hworks.cons_inv
    obtain ⟨w', hw', hQ⟩ := h.works hnode
    obtain ⟨w'', hw'', hR⟩ := (hrest hQ).works hworks
    exact ⟨w'', hw'.append hw'', hR⟩

theorem loop (hread : ∀ {w β}, Q w β → w.read = β.read)
    (hbody : ∀ {w β}, Q w β → β.read ≠ 0 →
      Serves env k body w β fun w' β' => Q w' { β' with offset := β.offset })
    (h : Q w β) : Serves env (.loop k .done) [.unsafeLoop line body] w β Q := by
  constructor
  · intro e hrun
    induction hrun using Runs.loop_rounds generalizing β with
    | stop h0 => exact ⟨_, β, rfl, .loop_zero (by rw [← hread h, h0]) .nil, h⟩
    | round hne hb _ ih =>
        rw [hread h] at hne
        obtain ⟨w', β', heq, hworks, hQ⟩ := (hbody h hne).runs hb
        cases heq
        obtain ⟨w'', γ, rfl, hloop, hQ'⟩ := ih hQ
        exact ⟨w'', γ, rfl, .loop_step hne hworks hloop, hQ'⟩
    | failed hne hb =>
        rw [hread h] at hne
        obtain ⟨w', β', heq, -⟩ := (hbody h hne).runs hb
        cases heq
  · intro γ hworks
    generalize hnodes : [Node.unsafeLoop line body] = nodes at hworks
    induction hworks generalizing w with
    | nil => cases hnodes
    | simple hp =>
        cases hnodes
        cases hp
    | loop_zero h0 hrest =>
        cases hnodes
        cases hrest
        exact ⟨w, .loop_end (by rw [hread h, h0]) .done, h⟩
    | loop_step hne hb _ _ ih =>
        cases hnodes
        obtain ⟨w', hw', hQ⟩ := (hbody h hne).works hb
        obtain ⟨w'', hw'', hQ'⟩ := ih hQ rfl
        exact ⟨w'', .loop_step (by rwa [hread h]) hw' hw'', hQ'⟩

end Serves

namespace Compilation

variable {c d : Compilation} {held : Int → Prop} {x : Int}

def Idle (c : Compilation) (x : Int) : Prop :=
  c.layout.status x = .free ∨ c.layout.status x = .temp

def Tidy {bits : Nat} (held : Int → Prop) (c : Compilation) (cells : Int → BitVec bits) : Prop :=
  ∀ x, c.Idle x → ¬held x → cells x = 0

theorem Extends.idle_iff (h : Extends c d) : d.Idle x ↔ c.Idle x := by
  unfold Idle
  by_cases hx : c.layout.status x = .free
  · simp only [hx, true_or, iff_true]
    exact h.takes hx
  · rw [h.keeps hx]

theorem Same.idle_iff (h : Same c d) : d.Idle x ↔ c.Idle x := by
  simp only [Idle, h.layout]

theorem Tidy.congr {bits : Nat} {cells : Int → BitVec bits} (h : Tidy held c cells)
    (hidle : ∀ x, d.Idle x → c.Idle x) : Tidy held d cells :=
  fun x hx => h x (hidle x hx)

theorem Tidy.of_does {bits : Nat} {f : ∀ bits : Nat, (Int → BitVec bits) → Int → BitVec bits}
    {y z : Int → BitVec bits} (h : Tidy held c y) (hext : Extends c d)
    (hlive : ∀ x, c.layout.status x ≠ .free → z x = f bits y x)
    (hfree : ∀ x, c.layout.status x = .free → z x = y x ∨ z x = 0)
    (hf : ∀ x, c.layout.status x = .temp → f bits y x = y x) : Tidy held d z := by
  intro x hx hheld
  have hidle := hext.idle_iff.1 hx
  have hzero := h x hidle hheld
  rcases hidle with hx | hx
  · exact (hfree x hx).elim (·.trans hzero) id
  · rw [hlive x (by simp [hx]), hf x hx, hzero]

end Compilation

structure Stands (start size : Int) (held : Int → Prop) (σ : State s.bits) (c : Compilation)
    (w : World s.bits) (β : Bench s.bits) : Prop where
  matched : Matches c w { σ with printed := β.printed }
  spot : c.unsafePointer = some (start + β.offset)
  cells : ∀ i, 0 ≤ i → i < size → w.cells (start + i) = β.cells i
  tidy : Tidy held c w.cells

theorem Stands.read {start size : Int} {held : Int → Prop} {σ : State s.bits} {c : Compilation}
    {w : World s.bits} {β : Bench s.bits} (hst : Stands start size held σ c w β) (h : Sound c)
    (hr : c.unsafeRegion = some ⟨start, size⟩) : w.cells (start + β.offset) = β.read := by
  obtain ⟨r, hr', hlow, hhigh⟩ := h.inside hst.spot
  cases hr.symm.trans hr'
  dsimp only at hlow hhigh
  exact hst.cells β.offset (by omega) (by omega)

structure Operates (start size : Int) (nodes : List Node) (c d : Compilation) : Prop where
  idle : ∀ x, d.Idle x ↔ c.Idle x
  code : ∃ k, Emits d.layout.highWater c d k ∧
    ∀ {s : Setting} {held : Int → Prop} {σ : State s.bits} {w : World s.bits} {β : Bench s.bits},
      Stands start size held σ c w β → Serves σ.env k nodes w β (Stands start size held σ d)

namespace Compile

variable {c d : Compilation} {options : CompileOptions} {start size line : Int}

theorem goto_operates {steps : Int} (h : Sound c) (hd : goto steps c = .ok () d) :
    Operates start size [.unsafeGoto line steps] c d := by
  obtain ⟨p, r, hp, hr, htarget, rfl⟩ := goto_ok hd
  have hlive : c.layout.status (p + steps) ≠ .free := by
    simp [(h.reserved (p + steps)).2 ⟨r, hr, htarget⟩]
  obtain ⟨k, hk, hrun⟩ := turns_moveTo (h.tracked_of_live hlive) (h.dense.bounds hlive)
  have hsame := Same.moveTo c (p + steps)
  refine ⟨fun _ => hsame.idle_iff, k, ?_, fun {s held σ w β} hst => ?_⟩
  · rw [hsame.layout]
    exact ⟨hk.text, hk.leads⟩
  have hspot : p = start + β.offset := Option.some.inj (hp.symm.trans hst.spot)
  refine .simple (hrun s w hst.matched.pointer) rfl ⟨⟨rfl, ?_, hst.matched.input,
    hst.matched.printed⟩, ?_, hst.cells, hst.tidy.congr fun _ => hsame.idle_iff.1⟩
  · exact (congrArg (view · w.cells) hsame.bindings).trans hst.matched.env
  · simp only [hspot, Int.add_assoc]

theorem drainAmount_operates {amount node : Node} {sign : Sign} (h : Sound c)
    (hr : c.unsafeRegion = some ⟨start, size⟩)
    (hnode : ∀ {bits : Nat} (env : Env bits) (β : Bench bits), β.perform env node =
      (env.value amount).map fun v => β.write (sign.apply β.read v))
    (hd : drainAmount options amount sign c = .ok () d) : Operates start size [node] c d := by
  obtain ⟨p, value, hp, hmeans, hdoes⟩ := drainAmount_does h hd
  have hreserved := h.reserved_of_unsafePointer hp
  obtain ⟨k, hk, hrun⟩ := hdoes.runs
  refine ⟨fun _ => hdoes.ext.idle_iff, k, hk, fun {s held σ w β} hst => ?_⟩
  obtain ⟨cells, hcells, hlive, hfree⟩ := hrun s w hst.matched.pointer
  have hspot : p = start + β.offset := Option.some.inj (hp.symm.trans hst.spot)
  have hvalue : σ.env.value amount = some (value s.bits w.cells) := by
    rw [← hmeans s.bits w.cells, hst.matched.env]
  have hread : w.cells p = β.read := by rw [hspot, hst.read h hr]
  have hperform : β.perform σ.env node =
      some (β.write (sign.apply β.read (value s.bits w.cells))) := by
    rw [hnode, hvalue, Option.map_some]
  refine .simple hcells hperform ⟨⟨rfl, ?_, hst.matched.input, hst.matched.printed⟩,
    hdoes.ext.unsafePointer.trans hst.spot, fun i hlow hhigh => ?_, ?_⟩
  · rw [← hst.matched.env]
    funext name
    refine view_apply_congr (by rw [hdoes.ext.bindings]) fun b hb i hi => ?_
    have hnamed := h.bound hb i hi
    refine (hlive _ (by simp [hnamed])).trans (Function.update_of_ne ?_ _ _)
    intro heq
    rw [heq, hreserved] at hnamed
    cases hnamed
  · have hcell := (h.reserved (start + i)).2 ⟨_, hr, by dsimp only; omega⟩
    refine (hlive _ (by simp [hcell])).trans ?_
    dsimp only [Bench.write]
    by_cases hi : i = β.offset
    · subst hi
      rw [← hspot, Function.update_self, Function.update_self, hread]
    · rw [Function.update_of_ne (by omega), Function.update_of_ne hi, hst.cells i hlow hhigh]
  · refine Tidy.of_does (f := fun bits cells =>
      Function.update cells p (sign.apply (cells p) (value bits cells))) hst.tidy hdoes.ext hlive
      hfree fun x hx => Function.update_of_ne ?_ _ _
    rintro rfl
    rw [hreserved] at hx
    cases hx

theorem show_operates (h : Sound c) (hr : c.unsafeRegion = some ⟨start, size⟩)
    (hd : operation options (.unsafeShow line) c = .ok () d) :
    Operates start size [.unsafeShow line] c d := by
  obtain ⟨p, hp, rfl⟩ := unsafeShow_ok hd
  have hlive : c.layout.status p ≠ .free := by simp [h.reserved_of_unsafePointer hp]
  have hbounds := h.dense.bounds hlive
  obtain ⟨k, hk, hrun⟩ := turns_moveTo (h.tracked_of_live hlive) hbounds
  have hsame := (Same.moveTo c p).trans (.emit _ ".")
  have hput : Emits c.layout.highWater (c.moveTo p) ((c.moveTo p).emit ".") (.act .put .done) :=
    .act rfl rfl hbounds
  refine ⟨fun _ => hsame.idle_iff, k ++ .act .put .done, ?_, fun {s held σ w β} hst => ?_⟩
  · rw [hsame.layout]
    exact hk.trans hput
  have hspot : p = start + β.offset := Option.some.inj (hp.symm.trans hst.spot)
  have hread : w.cells p = β.read := by rw [hspot, hst.read h hr]
  refine .simple ((hrun s w hst.matched.pointer).append (.act rfl .done)) rfl ⟨⟨rfl, ?_,
    hst.matched.input, ?_⟩, hsame.unsafePointer.trans hst.spot, hst.cells,
    hst.tidy.congr fun _ => hsame.idle_iff.1⟩
  · exact (congrArg (view · w.cells) hsame.bindings).trans hst.matched.env
  · rw [← hread]
    exact congrArg (· ++ [Printed.number (w.cells p).toNat]) hst.matched.printed

theorem dump_operates (h : Sound c) (hd : operation options (.verbatim line "&") c = .ok () d) :
    Operates start size [.verbatim line "&"] c d := by
  obtain ⟨p, hp, rfl⟩ := verbatim_ok hd
  have hlive : c.layout.status p ≠ .free := by simp [h.reserved_of_unsafePointer hp]
  refine ⟨fun _ => Iff.rfl, .act .dump .done, .act rfl rfl (h.tracked_of_live hlive), fun hst => ?_⟩
  exact .simple (.act rfl .done) rfl ⟨⟨hst.matched.pointer, hst.matched.env, hst.matched.input,
    hst.matched.printed⟩, hst.spot, hst.cells, hst.tidy⟩

theorem loop_operates {body : List Node} {p : Int} {e : Compilation} (h : Sound c)
    (hr : c.unsafeRegion = some ⟨start, size⟩) (hp : c.unsafePointer = some p)
    (hopen : Sound ((c.moveTo p).emit "["))
    (hbody : Operates start size body ((c.moveTo p).emit "[") e)
    (hkeeps : Keeps (Node.verbatimsIn body) (fun _ => False) ((c.moveTo p).emit "[") e)
    (hbindings : e.bindings = c.bindings) :
    Operates start size [.unsafeLoop line body] c
      { (e.moveTo p).emit "]" with unsafePointer := some p } := by
  have hlive : c.layout.status p ≠ .free := by simp [h.reserved_of_unsafePointer hp]
  have hbounds := h.dense.bounds hlive
  have hsame := (Same.moveTo c p).trans (.emit _ "[")
  have hsame' := Same.moveTo e p
  have hgrows := hkeeps.grows
  rw [hsame.layout] at hgrows
  have htracked := hkeeps.sound.tracked
  obtain ⟨k, hk, hrun⟩ := turns_moveTo (h.tracked_of_live hlive) hbounds
  obtain ⟨l, hl, hserves⟩ := hbody.code
  obtain ⟨m, hm, hback⟩ : Turns e.layout.highWater e (e.moveTo p) fun _ cells => cells :=
    turns_moveTo (by omega) (by omega)
  have hloop := (hk.mono hgrows).trans ((hl.trans hm).loop rfl)
  refine ⟨?_, k ++ .loop (l ++ m) .done, ⟨hloop.text, ?_⟩, fun {s held σ w β} hst => ?_⟩
  · exact fun x => (hsame'.idle_iff.trans (hbody.idle x)).trans hsame.idle_iff
  · simp only [layout_emit, hsame'.layout]
    exact hloop.leads
  have hend : Serves σ.env (.loop (l ++ m) .done) [.unsafeLoop line body]
      { w with pointer := p } β (Stands start size held σ ((c.moveTo p).emit "[")) := by
    refine .loop (fun {w β} hQ => ?_) (fun {w β} hQ _ => ?_) ⟨⟨rfl, ?_, hst.matched.input,
      hst.matched.printed⟩, hsame.unsafePointer.trans hst.spot, hst.cells,
      hst.tidy.congr fun _ => hsame.idle_iff.1⟩
    · have hoffset : p = start + β.offset :=
        Option.some.inj (hp.symm.trans (hsame.unsafePointer.symm.trans hQ.spot))
      rw [World.read, hQ.matched.pointer, ← hQ.read hopen (hsame.unsafeRegion.trans hr), ← hoffset]
      rfl
    · refine (hserves hQ).after fun {w' γ} hQ' => ?_
      refine ⟨_, hback s w' hQ'.matched.pointer, ⟨rfl, ?_, hQ'.matched.input, hQ'.matched.printed⟩,
        hQ.spot, hQ'.cells, hQ'.tidy.congr fun x => (hbody.idle x).2⟩
      rw [hsame.bindings, ← hbindings]
      exact hQ'.matched.env
    · exact (congrArg (view · w.cells) hsame.bindings).trans hst.matched.env
  refine .before (hrun s w hst.matched.pointer) (hend.mono fun {w β} hQ => ?_)
  refine ⟨⟨hQ.matched.pointer, ?_, hQ.matched.input, hQ.matched.printed⟩, ?_, hQ.cells,
    hQ.tidy.congr fun x hx => (hbody.idle x).1 (hsame'.idle_iff.1 hx)⟩
  · rw [← hQ.matched.env, hsame.bindings, ← hbindings]
    exact congrArg (view · w.cells) hsame'.bindings
  · rw [← hQ.spot, hsame.unsafePointer, hp]

mutual

theorem operation_operates (node : Node) {c d : Compilation} (h : Sound c)
    (hr : c.unsafeRegion = some ⟨start, size⟩) (hcodes : ∀ code ∈ node.verbatims, code = "&")
    (hd : operation options node c = .ok () d) : Operates start size [node] c d := by
  cases node
  case unsafeGoto line steps => exact goto_operates h hd
  case unsafeAdd line amount => exact drainAmount_operates h hr (fun _ _ => rfl) hd
  case unsafeReduce line amount => exact drainAmount_operates h hr (fun _ _ => rfl) hd
  case unsafeShow line => exact show_operates h hr hd
  case unsafeLoop line body =>
    obtain ⟨p, e, hp, hbody, rfl⟩ := unsafeLoop_ok hd
    have hopen := loopStart_sound h hp
    have hsame := (Same.moveTo c p).trans (.emit _ "[")
    obtain ⟨hkeeps, hscope⟩ := operations_sound body hopen hbody
    exact loop_operates h hr hp hopen
      (operations_operates body hopen (hsame.unsafeRegion.trans hr) hcodes hbody) hkeeps
      (hscope.bindings.trans hsame.bindings)
  case verbatim line code =>
    obtain rfl : code = "&" := hcodes code (by simp [Node.verbatims])
    exact dump_operates h hd
  all_goals exact absurd hd fail_ok

theorem operations_operates (nodes : List Node) {c d : Compilation} (h : Sound c)
    (hr : c.unsafeRegion = some ⟨start, size⟩)
    (hcodes : ∀ code ∈ Node.verbatimsIn nodes, code = "&")
    (hd : operations options nodes c = .ok () d) : Operates start size nodes c d := by
  match nodes with
  | [] =>
      obtain ⟨-, rfl⟩ := pure_ok.1 hd
      exact ⟨fun _ => Iff.rfl, .done, .same rfl rfl, fun hst => .nil hst⟩
  | node :: rest =>
      simp only [operations, bind_ok] at hd
      obtain ⟨_, e, hnode, hrest⟩ := hd
      rw [Gathers.verbatims.cons, List.forall_mem_append] at hcodes
      obtain ⟨hfirst, hscope⟩ := operation_sound node h hnode
      have hgrows := (operations_sound rest hfirst.sound hrest).1.grows
      have hone := operation_operates node h hr (by simpa [Node.verbatimsIn] using hcodes.1) hnode
      have hmore :=
        operations_operates rest hfirst.sound (hscope.unsafeRegion.trans hr) hcodes.2 hrest
      obtain ⟨k, hk, hserves⟩ := hone.code
      obtain ⟨l, hl, hserves'⟩ := hmore.code
      exact ⟨fun x => (hmore.idle x).trans (hone.idle x), k ++ l, (hk.mono hgrows).trans hl,
        fun hst => (hserves hst).cons fun hst' => hserves' hst'⟩

end

theorem view_zeroed {bits : Nat} (h : Sound c) {n : Nat} {o : Occupancy} (cells : Int → BitVec bits)
    (hrange : ∀ x, start ≤ x → x < start + n → c.layout.status x = o)
    (ho : ∀ name i type, o ≠ .named name i type) :
    view c.bindings (zeroed start n cells) = view c.bindings cells := by
  funext name
  refine view_apply_congr rfl fun b hb i hi => zeroed_outside ?_
  by_contra hinside
  exact ho _ _ _ ((hrange _ (by omega) (by omega)).symm.trans (h.bound hb i hi))

theorem unsafeBlock_serves {body : List Node} (h : Sound c)
    (hcodes : ∀ code ∈ Node.verbatimsIn body, code = "&")
    (hd : unsafeBlock options size body c = .ok () d) :
    (∀ x, c.Idle x → d.Idle x) ∧ ∃ k, Emits d.layout.highWater c d k ∧
      ∀ {s : Setting} {held : Int → Prop} {σ : State s.bits} {w : World s.bits},
        (∀ x, held x → x < c.layout.highWater) → Matches c w σ → Tidy held c w.cells →
        Serves σ.env k body w (.blank s.bits σ.printed) fun w' γ =>
          Matches d w' { σ with printed := γ.printed } ∧ Tidy held d w'.cells ∧
          ∀ i, 0 ≤ i → i < size → w'.cells (c.layout.firstFit size + i) = 0 := by
  obtain ⟨hsize, hnone, e, hbody, rfl⟩ := unsafeBlock_ok hd
  obtain ⟨-, -, hfree⟩ := Layout.firstFit_spec h.dense size
  have henter := enterBlock_sound h hnone hsize
  have hlayout := layout_enterBlock c size
  obtain ⟨htracked, m, hm, hend, k, hk, hrun⟩ := enterBlock_turns h hsize
  obtain ⟨start, hstart⟩ : ∃ start, c.layout.firstFit size = start := ⟨_, rfl⟩
  rw [hstart] at hfree hlayout hend hrun hbody ⊢
  have hregion : (c.enterBlock size).unsafeRegion = some ⟨start, size⟩ := by
    rw [← hstart]
    rfl
  have hspot : (c.enterBlock size).unsafePointer = some start := by
    rw [← hstart]
    rfl
  have hwithin := henter.region_bounds hsize hregion
  have hsame := Same.moveTo (c.enterBlock size) start
  obtain ⟨k', hk', hmove⟩ := turns_moveTo (c := c.enterBlock size) (t := start) htracked (by omega)
  have hinside : Sound ((c.enterBlock size).moveTo start) := henter.of_same hsame
    (by rw [hsame.layout, pointer_moveTo]; omega)
  have hoperates := operations_operates body hinside (hsame.unsafeRegion.trans hregion) hcodes hbody
  obtain ⟨hkeeps, hscope⟩ := operations_sound body hinside hbody
  have hgrows := hkeeps.grows
  rw [hsame.layout] at hgrows
  have hopen := hscope.unsafeRegion.trans (hsame.unsafeRegion.trans hregion)
  obtain ⟨l, hl, hserves⟩ := hoperates.code
  obtain ⟨-, l', hl', hleave⟩ := leaveBlock_turns hkeeps.sound hsize hopen
  have hwater := highWater_leaveBlock hkeeps.sound hsize hopen
  have hbindings : (c.enterBlock size).bindings = c.bindings := (same_clearReused c _ size).bindings
  have hswept := (same_sweep e start (fun i layout => layout.free (start + i)) size.toNat).bindings
  rw [← clearAndFree_eq] at hswept
  refine ⟨fun x hx => ?_, k ++ (k' ++ (l ++ l')), ?_, fun {s held σ w} hheld hmatch htidy => ?_⟩
  · rw [Idle, layout_leaveBlock]
    rcases Layout.inside_or_outside start x size.toNat with ⟨i, hi, rfl⟩ | hout
    · exact .inl (Layout.status_setRange_inside hi)
    · rw [Layout.status_setRange_outside hout]
      refine (hoperates.idle x).2 (hsame.idle_iff.2 ?_)
      rwa [Idle, hlayout, Layout.status_setRange_outside hout]
  · rw [hwater]
    exact (hk.mono hgrows).trans ((hk'.mono hgrows).trans (hl.trans hl'))
  -- The cells of the block that are not cleared were not taken before, and so hold zero.
  have hfirst : Stands start size held σ ((c.enterBlock size).moveTo start)
      { w with cells := zeroed start m w.cells, pointer := start } (.blank s.bits σ.printed) := by
    refine ⟨⟨rfl, ?_, hmatch.input, hmatch.printed⟩, ?_, fun i hlow hhigh => ?_,
      fun x hx hnot => ?_⟩
    · rw [hsame.bindings, hbindings]
      exact (view_zeroed (o := .free) h w.cells (fun x hlow hhigh => hfree x hlow (by omega))
        (by simp)).trans hmatch.env
    · rw [hsame.unsafePointer, hspot]
      simp [Bench.blank]
    · dsimp only [zeroed, Bench.blank]
      split
      · rfl
      · refine htidy _ (.inl (hfree (start + i) (by omega) (by omega))) fun hx => ?_
        have := hheld _ hx
        omega
    · have hout : x < start ∨ start + size.toNat ≤ x := by
        rcases Layout.inside_or_outside start x size.toNat with ⟨i, hi, rfl⟩ | hout
        · rw [hsame.idle_iff, Idle, hlayout, Layout.status_setRange_inside hi] at hx
          rcases hx with hx | hx <;> cases hx
        · exact hout
      rw [hsame.idle_iff, Idle, hlayout, Layout.status_setRange_outside hout] at hx
      refine (zeroed_outside ?_).trans (htidy x hx hnot)
      omega
  refine .before (hrun s w hmatch.pointer) (.before (hmove s _ rfl) ((hserves hfirst).after ?_))
  intro w' γ hst
  refine ⟨_, hleave s w' hst.matched.pointer, ⟨rfl, ?_, hst.matched.input, hst.matched.printed⟩,
    fun x hx hnot => ?_, fun i hlow hhigh => if_pos (by omega)⟩
  · refine ((congrArg (view · _) hswept).trans ?_).trans hst.matched.env
    refine view_zeroed (o := .reserved) hkeeps.sound w'.cells (fun x hlow hhigh => ?_) (by simp)
    exact (hkeeps.sound.reserved x).2 ⟨_, hopen, by dsimp only; omega⟩
  · rcases Layout.inside_or_outside start x size.toNat with ⟨i, hi, rfl⟩ | hout
    · exact if_pos (by omega)
    · rw [Idle, layout_leaveBlock, Layout.status_setRange_outside hout] at hx
      exact (zeroed_outside hout).trans (hst.tidy x hx hnot)

theorem unsafeBlock_extends {body : List Node} (h : Sound c)
    (hcodes : ∀ code ∈ Node.verbatimsIn body, code = "&")
    (hd : unsafeBlock options size body c = .ok () d) : Extends c d := by
  obtain ⟨hkeeps, hscope, hnone⟩ := unsafeBlock_keeps (S := Protected [] c) h Protected.apart hd
  have hu := (unsafeBlock_ok hd).2.1
  exact ⟨hscope.bindings, hscope.functions, hnone.trans hu.symm, hscope.unsafeRegion, hkeeps.grows,
    fun hx => hkeeps.status (h.protected_of_live hu hx),
    fun hx => (unsafeBlock_serves h hcodes hd).1 _ (.inl hx)⟩

end Compile

end TapeCompiler
