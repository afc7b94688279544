import TapeCompiler.Proofs.Ownership

namespace TapeCompiler

open Compile Compilation

variable {s : Setting}

def Ends (Q : World s.bits → World s.bits → Prop) : Ending s.bits → Ending s.bits → Prop
  | .done w, .done w' => Q w w'
  | .failed f w, .failed g w' => f = g ∧ w.printed = w'.printed
  | _, _ => False

namespace Ends

variable {Q : World s.bits → World s.bits → Prop} {w : World s.bits} {e : Ending s.bits}

theorem done_left (h : Ends Q (.done w) e) : ∃ w', e = .done w' ∧ Q w w' := by
  cases e with
  | done w' => exact ⟨w', rfl, h⟩
  | failed f w' => cases h

theorem failed_left {f : MachineFault} (h : Ends Q (.failed f w) e) :
    ∃ w', e = .failed f w' ∧ w.printed = w'.printed := by
  cases e with
  | done w' => cases h
  | failed g w' =>
      obtain ⟨rfl, hprinted⟩ := h
      exact ⟨w', rfl, hprinted⟩

theorem seen {e e' : Ending s.bits} (h : Ends Q e e')
    (hQ : ∀ {w w'}, Q w w' → w.printed = w'.printed) :
    e.progress = e'.progress ∧ e.world.printed = e'.world.printed := by
  cases e with
  | done w =>
      obtain ⟨w', rfl, h⟩ := h.done_left
      exact ⟨rfl, hQ h⟩
  | failed f w =>
      obtain ⟨w', rfl, hprinted⟩ := h.failed_left
      exact ⟨rfl, hprinted⟩

end Ends

def Shadows (k k' : Code) (w w' : World s.bits) (Q : World s.bits → World s.bits → Prop) : Prop :=
  ∀ e, Runs s k w e → ∃ e', Runs s k' w' e' ∧ Ends Q e e'

namespace Shadows

variable {k k' l l' : Code} {w w' : World s.bits} {Q R : World s.bits → World s.bits → Prop}

theorem of_runs {e e' : Ending s.bits} (h : Runs s k w e) (h' : Runs s k' w' e')
    (hends : Ends Q e e') : Shadows k k' w w' Q := by
  intro e₁ hrun
  rw [hrun.deterministic h]
  exact ⟨e', h', hends⟩

theorem tell (h : Shadows k k' w w' Q)
    (hQ : ∀ {v v'}, Runs s k w (.done v) → Runs s k' w' (.done v') → Q v v' → R v v') :
    Shadows k k' w w' R := by
  intro e hrun
  obtain ⟨e', hrun', hends⟩ := h e hrun
  refine ⟨e', hrun', ?_⟩
  cases e with
  | done v =>
      obtain ⟨v', rfl, h⟩ := hends.done_left
      exact hQ hrun hrun' h
  | failed f v =>
      obtain ⟨v', rfl, hprinted⟩ := hends.failed_left
      exact ⟨rfl, hprinted⟩

theorem append (h : Shadows k k' w w' Q) (hl : ∀ {v v'}, Q v v' → Shadows l l' v v' R) :
    Shadows (k ++ l) (k' ++ l') w w' R := by
  intro e hrun
  rcases Runs.append_iff.1 hrun with ⟨v, hv, hrest⟩ | ⟨f, v, rfl, hv⟩
  · obtain ⟨e', hrun', hends⟩ := h _ hv
    obtain ⟨v', rfl, hQ⟩ := hends.done_left
    obtain ⟨e'', hrest', hends'⟩ := hl hQ _ hrest
    exact ⟨e'', hrun'.append hrest', hends'⟩
  · obtain ⟨e', hrun', hends⟩ := h _ hv
    obtain ⟨v', rfl, hprinted⟩ := hends.failed_left
    exact ⟨_, hrun'.append_failed l', rfl, hprinted⟩

theorem before {v v' : World s.bits} (hk : Runs s k w (.done v)) (hk' : Runs s k' w' (.done v'))
    (h : Shadows l l' v v' Q) : Shadows (k ++ l) (k' ++ l') w w' Q := by
  intro e hrun
  rcases Runs.append_iff.1 hrun with ⟨u, hu, hrest⟩ | ⟨f, u, rfl, hu⟩
  · cases hk.deterministic hu
    obtain ⟨e', hrest', hends⟩ := h _ hrest
    exact ⟨e', hk'.append hrest', hends⟩
  · cases hk.deterministic hu

theorem once (hread : w'.read = w.read) (hzero : w.read = 0 → R w w')
    (hbody : w.read ≠ 0 → Shadows k k' w w' fun v v' => v.read = 0 ∧ v'.read = 0 ∧ R v v') :
    Shadows (.loop k .done) (.loop k' .done) w w' R := by
  by_cases h0 : w.read = 0
  · exact of_runs (.loop_end h0 .done) (.loop_end (hread.trans h0) .done) (hzero h0)
  · have h0' : w'.read ≠ 0 := by rwa [hread]
    intro e hrun
    cases hrun with
    | loop_end hend => exact absurd hend h0
    | loop_step _ hb hrest =>
        obtain ⟨e', hb', hends⟩ := hbody h0 _ hb
        obtain ⟨v', rfl, hv, hv', hR⟩ := hends.done_left
        cases hrest.deterministic (.loop_end hv .done)
        exact ⟨_, .loop_step h0' hb' (.loop_end hv' .done), hR⟩
    | loop_failed _ hb =>
        obtain ⟨e', hb', hends⟩ := hbody h0 _ hb
        obtain ⟨v', rfl, hprinted⟩ := hends.failed_left
        exact ⟨_, .loop_failed h0' hb', rfl, hprinted⟩

theorem loop (hread : ∀ {w w'}, Q w w' → w'.read = w.read)
    (hbody : ∀ {w w'}, Q w w' → Shadows k k' w w' Q) (h : Q w w') :
    Shadows (.loop k .done) (.loop k' .done) w w' fun v v' => Q v v' ∧ v.read = 0 := by
  intro e hrun
  induction hrun using Runs.loop_rounds generalizing w' with
  | stop h0 => exact ⟨_, .loop_end ((hread h).trans h0) .done, h, h0⟩
  | round hne hb _ ih =>
      obtain ⟨e', hb', hends⟩ := hbody h _ hb
      obtain ⟨v', rfl, hQ⟩ := hends.done_left
      obtain ⟨e'', hrest', hends'⟩ := ih hQ
      exact ⟨e'', .loop_step (by rwa [hread h]) hb' hrest', hends'⟩
  | failed hne hb =>
      obtain ⟨e', hb', hends⟩ := hbody h _ hb
      obtain ⟨v', rfl, hprinted⟩ := hends.failed_left
      exact ⟨_, .loop_failed (by rwa [hread h]) hb', rfl, hprinted⟩

end Shadows

theorem Agree.shadows {k k' : Code} {nodes : List Node} {w w' : World s.bits} {σ : State s.bits}
    {Q Q' : World s.bits → State s.bits → Prop} (h : Agree k nodes w σ Q)
    (h' : Agree k' nodes w' σ Q') :
    Shadows k k' w w' fun v v' => ∃ σ, Q v σ ∧ Q' v' σ := by
  intro e hrun
  obtain ⟨o, ho, hfits⟩ := h.runs hrun
  obtain ⟨e', hrun', hfits'⟩ := h'.exec ho
  refine ⟨e', hrun', ?_⟩
  cases e with
  | done v =>
      obtain ⟨σ, rfl, hQ⟩ := hfits.done_left
      obtain ⟨v', rfl, hQ'⟩ := hfits'.done_right
      exact ⟨σ, hQ, hQ'⟩
  | failed f v =>
      cases o with
      | done σ => cases hfits
      | failed g σ =>
          obtain ⟨rfl, hprinted⟩ := hfits
          cases e' with
          | done v' => cases hfits'
          | failed g v' => exact ⟨hfits'.1.symm, hprinted.trans hfits'.2.symm⟩
      | unbound => cases hfits

theorem Serves.shadows {env : Env s.bits} {k k' : Code} {nodes : List Node} {w w' : World s.bits}
    {β : Bench s.bits} {Q Q' : World s.bits → Bench s.bits → Prop} (h : Serves env k nodes w β Q)
    (h' : Serves env k' nodes w' β Q') :
    Shadows k k' w w' fun v v' => ∃ γ, Q v γ ∧ Q' v' γ := by
  intro e hrun
  obtain ⟨v, γ, rfl, hworks, hQ⟩ := h.runs hrun
  obtain ⟨v', hrun', hQ'⟩ := h'.works hworks
  exact ⟨_, hrun', γ, hQ, hQ'⟩

structure Twin (held held' : Int → Prop) (c c' : Compilation) (w w' : World s.bits) : Prop where
  pointer : w.pointer = c.pointer
  pointer' : w'.pointer = c'.pointer
  env : view c.bindings w.cells = view c'.bindings w'.cells
  input : w.input = w'.input
  printed : w.printed = w'.printed
  tidy : Tidy held c w.cells
  tidy' : Tidy held' c' w'.cells

def shapes (bindings : Table Binding) (name : String) : Option (CellType × Nat) :=
  (bindings.find? name).map fun b => (b.type, b.length)

section

variable {held held' : Int → Prop} {c c' d d' : Compilation} {w w' : World s.bits}

theorem Twin.shapes_eq (h : Twin held held' c c' w w') :
    shapes c.bindings = shapes c'.bindings := by
  funext name
  have hsame := congrArg (Option.map fun x : Variable s.bits => (x.type, x.values.length))
    (congrFun h.env name)
  simpa [view, shapes, addresses, Option.map_map, Function.comp_def] using hsame

theorem Twin.matched (h : Twin held held' c c' w w') : ∃ σ : State s.bits,
    Matches c w σ ∧ Matches c' w' σ :=
  ⟨⟨view c.bindings w.cells, w.input, w.printed⟩, ⟨h.pointer, rfl, rfl, rfl⟩,
    ⟨h.pointer', h.env.symm, h.input.symm, h.printed.symm⟩⟩

theorem Twin.of_matched {σ : State s.bits} (h : Matches c w σ) (h' : Matches c' w' σ)
    (htidy : Tidy held c w.cells) (htidy' : Tidy held' c' w'.cells) : Twin held held' c c' w w' :=
  ⟨h.pointer, h'.pointer, h.env.trans h'.env.symm, h.input.trans h'.input.symm,
    h.printed.trans h'.printed.symm, htidy, htidy'⟩

end

structure Mirrors (held held' : Int → Prop) (c c' d d' : Compilation) : Prop where
  shaped : shapes c.bindings = shapes c'.bindings → shapes d.bindings = shapes d'.bindings
  code : ∃ k k', Emits d.layout.highWater c d k ∧ Emits d'.layout.highWater c' d' k' ∧
    ∀ {s : Setting} {w w' : World s.bits}, Twin held held' c c' w w' →
      Shadows k k' w w' (Twin held held' d d')

theorem shapes_insert (bindings : Table Binding) (name : String) (b : Binding) :
    shapes (bindings.insert name b) =
      Function.update (shapes bindings) name (some (b.type, b.length)) := by
  funext other
  by_cases hname : other = name
  · subst hname
    rw [Function.update_self, shapes, Table.find?_insert, if_pos rfl, Option.map_some]
  · rw [Function.update_of_ne hname, shapes, Table.find?_insert, if_neg (Ne.symm hname), shapes]

theorem shapes_erase (bindings : Table Binding) (name : String) :
    shapes (bindings.erase name) = Function.update (shapes bindings) name none := by
  funext other
  by_cases hname : other = name
  · subst hname
    rw [Function.update_self, shapes, Table.find?_erase, if_pos rfl, Option.map_none]
  · rw [Function.update_of_ne hname, shapes, Table.find?_erase, if_neg (Ne.symm hname), shapes]

namespace Mirrors

variable {held held' : Int → Prop} {c c' d d' e e' : Compilation}

theorem refl (c c' : Compilation) : Mirrors held held' c c' c c' :=
  ⟨id, .done, .done, .same rfl rfl, .same rfl rfl, fun ht => .of_runs .done .done ht⟩

theorem noted (hrest : Mirrors held held' d d' e e') (h : Noted c d) (h' : Noted c' d') :
    Mirrors held held' c c' e e' := by
  obtain ⟨k, k', hk, hk', hshadows⟩ := hrest.code
  refine ⟨fun hs => hrest.shaped (by rwa [h.bindings, h'.bindings]), k, k', h.emits hk,
    h'.emits hk', fun ht => hshadows ⟨ht.pointer.trans h.pointer.symm,
      ht.pointer'.trans h'.pointer.symm, ?_, ht.input, ht.printed, ht.tidy.congr fun x hx => ?_,
      ht.tidy'.congr fun x hx => ?_⟩⟩
  · rw [h.bindings, h'.bindings]
    exact ht.env
  · rwa [Idle, h.layout] at hx
  · rwa [Idle, h'.layout] at hx

theorem trans (h : Mirrors held held' c c' d d') (hrest : Mirrors held held' d d' e e')
    (hgrows : d.layout.highWater ≤ e.layout.highWater)
    (hgrows' : d'.layout.highWater ≤ e'.layout.highWater) : Mirrors held held' c c' e e' := by
  obtain ⟨k, k', hk, hk', hshadows⟩ := h.code
  obtain ⟨l, l', hl, hl', hshadows'⟩ := hrest.code
  exact ⟨fun hs => hrest.shaped (h.shaped hs), k ++ l, k' ++ l', (hk.mono hgrows).trans hl,
    (hk'.mono hgrows').trans hl', fun ht => (hshadows ht).append fun ht' => hshadows' ht'⟩

end Mirrors

def Tidies (c d : Compilation) : Prop :=
  ∀ ⦃bound : Int⦄ ⦃k : Code⦄, Emits bound c d k → ∀ ⦃s : Setting⦄ ⦃held : Int → Prop⦄
    ⦃w v : World s.bits⦄, w.pointer = c.pointer → Tidy held c w.cells → Runs s k w (.done v) →
    Tidy held d v.cells

namespace Tidies

variable {c d : Compilation} {options : CompileOptions}

theorem of_silent {P : ∀ bits : Nat, (Int → BitVec bits) → (Int → BitVec bits) → Prop}
    (h : Silent c d P) (hP : ∀ {bits : Nat} {held : Int → Prop} {x y : Int → BitVec bits},
      P bits x y → Tidy held c x → Tidy held d y) : Tidies c d := by
  intro bound k hk s held w v hw htidy hrun
  obtain ⟨k', hk', hruns⟩ := h
  obtain rfl := hk.unique hk'
  obtain ⟨cells, hcells, hPcells⟩ := hruns s w hw
  cases hrun.deterministic hcells
  exact hP hPcells htidy

theorem declare {name : String} {type : CellType} {base : Int} {n : Nat}
    (hd : Declares c d name type base n) : Tidies c d := by
  obtain ⟨m, hm, -, hturns⟩ := hd.turns
  refine of_silent (.of_turns hturns (P := fun _ x y => y = zeroed base m x) fun _ => rfl) ?_
  rintro bits held cells _ rfl htidy x hx hnot
  rw [Idle, hd.layout] at hx
  rcases Layout.inside_or_outside base x n with ⟨i, hi, rfl⟩ | hout
  · rw [Layout.status_setRange_inside hi] at hx
    rcases hx with hx | hx <;> cases hx
  · rw [Layout.status_setRange_outside hout] at hx
    exact (zeroed_outside (by omega)).trans (htidy x hx hnot)

theorem remove {name : String} {b : Binding} (hd : Removes c d name b) : Tidies c d := by
  refine of_silent (.of_turns hd.turns (P := fun _ x y => y = zeroed b.base b.length x)
    fun _ => rfl) ?_
  rintro bits held cells _ rfl htidy x hx hnot
  rcases Layout.inside_or_outside b.base x b.length with ⟨i, hi, rfl⟩ | hout
  · exact if_pos (by omega)
  · rw [Idle, hd.layout, Layout.status_setRange_outside hout] at hx
    exact (zeroed_outside hout).trans (htidy x hx hnot)

theorem assign {name : String} {index : Option Node} {value : Node} (h : Sound c)
    (hd : Compile.assign options name index value c = .ok () d) : Tidies c d := by
  obtain ⟨f, hdoes, -, hothers⟩ := assign_does h hd
  refine of_silent hdoes.runs fun hcells htidy =>
    htidy.of_does hdoes.ext hcells.1 hcells.2 fun x hx => hothers _ _ x fun i t => ?_
  simp [hx]

theorem display {value : Node} (h : Sound c) (hd : Compile.display options value c = .ok () d) :
    Tidies c d := by
  have hext := display_extends h hd
  obtain ⟨k, l, action, a, v, textual, hk, -, -, hput, hruns⟩ := display_runs h hd
  intro bound k' hk' s held w w' hw htidy hrun
  obtain rfl := hk.unique hk'
  obtain ⟨cells, cells', hcells, -, hrelease, hlive, hfree⟩ := hruns s w hw
  have hend : ∃ printed, w' = { w with cells := cells', pointer := d.pointer, printed } := by
    rcases Runs.append_iff.1 hrun with ⟨u, hu, hrest⟩ | ⟨f, u, heq, -⟩
    · cases hcells.deterministic hu
      rcases hput { w with cells, pointer := a } (.initial s.bits []) with
        ⟨piece, hdone, -⟩ | ⟨f, hfailed, -⟩
      · cases hrest.deterministic (.act hdone (hrelease _))
        exact ⟨_, rfl⟩
      · cases hrest.deterministic (.act_failed hfailed)
    · cases heq
  obtain ⟨printed, rfl⟩ := hend
  exact Tidy.of_does (f := fun _ y => y) htidy hext hlive hfree fun _ _ => rfl

theorem input {name : String} (h : Sound c) (hd : Compile.input name c = .ok () d) :
    Tidies c d := by
  have hkeeps : Keeps [] c.Idle c d ∧ Same c d := by
    refine input_keeps h (fun hx => ?_) hd
    rcases hx with hx | hx <;> simp [hx]
  obtain ⟨k, hk, hkeep⟩ := hkeeps.1.code (by simp)
  intro bound k' hk' s held w v hw htidy hrun x hx hnot
  obtain rfl := hk.unique hk'
  have hidle := hkeeps.2.idle_iff.1 hx
  rw [hkeep (by simp) hw hrun hidle]
  exact htidy x hidle hnot

end Tidies

theorem Mirrors.of_simulates {held held' : Int → Prop} {c c' d d' : Compilation} (node : Node)
    (h : Simulates true [node] c d) (h' : Simulates true [node] c' d') (htidies : Tidies c d)
    (htidies' : Tidies c' d') (hc : Sound c) (hc' : Sound c')
    (hheld : ∀ x, held x → c.layout.status x ≠ .free)
    (hheld' : ∀ x, held' x → c'.layout.status x ≠ .free)
    (hshapes : shapes c.bindings = shapes c'.bindings → shapes d.bindings = shapes d'.bindings) :
    Mirrors held held' c c' d d' := by
  obtain ⟨k, hk, hagree⟩ := h.code
  obtain ⟨k', hk', hagree'⟩ := h'.code
  have hready {held : Int → Prop} {c : Compilation} {s : Setting} {w : World s.bits} (hc : Sound c)
      (hheld : ∀ x, held x → c.layout.status x ≠ .free) (htidy : Tidy held c w.cells) :
      Ready true c w.cells := by
    intro _ x hx
    have hfree : c.layout.status x = .free := by
      by_contra hlive
      have := hc.dense.bounds hlive
      omega
    exact htidy x (.inl hfree) fun hx => hheld x hx hfree
  refine ⟨hshapes, k, k', hk, hk', fun ht => ?_⟩
  obtain ⟨σ, hmatch, hmatch'⟩ := ht.matched
  refine ((hagree (hready hc hheld ht.tidy) hmatch).shadows
    (hagree' (hready hc' hheld' ht.tidy') hmatch')).tell fun hrun hrun' => ?_
  rintro ⟨σ', hend, hend'⟩
  exact .of_matched hend hend' (htidies hk hmatch.pointer ht.tidy hrun)
    (htidies' hk' hmatch'.pointer ht.tidy' hrun')

def Node.reshape (shapes : String → Option (CellType × Nat)) :
    Node → String → Option (CellType × Nat)
  | .declare _ name type length => Function.update shapes name (some (type, (length.getD 1).toNat))
  | .remove _ name => Function.update shapes name none
  | _ => shapes

section

variable {options options' : CompileOptions} {call call' : String → Compile Unit}
  {held held' : Int → Prop} {c c' d d' : Compilation} {node : Node}

theorem plain_reshapes (hplain : node.isPlain = true) (h : Sound c) (hu : c.unsafePointer = none)
    (hcodes : ∀ code ∈ node.verbatims, code = "&") (hd : form options call node c = .ok () d) :
    shapes d.bindings = node.reshape (shapes c.bindings) := by
  cases node
  case declare line name type length =>
    obtain ⟨base, hdeclares⟩ := declare_declares h hd
    rw [hdeclares.bindings, shapes_insert, Node.reshape]
  case remove line name =>
    obtain ⟨b, -, hremoves⟩ := remove_removes h hd
    rw [hremoves.bindings, shapes_erase, Node.reshape]
  case assign line name index value =>
    obtain ⟨f, hdoes, -, -⟩ := assign_does h hd
    exact congrArg shapes hdoes.ext.bindings
  case display line value => exact congrArg shapes (display_extends h hd).bindings
  case input line name => exact congrArg shapes (input_same hd).bindings
  case unsafeBlock line size body =>
    exact congrArg shapes (unsafeBlock_extends h hcodes hd).bindings
  all_goals first | exact absurd hd (operation_outside hu) | cases hplain

theorem plain_tidies (hplain : node.isPlain = true) (h : Sound c) (hu : c.unsafePointer = none)
    (hblocks : node.blocks = []) (hd : form options call node c = .ok () d) : Tidies c d := by
  cases node
  case declare line name type length =>
    obtain ⟨base, hdeclares⟩ := declare_declares h hd
    exact .declare hdeclares
  case remove line name =>
    obtain ⟨b, -, hremoves⟩ := remove_removes h hd
    exact .remove hremoves
  case assign line name index value => exact .assign h hd
  case display line value => exact .display h hd
  case input line name => exact .input h hd
  case unsafeBlock line size body => cases hblocks
  all_goals first | exact absurd hd (operation_outside hu) | cases hplain

theorem plain_mirrors (hplain : node.isPlain = true) (h : Sound c) (h' : Sound c')
    (hu : c.unsafePointer = none) (hu' : c'.unsafePointer = none)
    (hcodes : ∀ code ∈ node.verbatims, code = "&")
    (hheld : ∀ x, held x → c.layout.status x ≠ .free)
    (hheld' : ∀ x, held' x → c'.layout.status x ≠ .free)
    (hd : form options call node c = .ok () d) (hd' : form options' call' node c' = .ok () d') :
    Mirrors held held' c c' d d' := by
  have hshapes (hs : shapes c.bindings = shapes c'.bindings) :
      shapes d.bindings = shapes d'.bindings := by
    rw [plain_reshapes hplain h hu hcodes hd, plain_reshapes hplain h' hu' hcodes hd', hs]
  by_cases hblocks : node.blocks = []
  · have hsteady : node.isSteady true = true := by
      cases node <;> first | rfl | cases hplain
    exact .of_simulates node (plain_simulates hplain h hu hsteady (by simp [hblocks]) hd)
      (plain_simulates hplain h' hu' hsteady (by simp [hblocks]) hd')
      (plain_tidies hplain h hu hblocks hd) (plain_tidies hplain h' hu' hblocks hd') h h'
      hheld hheld' hshapes
  · cases node
    case unsafeBlock line size body =>
      obtain ⟨-, k, hk, hserves⟩ := unsafeBlock_serves h hcodes hd
      obtain ⟨-, k', hk', hserves'⟩ := unsafeBlock_serves h' hcodes hd'
      refine ⟨hshapes, k, k', hk, hk', fun ht => ?_⟩
      obtain ⟨σ, hmatch, hmatch'⟩ := ht.matched
      refine ((hserves (fun x hx => (h.dense.bounds (hheld x hx)).2) hmatch ht.tidy).shadows
        (hserves' (fun x hx => (h'.dense.bounds (hheld' x hx)).2) hmatch' ht.tidy')).tell ?_
      rintro v v' - - ⟨γ, ⟨hend, htidy, -⟩, hend', htidy', -⟩
      exact .of_matched hend hend' htidy htidy'
    all_goals first | exact absurd rfl hblocks | cases hplain

end

end TapeCompiler
