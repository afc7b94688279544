import TapeCompiler.Proofs.Shadow

namespace TapeCompiler

open Compile Compilation

abbrev Also (a : Int) (held : Int → Prop) (x : Int) : Prop := x = a ∨ held x

structure Opens (test : Node) (a : Int) (c e : Compilation) : Prop where
  ext : Extends c e
  sound : Sound e
  pointer : e.pointer = a
  live : e.layout.status a ≠ .free
  computed : test.place? = none → e.layout.status a = .temp
  place : ∀ {name i}, test.place? = some (name, i) →
    ∃ b, e.bindings.find? name = some b ∧ (0 ≤ i ∧ i < b.length) ∧ a = b.base + i
  code : ∃ k, Emits e.layout.highWater c e k ∧
    ∀ {s : Setting} {held : Int → Prop} {w : World s.bits}, w.pointer = c.pointer →
      Tidy held c w.cells → ∃ cells, Runs s k w (.done { w with cells, pointer := a }) ∧
        view e.bindings cells = view c.bindings w.cells ∧
        (view c.bindings w.cells).value test = some (cells a) ∧
        Tidy (Also a held) e cells

theorem openLoop_opens {options : CompileOptions} {test : Node} {a : Int} {c c₁ : Compilation}
    (h : Sound c) (hopen : openLoop options test c = .ok a c₁) :
    ∃ e, c₁ = Compilation.emit e "[" ∧ Opens test a c e := by
  obtain ⟨e, value, rfl, hpointer, hyields, hmeans, hfresh, hplace⟩ := opened_yields h hopen
  have hext := hyields.step.ext
  obtain ⟨k, hk, hrun⟩ := hyields.step.runs
  refine ⟨e, rfl, hext, hyields.step.sound, hpointer, hyields.live, fun hp => (hfresh hp).temp,
    fun hp => ?_, k, hk, fun {s held w} hw htidy => ?_⟩
  · rw [hext.bindings]
    exact hplace hp
  · obtain ⟨cells, hcells, hkeep, hother, hvalue⟩ := hrun s w hw
    rw [hpointer] at hcells
    refine ⟨cells, hcells, ?_, by rw [hmeans s.bits w.cells, hvalue], fun x hx hnot => ?_⟩
    · rw [hext.bindings]
      exact view_congr h.toCoherent hkeep
    · rw [not_or] at hnot
      exact (hother x hnot.1).elim (·.trans (htidy x (hext.idle_iff.1 hx) hnot.2)) id

theorem Opens.read {test : Node} {a : Int} {c e : Compilation} (h : Opens test a c e) {s : Setting}
    {w : World s.bits} (hw : w.pointer = (e.emit "[").pointer) : w.read = w.cells a := by
  rw [World.read, hw, pointer_emit, h.pointer]

/-- The variables after a conditional on the test, when its body has run and has left these
variables of its own: the element that the test names is zero, unless the name stands for another
variable. -/
def Env.cleared {bits : Nat} (env : Env bits) (test : Node) (left : List String) : Env bits :=
  match test.place? with
  | none => env
  | some (name, i) => if name ∈ left then env else (env.store name i 0).getD env

structure Enclosed (held : Int → Prop) (looped : Bool) (outer left : List String) (test : Node)
    (a : Int) (c e d : Compilation) : Prop where
  opens : Opens test a c e
  within : Within looped outer left (e.emit "[") d
  held : ∀ x, held x → c.layout.status x ≠ .free
  outside : d.unsafePointer = none
  keeps : ∃ codes touched, (∀ code ∈ codes, code = "&") ∧
    Keeps codes (Protected touched (e.emit "[")) (e.emit "[") d

namespace Enclosed

variable {held : Int → Prop} {looped : Bool} {outer left : List String} {test : Node} {a : Int}
  {c e d f : Compilation}

theorem sound (h : Enclosed held looped outer left test a c e d) : Sound d := by
  obtain ⟨codes, touched, -, hkeeps⟩ := h.keeps
  exact hkeeps.sound

theorem grows (h : Enclosed held looped outer left test a c e d) :
    e.layout.highWater ≤ d.layout.highWater := by
  obtain ⟨codes, touched, -, hkeeps⟩ := h.keeps
  exact hkeeps.grows

theorem taken (h : Enclosed held looped outer left test a c e d) {x : Int}
    (hx : x = a ∨ held x) : e.layout.status x ≠ .free := by
  rcases hx with rfl | hx
  · exact h.opens.live
  · exact h.opens.ext.live (h.held x hx)

theorem bounds (h : Enclosed held looped outer left test a c e d) :
    (0 ≤ a ∧ a < d.layout.highWater) ∧ 0 ≤ d.pointer ∧ d.pointer < d.layout.highWater := by
  have hbounds := h.opens.sound.dense.bounds h.opens.live
  have hgrows := h.grows
  have htracked := h.sound.tracked
  omega

theorem unchanged (h : Enclosed held looped outer left test a c e d) (hp : test.place? = none)
    {bound : Int} {k : Code} (hk : Emits bound (e.emit "[") d k) {s : Setting}
    {w v : World s.bits} (hw : w.pointer = e.pointer) (hrun : Runs s k w (.done v)) :
    v.cells a = w.cells a := by
  obtain ⟨codes, touched, hcodes, hkeeps⟩ := h.keeps
  obtain ⟨k', hk', hkeep⟩ := hkeeps.code fun code hcode => by
    rw [hcodes code hcode]
    exact moveless_dump
  obtain rfl := hk.unique hk'
  exact hkeep hcodes hw hrun (.inl (h.opens.computed hp))

theorem closed (h : Enclosed held looped outer left test a c e d) (hsame : Same d f) :
    (f.freeCondition a).bindings = d.bindings ∧
      (f.freeCondition a).layout.highWater = d.layout.highWater ∧
      ∀ x, x ≠ a → (f.freeCondition a).Idle x → d.Idle x := by
  refine ⟨(bindings_freeCondition f a).trans hsame.bindings, ?_, fun x hx hidle => ?_⟩
  · rw [highWater_freeCondition (by rw [hsame.layout]; exact h.bounds.1), hsame.layout]
  · rw [← hsame.idle_iff]
    unfold Compilation.freeCondition at hidle
    split at hidle
    · simpa only [Idle, Compilation.free, Layout.free, Layout.status_set_of_ne hx] using hidle
    · exact hidle

theorem tidy_skip (h : Enclosed held looped outer left test a c e d) {held' : Int → Prop}
    {bits : Nat} {cells : Int → BitVec bits} (htidy : Tidy (Also a held') e cells)
    (hzero : cells a = 0) (hidle : ∀ x, x ≠ a → f.Idle x → d.Idle x) : Tidy held' f cells := by
  intro x hx hnot
  by_cases hxa : x = a
  · rw [hxa, hzero]
  · refine htidy x ?_ (not_or.2 ⟨hxa, hnot⟩)
    by_cases hfree : e.layout.status x = .free
    · exact .inl hfree
    · have hidle := hidle x hxa hx
      rwa [Idle, h.within.live hfree] at hidle

theorem tidy_close {bits : Nat} {cells : Int → BitVec bits}
    (htidy : Tidy (Also a held) d cells) (hidle : ∀ x, x ≠ a → f.Idle x → d.Idle x) :
    Tidy held f (Function.update cells a 0) := by
  intro x hx hnot
  by_cases hxa : x = a
  · rw [hxa, Function.update_self]
  · rw [Function.update_of_ne hxa]
    exact htidy x (hidle x hxa hx) (not_or.2 ⟨hxa, hnot⟩)

theorem view_unbound {bits : Nat} {bindings : Table Binding} (cells : Int → BitVec bits)
    (ha : ∀ {name b}, bindings.find? name = some b → ∀ i : Nat, i < b.length → b.base + i ≠ a) :
    view bindings (Function.update cells a 0) = view bindings cells := by
  funext name
  exact view_apply_congr rfl fun b hb i hi => Function.update_of_ne (ha hb i hi) _ _

theorem view_cleared (h : Enclosed held looped outer left test a c e d) {bits : Nat}
    (cells : Int → BitVec bits) : view d.bindings (Function.update cells a 0) =
      (view d.bindings cells).cleared test left := by
  have hstatus := h.within.live h.opens.live
  unfold Env.cleared
  split
  · rename_i hp
    rw [layout_emit, h.opens.computed hp] at hstatus
    refine view_unbound cells fun {name b} hb i hi heq => ?_
    have hnamed := h.sound.bound hb i hi
    rw [heq, hstatus] at hnamed
    cases hnamed
  · rename_i name i hp
    obtain ⟨b, hb, hi, rfl⟩ := h.opens.place hp
    have hnamed := h.opens.sound.bound hb i.toNat (by omega)
    rw [Int.toNat_of_nonneg hi.1] at hnamed
    rw [layout_emit, hnamed] at hstatus
    -- Only the variable of the test can have its cell, and has it if it is still the same one.
    have hname {other : String} {b' : Binding} (hb' : d.bindings.find? other = some b') {j : Nat}
        (hj : j < b'.length) (heq : b'.base + (j : Int) = b.base + i) : other = name := by
      have hnamed' := h.sound.bound hb' j hj
      rw [heq, hstatus] at hnamed'
      exact (Occupancy.named.inj hnamed').1.symm
    split
    · rename_i hleft
      refine view_unbound cells fun {other b'} hb' j hj heq => ?_
      obtain rfl := hname hb' hj heq
      exact h.opens.live (heq ▸ h.within.fresh hb' hleft j hj)
    · rename_i hleft
      cases hb' : d.bindings.find? name with
      | none =>
          have hnone : (view d.bindings cells).store name i 0 = none := by
            simp [Env.store, view, hb']
          rw [hnone, Option.getD_none]
          refine view_unbound cells fun {other b'} hother j hj heq => ?_
          obtain rfl := hname hother hj heq
          cases hb'.symm.trans hother
      | some b' =>
          cases hb.symm.trans (h.within.bound hb' hleft)
          rw [store_view h.sound.toCoherent hb' hi, Option.getD_some]

theorem zero_skip (h : Enclosed held looped outer left test a c e d) {bits : Nat}
    {cells : Int → BitVec bits} (htidy : Tidy (Also a held) e cells) {name : String}
    {b : Binding} (hb : d.bindings.find? name = some b) (hleft : name ∈ left) :
    view d.bindings cells name = some (.zeros b.type b.length) := by
  rw [view_eq_some hb, Variable.zeros]
  congr 2
  refine List.eq_replicate_iff.2 ⟨by simp [addresses], fun v hv => ?_⟩
  obtain ⟨x, hx, rfl⟩ := List.mem_map.1 hv
  obtain ⟨i, hi, rfl⟩ := List.mem_map.1 hx
  have hfree := h.within.fresh hb hleft i (List.mem_range.1 hi)
  exact htidy _ (.inl hfree) fun hx => h.taken hx hfree

theorem view_again (h : Enclosed held true outer [] test a c e d) {bits : Nat}
    (cells : Int → BitVec bits) : view d.bindings cells = view e.bindings cells := by
  funext name
  simp only [view, h.within.kept rfl List.not_mem_nil]
  rfl

theorem idle_again (h : Enclosed held true outer [] test a c e d) (x : Int) (hx : e.Idle x) :
    d.Idle x := by
  by_cases hfree : e.layout.status x = .free
  · cases hstatus : d.layout.status x with
    | free => exact .inl hstatus
    | temp => exact .inr hstatus
    | reserved =>
        obtain ⟨r, hr, -⟩ := (h.sound.reserved x).1 hstatus
        rw [h.sound.outside h.outside] at hr
        cases hr
    | named name i type => exact absurd (h.within.marked rfl hstatus hfree).1 List.not_mem_nil
  · rw [Idle, h.within.live hfree]
    exact hx

end Enclosed

section

variable {held held' : Int → Prop} {looped : Bool} {outer left : List String} {test : Node}
  {a a' : Int} {c c' d d' e e' f f' : Compilation} {s : Setting} {w w' : World s.bits}

theorem Enclosed.env_skip (h : Enclosed held looped outer left test a c e d)
    (h' : Enclosed held' looped outer left test a' c' e' d')
    (ht : Twin (Also a held) (Also a' held') (e.emit "[") (e'.emit "[") w w')
    (hshapes : shapes d.bindings = shapes d'.bindings) :
    view d.bindings w.cells = view d'.bindings w'.cells := by
  funext name
  have hshape := congrFun hshapes name
  cases hb : d.bindings.find? name with
  | none =>
      have hb' : d'.bindings.find? name = none := by simpa [shapes, hb] using hshape.symm
      simp [view, hb, hb']
  | some b =>
      obtain ⟨b', hb', htype, hlength⟩ : ∃ b', d'.bindings.find? name = some b' ∧
          b'.type = b.type ∧ b'.length = b.length := by
        simpa [shapes, hb] using hshape.symm
      by_cases hleft : name ∈ left
      · rw [h.zero_skip ht.tidy hb hleft, h'.zero_skip ht.tidy' hb' hleft, htype, hlength]
      · have hsame := congrFun ht.env name
        rwa [view_eq_some (h.within.bound hb hleft), view_eq_some (h'.within.bound hb' hleft),
          ← view_eq_some hb, ← view_eq_some hb'] at hsame

theorem Enclosed.skip (h : Enclosed held looped outer left test a c e d)
    (h' : Enclosed held' looped outer left test a' c' e' d') (hf : Same d f) (hf' : Same d' f')
    (hpointer : f.pointer = a) (hpointer' : f'.pointer = a')
    (ht : Twin (Also a held) (Also a' held') (e.emit "[") (e'.emit "[") w w')
    (hshapes : shapes d.bindings = shapes d'.bindings) (hzero : w.cells a = 0)
    (hzero' : w'.cells a' = 0) :
    Twin held held' (f.freeCondition a) (f'.freeCondition a') w w' := by
  obtain ⟨hbindings, -, hidle⟩ := h.closed hf
  obtain ⟨hbindings', -, hidle'⟩ := h'.closed hf'
  refine ⟨?_, ?_, ?_, ht.input, ht.printed, h.tidy_skip ht.tidy hzero hidle,
    h'.tidy_skip ht.tidy' hzero' hidle'⟩
  · rw [pointer_freeCondition, hpointer, ← h.opens.pointer]
    exact ht.pointer
  · rw [pointer_freeCondition, hpointer', ← h'.opens.pointer]
    exact ht.pointer'
  · rw [hbindings, hbindings']
    exact h.env_skip h' ht hshapes

theorem Enclosed.again (h : Enclosed held true outer [] test a c e d)
    (h' : Enclosed held' true outer [] test a' c' e' d')
    (ht : Twin (Also a held) (Also a' held') d d' w w') :
    Twin (Also a held) (Also a' held') (e.emit "[") (e'.emit "[")
      { w with pointer := a } { w' with pointer := a' } := by
  refine ⟨h.opens.pointer.symm, h'.opens.pointer.symm, ?_, ht.input, ht.printed,
    ht.tidy.congr h.idle_again, ht.tidy'.congr h'.idle_again⟩
  exact (h.view_again w.cells).symm.trans (ht.env.trans (h'.view_again w'.cells))

theorem Opens.same (h : Opens test a c e) (h' : Opens test a' c' e')
    (ht : Twin held held' (e.emit "[") (e'.emit "[") w w') {place : String × Int}
    (hp : test.place? = some place) : w'.cells a' = w.cells a := by
  obtain ⟨name, i⟩ := place
  obtain ⟨b, hb, hi, rfl⟩ := h.place hp
  obtain ⟨b', hb', hi', rfl⟩ := h'.place hp
  have hsame : (view e.bindings w.cells).element name i =
      (view e'.bindings w'.cells).element name i := congrArg (Env.element · name i) ht.env
  rw [element_view hb hi, element_view hb' hi'] at hsame
  exact (Option.some.inj hsame).symm

theorem Enclosed.mirrors (h : Enclosed held looped outer left test a c e d)
    (h' : Enclosed held' looped outer left test a' c' e' d') (hf : Same d f) (hf' : Same d' f')
    (hshaped : shapes e.bindings = shapes e'.bindings → shapes d.bindings = shapes d'.bindings)
    {k k' : Code} (hk : Emits d.layout.highWater e f k) (hk' : Emits d'.layout.highWater e' f' k')
    (hloop : ∀ {s : Setting} {w w' : World s.bits},
      Twin (Also a held) (Also a' held') (e.emit "[") (e'.emit "[") w w' →
      w'.cells a' = w.cells a →
      Shadows k k' w w' (Twin held held' (f.freeCondition a) (f'.freeCondition a'))) :
    Mirrors held held' c c' (f.freeCondition a) (f'.freeCondition a') := by
  obtain ⟨hbindings, hwater, -⟩ := h.closed hf
  obtain ⟨hbindings', hwater', -⟩ := h'.closed hf'
  obtain ⟨l, hl, hopen⟩ := h.opens.code
  obtain ⟨l', hl', hopen'⟩ := h'.opens.code
  refine ⟨fun hs => ?_, l ++ k, l' ++ k', ?_, ?_, fun {s w w'} ht => ?_⟩
  · rw [hbindings, hbindings']
    exact hshaped (by rw [h.opens.ext.bindings, h'.opens.ext.bindings, hs])
  · rw [hwater]
    exact (hl.mono h.grows).trans (emits_freeCondition hk a)
  · rw [hwater']
    exact (hl'.mono h'.grows).trans (emits_freeCondition hk' a')
  · obtain ⟨cells, hcells, hview, hvalue, htidy⟩ := hopen ht.pointer ht.tidy
    obtain ⟨cells', hcells', hview', hvalue', htidy'⟩ := hopen' ht.pointer' ht.tidy'
    refine .before hcells hcells' (hloop ⟨h.opens.pointer.symm, h'.opens.pointer.symm,
      hview.trans (ht.env.trans hview'.symm), ht.input, ht.printed, htidy, htidy'⟩ ?_)
    rw [ht.env, hvalue'] at hvalue
    exact Option.some.inj hvalue

theorem conditional_mirrors (h : Enclosed held looped outer left test a c e d)
    (h' : Enclosed held' looped outer left test a' c' e' d')
    (hbody : Mirrors (Also a held) (Also a' held') (e.emit "[") (e'.emit "[") d d')
    (hclose : closeConditional a d = .ok () f) (hclose' : closeConditional a' d' = .ok () f') :
    Mirrors held held' c c' f f' := by
  rw [closeConditional, modify_ok] at hclose hclose'
  subst hclose hclose'
  have hf : Same d ((d.clear a).emit "]") := (Same.clear d a).trans (.emit _ _)
  have hf' : Same d' ((d'.clear a').emit "]") := (Same.clear d' a').trans (.emit _ _)
  obtain ⟨hbindings, -, hidle⟩ := h.closed hf
  obtain ⟨hbindings', -, hidle'⟩ := h'.closed hf'
  obtain ⟨l, l', hl, hl', hshadows⟩ := hbody.code
  obtain ⟨m, hm, hclear⟩ := turns_clear h.bounds.2 h.bounds.1
  obtain ⟨m', hm', hclear'⟩ := turns_clear h'.bounds.2 h'.bounds.1
  refine h.mirrors h' hf hf' hbody.shaped ((hl.trans hm).loop h.opens.pointer.symm)
    ((hl'.trans hm').loop h'.opens.pointer.symm) fun {s w w'} ht hsame =>
      .once ?_ (fun hzero => ?_) fun _ => ?_
  · rw [h.opens.read ht.pointer, h'.opens.read ht.pointer', hsame]
  · rw [h.opens.read ht.pointer] at hzero
    exact h.skip h' hf hf' rfl rfl ht (hbody.shaped ht.shapes_eq) hzero (hsame.trans hzero)
  · refine (hshadows ht).append fun {v v'} hv =>
      .of_runs (hclear s v hv.pointer) (hclear' s v' hv.pointer') ?_
    refine ⟨Function.update_self .., Function.update_self .., ?_, ?_, ?_, hv.input, hv.printed,
      Enclosed.tidy_close hv.tidy hidle, Enclosed.tidy_close hv.tidy' hidle'⟩
    · rw [pointer_freeCondition]
      rfl
    · rw [pointer_freeCondition]
      rfl
    · rw [hbindings, hbindings', h.view_cleared, h'.view_cleared, hv.env]

theorem loop_mirrors (h : Enclosed held true outer [] test a c e d)
    (h' : Enclosed held' true outer [] test a' c' e' d')
    (hbody : Mirrors (Also a held) (Also a' held') (e.emit "[") (e'.emit "[") d d')
    (hclose : closeLoop a d = .ok () f) (hclose' : closeLoop a' d' = .ok () f') :
    Mirrors held held' c c' f f' := by
  rw [closeLoop, modify_ok] at hclose hclose'
  subst hclose hclose'
  have hf : Same d ((d.moveTo a).emit "]") := (Same.moveTo d a).trans (.emit _ _)
  have hf' : Same d' ((d'.moveTo a').emit "]") := (Same.moveTo d' a').trans (.emit _ _)
  obtain ⟨l, l', hl, hl', hshadows⟩ := hbody.code
  obtain ⟨m, hm, hmove⟩ := turns_moveTo h.bounds.2 h.bounds.1
  obtain ⟨m', hm', hmove'⟩ := turns_moveTo h'.bounds.2 h'.bounds.1
  refine h.mirrors h' hf hf' hbody.shaped ((hl.trans hm).loop h.opens.pointer.symm)
    ((hl'.trans hm').loop h'.opens.pointer.symm) fun {s w w'} ht hsame => ?_
  -- From round to round the tapes agree as where the loops were opened, and so do the tests: a body
  -- leaves a computed one alone, and one that names an element goes with the variables.
  refine (Shadows.loop (Q := fun v v' => Twin (Also a held) (Also a' held') (e.emit "[")
    (e'.emit "[") v v' ∧ v'.cells a' = v.cells a) (fun hv => ?_) (fun {v v'} hv => ?_)
    ⟨ht, hsame⟩).tell ?_
  · rw [h.opens.read hv.1.pointer, h'.opens.read hv.1.pointer', hv.2]
  · have hcomputed {u u' : World s.bits} (hrun : Runs s l v (.done u))
        (hrun' : Runs s l' v' (.done u')) (hp : test.place? = none) : u'.cells a' = u.cells a := by
      rw [h.unchanged hp hl hv.1.pointer hrun, h'.unchanged hp hl' hv.1.pointer' hrun', hv.2]
    refine ((hshadows hv.1).tell fun hrun hrun' hu => And.intro hu (hcomputed hrun hrun')).append
      fun {u u'} hu => .of_runs (hmove s u hu.1.pointer) (hmove' s u' hu.1.pointer') ?_
    have hnext := h.again h' hu.1
    refine ⟨hnext, ?_⟩
    cases hp : test.place? with
    | none => exact hu.2 hp
    | some place => exact h.opens.same h'.opens hnext hp
  · rintro v v' - - ⟨hv, hzero⟩
    rw [h.opens.read hv.1.pointer] at hzero
    exact h.skip h' hf hf' rfl rfl hv.1 (hbody.shaped hv.1.shapes_eq) hzero (hv.2.trans hzero)

end

namespace Lowered

variable {options : CompileOptions} {line : Int} {node test : Node} {body rest : List Node}
  {c d : Compilation}

theorem of_nil (h : Lowered options [] c d) : Noted c d := by
  generalize hflat : ([] : List Node) = flat at h
  induction h with
  | nil => exact .refl _
  | noted hn _ ih => exact hn.trans (ih hflat)
  | plain | conditional | loop => cases hflat

theorem of_plain (h : Lowered options (node :: rest) c d) (hplain : node.isPlain = true) :
    ∃ c₀ call c₁, Noted c c₀ ∧ form options call node c₀ = .ok () c₁ ∧
      Lowered options rest c₁ d := by
  generalize hflat : node :: rest = flat at h
  induction h with
  | nil => cases hflat
  | noted hn _ ih =>
      obtain ⟨c₀, call, c₁, hn', hrest⟩ := ih hflat
      exact ⟨c₀, call, c₁, hn.trans hn', hrest⟩
  | plain _ hform hrest =>
      cases hflat
      exact ⟨_, _, _, .refl _, hform, hrest⟩
  | conditional | loop =>
      cases hflat
      cases hplain

theorem of_conditional (h : Lowered options (.conditional line test body :: rest) c d) :
    ∃ c₀ a c₁ c₂ c₃, Noted c c₀ ∧ openLoop options test c₀ = .ok a c₁ ∧ Lowered options body c₁ c₂ ∧
      closeConditional a c₂ = .ok () c₃ ∧ Lowered options rest c₃ d := by
  generalize hflat : .conditional line test body :: rest = flat at h
  induction h with
  | nil | loop => cases hflat
  | noted hn _ ih =>
      obtain ⟨c₀, a, c₁, c₂, c₃, hn', hrest⟩ := ih hflat
      exact ⟨c₀, a, c₁, c₂, c₃, hn.trans hn', hrest⟩
  | plain hplain =>
      cases hflat
      cases hplain
  | conditional hopen hbody hclose hrest =>
      cases hflat
      exact ⟨_, _, _, _, _, .refl _, hopen, hbody, hclose, hrest⟩

theorem of_loop (h : Lowered options (.loop line test body :: rest) c d) :
    ∃ c₀ a c₁ c₂ c₃, Noted c c₀ ∧ openLoop options test c₀ = .ok a c₁ ∧ Lowered options body c₁ c₂ ∧
      closeLoop a c₂ = .ok () c₃ ∧ Lowered options rest c₃ d := by
  generalize hflat : .loop line test body :: rest = flat at h
  induction h with
  | nil | conditional => cases hflat
  | noted hn _ ih =>
      obtain ⟨c₀, a, c₁, c₂, c₃, hn', hrest⟩ := ih hflat
      exact ⟨c₀, a, c₁, c₂, c₃, hn.trans hn', hrest⟩
  | plain hplain =>
      cases hflat
      cases hplain
  | loop hopen hbody hclose hrest =>
      cases hflat
      exact ⟨_, _, _, _, _, .refl _, hopen, hbody, hclose, hrest⟩

end Lowered

structure Inside (held : Int → Prop) (looped : Bool) (outer own : List String)
    (b c : Compilation) : Prop where
  sound : Sound c
  outside : c.unsafePointer = none
  within : Within looped outer own b c
  held : ∀ x, held x → b.layout.status x ≠ .free

namespace Inside

variable {options : CompileOptions} {held : Int → Prop} {looped inner : Bool}
  {outer own own' left : List String} {node test : Node} {body : List Node} {a : Int}
  {b c c₁ c₂ d : Compilation}

theorem live (h : Inside held looped outer own b c) (x : Int) (hx : held x) :
    c.layout.status x ≠ .free := by
  rw [h.within.live (h.held x hx)]
  exact h.held x hx

theorem noted (h : Inside held looped outer own b c) (hn : Noted c d) :
    Inside held looped outer own b d :=
  ⟨hn.sound h.sound, hn.unsafePointer.trans h.outside, h.within.noted hn, h.held⟩

theorem next (h : Inside held looped outer own b c) (hnode : Lowered options [node] c d)
    (hcodes : ∀ code ∈ Node.verbatimsIn [node], code = "&")
    (hown : node.own? looped outer own = some own') : Inside held looped outer own' b d := by
  obtain ⟨hkeeps, hnone⟩ := hnode.keeps h.sound h.outside
  refine ⟨hkeeps.sound, hnone, hnode.within h.sound h.outside hcodes ?_ h.within, h.held⟩
  rw [Node.ownIn?, hown]
  rfl

theorem enclosed (h : Inside held looped outer own b c)
    (hopen : openLoop options test c = .ok a c₁) (hbody : Lowered options body c₁ c₂)
    (hcodes : ∀ code ∈ Node.verbatimsIn body, code = "&")
    (hleft : Node.ownIn? inner (outer ++ own) [] body = some left) :
    ∃ e, c₁ = Compilation.emit e "[" ∧ Enclosed held inner (outer ++ own) left test a c e c₂ ∧
      Inside (Also a held) inner (outer ++ own) [] c₁ c₁ := by
  obtain ⟨hsound, hpointer⟩ := opened_sound h.sound hopen
  have hnone := hpointer.trans h.outside
  have hin : Within inner (outer ++ own) [] c₁ c₁ := h.within.opened h.sound hopen
  obtain ⟨hkeeps, hend⟩ := hbody.keeps hsound hnone
  obtain ⟨e, rfl, hopens⟩ := openLoop_opens h.sound hopen
  have henclosed : Enclosed held inner (outer ++ own) left test a c e c₂ :=
    ⟨hopens, hbody.within hsound hnone hcodes hleft hin, h.live, hend, _, _, hcodes, hkeeps⟩
  exact ⟨e, rfl, henclosed, hsound, hnone, hin, fun _ => henclosed.taken⟩

theorem cons {options' : CompileOptions} {held' : Int → Prop} {rest : List Node}
    {b' c' c₁' d' : Compilation} (h : Inside held looped outer own b c)
    (h' : Inside held' looped outer own b' c')
    (hcodes : ∀ code ∈ Node.verbatimsIn [node], code = "&")
    (hown : node.own? looped outer own = some own') (hnode : Lowered options [node] c c₁)
    (hnode' : Lowered options' [node] c' c₁') (hfirst : Mirrors held held' c c' c₁ c₁')
    (hrest : Lowered options rest c₁ d) (hrest' : Lowered options' rest c₁' d')
    (hmirrors : Inside held looped outer own' b c₁ → Inside held' looped outer own' b' c₁' →
      Mirrors held held' c₁ c₁' d d') : Mirrors held held' c c' d d' := by
  have hc₁ := h.next hnode hcodes hown
  have hc₁' := h'.next hnode' hcodes hown
  exact hfirst.trans (hmirrors hc₁ hc₁') (hrest.keeps hc₁.sound hc₁.outside).1.grows
    (hrest'.keeps hc₁'.sound hc₁'.outside).1.grows

end Inside

theorem Lowered.mirrors {options options' : CompileOptions} {flat : List Node}
    {held held' : Int → Prop} {looped : Bool} {outer own own' : List String}
    {b b' c c' d d' : Compilation} (h : Lowered options flat c d) (h' : Lowered options' flat c' d')
    (hc : Inside held looped outer own b c) (hc' : Inside held' looped outer own b' c')
    (hcodes : ∀ code ∈ Node.verbatimsIn flat, code = "&")
    (hown : Node.ownIn? looped outer own flat = some own') : Mirrors held held' c c' d d' := by
  induction h generalizing held held' looped outer own own' b b' c' d' with
  | nil => exact (Mirrors.refl _ _).noted (.refl _) h'.of_nil
  | noted hn _ ih => exact (ih h' (hc.noted hn) hc' hcodes hown).noted hn (.refl _)
  | @plain node call rest c c₁ d hplain hform hrest ih =>
      obtain ⟨c₀', call', c₁', hn', hform', hrest'⟩ := h'.of_plain hplain
      rw [Gathers.verbatims.cons, List.forall_mem_append] at hcodes
      obtain ⟨own₁, hfirst, hown⟩ := Option.bind_eq_some_iff.1 hown
      have hc₀' := hc'.noted hn'
      have hnode : Mirrors held held' c c₀' c₁ c₁' :=
        plain_mirrors hplain hc.sound hc₀'.sound hc.outside hc₀'.outside
          (by simpa [Node.verbatimsIn] using hcodes.1) hc.live hc₀'.live hform hform'
      exact (hc.cons hc₀' hcodes.1 hfirst (.plain hplain hform .nil) (.plain hplain hform' .nil)
        hnode hrest hrest' fun hd hd' => ih hrest' hd hd' hcodes.2 hown).noted (.refl _) hn'
  | @conditional line test body rest a c c₁ c₂ c₃ d hopen hbody hclose hrest ihbody ih =>
      obtain ⟨c₀', a', c₁', c₂', c₃', hn', hopen', hbody', hclose', hrest'⟩ := h'.of_conditional
      rw [Gathers.verbatims.cons, List.forall_mem_append] at hcodes
      obtain ⟨own₁, hfirst, hown⟩ := Option.bind_eq_some_iff.1 hown
      obtain ⟨left, hleft, -⟩ := Option.bind_eq_some_iff.1 hfirst
      have hc₀' := hc'.noted hn'
      have hinner : ∀ code ∈ Node.verbatimsIn body, code = "&" := by
        simpa only [Gathers.verbatims.conditional] using hcodes.1
      obtain ⟨e, rfl, henclosed, hin⟩ := hc.enclosed hopen hbody hinner hleft
      obtain ⟨e', rfl, henclosed', hin'⟩ := hc₀'.enclosed hopen' hbody' hinner hleft
      have hnode : Mirrors held held' c c₀' c₃ c₃' := conditional_mirrors henclosed henclosed'
        (ihbody hbody' hin hin' hinner hleft) hclose hclose'
      exact (hc.cons hc₀' hcodes.1 hfirst (.conditional hopen hbody hclose .nil)
        (.conditional hopen' hbody' hclose' .nil) hnode hrest hrest' fun hd hd' =>
          ih hrest' hd hd' hcodes.2 hown).noted (.refl _) hn'
  | @loop line test body rest a c c₁ c₂ c₃ d hopen hbody hclose hrest ihbody ih =>
      obtain ⟨c₀', a', c₁', c₂', c₃', hn', hopen', hbody', hclose', hrest'⟩ := h'.of_loop
      rw [Gathers.verbatims.cons, List.forall_mem_append] at hcodes
      obtain ⟨own₁, hfirst, hown⟩ := Option.bind_eq_some_iff.1 hown
      obtain ⟨left, hleft, hnothing⟩ := Option.bind_eq_some_iff.1 hfirst
      obtain rfl : left = [] := by
        by_contra hne
        rw [if_pos hne] at hnothing
        cases hnothing
      have hc₀' := hc'.noted hn'
      have hinner : ∀ code ∈ Node.verbatimsIn body, code = "&" := by
        simpa only [Gathers.verbatims.loop] using hcodes.1
      obtain ⟨e, rfl, henclosed, hin⟩ := hc.enclosed hopen hbody hinner hleft
      obtain ⟨e', rfl, henclosed', hin'⟩ := hc₀'.enclosed hopen' hbody' hinner hleft
      have hnode : Mirrors held held' c c₀' c₃ c₃' := loop_mirrors henclosed henclosed'
        (ihbody hbody' hin hin' hinner hleft) hclose hclose'
      exact (hc.cons hc₀' hcodes.1 hfirst (.loop hopen hbody hclose .nil)
        (.loop hopen' hbody' hclose' .nil) hnode hrest hrest' fun hd hd' =>
          ih hrest' hd hd' hcodes.2 hown).noted (.refl _) hn'

end TapeCompiler
