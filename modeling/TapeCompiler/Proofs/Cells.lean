import TapeCompiler.Proofs.Emission
import TapeCompiler.Proofs.Sound

namespace TapeCompiler

namespace Compilation

def Silent (c c' : Compilation)
    (P : ∀ bits : Nat, (Int → BitVec bits) → (Int → BitVec bits) → Prop) : Prop :=
  ∃ k, Emits c'.layout.highWater c c' k ∧
    ∀ (s : Setting) (w : World s.bits), w.pointer = c.pointer →
      ∃ cells, Runs s k w (.done { w with cells, pointer := c'.pointer }) ∧ P s.bits w.cells cells

namespace Silent

variable {c d e : Compilation}
  {P Q R : ∀ bits : Nat, (Int → BitVec bits) → (Int → BitVec bits) → Prop}

theorem trans (h : Silent c d P) (h' : Silent d e Q)
    (hle : d.layout.highWater ≤ e.layout.highWater)
    (hR : ∀ {bits : Nat} {x y z : Int → BitVec bits}, P bits x y → Q bits y z → R bits x z) :
    Silent c e R := by
  obtain ⟨k, hk, hr⟩ := h
  obtain ⟨l, hl, hr'⟩ := h'
  refine ⟨k ++ l, (hk.mono hle).trans hl, fun s w hw => ?_⟩
  obtain ⟨y, hy, hP⟩ := hr s w hw
  obtain ⟨z, hz, hQ⟩ := hr' s { w with cells := y, pointer := d.pointer } rfl
  exact ⟨z, hy.append hz, hR hP hQ⟩

theorem imp (h : Silent c d P)
    (hQ : ∀ {bits : Nat} {x y : Int → BitVec bits}, P bits x y → Q bits x y) : Silent c d Q := by
  obtain ⟨k, hk, hr⟩ := h
  refine ⟨k, hk, fun s w hw => ?_⟩
  obtain ⟨y, hy, hP⟩ := hr s w hw
  exact ⟨y, hy, hQ hP⟩

theorem of_turns {f : ∀ bits : Nat, (Int → BitVec bits) → Int → BitVec bits}
    (h : Turns d.layout.highWater c d f)
    (hP : ∀ {bits : Nat} (x : Int → BitVec bits), P bits x (f bits x)) : Silent c d P := by
  obtain ⟨k, hk, hr⟩ := h
  exact ⟨k, hk, fun s w hw => ⟨_, hr s w hw, hP _⟩⟩

theorem once (h : Silent (c.emit "[") d P) (hp : d.pointer = c.pointer)
    (h0 : ∀ {bits : Nat} {x y : Int → BitVec bits}, P bits x y → y c.pointer = 0)
    (hQ : ∀ {bits : Nat} {x y : Int → BitVec bits}, x c.pointer ≠ 0 → P bits x y → Q bits x y)
    (hQ0 : ∀ {bits : Nat} {x : Int → BitVec bits}, x c.pointer = 0 → Q bits x x) :
    Silent c (d.emit "]") Q := by
  obtain ⟨k, hk, hr⟩ := h
  refine ⟨.loop k .done, hk.loop hp, fun s w hw => ?_⟩
  by_cases hz : w.cells c.pointer = 0
  · refine ⟨w.cells, .loop_end (by rwa [World.read, hw]) ?_, hQ0 hz⟩
    have hsame : ({ w with pointer := (d.emit "]").pointer } : World s.bits) = w := by
      rw [pointer_emit, hp, ← hw]
    rw [hsame]
    exact .done
  · obtain ⟨y, hy, hP⟩ := hr s w hw
    refine ⟨y, .loop_step (by rwa [World.read, hw]) hy (.loop_end ?_ .done), hQ hz hP⟩
    simp only [World.read, hp]
    exact h0 hP

end Silent

structure Step (c c' : Compilation)
    (P : ∀ bits : Nat, (Int → BitVec bits) → (Int → BitVec bits) → Prop) : Prop where
  ext : Extends c c'
  sound : Sound c'
  runs : Silent c c' P

namespace Step

variable {c d e : Compilation}
  {P Q R : ∀ bits : Nat, (Int → BitVec bits) → (Int → BitVec bits) → Prop}

theorem trans (h : Step c d P) (h' : Step d e Q)
    (hR : ∀ {bits : Nat} {x y z : Int → BitVec bits}, P bits x y → Q bits y z → R bits x z) :
    Step c e R :=
  ⟨h.ext.trans h'.ext, h'.sound, h.runs.trans h'.runs h'.ext.grows hR⟩

theorem comp (h : Step c d P) (h' : Step d e Q) :
    Step c e fun bits x z => ∃ y, P bits x y ∧ Q bits y z :=
  h.trans h' fun hP hQ => ⟨_, hP, hQ⟩

theorem imp (h : Step c d P)
    (hQ : ∀ {bits : Nat} {x y : Int → BitVec bits}, P bits x y → Q bits x y) : Step c d Q :=
  ⟨h.ext, h.sound, h.runs.imp hQ⟩

theorem allocateTemp (h : Sound c) {a : Int} (hd : c.allocateTemp = (a, d)) :
    Step c d fun _ x y => y = x := by
  obtain ⟨hext, hsound, -, -, hcode, hp⟩ := h.allocateTemp hd
  exact ⟨hext, hsound, .of_turns (.same hcode hp) fun _ => rfl⟩

theorem of_turns (h : Sound c) (hsame : Same c d)
    {f : ∀ bits : Nat, (Int → BitVec bits) → Int → BitVec bits}
    (hp : c.layout.status d.pointer ≠ .free) (hturn : Turns c.layout.highWater c d f) :
    Step c d fun bits x y => y = f bits x := by
  have hb := h.dense.bounds hp
  rw [← hsame.layout] at hturn hb
  exact ⟨.of_same hsame, h.of_same hsame (by omega), .of_turns hturn fun _ => rfl⟩

theorem giveBack (h : Step c d P) {a : Int} (hfree : c.layout.status a = .free)
    (htemp : d.layout.status a = .temp) : Step c (d.free a) P := by
  have hb := h.sound.dense.bounds (show d.layout.status a ≠ .free by simp [htemp])
  have hwater : (d.free a).layout.highWater = d.layout.highWater := by
    simp only [Compilation.free, Layout.free, Layout.highWater_set _ hb.1]
    omega
  refine ⟨h.ext.free h.sound.dense hfree (by simp [htemp]), h.sound.free htemp, ?_⟩
  refine h.runs.trans (Q := fun _ x y => y = x) (.of_turns (.same rfl rfl) fun _ => rfl)
    (by omega) ?_
  rintro bits x y z hP rfl
  exact hP

theorem turn (h : Step c d P) (hsame : Same d e)
    {f : ∀ bits : Nat, (Int → BitVec bits) → Int → BitVec bits}
    (hp : d.layout.status e.pointer ≠ .free) (hturn : Turns d.layout.highWater d e f)
    (hR : ∀ {bits : Nat} {x y : Int → BitVec bits}, P bits x y → R bits x (f bits y)) :
    Step c e R := by
  refine h.trans (of_turns h.sound hsame hp hturn) ?_
  rintro bits x y z hP rfl
  exact hR hP

theorem once (h : Step (c.emit "[") d P) (hp : d.pointer = c.pointer)
    (h0 : ∀ {bits : Nat} {x y : Int → BitVec bits}, P bits x y → y c.pointer = 0)
    (hQ : ∀ {bits : Nat} {x y : Int → BitVec bits}, x c.pointer ≠ 0 → P bits x y → Q bits x y)
    (hQ0 : ∀ {bits : Nat} {x : Int → BitVec bits}, x c.pointer = 0 → Q bits x x) :
    Step c (d.emit "]") Q :=
  ⟨(Extends.of_same (.emit c "[")).trans (h.ext.trans (.of_same (.emit d "]"))),
    h.sound.of_same (.emit d "]") h.sound.tracked, h.runs.once hp h0 hQ hQ0⟩

end Step

structure Fresh (c c' : Compilation) (a : Int)
    (value : ∀ bits : Nat, (Int → BitVec bits) → BitVec bits) : Prop where
  step : Step c c' fun bits cells cells' =>
    (∀ x, c.layout.status x ≠ .free → cells' x = cells x) ∧
    (∀ x, x ≠ a → cells' x = cells x ∨ cells' x = 0) ∧ cells' a = value bits cells
  free : c.layout.status a = .free
  temp : c'.layout.status a = .temp

def Does (c c' : Compilation)
    (f : ∀ bits : Nat, (Int → BitVec bits) → Int → BitVec bits) : Prop :=
  Step c c' fun bits cells cells' =>
    (∀ x, c.layout.status x ≠ .free → cells' x = f bits cells x) ∧
    (∀ x, c.layout.status x = .free → cells' x = cells x ∨ cells' x = 0)

variable {c : Compilation}

theorem Fresh.live {c' : Compilation} {a : Int}
    {value : ∀ bits : Nat, (Int → BitVec bits) → BitVec bits} (h : Fresh c c' a value) :
    c'.layout.status a ≠ .free := by
  simp [h.temp]

theorem Fresh.ne_of_live {c' : Compilation} {a x : Int}
    {value : ∀ bits : Nat, (Int → BitVec bits) → BitVec bits} (h : Fresh c c' a value)
    (hx : c.layout.status x ≠ .free) : x ≠ a := by
  rintro rfl
  exact hx h.free

theorem Fresh.giveBack {d : Compilation} {a b : Int}
    {value : ∀ bits : Nat, (Int → BitVec bits) → BitVec bits} (h : Fresh c d a value)
    (hfree : c.layout.status b = .free) (htemp : d.layout.status b = .temp) (hne : a ≠ b) :
    Fresh c (d.free b) a value := by
  refine ⟨h.step.giveBack hfree htemp, h.free, ?_⟩
  simp only [Compilation.free, Layout.free, Layout.status_set_of_ne hne, h.temp]

theorem Fresh.of_turns (h : Sound c) {a : Int} {d e : Compilation} (hd : c.allocateTemp = (a, d))
    {f : ∀ bits : Nat, (Int → BitVec bits) → Int → BitVec bits}
    {value : ∀ bits : Nat, (Int → BitVec bits) → BitVec bits} (hsame : Same d e)
    (hp : e.pointer = a)
    (hturn : ∀ bound, 0 ≤ d.pointer ∧ d.pointer < bound → 0 ≤ a ∧ a < bound → Turns bound d e f)
    (hf : ∀ {bits : Nat} (cells : Int → BitVec bits),
      f bits cells = Function.update cells a (value bits cells)) :
    Fresh c e a value := by
  obtain ⟨hext, hsound, hfree, htemp, -, -⟩ := h.allocateTemp hd
  have hlive : d.layout.status a ≠ .free := by simp [htemp]
  have hcode := hturn _ (hsound.tracked_of_live hlive) (hsound.dense.bounds hlive)
  refine ⟨?_, hfree, by rw [hsame.layout, htemp]⟩
  refine (Step.allocateTemp h hd).trans (Step.of_turns hsound hsame (by rwa [hp]) hcode) ?_
  rintro bits x y z rfl rfl
  rw [hf]
  refine ⟨fun x hx => Function.update_of_ne ?_ _ _, fun x hx => .inl (Function.update_of_ne hx _ _),
    Function.update_self ..⟩
  rintro rfl
  exact hx hfree

theorem fresh_constant (h : Sound c) (value : Int) {a : Int} {d : Compilation}
    (hd : c.allocateTemp = (a, d)) :
    Fresh c (d.countAt value a) a fun bits _ => BitVec.ofInt bits value :=
  Fresh.of_turns h hd (Same.countAt _ _ _) (pointer_countAt ..)
    (fun _ ht hb => turns_countAt ht value hb) fun _ => rfl

theorem fresh_greatest (h : Sound c) {a : Int} {d : Compilation} (hd : c.greatest = (a, d)) :
    Fresh c d a fun _ _ => -1 := by
  cases hd
  refine Fresh.of_turns h rfl ((Same.clear _ _).trans (Same.emit _ _)) rfl (fun _ ht hb =>
    (turns_clear ht hb).trans (turns_sign hb .minus)) fun cells => ?_
  simp [Sign.apply]

theorem fresh_zero (h : Sound c) {a : Int} {d : Compilation} (hd : c.allocateTemp = (a, d)) :
    Fresh c (d.clear a) a fun _ _ => 0 :=
  Fresh.of_turns h hd (Same.clear _ _) rfl (fun _ ht hb => turns_clear ht hb) fun _ => rfl

def copyInto (c : Compilation) (source kept back : Int) : Compilation :=
  let c := (((c.clear kept).clear back).moveTo source).emit "["
  let c := (((c.moveTo kept).emit "+").moveTo back).emit "+"
  ((c.moveTo source).emit "-]").drain back source .plus

theorem turns_copyInto {bound source kept back : Int} (hp : 0 ≤ c.pointer ∧ c.pointer < bound)
    (hs : 0 ≤ source ∧ source < bound) (hk : 0 ≤ kept ∧ kept < bound)
    (hb : 0 ≤ back ∧ back < bound) (hks : kept ≠ source) (hbs : back ≠ source) (hbk : back ≠ kept) :
    Turns bound c (c.copyInto source kept back) fun _ cells =>
      Function.update (Function.update cells kept (cells source)) back 0 := by
  let c₁ := ((c.clear kept).clear back).moveTo source
  let c₂ := ((c₁.emit "[").moveTo kept).emit "+"
  let c₃ := (c₂.moveTo back).emit "+"
  have hclear : Turns bound c c₁ _ :=
    ((turns_clear hp hk).trans (turns_clear (c := c.clear kept) hk hb)).trans
      (turns_moveTo (c := (c.clear kept).clear back) hb hs)
  have hbody : Turns bound (c₁.emit "[") ((c₃.moveTo source).emit Sign.minus.code) _ :=
    (((((turns_moveTo (c := c₁.emit "[") hs hk).trans
      (turns_sign (c := (c₁.emit "[").moveTo kept) hk .plus)).trans
      (turns_moveTo (c := c₂) hk hb)).trans (turns_sign (c := c₂.moveTo back) hb .plus)).trans
      (turns_moveTo (c := c₃) hb hs)).trans (turns_sign (c := c₃.moveTo source) hs .minus)
  have hloop := hbody.drainLoop
    (fun x => if x = source then -1 else if x = kept ∨ x = back then 1 else 0) rfl
    (fun bits cells x => by
      simp only [pointer_moveTo, Sign.apply]
      by_cases hx : x = source
      · subst hx
        simp [Ne.symm hks, Ne.symm hbs, sub_eq_add_neg]
      · by_cases hx' : x = back
        · subst hx'
          simp [hbs, hbk]
        · by_cases hx'' : x = kept
          · subst hx''
            simp [hx, hx']
          · simp [hx, hx', hx''])
    (if_pos rfl)
  have hcode : ((c₃.moveTo source).emit Sign.minus.code).emit "]" =
      (c₃.moveTo source).emit "-]" := emit_emit ..
  rw [hcode] at hloop
  have hdrain := turns_drain (c := (c₃.moveTo source).emit "-]") hs hb hs (Ne.symm hbs) .plus
  refine ((hclear.trans hloop).trans hdrain).congr fun bits cells => ?_
  have hpointer : c₁.pointer = source := rfl
  funext x
  simp only [hpointer, Sign.apply]
  by_cases hx : x = source
  · subst hx
    simp [Ne.symm hks, Ne.symm hbs, hbs]
  · by_cases hx' : x = back
    · subst hx'
      simp
    · by_cases hx'' : x = kept
      · subst hx''
        simp [hx, hx', Ne.symm hks, Ne.symm hbs]
      · simp [hx, hx', hx'']

theorem same_copyInto (c : Compilation) (source kept back : Int) :
    Same c (c.copyInto source kept back) :=
  (((((((((Same.clear _ _).trans (.clear _ _)).trans (.moveTo _ _)).trans (.emit _ _)).trans
    (.moveTo _ _)).trans (.emit _ _)).trans (.moveTo _ _)).trans (.emit _ _)).trans
    (.moveTo _ _)).trans ((Same.emit _ _).trans (.drain _ _ _ _))

theorem fresh_copy (h : Sound c) {source a : Int} {d : Compilation}
    (hs : c.layout.status source ≠ .free) (hd : c.copy source = (a, d)) :
    Fresh c d a fun _ cells => cells source := by
  obtain ⟨⟨kept, c₁⟩, hc₁⟩ : ∃ x, c.allocateTemp = x := ⟨_, rfl⟩
  obtain ⟨⟨back, c₂⟩, hc₂⟩ : ∃ x, c₁.allocateTemp = x := ⟨_, rfl⟩
  have hcopy : c.copy source = (kept, (c₂.copyInto source kept back).free back) := by
    simp only [copy, hc₁, hc₂]
    rfl
  obtain ⟨ha, he⟩ := Prod.mk.inj (hcopy.symm.trans hd)
  subst ha he
  obtain ⟨hext₁, hsound₁, hfree₁, htemp₁, -, -⟩ := h.allocateTemp hc₁
  obtain ⟨hext₂, hsound₂, hfree₂, htemp₂, -, -⟩ := hsound₁.allocateTemp hc₂
  have hstep := (Step.allocateTemp h hc₁).trans (Step.allocateTemp hsound₁ hc₂)
    (R := fun _ x y => y = x) (by rintro bits x y z rfl rfl; rfl)
  have hkept : c₂.layout.status kept = .temp := (hext₂.keeps (by simp [htemp₁])).trans htemp₁
  have hlive : c₂.layout.status source ≠ .free := hstep.ext.live hs
  have hfree : c.layout.status back = .free := hext₁.free_of_free hfree₂
  have hks : kept ≠ source := by
    rintro rfl
    exact hs hfree₁
  have hbs : back ≠ source := by
    rintro rfl
    exact hs hfree
  have hbk : back ≠ kept := by
    rintro rfl
    simp [htemp₁] at hfree₂
  have hturn := turns_copyInto (hsound₂.tracked_of_live hlive) (hsound₂.dense.bounds hlive)
    (hsound₂.dense.bounds (by simp [hkept])) (hsound₂.dense.bounds (by simp [htemp₂])) hks hbs hbk
  have hsame := same_copyInto c₂ source kept back
  have hend : c₂.layout.status (c₂.copyInto source kept back).pointer ≠ .free := by
    have hp : (c₂.copyInto source kept back).pointer = back := rfl
    simp [hp, htemp₂]
  have hfresh : Fresh c (c₂.copyInto source kept back) kept fun _ cells => cells source := by
    refine ⟨hstep.trans (Step.of_turns hsound₂ hsame hend hturn) ?_, hfree₁,
      by rw [hsame.layout, hkept]⟩
    rintro bits x y z rfl rfl
    refine ⟨fun x hx => ?_, fun x hx => ?_, ?_⟩
    · have hxk : x ≠ kept := by
        rintro rfl
        exact hx hfree₁
      have hxb : x ≠ back := by
        rintro rfl
        exact hx hfree
      simp [hxk, hxb]
    · by_cases hxb : x = back
      · subst hxb
        exact .inr (by simp)
      · exact .inl (by simp [hx, hxb])
    · simp [Ne.symm hbk]
  exact hfresh.giveBack hfree (by rw [hsame.layout, htemp₂]) (Ne.symm hbk)

end Compilation

end TapeCompiler
