import TapeCompiler.Proofs.Index
import TapeCompiler.Proofs.Reference
import TapeCompiler.Proofs.Success

namespace TapeCompiler

open Compile

namespace Compilation

variable {c d e : Compilation} {a r : Int}
  {value value' : ∀ bits : Nat, (Int → BitVec bits) → BitVec bits}

def view {bits : Nat} (bindings : Table Binding) (cells : Int → BitVec bits) : Env bits :=
  fun name => (bindings.find? name).map fun b => ⟨b.type, (addresses b.base b.length).map cells⟩

theorem view_eq_some {bits : Nat} {bindings : Table Binding} {cells : Int → BitVec bits}
    {name : String} {b : Binding} (hb : bindings.find? name = some b) :
    view bindings cells name = some ⟨b.type, (addresses b.base b.length).map cells⟩ := by
  simp [view, hb]

theorem view_congr {bits : Nat} (h : Coherent c) {x y : Int → BitVec bits}
    (hxy : ∀ v, c.layout.status v ≠ .free → x v = y v) : view c.bindings x = view c.bindings y := by
  funext name
  cases hb : c.bindings.find? name with
  | none => simp [view, hb]
  | some b =>
      rw [view_eq_some hb, view_eq_some hb]
      congr 2
      refine List.map_congr_left fun v hv => hxy v ?_
      obtain ⟨i, hi, rfl⟩ := List.mem_map.1 hv
      simp [h.bound hb i (List.mem_range.1 hi)]

theorem element_view {bits : Nat} {cells : Int → BitVec bits} {name : String} {b : Binding} {i : Int}
    (hb : c.bindings.find? name = some b) (hi : 0 ≤ i ∧ i < b.length) :
    (view c.bindings cells).element name i = some (cells (b.base + i)) := by
  have hlt : i.toNat < b.length := by omega
  have hcast : ((i.toNat : Nat) : Int) = i := by omega
  simp [Env.element, view_eq_some hb, Variable.get?, hi.1, addresses, hlt, hcast]

structure Yields (c c' : Compilation) (a : Int)
    (value : ∀ bits : Nat, (Int → BitVec bits) → BitVec bits) : Prop where
  step : Step c c' fun bits cells cells' =>
    (∀ x, c.layout.status x ≠ .free → cells' x = cells x) ∧
    (∀ x, x ≠ a → cells' x = cells x ∨ cells' x = 0) ∧ cells' a = value bits cells
  place : c.layout.status a = .free ∧ c'.layout.status a = .temp ∨
    ∃ name i type, c.layout.status a = .named name i type

theorem release_temp (h : c.layout.status a = .temp) : c.release a = (c.clear a).free a :=
  if_pos (Layout.isTemp_iff.2 h)

theorem release_kept (h : c.layout.status a ≠ .temp) : c.release a = c :=
  if_neg (mt Layout.isTemp_iff.1 h)

theorem status_release (e : Compilation) {v : Int} (hv : v ≠ a) :
    (e.release a).layout.status v = e.layout.status v := by
  by_cases htemp : e.layout.status a = .temp
  · rw [release_temp htemp]
    simp only [Compilation.free, Layout.free, Layout.status_set_of_ne hv, layout_clear]
  · rw [release_kept htemp]

theorem Fresh.yields (h : Fresh c d a value) : Yields c d a value :=
  ⟨h.step, .inl ⟨h.free, h.temp⟩⟩

namespace Yields

theorem own (h : Sound c) (ha : ∃ name i type, c.layout.status a = .named name i type) :
    Yields c c a fun _ cells => cells a :=
  ⟨⟨.refl c, h, .of_turns (.same rfl rfl) fun _ => ⟨fun _ _ => rfl, fun _ _ => .inl rfl, rfl⟩⟩,
    .inr ha⟩

theorem fresh (h : Yields c d a value) (ha : d.layout.status a = .temp) : Fresh c d a value := by
  rcases h.place with ⟨hfree, htemp⟩ | ⟨name, i, type, hnamed⟩
  · exact ⟨h.step, hfree, htemp⟩
  · rw [h.step.ext.keeps (by simp [hnamed]), hnamed] at ha
    cases ha

theorem live (h : Yields c d a value) : d.layout.status a ≠ .free := by
  rcases h.place with ⟨-, htemp⟩ | ⟨name, i, type, hnamed⟩
  · simp [htemp]
  · exact h.step.ext.live (by simp [hnamed])

theorem settle (h : Yields c d a value)
    {Q R : ∀ bits : Nat, (Int → BitVec bits) → (Int → BitVec bits) → Prop} (h' : Step d e Q)
    (hfree : c.layout.status a = .free → ∀ {bits : Nat} {x y z : Int → BitVec bits},
      (∀ v, c.layout.status v ≠ .free → y v = x v) → (∀ v, v ≠ a → y v = x v ∨ y v = 0) →
      y a = value bits x → Q bits y z → R bits x (Function.update z a 0))
    (hown : c.layout.status a ≠ .free → ∀ {bits : Nat} {x y z : Int → BitVec bits},
      (∀ v, c.layout.status v ≠ .free → y v = x v) → (∀ v, v ≠ a → y v = x v ∨ y v = 0) →
      y a = value bits x → Q bits y z → R bits x z) :
    Step c (e.release a) R := by
  have hkept := h'.ext.keeps h.live
  by_cases ha : d.layout.status a = .temp
  · have hfresh := h.fresh ha
    have htemp : e.layout.status a = .temp := hkept.trans ha
    have hlive : e.layout.status a ≠ .free := by simp [htemp]
    rw [release_temp htemp]
    refine Step.giveBack ((h.step.comp h').turn (Same.clear e a) hlive
      (turns_clear (h'.sound.tracked_of_live hlive) (h'.sound.dense.bounds hlive)) ?_) hfresh.free
      (by rw [layout_clear, htemp])
    rintro bits x z ⟨y, ⟨hkeep, htidy, hval⟩, hQ⟩
    exact hfree hfresh.free hkeep htidy hval hQ
  · rw [release_kept (by rwa [hkept])]
    refine h.step.trans h' ?_
    rintro bits x y z ⟨hkeep, htidy, hval⟩ hQ
    rcases h.place with ⟨-, htemp⟩ | ⟨name, i, type, hnamed⟩
    · exact absurd htemp ha
    · exact hown (by simp [hnamed]) hkeep htidy hval hQ

theorem consume (h : Yields c d a value) (h' : Fresh d e r value')
    {total : ∀ bits : Nat, (Int → BitVec bits) → BitVec bits}
    (htotal : ∀ {bits : Nat} {x y : Int → BitVec bits},
      (∀ v, c.layout.status v ≠ .free → y v = x v) → y a = value bits x →
      value' bits y = total bits x) :
    Fresh c (e.release a) r total := by
  have hra : r ≠ a := Ne.symm (h'.ne_of_live h.live)
  refine ⟨h.settle h'.step ?_ ?_, h.step.ext.free_of_free h'.free,
    by rw [status_release e hra, h'.temp]⟩
  · rintro ha bits x y z hkeep htidy hval ⟨hkeep', htidy', hval'⟩
    refine ⟨fun v hv => ?_, fun v hv => ?_, ?_⟩
    · rw [Function.update_of_ne (by rintro rfl; exact hv ha), hkeep' v (h.step.ext.live hv),
        hkeep v hv]
    · by_cases hva : v = a
      · subst hva
        exact .inr (Function.update_self ..)
      · rw [Function.update_of_ne hva]
        rcases htidy' v hv with hz | hz
        · rw [hz]
          exact htidy v hva
        · exact .inr hz
    · rw [Function.update_of_ne hra, hval']
      exact htotal hkeep hval
  · rintro ha bits x y z hkeep htidy hval ⟨hkeep', htidy', hval'⟩
    refine ⟨fun v hv => ?_, fun v hv => ?_, hval'.trans (htotal hkeep hval)⟩
    · rw [hkeep' v (h.step.ext.live hv), hkeep v hv]
    · rcases htidy' v hv with hz | hz
      · rw [hz]
        by_cases hva : v = a
        · subst hva
          exact .inl (hkeep v ha)
        · exact htidy v hva
      · exact .inr hz

theorem consumeDoes (h : Yields c d a value)
    {f g : ∀ bits : Nat, (Int → BitVec bits) → Int → BitVec bits} (h' : Does d e f)
    (hf : ∀ {bits : Nat} (y : Int → BitVec bits) {v : Int}, c.layout.status v = .free →
      f bits y v = y v)
    (hg : ∀ {bits : Nat} {x y : Int → BitVec bits},
      (∀ v, c.layout.status v ≠ .free → y v = x v) → y a = value bits x →
      ∀ v, c.layout.status v ≠ .free → f bits y v = g bits x v) :
    Does c (e.release a) g := by
  have hrest {bits : Nat} {x y z : Int → BitVec bits} {v : Int} (hv : c.layout.status v = .free)
      (hva : y v = x v ∨ y v = 0) (hdoes : d.layout.status v ≠ .free → z v = f bits y v)
      (htidy : d.layout.status v = .free → z v = y v ∨ z v = 0) : z v = x v ∨ z v = 0 := by
    by_cases hvd : d.layout.status v = .free
    · rcases htidy hvd with hz | hz
      · rwa [hz]
      · exact .inr hz
    · rwa [hdoes hvd, hf y hv]
  refine h.settle h' ?_ ?_
  · rintro ha bits x y z hkeep htidy hval ⟨hdoes, htidy'⟩
    refine ⟨fun v hv => ?_, fun v hv => ?_⟩
    · rw [Function.update_of_ne (by rintro rfl; exact hv ha), hdoes v (h.step.ext.live hv)]
      exact hg hkeep hval v hv
    · by_cases hva : v = a
      · subst hva
        exact .inr (Function.update_self ..)
      · rw [Function.update_of_ne hva]
        exact hrest hv (htidy v hva) (hdoes v) (htidy' v)
  · rintro ha bits x y z hkeep htidy hval ⟨hdoes, htidy'⟩
    refine ⟨fun v hv => ?_, fun v hv => ?_⟩
    · rw [hdoes v (h.step.ext.live hv)]
      exact hg hkeep hval v hv
    · exact hrest hv (htidy v (by rintro rfl; exact ha hv)) (hdoes v) (htidy' v)

end Yields

theorem Fresh.alter (h : Fresh c d a value)
    {f : ∀ bits : Nat, (Int → BitVec bits) → Int → BitVec bits} (h' : Does d e f)
    (hf : ∀ {bits : Nat} (y : Int → BitVec bits) {v : Int}, v ≠ a → f bits y v = y v)
    (hvalue : ∀ {bits : Nat} {x y : Int → BitVec bits},
      (∀ v, c.layout.status v ≠ .free → y v = x v) → y a = value bits x →
      f bits y a = value' bits x) : Fresh c e a value' := by
  refine ⟨h.step.trans h' ?_, h.free, (h'.ext.keeps h.live).trans h.temp⟩
  rintro bits x y z ⟨hkeep, htidy, hval⟩ ⟨hdoes, htidy'⟩
  refine ⟨fun v hv => ?_, fun v hv => ?_, ?_⟩
  · rw [hdoes v (h.step.ext.live hv), hf y (h.ne_of_live hv), hkeep v hv]
  · by_cases hvd : d.layout.status v = .free
    · rcases htidy' v hvd with hz | hz
      · rw [hz]
        exact htidy v hv
      · exact .inr hz
    · rw [hdoes v hvd, hf y hv]
      exact htidy v hv
  · rw [hdoes a h.live]
    exact hvalue hkeep hval

def Means (c : Compilation) (node : Node)
    (value : ∀ bits : Nat, (Int → BitVec bits) → BitVec bits) : Prop :=
  ∀ (bits : Nat) (cells : Int → BitVec bits),
    (view c.bindings cells).value node = some (value bits cells)

theorem Means.congr (h : Sound c) {node : Node} (hext : Extends c d) (hd : Means d node value)
    {bits : Nat} {x y : Int → BitVec bits} (hxy : ∀ v, c.layout.status v ≠ .free → y v = x v) :
    value bits y = value bits x := by
  have hy := hd bits y
  rw [hext.bindings, view_congr h.toCoherent hxy, ← hext.bindings, hd bits x] at hy
  exact (Option.some.inj hy).symm

theorem Means.of_extends {node : Node} (hext : Extends c d) (hd : Means d node value) :
    Means c node value := by
  intro bits cells
  rw [← hext.bindings]
  exact hd bits cells

theorem readAt_addresses {bits : Nat} (type : CellType) (base : Int) (n : Nat)
    (cells : Int → BitVec bits) (i : BitVec bits) :
    (Variable.mk type ((addresses base n).map cells)).readAt i =
      ((List.range n).map fun k : Nat => if i = k then cells (base + k) else 0).sum := by
  unfold Variable.readAt
  congr 1
  refine List.ext_getElem (by simp [addresses]) fun k hk hk' => ?_
  simp [addresses]

end Compilation

namespace Compile

open Compilation

variable {c d : Compilation} {a r : Int} {options : CompileOptions}

theorem readElement_fresh {name : String} {index : Compile Int} {node : Node} (h : Sound c)
    (hindex : ∀ {a d}, index c = .ok a d → ∃ value, Yields c d a value ∧ Means c node value)
    (hread : readElement name index c = .ok r d) :
    ∃ b value, c.bindings.find? name = some b ∧ Means c node value ∧
      Fresh c d r fun bits cells =>
        (Variable.mk b.type ((addresses b.base b.length).map cells)).readAt (value bits cells) := by
  simp only [readElement, bind_ok, binding_ok, modifyGet_ok, modify_ok, pure_ok] at hread
  obtain ⟨b, _, ⟨hb, rfl⟩, ix, c₁, hix, r', c₂, hr, _, _, rfl, _, c₄, hat, _, _, rfl, rfl, rfl⟩ := hread
  obtain ⟨value, hyields, hmeans⟩ := hindex hix
  have hext := hyields.step.ext
  have hzero := fresh_zero hyields.step.sound hr
  have hcell (k : Nat) (hk : k < b.length) : c₁.layout.status (b.base + k) ≠ .free :=
    hext.live (by simp [h.bound hb k hk])
  have hne (k : Nat) (hk : k < b.length) : b.base + (k : Int) ≠ r' := hzero.ne_of_live (hcell k hk)
  have hixr : ix ≠ r' := hzero.ne_of_live hyields.live
  have hdoes := does_atElement (c := c₂.clear r') hzero.step.sound
    (hzero.step.ext.live hyields.live) b (fun cell c => c.addCopy cell r' .plus)
    (f := fun k _ cells => Function.update cells r' (cells r' + cells (b.base + k)))
    (fun k hk => local_update hzero.live fun hxy => by
      rw [hxy r' hzero.live, hxy _ (hzero.step.ext.live (hcell k hk))])
    (fun k hk e he hsound => does_addCopy hsound
      ((hzero.step.ext.trans he).live (hcell k hk)) (he.live hzero.live) .plus)
  rw [hat] at hdoes
  have hsum : Fresh c₁ c₄ r' fun _ cells =>
      ((List.range b.length).map fun k : Nat => if cells ix = k then cells (b.base + k) else 0).sum := by
    refine hzero.alter hdoes ?_ ?_
    · intro bits y v hv
      rw [selected_read hixr hne, Function.update_of_ne hv]
    · intro bits x y hkeep hval
      rw [selected_read hixr hne, Function.update_self, hval, zero_add, hkeep ix hyields.live]
      congr 1
      refine List.map_congr_left fun k hk => ?_
      rw [hkeep _ (hcell k (List.mem_range.1 hk))]
  refine ⟨b, value, hb, hmeans, hyields.consume hsum ?_⟩
  intro bits x y hkeep hval
  rw [readAt_addresses, hval]
  congr 1
  refine List.map_congr_left fun k hk => ?_
  rw [hkeep _ (by simp [h.bound hb k (List.mem_range.1 hk)])]

theorem join_fresh {right : Node} {a b : Int} {c₁ c₂ c₃ : Compilation} (sign : Sign)
    {va vb : ∀ bits : Nat, (Int → BitVec bits) → BitVec bits} (h : Sound c)
    (ha : Yields c c₁ a va) (hb : Yields c₁ c₂ b vb) (hmeans : Means c₁ right vb)
    (hr : Fresh c₂ c₃ r fun _ cells => sign.apply (cells a) (cells b)) :
    Fresh c ((c₃.release b).release a) r fun bits cells =>
      sign.apply (va bits cells) (vb bits cells) := by
  have hjoin : Fresh c₁ (c₃.release b) r fun bits cells => sign.apply (cells a) (vb bits cells) :=
    hb.consume hr fun hkeep hval => by rw [hkeep a ha.live, hval]
  refine ha.consume hjoin fun hkeep hval => ?_
  rw [hval, hmeans.congr h ha.step.ext hkeep]

theorem evaluate_place {node : Node} {name : String} {i : Int} (hp : node.place? = some (name, i)) :
    evaluate options node = element name i := by
  cases node with
  | var name' index =>
      cases index with
      | none =>
          cases hp
          rfl
      | some index =>
          obtain ⟨number, hnumber, heq⟩ := Option.map_eq_some_iff.1 hp
          cases heq
          simp only [evaluate, hnumber]
  | _ => cases hp

theorem evaluate_yields {node : Node} (h : Sound c) (he : evaluate options node c = .ok a d) :
    ∃ value, Yields c d a value ∧ Means c node value ∧ (node.place? = none → Fresh c d a value) := by
  fun_induction evaluate options node generalizing c d a with
  | case1 number isChar =>
      obtain ⟨e, halloc, -, rfl⟩ := constant_ok.1 he
      have hfresh := fresh_constant h number halloc
      exact ⟨_, hfresh.yields, fun _ _ => rfl, fun _ => hfresh⟩
  | case2 name =>
      obtain ⟨b, hb, hi, rfl, rfl⟩ := element_ok.1 he
      exact ⟨_, .own h ⟨_, _, _, h.bound hb 0 (by omega)⟩, fun _ _ => element_view hb hi,
        fun hp => by cases hp⟩
  | case3 name index number hliteral =>
      obtain ⟨b, hb, hi, rfl, rfl⟩ := element_ok.1 he
      have hcast : ((number.toNat : Nat) : Int) = number := by omega
      have hnamed := h.bound hb number.toNat (by omega)
      rw [hcast] at hnamed
      refine ⟨_, .own h ⟨_, _, _, hnamed⟩, fun bits cells => ?_, fun hp => ?_⟩
      · simp only [Env.value, hliteral, element_view hb hi]
      · simp [Node.place?, hliteral] at hp
  | case4 name index hliteral ih =>
      obtain ⟨b, value, hb, hmeans, hfresh⟩ := readElement_fresh h
        (fun hindex => (ih h hindex).imp fun _ hv => ⟨hv.1, hv.2.1⟩) he
      refine ⟨_, hfresh.yields, fun bits cells => ?_, fun _ => hfresh⟩
      simp only [Env.value, hliteral, view_eq_some hb, hmeans bits cells]
      rfl
  | case5 left right ihl ihr =>
      simp only [bind_ok, modifyGet_ok, modify_ok, pure_ok] at he
      obtain ⟨x, c₁, hx, y, c₂, hy, r', c₃, hr, _, _, rfl, rfl, rfl⟩ := he
      obtain ⟨va, ha, hma, -⟩ := ihl h hx
      obtain ⟨vb, hb, hmb, -⟩ := ihr ha.step.sound hy
      have hsum := join_fresh .plus h ha hb hmb
        (fresh_sum hb.step.sound (hb.step.ext.live ha.live) hb.live hr)
      refine ⟨_, hsum.yields, fun bits cells => ?_, fun _ => hsum⟩
      simp only [Env.value, hma bits cells, hmb.of_extends ha.step.ext bits cells]
      rfl
  | case6 left right ihl ihr =>
      simp only [bind_ok, modifyGet_ok, modify_ok, pure_ok] at he
      obtain ⟨x, c₁, hx, y, c₂, hy, r', c₃, hr, _, _, rfl, rfl, rfl⟩ := he
      obtain ⟨va, ha, hma, -⟩ := ihl h hx
      obtain ⟨vb, hb, hmb, -⟩ := ihr ha.step.sound hy
      have hdiff := join_fresh .minus h ha hb hmb
        (fresh_difference hb.step.sound options (hb.step.ext.live ha.live) hb.live hr)
      refine ⟨_, hdiff.yields, fun bits cells => ?_, fun _ => hdiff⟩
      simp only [Env.value, hma bits cells, hmb.of_extends ha.step.ext bits cells]
      rfl
  | case7 => exact absurd he fail_ok
  | case8 =>
      have hfresh := fresh_greatest h (modifyGet_ok.1 he)
      exact ⟨_, hfresh.yields, fun _ _ => congrArg some BitVec.neg_one_eq_allOnes.symm,
        fun _ => hfresh⟩
  | case9 => exact absurd he fail_ok

end Compile

end TapeCompiler
