import TapeCompiler.Proofs.Values

namespace TapeCompiler

open Compile

namespace Compilation

variable {c d e : Compilation} {a : Int} {name : String} {b : Binding}
  {value : ∀ bits : Nat, (Int → BitVec bits) → BitVec bits}

theorem view_of_others {bits : Nat} (h : Coherent c) (hb : c.bindings.find? name = some b)
    {x y : Int → BitVec bits}
    (hxy : ∀ {n i t v}, c.layout.status v = .named n i t → n ≠ name → y v = x v) :
    view c.bindings y =
      (view c.bindings x).bind name ⟨b.type, (addresses b.base b.length).map y⟩ := by
  funext n
  by_cases hn : n = name
  · subst hn
    rw [view_eq_some hb, Env.bind, Function.update_self]
  · rw [Env.bind, Function.update_of_ne hn]
    cases hb' : c.bindings.find? n with
    | none => simp [view, hb']
    | some b' =>
        rw [view_eq_some hb', view_eq_some hb']
        congr 2
        refine List.map_congr_left fun v hv => ?_
        obtain ⟨i, hi, rfl⟩ := List.mem_map.1 hv
        exact hxy (h.bound hb' i (List.mem_range.1 hi)) hn

theorem store_view {bits : Nat} (h : Coherent c) (hb : c.bindings.find? name = some b) {i : Int}
    (hi : 0 ≤ i ∧ i < b.length) (cells : Int → BitVec bits) (v : BitVec bits) :
    (view c.bindings cells).store name i v =
      some (view c.bindings (Function.update cells (b.base + i) v)) := by
  obtain ⟨k, rfl⟩ : ∃ k : Nat, i = k := ⟨i.toNat, by omega⟩
  have hk : k < b.length := by omega
  have hget : (Variable.mk b.type ((addresses b.base b.length).map cells)).get? k =
      some (cells (b.base + k)) := by
    simp [Variable.get?, addresses, hk]
  rw [view_of_others h hb (x := cells) (y := Function.update cells (b.base + k) v)]
  · simp only [Env.store, view_eq_some hb, Option.bind_eq_bind, Option.bind_some, hget]
    congr 3
    simp only [Variable.set, Int.toNat_natCast]
    congr 1
    refine List.ext_getElem (by simp) fun j hj hj' => ?_
    simp only [List.length_map, addresses, List.length_range] at hj'
    simp only [addresses, List.map_map, List.getElem_set, List.getElem_map, List.getElem_range,
      Function.comp_apply, Function.update_apply]
    refine if_congr ?_ rfl rfl
    omega
  · intro n i t x hx hn
    refine Function.update_of_ne ?_ _ _
    rintro rfl
    rw [h.bound hb k hk] at hx
    cases hx
    exact hn rfl

theorem Does.of_turns (h : Sound c) (hsame : Same c d)
    {f : ∀ bits : Nat, (Int → BitVec bits) → Int → BitVec bits}
    (hp : c.layout.status d.pointer ≠ .free) (hturn : Turns c.layout.highWater c d f)
    (hf : ∀ {bits : Nat} (x : Int → BitVec bits) {v : Int}, c.layout.status v = .free →
      f bits x v = x v) : Does c d f := by
  refine Step.imp (Step.of_turns h hsame hp hturn) ?_
  rintro bits x _ rfl
  exact ⟨fun v _ => rfl, fun v hv => .inl (hf x hv)⟩

theorem Yields.detach (h : Yields c d a value) {a' : Int}
    (he : (if d.layout.isTemp a then (a, d) else d.copy a) = (a', e)) : Fresh c e a' value := by
  split at he
  · rename_i htemp
    cases he
    exact h.fresh (Layout.isTemp_iff.1 htemp)
  · rename_i htemp
    rw [Layout.isTemp_iff] at htemp
    have hcopy := fresh_copy h.step.sound h.live he
    rw [← release_kept (c := e) (by rwa [hcopy.step.ext.keeps h.live])]
    exact h.consume hcopy fun _ hval => hval

theorem Yields.assignCell (h : Yields c d a value) {target : Int}
    (ht : c.layout.status target ≠ .free) :
    Does c (d.assignCell a target) fun bits cells =>
      Function.update cells target (value bits cells) := by
  unfold Compilation.assignCell
  split
  · rename_i heq
    subst heq
    refine h.step.imp ?_
    rintro bits x y ⟨hkeep, htidy, hval⟩
    refine ⟨fun v hv => ?_, fun v hv => htidy v (by rintro rfl; exact ht hv)⟩
    by_cases hva : v = a
    · subst hva
      simp only [Function.update_self]
      exact hval
    · simp only [Function.update_of_ne hva]
      exact hkeep v hv
  · obtain ⟨⟨a', e⟩, he⟩ : ∃ x, (if d.layout.isTemp a then (a, d) else d.copy a) = x := ⟨_, rfl⟩
    simp only [he]
    exact (h.detach he).store ht

def written {bits : Nat} (b : Binding) (i v : BitVec bits) (cells : Int → BitVec bits) (x : Int) :
    BitVec bits :=
  if ∃ k < b.length, x = b.base + (k : Int) ∧ i = (k : BitVec bits) then v else cells x

theorem written_of_ne {bits : Nat} {i v : BitVec bits} {cells : Int → BitVec bits} {x : Int}
    (hx : ∀ k < b.length, x ≠ b.base + (k : Int)) : written b i v cells x = cells x :=
  if_neg fun ⟨k, hk, heq, _⟩ => hx k hk heq

theorem view_written {bits : Nat} (h : Coherent c) (hb : c.bindings.find? name = some b)
    (i v : BitVec bits) (cells : Int → BitVec bits) :
    view c.bindings (written b i v cells) = (view c.bindings cells).bind name
      ((Variable.mk b.type ((addresses b.base b.length).map cells)).writeAt i v) := by
  rw [view_of_others h hb (x := cells)]
  · congr 1
    simp only [Variable.writeAt, Variable.mk.injEq, true_and]
    refine List.ext_getElem (by simp) fun j hj hj' => ?_
    simp only [List.length_map, addresses, List.length_range] at hj
    simp only [written, addresses, List.map_map, List.getElem_map, List.getElem_range,
      List.getElem_mapIdx, Function.comp_apply]
    refine if_congr ⟨?_, fun hi => ⟨j, hj, rfl, hi⟩⟩ rfl rfl
    rintro ⟨k, -, hk, hi⟩
    have : k = j := by omega
    rwa [← this]
  · intro n j t x hx hn
    refine written_of_ne fun k hk heq => ?_
    subst heq
    rw [h.bound hb k hk] at hx
    cases hx
    exact hn rfl

end Compilation

namespace Compile

open Compilation

variable {c d : Compilation} {options : CompileOptions} {name : String}

theorem assignTo_does {node : Node} {target : Int} (h : Sound c)
    (ht : c.layout.status target ≠ .free) (hd : assignTo options target node c = .ok () d) :
    ∃ value, Means c node value ∧ Does c d fun bits cells =>
      Function.update cells target (value bits cells) := by
  have hfree {bits : Nat} (x : Int → BitVec bits) (v : BitVec bits) {u : Int}
      (hu : c.layout.status u = .free) : Function.update x target v u = x u :=
    Function.update_of_ne (by rintro rfl; exact ht hu) _ _
  have htracked := h.tracked_of_live ht
  have hbounds := h.dense.bounds ht
  unfold assignTo at hd
  split at hd
  · rename_i number isChar
    obtain ⟨-, rfl⟩ := setValue_ok.1 hd
    refine ⟨_, fun _ _ => rfl, Does.of_turns h (Same.countAt _ _ _) (by rwa [pointer_countAt])
      (turns_countAt htracked number hbounds) fun x _ hu => hfree x _ hu⟩
  · rw [modify_ok] at hd
    subst hd
    refine ⟨_, fun _ _ => rfl, Does.of_turns h ((Same.clear _ _).trans (.emit _ _)) ht
      (((turns_clear htracked hbounds).trans (turns_sign (c := c.clear target) hbounds .minus)).congr
        fun bits cells => ?_) fun x _ hu => hfree x _ hu⟩
    rw [pointer_clear, Function.update_self, Function.update_idem]
    congr 1
    rw [Sign.apply, zero_sub]
    exact BitVec.neg_one_eq_allOnes
  · simp only [bind_ok, modify_ok] at hd
    obtain ⟨a, d', hvalue, rfl⟩ := hd
    obtain ⟨value, hyields, hmeans, -⟩ := evaluate_yields h hvalue
    exact ⟨value, hmeans, hyields.assignCell ht⟩

theorem writeElement_ok {index value : Compile Int}
    (hd : writeElement name index value c = .ok () d) :
    ∃ b ix c₁ ix' c₂ a c₃, c.bindings.find? name = some b ∧ index c = .ok ix c₁ ∧
      (if c₁.layout.isTemp ix then (ix, c₁) else c₁.copy ix) = (ix', c₂) ∧ value c₂ = .ok a c₃ ∧
      d = ((c₃.atElement b ix' fun cell c =>
        ((c.copy a).2.clear cell |>.drain (c.copy a).1 cell .plus).free (c.copy a).1).release
          a).release ix' := by
  simp only [writeElement, bind_ok, binding_ok, get_ok] at hd
  obtain ⟨b, _, ⟨hb, rfl⟩, ix, c₁, hix, _, _, ⟨rfl, rfl⟩, hd⟩ := hd
  split at hd
  · rename_i htemp
    simp only [bind_ok, pure_ok, modify_ok] at hd
    obtain ⟨_, _, ⟨rfl, rfl⟩, a, c₃, ha, _, _, rfl, _, _, rfl, rfl⟩ := hd
    exact ⟨b, ix, c₁, ix, c₁, a, c₃, hb, hix, if_pos htemp, ha, rfl⟩
  · rename_i htemp
    simp only [bind_ok, modifyGet_ok, modify_ok] at hd
    obtain ⟨ix', c₂, hcopy, a, c₃, ha, _, _, rfl, _, _, rfl, rfl⟩ := hd
    exact ⟨b, ix, c₁, ix', c₂, a, c₃, hb, hix, by rw [if_neg htemp, hcopy], ha, rfl⟩

theorem writeElement_does {index node : Node} (h : Sound c)
    (hd : writeElement name (evaluate options index) (evaluate options node) c = .ok () d) :
    ∃ b vi v, c.bindings.find? name = some b ∧ Means c index vi ∧ Means c node v ∧
      Does c d fun bits cells => written b (vi bits cells) (v bits cells) cells := by
  obtain ⟨b, ix, c₁, ix', c₂, a, c₃, hb, hix, hdetach, ha, rfl⟩ := writeElement_ok hd
  obtain ⟨vi, hi, hmi, -⟩ := evaluate_yields h hix
  have hown := hi.detach hdetach
  obtain ⟨v, hv, hmv, -⟩ := evaluate_yields hown.step.sound ha
  have hcell (k : Nat) (hk : k < b.length) : c.layout.status (b.base + k) ≠ .free := by
    simp [h.bound hb k hk]
  have hcell' (k : Nat) (hk : k < b.length) : c₃.layout.status (b.base + k) ≠ .free :=
    hv.step.ext.live (hown.step.ext.live (hcell k hk))
  have hne (k : Nat) (hk : k < b.length) : b.base + (k : Int) ≠ ix' := hown.ne_of_live (hcell k hk)
  have hlive := hv.step.ext.live hown.live
  have hdoes := does_atElement hv.step.sound hlive b
    (fun cell c => ((c.copy a).2.clear cell |>.drain (c.copy a).1 cell .plus).free (c.copy a).1)
    (f := fun k _ cells => Function.update cells (b.base + k) (cells a))
    (fun k hk => local_update (hcell' k hk) fun hxy => hxy a hv.live)
    (fun k hk e he hsound => (fresh_copy hsound (he.live hv.live) rfl).store (he.live (hcell' k hk)))
  have hwrite := hv.consumeDoes hdoes
    (g := fun bits cells => written b (cells ix') (v bits cells) cells) ?_ ?_
  · refine ⟨b, vi, v, hb, hmi, hmv.of_extends hown.step.ext, hown.yields.consumeDoes hwrite ?_ ?_⟩
    · intro bits y u hu
      exact written_of_ne fun k hk heq => hcell k hk (heq ▸ hu)
    · intro bits x y hkeep hval u hu
      simp only [written, hval, hmv.congr h hown.step.ext hkeep, hkeep u hu]
  · intro bits y u hu
    rw [selected_write hne]
    exact written_of_ne fun k hk heq => hown.step.ext.live (hcell k hk) (heq ▸ hu)
  · intro bits x y hkeep hval u hu
    rw [selected_write hne]
    simp only [written, hkeep ix' hown.live, hval, hkeep u hu]

theorem assign_does {index : Option Node} {node : Node} (h : Sound c)
    (hd : assign options name index node c = .ok () d) :
    ∃ f, Does c d f ∧
      (∀ (bits : Nat) (cells : Int → BitVec bits),
        (view c.bindings cells).assign name index node = some (view c.bindings (f bits cells))) ∧
      ∀ (bits : Nat) (cells : Int → BitVec bits) (x : Int),
        (∀ i t, c.layout.status x ≠ .named name i t) → f bits cells x = cells x := by
  have hplace {i target : Int} (hi : element name i c = .ok target c)
      (ha : assignTo options target node c = .ok () d) :
      ∃ f, Does c d f ∧
        (∀ (bits : Nat) (cells : Int → BitVec bits), ∃ v, (view c.bindings cells).value node = some v ∧
          (view c.bindings cells).store name i v = some (view c.bindings (f bits cells))) ∧
        ∀ (bits : Nat) (cells : Int → BitVec bits) (x : Int),
          (∀ i t, c.layout.status x ≠ .named name i t) → f bits cells x = cells x := by
    obtain ⟨b, hb, hrange, rfl, -⟩ := element_ok.1 hi
    obtain ⟨k, rfl⟩ : ∃ k : Nat, i = k := ⟨i.toNat, by omega⟩
    have hnamed := h.bound hb k (by omega)
    obtain ⟨value, hmeans, hdoes⟩ := assignTo_does h (by simp [hnamed]) ha
    refine ⟨_, hdoes, fun bits cells => ⟨_, hmeans bits cells, store_view h.toCoherent hb hrange cells _⟩,
      fun bits cells x hx => Function.update_of_ne ?_ _ _⟩
    rintro rfl
    exact hx _ _ hnamed
  cases index with
  | none =>
      simp only [assign, bind_ok] at hd
      obtain ⟨target, c', hi, ha⟩ := hd
      obtain rfl : c = c' := (element_ok.1 hi).choose_spec.2.2.2
      obtain ⟨f, hdoes, hmeans, hothers⟩ := hplace hi ha
      refine ⟨f, hdoes, fun bits cells => ?_, hothers⟩
      obtain ⟨v, hv, hstore⟩ := hmeans bits cells
      simp [Env.assign, hv, hstore]
  | some index =>
      cases hnumber : index.literalValue? with
      | some number =>
          simp only [assign, hnumber, bind_ok] at hd
          obtain ⟨target, c', hi, ha⟩ := hd
          obtain rfl : c = c' := (element_ok.1 hi).choose_spec.2.2.2
          obtain ⟨f, hdoes, hmeans, hothers⟩ := hplace hi ha
          refine ⟨f, hdoes, fun bits cells => ?_, hothers⟩
          obtain ⟨v, hv, hstore⟩ := hmeans bits cells
          simp [Env.assign, hv, hnumber, hstore]
      | none =>
          simp only [assign, hnumber] at hd
          obtain ⟨b, vi, v, hb, hmi, hmv, hdoes⟩ := writeElement_does h hd
          refine ⟨_, hdoes, fun bits cells => ?_, fun bits cells x hx => ?_⟩
          · simp only [Env.assign, hmv bits cells, hnumber, view_eq_some hb, hmi bits cells,
              view_written h.toCoherent hb]
            rfl
          · exact written_of_ne fun k hk heq => hx _ _ (heq ▸ h.bound hb k hk)

end Compile

end TapeCompiler
