import TapeCompiler.Proofs.Allocation
import Mathlib.Data.Finset.Card

namespace TapeCompiler

open Compile Compilation

namespace Layout

variable {layout : Layout} {a x : Int}

def temps (layout : Layout) : Finset Int :=
  ((layout.cells.filter (·.2 = .temp)).map (·.1)).toFinset

@[simp] theorem mem_temps : x ∈ layout.temps ↔ layout.status x = .temp := by
  simp only [temps, List.mem_toFinset, List.mem_map, List.mem_filter, decide_eq_true_eq]
  constructor
  · rintro ⟨⟨_, _⟩, ⟨hmem, rfl⟩, rfl⟩
    exact status_of_mem hmem
  · intro hx
    obtain ⟨o, ho⟩ := recorded_of_status (show layout.status x ≠ .free by simp [hx])
    exact ⟨(x, o), ⟨ho, (status_of_mem ho).symm.trans hx⟩, rfl⟩

theorem card_temps (layout : Layout) : layout.temps.card = layout.count .temp := by
  have hnodup : ((layout.cells.filter (·.2 = .temp)).map (·.1)).Nodup :=
    List.pairwise_map.2 ((layout.sorted.filter _).imp Int.ne_of_lt)
  rw [temps, List.toFinset_card_of_nodup hnodup, List.length_map, count,
    List.countP_eq_length_filter]

theorem temps_markTemp (layout : Layout) (a : Int) :
    (layout.markTemp a).temps = insert a layout.temps := by
  ext x
  rw [Finset.mem_insert, mem_temps, mem_temps, markTemp, status_set]
  split <;> simp [*]

theorem temps_free (layout : Layout) (a : Int) : (layout.free a).temps = layout.temps.erase a := by
  ext x
  rw [Finset.mem_erase, mem_temps, mem_temps, free, status_set]
  split <;> simp [*]

theorem temps_setRange {start : Int} {o : Nat → Occupancy} {n : Nat} (ho : ∀ i, o i ≠ .temp)
    (hfree : ∀ i < n, layout.status (start + (i : Int)) ≠ .temp) :
    (layout.setRange start o n).temps = layout.temps := by
  ext x
  rw [mem_temps, mem_temps]
  rcases inside_or_outside start x n with ⟨i, hi, rfl⟩ | hout
  · rw [status_setRange_inside hi]
    exact ⟨fun h => absurd h (ho i), fun h => absurd h (hfree i hi)⟩
  · rw [status_setRange_outside hout]

end Layout

namespace Node

def subtractions : Node → Nat
  | math operator left right =>
      left.subtractions + right.subtractions + if operator = .minus then 1 else 0
  | var _ (some index) => index.subtractions
  | _ => 0

def held (node : Node) : Nat := if node.place?.isSome then 0 else 1

def leaked (options : CompileOptions) (node : Node) : Nat :=
  if options.freeSubtractionCopies then 0 else 2 * node.subtractions

theorem subtractions_of_literal {node : Node} {number : Int}
    (h : node.literalValue? = some number) : node.subtractions = 0 := by
  cases node <;> first | rfl | cases h

theorem leaked_math (options : CompileOptions) (operator : Operator) (left right : Node) :
    (math operator left right).leaked options = left.leaked options + right.leaked options +
      if options.freeSubtractionCopies then 0 else if operator = .minus then 2 else 0 := by
  unfold leaked
  split
  · rfl
  · simp only [subtractions]
    split <;> omega

theorem leaked_of_free {options : CompileOptions} (hfree : options.freeSubtractionCopies = true)
    (node : Node) : node.leaked options = 0 := if_pos hfree

end Node

namespace Compilation

variable {c d e : Compilation} {a : Int} {m n : Nat}

theorem temps_freeCondition (c : Compilation) (a : Int) :
    (c.freeCondition a).layout.temps = c.layout.temps.erase a := by
  by_cases htemp : c.layout.status a = .temp
  · rw [freeCondition_temp htemp]
    exact Layout.temps_free ..
  · rw [freeCondition_kept htemp, Finset.erase_eq_of_notMem]
    rwa [Layout.mem_temps]

theorem Extends.temps_subset (h : Extends c d) : c.layout.temps ⊆ d.layout.temps := by
  intro x hx
  rw [Layout.mem_temps] at hx ⊢
  rw [h.keeps (by simp [hx]), hx]

structure Takes (n : Nat) (c d : Compilation) : Prop where
  ext : Extends c d
  sound : Sound d
  card : d.layout.temps.card = c.layout.temps.card + n

namespace Takes

theorem refl (h : Sound c) : Takes 0 c c := ⟨.refl c, h, rfl⟩

theorem trans (h : Takes m c d) (h' : Takes n d e) : Takes (m + n) c e :=
  ⟨h.ext.trans h'.ext, h'.sound, by rw [h'.card, h.card, Nat.add_assoc]⟩

theorem turn (h : Takes n c d) (hsame : Same d e) (hp : d.layout.status e.pointer ≠ .free) :
    Takes n c e := by
  have hbounds := h.sound.dense.bounds hp
  rw [← hsame.layout] at hbounds
  exact ⟨h.ext.trans (.of_same hsame), h.sound.of_same hsame (by omega),
    by rw [hsame.layout, h.card]⟩

theorem allocate (h : Takes n c d) (he : d.allocateTemp = (a, e)) :
    Takes (n + 1) c e ∧ c.layout.status a = .free ∧ e.layout.status a = .temp := by
  obtain ⟨hext, hsound, hfree, htemp, -, -⟩ := h.sound.allocateTemp he
  refine ⟨⟨h.ext.trans hext, hsound, ?_⟩, h.ext.free_of_free hfree, htemp⟩
  cases he
  rw [Layout.temps_markTemp, Finset.card_insert_of_notMem (by simp [hfree]), h.card, Nat.add_assoc]

theorem giveBack (h : Takes (n + 1) c d) (hfree : c.layout.status a = .free)
    (htemp : d.layout.status a = .temp) : Takes n c (d.free a) := by
  refine ⟨h.ext.free h.sound.dense hfree (by simp [htemp]), h.sound.free htemp, ?_⟩
  have hcard := h.card
  rw [Compilation.free, Layout.temps_free, Finset.card_erase_of_mem (by simpa using htemp)]
  omega

theorem temps_eq (h : Takes 0 c d) : d.layout.temps = c.layout.temps :=
  (Finset.eq_of_subset_of_card_le h.ext.temps_subset (Nat.le_of_eq h.card)).symm

theorem release (h : Takes (n + if e.layout.status a = .temp then 1 else 0) c e)
    (hfree : e.layout.status a = .temp → c.layout.status a = .free) : Takes n c (e.release a) := by
  by_cases htemp : e.layout.status a = .temp
  · rw [if_pos htemp] at h
    rw [release_temp htemp]
    exact (h.turn (.clear e a) (by simp [htemp])).giveBack (hfree htemp)
      (by rw [layout_clear, htemp])
  · rw [if_neg htemp] at h
    rwa [release_kept htemp]

end Takes

theorem constant_takes (h : Sound c) {value : Int} (hd : constant value c = .ok a d) :
    Takes 1 c d := by
  obtain ⟨e, he, -, rfl⟩ := constant_ok.1 hd
  obtain ⟨htakes, -, htemp⟩ := (Takes.refl h).allocate he
  exact htakes.turn (.countAt _ _ _) (by rw [pointer_countAt, htemp]; simp)

theorem takes_greatest (h : Sound c) (hd : c.greatest = (a, d)) : Takes 1 c d := by
  cases hd
  obtain ⟨htakes, -, htemp⟩ := (Takes.refl h).allocate rfl
  exact htakes.turn ((Same.clear _ _).trans (.emit _ _))
    (by rw [pointer_emit, pointer_clear, htemp]; simp)

theorem takes_copy (h : Sound c) {source : Int} (hd : c.copy source = (a, d)) : Takes 1 c d := by
  obtain ⟨⟨kept, c₁⟩, hc₁⟩ : ∃ x, c.allocateTemp = x := ⟨_, rfl⟩
  obtain ⟨⟨back, c₂⟩, hc₂⟩ : ∃ x, c₁.allocateTemp = x := ⟨_, rfl⟩
  have hcopy : c.copy source = (kept, (c₂.copyInto source kept back).free back) := by
    simp only [copy, hc₁, hc₂]
    rfl
  obtain ⟨rfl, rfl⟩ := Prod.mk.inj (hcopy.symm.trans hd)
  obtain ⟨hkept, -, -⟩ := (Takes.refl h).allocate hc₁
  obtain ⟨hback, hfree, htemp⟩ := hkept.allocate hc₂
  have hsame := same_copyInto c₂ source kept back
  have hpointer : (c₂.copyInto source kept back).pointer = back := rfl
  exact (hback.turn hsame (by rw [hpointer, htemp]; simp)).giveBack hfree
    (by rw [hsame.layout, htemp])

theorem takes_addCopy (h : Sound c) {source : Int} (target : Int) (sign : Sign)
    (hs : c.layout.status source ≠ .free) : Takes 0 c (c.addCopy source target sign) := by
  obtain ⟨⟨k, d⟩, hd⟩ : ∃ x, c.copy source = x := ⟨_, rfl⟩
  have hadd : c.addCopy source target sign = (d.drain k target sign).free k := by
    simp only [addCopy, hd]
  have hk := fresh_copy h hs hd
  rw [hadd]
  exact ((takes_copy h hd).turn (.drain _ _ _ _) (by rw [pointer_drain, hk.temp]; simp)).giveBack
    hk.free (by rw [layout_drain, hk.temp])

theorem takes_store (h : Sound c) {source target : Int} (hs : c.layout.status source ≠ .free)
    (hd : c.copy source = (a, d)) : Takes 0 c (((d.clear target).drain a target .plus).free a) := by
  have hk := fresh_copy h hs hd
  exact ((takes_copy h hd).turn ((Same.clear _ _).trans (.drain _ _ _ _))
    (by rw [pointer_drain, hk.temp]; simp)).giveBack hk.free
    (by rw [layout_drain, layout_clear, hk.temp])

theorem takes_joinInto (h : Sound c) {b k₁ k₂ r : Int} {c₁ c₂ c₃ : Compilation}
    (ha : c.layout.status a ≠ .free) (hb : c.layout.status b ≠ .free)
    (hc₁ : c.copy a = (k₁, c₁)) (hc₂ : c₁.copy b = (k₂, c₂)) (hc₃ : c₂.allocateTemp = (r, c₃))
    (sign : Sign) :
    Takes 3 c (c₃.joinInto k₁ k₂ r sign) ∧
      Takes 1 c (((c₃.joinInto k₁ k₂ r sign).free k₁).free k₂) := by
  obtain ⟨hfresh, h₁, h₂, -, -, hne⟩ := fresh_joinInto h ha hb hc₁ hc₂ hc₃ sign
  have hcopy₁ := takes_copy h hc₁
  have hcopy₂ := hcopy₁.trans (takes_copy hcopy₁.sound hc₂)
  obtain ⟨hresult, -, -⟩ := hcopy₂.allocate hc₃
  have hjoin : Takes 3 c (c₃.joinInto k₁ k₂ r sign) :=
    ⟨hfresh.step.ext, hfresh.step.sound,
      by rw [(same_joinInto c₃ k₁ k₂ r sign).layout, hresult.card]⟩
  refine ⟨hjoin, (hjoin.giveBack h₁.1 h₁.2).giveBack h₂.1 ?_⟩
  simp only [Compilation.free, Layout.free, Layout.status_set_of_ne (Ne.symm hne), h₂.2]

theorem takes_sum (h : Sound c) {b r : Int} (ha : c.layout.status a ≠ .free)
    (hb : c.layout.status b ≠ .free) (hd : c.sum a b = (r, d)) : Takes 1 c d := by
  cases hd
  exact (takes_joinInto h ha hb rfl rfl rfl .plus).2

theorem takes_difference (h : Sound c) (options : CompileOptions) {b r : Int}
    (ha : c.layout.status a ≠ .free) (hb : c.layout.status b ≠ .free)
    (hd : c.difference options a b = (r, d)) :
    Takes (1 + if options.freeSubtractionCopies then 0 else 2) c d := by
  obtain ⟨hjoin, hfreed⟩ := takes_joinInto h ha hb rfl rfl rfl .minus
  cases hd
  dsimp only [difference]
  split
  · exact hfreed
  · exact hjoin

theorem takes_whenIndexIs (h : Sound c) {index : Int} (hi : c.layout.status index ≠ .free)
    (slot : Nat) {body : Compilation → Compilation}
    (hbody : ∀ {e}, Extends c e → Sound e → Takes 0 e (body e)) :
    Takes 0 c (c.whenIndexIs index slot body) := by
  obtain ⟨⟨probe, c₁⟩, hc₁⟩ : ∃ x, c.copy index = x := ⟨_, rfl⟩
  obtain ⟨c₂, hc₂⟩ : ∃ x, (if 0 < (slot : Int) then
    (c₁.moveTo probe).emit (repeated '-' (slot : Int).toNat) else c₁) = x := ⟨_, rfl⟩
  obtain ⟨⟨guard, c₃⟩, hc₃⟩ : ∃ x, c₂.allocateTemp = x := ⟨_, rfl⟩
  obtain ⟨c₄, hc₄⟩ : ∃ x, ((c₃.testProbe probe guard).moveTo guard).emit "[" = x := ⟨_, rfl⟩
  have hcode : c.whenIndexIs index slot body =
      ((((body c₄).clear guard).emit "]").free guard).free probe := by
    simp only [whenIndexIs, hc₁, hc₂, hc₃, ← hc₄]
    rfl
  have hprobe := (fresh_copy h hi hc₁).takeAway slot
  rw [hc₂] at hprobe
  have hlayout : c₂.layout = c₁.layout := by
    rw [← hc₂]
    split
    · rw [layout_emit, layout_moveTo]
    · rfl
  have h₂ : Takes 1 c c₂ :=
    ⟨hprobe.step.ext, hprobe.step.sound, by rw [hlayout, (takes_copy h hc₁).card]⟩
  obtain ⟨h₃, hfree, htemp⟩ := h₂.allocate hc₃
  obtain ⟨-, hprobe₃, hne⟩ := hprobe.test hc₃
  have hsame : Same c₃ c₄ :=
    hc₄ ▸ ((same_testProbe c₃ probe guard).trans (.moveTo _ _)).trans (.emit _ _)
  have hguard₄ : c₄.layout.status guard = .temp := by rw [hsame.layout, htemp]
  have hprobe₄ : c₄.layout.status probe = .temp := by
    rw [← hc₄, layout_emit, layout_moveTo, hprobe₃]
  have hpointer : c₄.pointer = guard := by rw [← hc₄, pointer_emit, pointer_moveTo]
  have h₄ : Takes 2 c c₄ := h₃.turn hsame (by rw [hpointer, htemp]; simp)
  have hrun := hbody h₄.ext h₄.sound
  have hguard₅ := (hrun.ext.keeps (by simp [hguard₄])).trans hguard₄
  have hprobe₅ := (hrun.ext.keeps (by simp [hprobe₄])).trans hprobe₄
  have hclosed := (h₄.trans hrun).turn ((Same.clear _ guard).trans (.emit _ "]"))
    (by rw [pointer_emit, pointer_clear, hguard₅]; simp)
  rw [hcode]
  refine Takes.giveBack ?_ hprobe.free ?_
  · exact hclosed.giveBack hfree (by rw [layout_emit, layout_clear, hguard₅])
  · simp only [Compilation.free, Layout.free, Layout.status_set_of_ne (Ne.symm hne), layout_emit,
      layout_clear, hprobe₅]

theorem takes_atElement (h : Sound c) {index : Int} (hi : c.layout.status index ≠ .free)
    (b : Binding) (body : Int → Compilation → Compilation)
    (hbody : ∀ k < b.length, ∀ {e}, Extends c e → Sound e → Takes 0 e (body (b.base + k) e)) :
    Takes 0 c (c.atElement b index body) := by
  suffices hslots : ∀ slots : List Nat, (∀ k ∈ slots, k < b.length) →
      Takes 0 c (slots.foldl
        (fun c (slot : Nat) => c.whenIndexIs index slot (body (b.base + slot))) c)
    from hslots _ fun k hk => List.mem_range.1 hk
  intro slots hslots
  induction slots using List.reverseRecOn with
  | nil => exact .refl h
  | append_singleton slots k ih =>
      have htakes := ih fun j hj => hslots j (by simp [hj])
      rw [List.foldl_append]
      exact htakes.trans (takes_whenIndexIs htakes.sound (htakes.ext.live hi) k
        fun he => hbody k (hslots k (by simp)) (htakes.ext.trans he))

end Compilation

namespace Compile

open Compilation

variable {c d e : Compilation} {a : Int} {n : Nat} {options : CompileOptions} {node : Node}

theorem evaluate_cell (h : Sound c) (he : evaluate options node c = .ok a d) :
    (node.place? = none ∧ c.layout.status a = .free ∧ d.layout.status a = .temp) ∨
      (node.place? ≠ none ∧ c.layout.status a ≠ .temp ∧ d.layout.status a ≠ .temp) := by
  cases hplace : node.place? with
  | none =>
      obtain ⟨value, -, -, hfresh⟩ := evaluate_yields h he
      exact .inl ⟨rfl, (hfresh hplace).free, (hfresh hplace).temp⟩
  | some place =>
      obtain ⟨name, i⟩ := place
      rw [evaluate_place hplace, element_ok] at he
      obtain ⟨b, hb, hi, rfl, rfl⟩ := he
      obtain ⟨k, rfl⟩ : ∃ k : Nat, i = k := ⟨i.toNat, by omega⟩
      have hnamed := h.bound hb k (by omega)
      exact .inr ⟨by simp, by simp [hnamed], by simp [hnamed]⟩

theorem held_eq (h : Sound c) (he : evaluate options node c = .ok a d) :
    node.held = if d.layout.status a = .temp then 1 else 0 := by
  rcases evaluate_cell h he with ⟨hplace, -, htemp⟩ | ⟨hplace, -, htemp⟩
  · simp [Node.held, hplace, htemp]
  · simp [Node.held, Option.isSome_iff_ne_none.2 hplace, htemp]

theorem takes_release (h : Sound c) (he : evaluate options node c = .ok a d) (hext : Extends d e)
    (ht : Takes (n + node.held) c e) : Takes n c (e.release a) := by
  obtain ⟨value, hyields, -, -⟩ := evaluate_yields h he
  have hkept := hext.keeps hyields.live
  rw [held_eq h he, ← hkept] at ht
  refine ht.release fun htemp => ?_
  exact (hyields.fresh (hkept ▸ htemp)).free

theorem join_takes {left right : Node} {x y : Int} {l r : Nat} {c₁ c₂ c₃ : Compilation}
    (h : Sound c) (hx : evaluate options left c = .ok x c₁)
    (hy : evaluate options right c₁ = .ok y c₂)
    (hl : Takes (left.held + l) c c₁) (hr : Takes (right.held + r) c₁ c₂) (hj : Takes n c₂ c₃) :
    Takes (l + r + n) c ((c₃.release y).release x) := by
  have hright : Takes (r + n) c₁ (c₃.release y) := by
    refine takes_release hl.sound hy hj.ext ?_
    rw [show r + n + right.held = right.held + r + n by omega]
    exact hr.trans hj
  refine takes_release h hx hright.ext ?_
  rw [show l + r + n + left.held = left.held + l + (r + n) by omega]
  exact hl.trans hright

theorem readElement_takes {name : String} {index : Node} (h : Sound c)
    (hindex : ∀ {a d}, evaluate options index c = .ok a d → Takes (index.held + n) c d)
    (hread : readElement name (evaluate options index) c = .ok a d) : Takes (n + 1) c d := by
  simp only [readElement, bind_ok, binding_ok, modifyGet_ok, modify_ok, pure_ok] at hread
  obtain ⟨b, _, ⟨hb, rfl⟩, ix, c₁, hix, r, c₂, hr, _, _, rfl, _, c₃, hat, _, _, rfl, rfl, rfl⟩ :=
    hread
  have h₁ := hindex hix
  obtain ⟨value, hyields, -, -⟩ := evaluate_yields h hix
  obtain ⟨h₂, -, htemp⟩ := h₁.allocate hr
  obtain ⟨hext, -⟩ := h₁.sound.allocateTemp hr
  have hcleared := h₂.turn (.clear c₂ r) (by rw [pointer_clear, htemp]; simp)
  have hext := hext.trans (.of_same (.clear c₂ r))
  have hslots := takes_atElement hcleared.sound (hext.live hyields.live) b
    (fun cell c => c.addCopy cell r .plus) fun k hk e he hsound =>
      takes_addCopy hsound r .plus (he.live (hext.live (h₁.ext.live (by simp [h.bound hb k hk]))))
  rw [hat] at hslots
  refine takes_release h hix (hext.trans hslots.ext) ?_
  rw [show n + 1 + index.held = index.held + n + 1 + 0 by omega]
  exact hcleared.trans hslots

theorem evaluate_takes (h : Sound c) (he : evaluate options node c = .ok a d) :
    Takes (node.held + node.leaked options) c d := by
  fun_induction evaluate options node generalizing c d a with
  | case1 number isChar =>
      have htakes := constant_takes h he
      simpa [Node.held, Node.place?, Node.leaked, Node.subtractions] using htakes
  | case2 name =>
      obtain ⟨b, hb, hi, rfl, rfl⟩ := element_ok.1 he
      simpa [Node.held, Node.place?, Node.leaked, Node.subtractions] using Takes.refl h
  | case3 name index number hliteral =>
      obtain ⟨b, hb, hi, rfl, rfl⟩ := element_ok.1 he
      simpa [Node.held, Node.place?, Node.leaked, Node.subtractions, hliteral,
        Node.subtractions_of_literal hliteral] using Takes.refl h
  | case4 name index hliteral ih =>
      have htakes := readElement_takes h (fun hindex => ih h hindex) he
      simpa [Node.held, Node.place?, Node.leaked, Node.subtractions, hliteral, Nat.add_comm]
        using htakes
  | case5 left right ihl ihr =>
      simp only [bind_ok, modifyGet_ok, modify_ok, pure_ok] at he
      obtain ⟨x, c₁, hx, y, c₂, hy, r, c₃, hr, _, _, rfl, rfl, rfl⟩ := he
      obtain ⟨_, hyx, -⟩ := evaluate_yields h hx
      obtain ⟨_, hyy, -⟩ := evaluate_yields hyx.step.sound hy
      have hl := ihl h hx
      have hr' := ihr hl.sound hy
      have htakes := join_takes h hx hy hl hr'
        (takes_sum hr'.sound (hr'.ext.live hyx.live) hyy.live hr)
      have hheld : (Node.math .plus left right).held = 1 := rfl
      simpa [hheld, Node.leaked_math, Nat.add_comm 1] using htakes
  | case6 left right ihl ihr =>
      simp only [bind_ok, modifyGet_ok, modify_ok, pure_ok] at he
      obtain ⟨x, c₁, hx, y, c₂, hy, r, c₃, hr, _, _, rfl, rfl, rfl⟩ := he
      obtain ⟨_, hyx, -⟩ := evaluate_yields h hx
      obtain ⟨_, hyy, -⟩ := evaluate_yields hyx.step.sound hy
      have hl := ihl h hx
      have hr' := ihr hl.sound hy
      have htakes := join_takes h hx hy hl hr'
        (takes_difference hr'.sound options (hr'.ext.live hyx.live) hyy.live hr)
      have hheld : (Node.math .minus left right).held = 1 := rfl
      rw [hheld, Node.leaked_math, if_pos rfl, ← Nat.add_assoc, Nat.add_comm 1, Nat.add_assoc]
      exact htakes
  | case7 => exact absurd he fail_ok
  | case8 =>
      have htakes := takes_greatest h (modifyGet_ok.1 he)
      simpa [Node.held, Node.place?, Node.leaked, Node.subtractions] using htakes
  | case9 => exact absurd he fail_ok

theorem detach_takes {a' : Int} (h : Sound c) (hd : evaluate options node c = .ok a d)
    (he : (if d.layout.isTemp a then (a, d) else d.copy a) = (a', e)) :
    Takes (node.leaked options + 1) c e := by
  have htakes := evaluate_takes h hd
  rw [held_eq h hd, Nat.add_comm] at htakes
  split at he
  · rename_i htemp
    cases he
    rwa [if_pos (Layout.isTemp_iff.1 htemp)] at htakes
  · rename_i htemp
    rw [if_neg (mt Layout.isTemp_iff.2 htemp)] at htakes
    exact htakes.trans (takes_copy htakes.sound he)

theorem assignCell_takes {target : Int} (h : Sound c) (ht : c.layout.status target ≠ .free)
    (hd : evaluate options node c = .ok a d) :
    Takes (node.leaked options) c (d.assignCell a target) := by
  unfold Compilation.assignCell
  split
  · rename_i heq
    have htakes := evaluate_takes h hd
    rcases evaluate_cell h hd with ⟨-, hfree, -⟩ | ⟨-, -, htemp⟩
    · exact absurd (heq ▸ hfree) ht
    · rwa [held_eq h hd, if_neg htemp, Nat.zero_add] at htakes
  · obtain ⟨⟨a', e⟩, he⟩ : ∃ x, (if d.layout.isTemp a then (a, d) else d.copy a) = x := ⟨_, rfl⟩
    simp only [he]
    obtain ⟨value, hyields, -, -⟩ := evaluate_yields h hd
    have hown := hyields.detach he
    exact ((detach_takes h hd he).turn ((Same.clear _ _).trans (.drain _ _ _ _))
      (by rw [pointer_drain, hown.temp]; simp)).giveBack hown.free
      (by rw [layout_drain, layout_clear, hown.temp])

theorem assignTo_takes {target : Int} (h : Sound c) (ht : c.layout.status target ≠ .free)
    (hd : assignTo options target node c = .ok () d) : Takes (node.leaked options) c d := by
  unfold assignTo at hd
  split at hd
  · obtain ⟨-, rfl⟩ := setValue_ok.1 hd
    simpa [Node.leaked, Node.subtractions] using
      (Takes.refl h).turn (.countAt _ _ _) (by rwa [pointer_countAt])
  · rw [modify_ok] at hd
    subst hd
    simpa [Node.leaked, Node.subtractions] using
      (Takes.refl h).turn ((Same.clear _ _).trans (.emit _ _)) ht
  · simp only [bind_ok, modify_ok] at hd
    obtain ⟨a, d', hvalue, rfl⟩ := hd
    exact assignCell_takes h ht hvalue

theorem writeElement_takes {name : String} {index : Node} (h : Sound c)
    (hd : writeElement name (evaluate options index) (evaluate options node) c = .ok () d) :
    Takes (index.leaked options + node.leaked options) c d := by
  obtain ⟨b, ix, c₁, ix', c₂, a, c₃, hb, hix, hdetach, ha, rfl⟩ := writeElement_ok hd
  obtain ⟨vi, hi, -, -⟩ := evaluate_yields h hix
  have hown := hi.detach hdetach
  obtain ⟨v, hv, -, -⟩ := evaluate_yields hown.step.sound ha
  have hslots := takes_atElement hv.step.sound (hv.step.ext.live hown.live) b (fun cell c =>
    ((c.copy a).2.clear cell |>.drain (c.copy a).1 cell .plus).free (c.copy a).1)
    fun k hk e he hsound => takes_store hsound (he.live hv.live) rfl
  have hvalue := takes_release (n := node.leaked options) hown.step.sound ha hslots.ext (by
    rw [Nat.add_comm]
    exact (evaluate_takes hown.step.sound ha).trans hslots)
  have hkept := (hvalue.ext.keeps hown.live).trans hown.temp
  refine Takes.release ?_ fun _ => hown.free
  rw [if_pos hkept, Nat.add_right_comm]
  exact (detach_takes h hix hdetach).trans hvalue

theorem display_takes (h : Sound c) (hd : display options node c = .ok () d) :
    Takes (node.leaked options) c d := by
  obtain ⟨a, c₁, textual, ha, -, rfl⟩ := display_ok hd
  obtain ⟨value, hyields, -, -⟩ := evaluate_yields h ha
  have hsame := (Same.moveTo c₁ a).trans (.emit _ (if textual then "~" else "."))
  refine takes_release h ha (.of_same hsame) ?_
  rw [Nat.add_comm]
  exact (evaluate_takes h ha).turn hsame hyields.live

theorem drainAmount_takes {sign : Sign} (h : Sound c)
    (hd : drainAmount options node sign c = .ok () d) : Takes (node.leaked options) c d := by
  obtain ⟨p, a, c₁, hp, ha, rfl⟩ := drainAmount_ok hd
  obtain ⟨value, hyields, -, -⟩ := evaluate_yields h ha
  have hadd := takes_addCopy hyields.step.sound p sign hyields.live
  refine takes_release h ha hadd.ext ?_
  rw [Nat.add_comm]
  exact (evaluate_takes h ha).trans hadd

theorem assign_takes {name : String} {index : Option Node} (h : Sound c)
    (hd : assign options name index node c = .ok () d) :
    Takes (index.elim 0 (Node.leaked options) + node.leaked options) c d := by
  have hplace {i target : Int} (hi : element name i c = .ok target c)
      (ha : assignTo options target node c = .ok () d) : Takes (node.leaked options) c d := by
    obtain ⟨b, hb, hrange, rfl, -⟩ := element_ok.1 hi
    obtain ⟨k, rfl⟩ : ∃ k : Nat, i = k := ⟨i.toNat, by omega⟩
    exact assignTo_takes h (by simp [h.bound hb k (by omega)]) ha
  cases index with
  | none =>
      simp only [assign, bind_ok] at hd
      obtain ⟨target, c', hi, ha⟩ := hd
      obtain rfl : c = c' := (element_ok.1 hi).choose_spec.2.2.2
      simpa using hplace hi ha
  | some index =>
      cases hnumber : index.literalValue? with
      | some number =>
          simp only [assign, hnumber, bind_ok] at hd
          obtain ⟨target, c', hi, ha⟩ := hd
          obtain rfl : c = c' := (element_ok.1 hi).choose_spec.2.2.2
          simpa [Node.leaked, Node.subtractions_of_literal hnumber] using hplace hi ha
      | none =>
          simp only [assign, hnumber] at hd
          exact writeElement_takes h hd

theorem evaluate_temps (hfree : options.freeSubtractionCopies = true) (h : Sound c)
    (he : evaluate options node c = .ok a d) :
    d.layout.temps.erase a = c.layout.temps := by
  have htakes := evaluate_takes h he
  rw [Node.leaked_of_free hfree, Nat.add_zero, held_eq h he] at htakes
  have hmem : a ∉ c.layout.temps := by
    rw [Layout.mem_temps]
    rcases evaluate_cell h he with ⟨-, hfree, -⟩ | ⟨-, hnot, -⟩
    · simp [hfree]
    · exact hnot
  refine (Finset.eq_of_subset_of_card_le ?_ ?_).symm
  · exact Finset.subset_erase.2 ⟨htakes.ext.temps_subset, hmem⟩
  · have hcard := htakes.card
    by_cases htemp : d.layout.status a = .temp
    · rw [Finset.card_erase_of_mem (by simpa using htemp), hcard, if_pos htemp, Nat.add_sub_cancel]
    · rw [Finset.erase_eq_of_notMem (by simpa using htemp), hcard, if_neg htemp, Nat.add_zero]

mutual

theorem operation_temps (hfree : options.freeSubtractionCopies = true) (node : Node)
    {c d : Compilation} (h : Sound c)
    (hd : operation options node c = .ok () d) : d.layout.temps = c.layout.temps := by
  cases node
  case unsafeGoto line offset =>
    obtain ⟨p, r, -, -, -, rfl⟩ := goto_ok hd
    exact congrArg Layout.temps (layout_moveTo c (p + offset))
  case unsafeAdd line amount =>
    exact (Node.leaked_of_free hfree amount ▸ drainAmount_takes h hd).temps_eq
  case unsafeReduce line amount =>
    exact (Node.leaked_of_free hfree amount ▸ drainAmount_takes h hd).temps_eq
  case unsafeShow line =>
    obtain ⟨p, hp, rfl⟩ := unsafeShow_ok hd
    rw [layout_emit, layout_moveTo]
  case unsafeLoop line body =>
    obtain ⟨p, e, hp, hbody, rfl⟩ := unsafeLoop_ok hd
    have hbody := operations_temps hfree body (loopStart_sound h hp) hbody
    rw [layout_emit, layout_moveTo] at hbody
    exact (congrArg Layout.temps (layout_moveTo e p)).trans hbody
  case verbatim line code =>
    obtain ⟨p, hp, rfl⟩ := verbatim_ok hd
    rfl
  all_goals exact absurd hd fail_ok

theorem operations_temps (hfree : options.freeSubtractionCopies = true) (nodes : List Node)
    {c d : Compilation} (h : Sound c)
    (hd : operations options nodes c = .ok () d) : d.layout.temps = c.layout.temps := by
  match nodes with
  | [] =>
      obtain ⟨-, rfl⟩ := pure_ok.1 hd
      rfl
  | node :: rest =>
      simp only [operations, bind_ok] at hd
      obtain ⟨_, e, hnode, hrest⟩ := hd
      obtain ⟨hkeeps, -⟩ := operation_sound node h hnode
      exact (operations_temps hfree rest hkeeps.sound hrest).trans
        (operation_temps hfree node h hnode)

end

theorem unsafeBlock_temps {size : Int} {body : List Node}
    (hfree : options.freeSubtractionCopies = true) (h : Sound c)
    (hd : unsafeBlock options size body c = .ok () d) : d.layout.temps = c.layout.temps := by
  obtain ⟨hsize, hnone, e, hbody, rfl⟩ := unsafeBlock_ok hd
  have hstart := startBlock_sound h hd
  obtain ⟨hkeeps, hscope⟩ := operations_sound body hstart.sound hbody
  have hregion : e.unsafeRegion = some ⟨c.layout.firstFit size, size⟩ :=
    hscope.unsafeRegion.trans (Same.moveTo (c.enterBlock size) _).unsafeRegion
  have hinside := operations_temps hfree body hstart.sound hbody
  rw [startBlock, layout_moveTo, layout_enterBlock, Layout.temps_setRange (by simp)
    fun i hi => by
      rw [(Layout.firstFit_spec h.dense size).2.2 _ (by omega) (by omega)]
      simp] at hinside
  rw [layout_leaveBlock, Layout.temps_setRange (by simp) fun i hi => by
    rw [(hkeeps.sound.reserved _).2 ⟨_, hregion, by dsimp only; omega, by dsimp only; omega⟩]
    simp]
  exact hinside

theorem plain_temps {call : String → Compile Unit} (hfree : options.freeSubtractionCopies = true)
    (hplain : node.isPlain = true) (h : Sound c) (hu : c.unsafePointer = none)
    (hd : form options call node c = .ok () d) : d.layout.temps = c.layout.temps := by
  cases node
  case declare line name type length =>
    obtain ⟨base, hdeclares⟩ := declare_declares h hd
    rw [hdeclares.layout, Layout.temps_setRange (by simp) fun i hi => by simp [hdeclares.free i hi]]
  case assign line name index value =>
    have htakes := assign_takes h hd
    cases index with
    | none => exact (Node.leaked_of_free hfree value ▸ htakes).temps_eq
    | some index =>
        simp only [Option.elim, Node.leaked_of_free hfree] at htakes
        exact htakes.temps_eq
  case display line value =>
    exact (Node.leaked_of_free hfree value ▸ display_takes h hd).temps_eq
  case input line name =>
    obtain ⟨b, -, -, rfl⟩ := input_ok hd
    rw [layout_emit, layout_moveTo]
  case remove line name =>
    obtain ⟨b, hb, hremoves⟩ := remove_removes h hd
    rw [hremoves.layout, Layout.temps_setRange (by simp) fun i hi => by simp [h.bound hb i hi]]
  case unsafeBlock line size body => exact unsafeBlock_temps hfree h hd
  all_goals first | exact absurd hd (operation_outside hu) | cases hplain

theorem openLoop_temps (hfree : options.freeSubtractionCopies = true) (h : Sound c)
    (hopen : openLoop options node c = .ok a d) :
    d.layout.temps.erase a = c.layout.temps := by
  obtain ⟨e, -, hvalue, rfl⟩ := openLoop_ok.1 hopen
  rw [layout_emit, layout_moveTo, evaluate_temps hfree h hvalue]

end Compile

theorem Lowered.temps {options : CompileOptions} {flat : List Node} {c d : Compilation}
    (hfree : options.freeSubtractionCopies = true) (h : Lowered options flat c d) (hc : Sound c)
    (hu : c.unsafePointer = none) : d.layout.temps = c.layout.temps := by
  induction h with
  | nil => rfl
  | noted hn _ ih => rw [ih (hn.sound hc) (hn.unsafePointer.trans hu), hn.layout]
  | plain hplain hform _ ih =>
      obtain ⟨hkeeps, -, hnone⟩ := plain_keeps hplain hc hu hform
      rw [ih hkeeps.sound hnone, plain_temps hfree hplain hc hu hform]
  | @conditional line test body rest a c c₁ c₂ c₃ d hopen hbody hclose _ ihbody ihrest =>
      have hone : Lowered options [.conditional line test body] c c₃ :=
        .conditional hopen hbody hclose .nil
      obtain ⟨hkeeps, hnone⟩ := hone.keeps hc hu
      obtain ⟨hsound, hpoint⟩ := opened_sound hc hopen
      rw [closeConditional, modify_ok] at hclose
      subst hclose
      rw [ihrest hkeeps.sound hnone, temps_freeCondition, layout_emit, layout_clear,
        ihbody hsound (hpoint.trans hu), openLoop_temps hfree hc hopen]
  | @loop line test body rest a c c₁ c₂ c₃ d hopen hbody hclose _ ihbody ihrest =>
      have hone : Lowered options [.loop line test body] c c₃ := .loop hopen hbody hclose .nil
      obtain ⟨hkeeps, hnone⟩ := hone.keeps hc hu
      obtain ⟨hsound, hpoint⟩ := opened_sound hc hopen
      rw [closeLoop, modify_ok] at hclose
      subst hclose
      rw [ihrest hkeeps.sound hnone, temps_freeCondition, layout_emit, layout_moveTo,
        ihbody hsound (hpoint.trans hu), openLoop_temps hfree hc hopen]

theorem Compile.statements_temps {options : CompileOptions} {nodes : List Node} {c d : Compilation}
    (hfree : options.freeSubtractionCopies = true) (h : Settled c) (hu : c.unsafePointer = none)
    (hd : statements options nodes c = .ok () d) : d.layout.temps = c.layout.temps := by
  simp only [statements, bind_ok, get_ok] at hd
  obtain ⟨_, _, ⟨rfl, rfl⟩, hd⟩ := hd
  obtain ⟨flat, -, hlowered, -⟩ := block_inlined (inline_inlines options _ _) nodes h.sound hu
    (Functions.scoped_bound h.nodup h.known nodes) (fun n hn => List.mem_append_right _ hn) hd
  exact hlowered.temps hfree h.sound hu

theorem temporaries_accounted (options : CompileOptions) (nodes : List Node)
    (start : Compilation) :
    (∀ c ∈ (Watch.program options nodes).passed start,
      (∀ options value a d, Compile.evaluate options value c = .ok a d →
        (∀ x, c.layout.status x ≠ .free → d.layout.status x = c.layout.status x) ∧
        d.layout.count .temp = c.layout.count .temp + (if value.place?.isSome then 0 else 1) +
          if options.freeSubtractionCopies then 0 else 2 * value.subtractions) ∧
      ∀ options statements d, options.freeSubtractionCopies = true → c.unsafePointer = none →
        Compile.statements options statements c = .ok () d →
        ∀ x, d.layout.status x = .temp ↔ c.layout.status x = .temp) ∧
    ∀ d, options.freeSubtractionCopies = true → Compile.program options nodes start = .ok () d →
      ∀ x, d.layout.status x ≠ .temp := by
  refine ⟨fun c hc => ⟨fun o value a d hd => ?_, fun o statements d hfree hu hd x => ?_⟩,
    fun d hfree hd x htemp => ?_⟩
  · have hsettled := (Watch.program_safe options nodes start).passed c hc
    have htakes := evaluate_takes hsettled.sound hd
    refine ⟨fun x => htakes.ext.keeps, ?_⟩
    rw [← Layout.card_temps, ← Layout.card_temps, htakes.card, ← Nat.add_assoc]
    rfl
  · have hsettled := (Watch.program_safe options nodes start).passed c hc
    rw [← Layout.mem_temps, statements_temps hfree hsettled hu hd, Layout.mem_temps]
  · simp only [Compile.program, bind_ok, set_ok, get_ok, record_ok] at hd
    obtain ⟨_, _, rfl, _, e, he, _, _, ⟨rfl, rfl⟩, rfl⟩ := hd
    have htemps := statements_temps hfree Settled.initial rfl he
    have hmem : x ∈ e.layout.temps := Layout.mem_temps.2 htemp
    rw [htemps] at hmem
    exact absurd hmem (Finset.notMem_empty x)

def Node.readings : List Node := [.declare 1 "i" .number none, .declare 2 "r" .number (some 2)]

def Node.drift : Node :=
  .math .minus (.var "r" (some (.math .minus (.var "i" none) (.literal 1 false))))
    (.math .minus (.var "i" none) (.literal 2 false))

def Compile.accepts {α : Type} (step : Compile α) (c : Compilation) : Bool :=
  match step c with
  | .ok _ _ => true
  | .error _ _ => false

theorem Compile.exists_of_accepts {α : Type} {step : Compile α} {c : Compilation}
    (h : accepts step c = true) : ∃ a d, step c = .ok a d := by
  unfold accepts at h
  split at h
  · exact ⟨_, _, by assumption⟩
  · cases h

theorem temporaries_accounted_drift :
    ∃ c ∈ (Watch.program {} Node.readings).passed Compilation.initial,
      (∃ a d, Compile.evaluate {} Node.drift c = .ok a d ∧
        d.layout.count .temp = c.layout.count .temp + 7) ∧
      (∃ a d, Compile.evaluate { freeSubtractionCopies := true } Node.drift c = .ok a d ∧
        d.layout.count .temp = c.layout.count .temp + 1) ∧
      (∃ d, Compile.statements { freeSubtractionCopies := true }
          [.loop 3 Node.drift [.display 4 Node.drift]] c = .ok () d ∧
        ∀ x, d.layout.status x = .temp ↔ c.layout.status x = .temp) ∧
      ∃ d, Compile.program { freeSubtractionCopies := true }
          (Node.readings ++ [.display 3 Node.drift]) c = .ok () d ∧
        ∀ x, d.layout.status x ≠ .temp := by
  have hany : ((Watch.program {} Node.readings).passed Compilation.initial).any (fun c =>
      c.unsafePointer = none ∧ Compile.accepts (Compile.evaluate {} Node.drift) c ∧
      Compile.accepts (Compile.evaluate { freeSubtractionCopies := true } Node.drift) c ∧
      Compile.accepts (Compile.statements { freeSubtractionCopies := true }
        [.loop 3 Node.drift [.display 4 Node.drift]]) c ∧
      Compile.accepts (Compile.program { freeSubtractionCopies := true }
        (Node.readings ++ [.display 3 Node.drift])) c) = true := by
    decide +kernel
  obtain ⟨c, hc, hopen⟩ := List.any_eq_true.1 hany
  obtain ⟨hnone, hkept, hfreed, hloop, hwhole⟩ := of_decide_eq_true hopen
  obtain ⟨a, d, hd⟩ := Compile.exists_of_accepts hkept
  obtain ⟨a', d', hd'⟩ := Compile.exists_of_accepts hfreed
  obtain ⟨_, e, he⟩ := Compile.exists_of_accepts hloop
  obtain ⟨_, f, hf⟩ := Compile.exists_of_accepts hwhole
  obtain ⟨hvalue, hstatements⟩ := (temporaries_accounted {} Node.readings _).1 c hc
  exact ⟨c, hc, ⟨a, d, hd, (hvalue _ _ a d hd).2⟩, ⟨a', d', hd', (hvalue _ _ a' d' hd').2⟩,
    ⟨e, he, hstatements _ _ e rfl hnone he⟩,
    f, hf, (temporaries_accounted { freeSubtractionCopies := true } _ c).2 f rfl hf⟩

end TapeCompiler
