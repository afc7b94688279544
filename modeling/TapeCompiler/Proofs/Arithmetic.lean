import TapeCompiler.Proofs.Cells

namespace TapeCompiler

namespace Compilation

variable {c : Compilation}

def joinInto (c : Compilation) (a b result : Int) (sign : Sign) : Compilation :=
  ((c.clear result).drain a result .plus).drain b result sign

theorem turns_joinInto {bound a b result : Int} (hp : 0 ≤ c.pointer ∧ c.pointer < bound)
    (ha : 0 ≤ a ∧ a < bound) (hb : 0 ≤ b ∧ b < bound) (hr : 0 ≤ result ∧ result < bound)
    (hra : result ≠ a) (hrb : result ≠ b) (hab : a ≠ b) (sign : Sign) :
    Turns bound c (c.joinInto a b result sign) fun _ cells =>
      Function.update (Function.update (Function.update cells result
        (sign.apply (cells a) (cells b))) a 0) b 0 := by
  have h := ((turns_clear hp hr).trans (turns_drain (c := c.clear result) hr ha hr hra .plus)).trans
    (turns_drain (c := (c.clear result).drain a result .plus) ha hb hr hrb sign)
  refine h.congr fun bits cells => ?_
  funext x
  by_cases hxb : x = b
  · subst hxb
    simp
  · by_cases hxa : x = a
    · subst hxa
      simp [hxb, hra, Ne.symm hra]
    · by_cases hxr : x = result
      · subst hxr
        simp [hxa, hxb, Ne.symm hra, Ne.symm hrb, Ne.symm hab, Sign.apply]
      · simp [hxa, hxb, hxr]

theorem same_joinInto (c : Compilation) (a b result : Int) (sign : Sign) :
    Same c (c.joinInto a b result sign) :=
  ((Same.clear _ _).trans (.drain _ _ _ _)).trans (.drain _ _ _ _)

theorem fresh_joinInto (h : Sound c) {a b k₁ k₂ r : Int} {c₁ c₂ c₃ : Compilation}
    (ha : c.layout.status a ≠ .free) (hb : c.layout.status b ≠ .free)
    (hc₁ : c.copy a = (k₁, c₁)) (hc₂ : c₁.copy b = (k₂, c₂)) (hc₃ : c₂.allocateTemp = (r, c₃))
    (sign : Sign) :
    Fresh c (c₃.joinInto k₁ k₂ r sign) r (fun _ cells => sign.apply (cells a) (cells b)) ∧
      (c.layout.status k₁ = .free ∧ (c₃.joinInto k₁ k₂ r sign).layout.status k₁ = .temp) ∧
      (c.layout.status k₂ = .free ∧ (c₃.joinInto k₁ k₂ r sign).layout.status k₂ = .temp) ∧
      r ≠ k₁ ∧ r ≠ k₂ ∧ k₁ ≠ k₂ := by
  have h₁ := fresh_copy h ha hc₁
  have h₂ := fresh_copy h₁.step.sound (h₁.step.ext.live hb) hc₂
  obtain ⟨hext₃, hsound₃, hfree₃, htemp₃, -, -⟩ := h₂.step.sound.allocateTemp hc₃
  have hk₂ : c₃.layout.status k₂ = .temp := (hext₃.keeps h₂.live).trans h₂.temp
  have hk₁ : c₃.layout.status k₁ = .temp :=
    ((h₂.step.ext.trans hext₃).keeps h₁.live).trans h₁.temp
  have hr₁ : r ≠ k₁ := by
    rintro rfl
    exact h₂.step.ext.live h₁.live hfree₃
  have hr₂ : r ≠ k₂ := by
    rintro rfl
    exact h₂.live hfree₃
  have h₁₂ : k₁ ≠ k₂ := by
    rintro rfl
    exact h₁.live h₂.free
  have hfree₂ : c.layout.status k₂ = .free := h₁.step.ext.free_of_free h₂.free
  have hfree : c.layout.status r = .free :=
    (h₁.step.ext.trans h₂.step.ext).free_of_free hfree₃
  have hlive₃ : c₃.layout.status r ≠ .free := by simp [htemp₃]
  have hsame := same_joinInto c₃ k₁ k₂ r sign
  have hend : c₃.layout.status (c₃.joinInto k₁ k₂ r sign).pointer ≠ .free := by
    have hp : (c₃.joinInto k₁ k₂ r sign).pointer = k₂ := rfl
    simp [hp, hk₂]
  have hrun := Step.of_turns hsound₃ hsame hend (turns_joinInto (hsound₃.tracked_of_live hlive₃)
    (hsound₃.dense.bounds (by simp [hk₁])) (hsound₃.dense.bounds (by simp [hk₂]))
    (hsound₃.dense.bounds hlive₃) hr₁ hr₂ h₁₂ sign)
  refine ⟨⟨?_, hfree, by rw [hsame.layout, htemp₃]⟩, ⟨h₁.free, by rw [hsame.layout, hk₁]⟩,
    ⟨hfree₂, by rw [hsame.layout, hk₂]⟩, hr₁, hr₂, h₁₂⟩
  refine (((h₁.step.comp h₂.step).comp (Step.allocateTemp h₂.step.sound hc₃)).comp hrun).imp ?_
  rintro bits x _ ⟨z, ⟨_, ⟨y, ⟨hlive, htidy, hval⟩, hlive', htidy', hval'⟩, hz⟩, rfl⟩
  subst hz
  have hy₁ : z k₁ = x a := (hlive' k₁ h₁.live).trans hval
  have hy₂ : z k₂ = x b := hval'.trans (hlive b hb)
  refine ⟨fun v hv => ?_, fun v hv => ?_, ?_⟩
  · have hvr : v ≠ r := by
      rintro rfl
      exact hv hfree
    have hvk₂ : v ≠ k₂ := by
      rintro rfl
      exact hv hfree₂
    simp only [ne_eq, h₁.ne_of_live hv, hvk₂, hvr, not_false_eq_true, Function.update_of_ne]
    rw [hlive' v (h₁.step.ext.live hv), hlive v hv]
  · by_cases hvk₂ : v = k₂
    · subst hvk₂
      exact .inr (by simp)
    · by_cases hvk₁ : v = k₁
      · subst hvk₁
        exact .inr (by simp [hvk₂])
      · simp only [ne_eq, hvk₁, hvk₂, hv, not_false_eq_true, Function.update_of_ne]
        rcases htidy' v hvk₂ with hz | hz
        · rw [hz]
          exact htidy v hvk₁
        · exact .inr hz
  · simp only [ne_eq, hr₁, hr₂, not_false_eq_true, Function.update_of_ne, Function.update_self,
      hy₁, hy₂]

theorem fresh_sum (h : Sound c) {a b r : Int} {d : Compilation}
    (ha : c.layout.status a ≠ .free) (hb : c.layout.status b ≠ .free)
    (hd : c.sum a b = (r, d)) : Fresh c d r fun _ cells => cells a + cells b := by
  obtain ⟨⟨k₁, c₁⟩, hc₁⟩ : ∃ x, c.copy a = x := ⟨_, rfl⟩
  obtain ⟨⟨k₂, c₂⟩, hc₂⟩ : ∃ x, c₁.copy b = x := ⟨_, rfl⟩
  obtain ⟨⟨r', c₃⟩, hc₃⟩ : ∃ x, c₂.allocateTemp = x := ⟨_, rfl⟩
  have hsum : c.sum a b = (r', ((c₃.joinInto k₁ k₂ r' .plus).free k₁).free k₂) := by
    simp only [sum, hc₁, hc₂, hc₃]
    rfl
  obtain ⟨hr, he⟩ := Prod.mk.inj (hsum.symm.trans hd)
  subst hr he
  obtain ⟨hfresh, h₁, h₂, hr₁, hr₂, h₁₂⟩ := fresh_joinInto h ha hb hc₁ hc₂ hc₃ .plus
  refine (hfresh.giveBack h₁.1 h₁.2 hr₁).giveBack h₂.1 ?_ hr₂
  simp only [Compilation.free, Layout.free, Layout.status_set_of_ne (Ne.symm h₁₂), h₂.2]

theorem fresh_difference (h : Sound c) (options : CompileOptions) {a b r : Int} {d : Compilation}
    (ha : c.layout.status a ≠ .free) (hb : c.layout.status b ≠ .free)
    (hd : c.difference options a b = (r, d)) : Fresh c d r fun _ cells => cells a - cells b := by
  obtain ⟨⟨k₁, c₁⟩, hc₁⟩ : ∃ x, c.copy a = x := ⟨_, rfl⟩
  obtain ⟨⟨k₂, c₂⟩, hc₂⟩ : ∃ x, c₁.copy b = x := ⟨_, rfl⟩
  obtain ⟨⟨r', c₃⟩, hc₃⟩ : ∃ x, c₂.allocateTemp = x := ⟨_, rfl⟩
  have hdiff : c.difference options a b = (r', if options.freeSubtractionCopies then
      ((c₃.joinInto k₁ k₂ r' .minus).free k₁).free k₂ else c₃.joinInto k₁ k₂ r' .minus) := by
    simp only [difference, hc₁, hc₂, hc₃]
    rfl
  obtain ⟨hr, he⟩ := Prod.mk.inj (hdiff.symm.trans hd)
  subst hr he
  obtain ⟨hfresh, h₁, h₂, hr₁, hr₂, h₁₂⟩ := fresh_joinInto h ha hb hc₁ hc₂ hc₃ .minus
  split
  · refine (hfresh.giveBack h₁.1 h₁.2 hr₁).giveBack h₂.1 ?_ hr₂
    simp only [Compilation.free, Layout.free, Layout.status_set_of_ne (Ne.symm h₁₂), h₂.2]
  · exact hfresh

theorem does_addCopy (h : Sound c) {source target : Int} (hs : c.layout.status source ≠ .free)
    (ht : c.layout.status target ≠ .free) (sign : Sign) :
    Does c (c.addCopy source target sign) fun _ cells =>
      Function.update cells target (sign.apply (cells target) (cells source)) := by
  obtain ⟨⟨k, d⟩, hd⟩ : ∃ x, c.copy source = x := ⟨_, rfl⟩
  have hadd : c.addCopy source target sign = (d.drain k target sign).free k := by
    simp only [addCopy, hd]
  have hk := fresh_copy h hs hd
  have hlive := hk.step.ext.live ht
  rw [hadd]
  refine Step.giveBack (hk.step.turn (Same.drain ..) hk.live (turns_drain
    (hk.step.sound.tracked_of_live hlive) (hk.step.sound.dense.bounds hk.live)
    (hk.step.sound.dense.bounds hlive) (hk.ne_of_live ht) sign) ?_) hk.free
    (by rw [layout_drain, hk.temp])
  rintro bits x y ⟨hkeep, htidy, hval⟩
  refine ⟨fun v hv => ?_, fun v hv => ?_⟩
  · dsimp only
    rw [Function.update_of_ne (hk.ne_of_live hv)]
    by_cases hvt : v = target
    · subst hvt
      rw [Function.update_self, Function.update_self, hkeep v hv, hval]
    · rw [Function.update_of_ne hvt, Function.update_of_ne hvt, hkeep v hv]
  · by_cases hvk : v = k
    · subst hvk
      exact .inr (Function.update_self ..)
    · rw [Function.update_of_ne hvk, Function.update_of_ne (by rintro rfl; exact ht hv)]
      exact htidy v hvk

end Compilation

end TapeCompiler
