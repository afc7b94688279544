import TapeCompiler.Proofs.Arithmetic
import Mathlib.Algebra.BigOperators.Group.List.Basic

namespace TapeCompiler

theorem eq_of_one_eq_zero {bits : Nat} (h : (1 : BitVec bits) = 0) (a b : BitVec bits) : a = b := by
  rw [← mul_one a, ← mul_one b, h, mul_zero, mul_zero]

namespace Compilation

variable {c d e : Compilation} {f g : ∀ bits : Nat, (Int → BitVec bits) → Int → BitVec bits}

structure Local (c : Compilation)
    (f : ∀ bits : Nat, (Int → BitVec bits) → Int → BitVec bits) : Prop where
  reads : ∀ {bits : Nat} {x y : Int → BitVec bits}, (∀ v, c.layout.status v ≠ .free → x v = y v) →
    ∀ v, c.layout.status v ≠ .free → f bits x v = f bits y v
  keeps : ∀ {bits : Nat} (x : Int → BitVec bits) {v : Int}, c.layout.status v = .free →
    f bits x v = x v

theorem Local.extend (hf : Local c f) (h : Extends c d) : Local d f := by
  refine ⟨fun hxy v hv => ?_, fun x v hv => hf.keeps x (h.free_of_free hv)⟩
  by_cases hc : c.layout.status v = .free
  · rw [hf.keeps _ hc, hf.keeps _ hc, hxy v hv]
  · exact hf.reads (fun u hu => hxy u (h.live hu)) v hc

theorem Local.when (hf : Local c f) {index : Int} (hi : c.layout.status index ≠ .free)
    (slot : Nat) : Local c fun bits cells => if cells index = slot then f bits cells else cells := by
  refine ⟨fun hxy v hv => ?_, fun x v hv => ?_⟩
  · rw [hxy index hi]
    split
    · exact hf.reads hxy v hv
    · exact hxy v hv
  · split
    · exact hf.keeps x hv
    · rfl

theorem local_update {target : Int} (ht : c.layout.status target ≠ .free)
    {value : ∀ bits : Nat, (Int → BitVec bits) → BitVec bits}
    (hvalue : ∀ {bits : Nat} {x y : Int → BitVec bits},
      (∀ v, c.layout.status v ≠ .free → x v = y v) → value bits x = value bits y) :
    Local c fun bits cells => Function.update cells target (value bits cells) := by
  refine ⟨fun hxy v hv => ?_, fun x v hv => ?_⟩
  · rw [hvalue hxy]
    by_cases hvt : v = target
    · subst hvt
      rw [Function.update_self, Function.update_self]
    · rw [Function.update_of_ne hvt, Function.update_of_ne hvt, hxy v hv]
  · exact Function.update_of_ne (by rintro rfl; exact ht hv) _ _

theorem Does.refl (h : Sound c) : Does c c fun _ cells => cells :=
  ⟨.refl c, h, .of_turns (.same rfl rfl) fun _ => ⟨fun _ _ => rfl, fun _ _ => .inl rfl⟩⟩

theorem Does.trans (h : Does c d f) (h' : Does d e g) (hg : Local c g) :
    Does c e fun bits cells => g bits (f bits cells) := by
  refine Step.trans h h' ?_
  rintro bits x y z ⟨hf, hfree⟩ ⟨hg', hfree'⟩
  refine ⟨fun v hv => ?_, fun v hv => ?_⟩
  · rw [hg' v (h.ext.live hv)]
    exact hg.reads hf v hv
  · by_cases hd : d.layout.status v = .free
    · rcases hfree' v hd with hz | hz
      · rw [hz]
        exact hfree v hv
      · exact .inr hz
    · rw [hg' v hd, hg.keeps y hv]
      exact hfree v hv

def testProbe (c : Compilation) (probe guard : Int) : Compilation :=
  (((((c.countAt 1 guard).moveTo probe).emit "[").clear guard).clear probe).emit "]"

theorem turns_testProbe {bound probe guard : Int} (hp : 0 ≤ c.pointer ∧ c.pointer < bound)
    (hb : 0 ≤ probe ∧ probe < bound) (hg : 0 ≤ guard ∧ guard < bound) (hne : guard ≠ probe) :
    Turns bound c (c.testProbe probe guard) fun _ cells =>
      Function.update (Function.update cells guard (if cells probe = 0 then 1 else 0)) probe 0 := by
  let c₁ := (c.countAt 1 guard).moveTo probe
  have hset : Turns bound c c₁ _ := (turns_countAt hp 1 hg).trans
    (turns_moveTo (c := c.countAt 1 guard) (by rwa [pointer_countAt]) hb)
  have hbody := (turns_clear (c := c₁.emit "[") hb hg).trans
    (turns_clear (c := (c₁.emit "[").clear guard) hg hb)
  have honce := hbody.once (c := c₁) rfl fun bits cells => Function.update_self ..
  refine (hset.trans honce).congr fun bits cells => ?_
  have hpointer : c₁.pointer = probe := rfl
  have hone : BitVec.ofInt bits 1 = 1 := rfl
  rw [hpointer, Function.update_of_ne (Ne.symm hne), hone]
  by_cases hz : cells probe = 0
  · rw [if_pos hz, if_pos hz]
    refine (Function.update_eq_self_iff.2 ?_).symm
    rw [Function.update_of_ne (Ne.symm hne), hz]
  · rw [if_neg hz, if_neg hz, Function.update_idem]

theorem same_testProbe (c : Compilation) (probe guard : Int) :
    Same c (c.testProbe probe guard) :=
  (((((Same.countAt _ _ _).trans (.moveTo _ _)).trans (.emit _ _)).trans (.clear _ _)).trans
    (.clear _ _)).trans (.emit _ _)

variable {value : ∀ bits : Nat, (Int → BitVec bits) → BitVec bits} {probe guard : Int}

theorem Fresh.takeAway (h : Fresh c d probe value) (slot : Nat) :
    Fresh c (if 0 < (slot : Int) then (d.moveTo probe).emit (repeated '-' (slot : Int).toNat) else d)
      probe fun bits cells => value bits cells - slot := by
  split
  · have hb := h.step.sound.dense.bounds h.live
    have hturn := (turns_moveTo (h.step.sound.tracked_of_live h.live) hb).trans
      (turns_repeated (c := d.moveTo probe) hb slot).2
    refine ⟨h.step.turn ((Same.moveTo _ _).trans (.emit _ _)) h.live hturn ?_, h.free, by
      rw [layout_emit, layout_moveTo, h.temp]⟩
    rintro bits x y ⟨hlive, htidy, hval⟩
    refine ⟨fun v hv => ?_, fun v hv => ?_, ?_⟩
    · rw [pointer_moveTo, Function.update_of_ne (h.ne_of_live hv)]
      exact hlive v hv
    · rw [pointer_moveTo, Function.update_of_ne hv]
      exact htidy v hv
    · rw [pointer_moveTo, Function.update_self, hval]
  · have hslot : slot = 0 := by omega
    subst hslot
    simpa using h

theorem Fresh.test (h : Fresh c d probe value) (he : d.allocateTemp = (guard, e)) :
    Fresh c (e.testProbe probe guard) guard
      (fun bits cells => if value bits cells = 0 then 1 else 0) ∧
      (e.testProbe probe guard).layout.status probe = .temp ∧ guard ≠ probe := by
  obtain ⟨hext, hsound, hfree, htemp, -, -⟩ := h.step.sound.allocateTemp he
  have hprobe : e.layout.status probe = .temp := (hext.keeps h.live).trans h.temp
  have hlive : e.layout.status guard ≠ .free := by simp [htemp]
  have hlive' : e.layout.status probe ≠ .free := by simp [hprobe]
  have hne : guard ≠ probe := by
    rintro rfl
    exact h.live hfree
  have hfree' := h.step.ext.free_of_free hfree
  have hsame := same_testProbe e probe guard
  have hturn := turns_testProbe (hsound.tracked_of_live hlive) (hsound.dense.bounds hlive')
    (hsound.dense.bounds hlive) hne
  refine ⟨⟨?_, hfree', by rw [hsame.layout, htemp]⟩, by rw [hsame.layout, hprobe], hne⟩
  refine (h.step.comp (Step.allocateTemp h.step.sound he)).turn hsame hlive' hturn ?_
  rintro bits x z ⟨y, ⟨hkeep, htidy, hval⟩, hz⟩
  subst hz
  refine ⟨fun v hv => ?_, fun v hv => ?_, ?_⟩
  · have hvg : v ≠ guard := by
      rintro rfl
      exact hv hfree'
    rw [Function.update_of_ne (h.ne_of_live hv), Function.update_of_ne hvg, hkeep v hv]
  · by_cases hvp : v = probe
    · subst hvp
      exact .inr (Function.update_self ..)
    · rw [Function.update_of_ne hvp, Function.update_of_ne hv]
      exact htidy v hvp
  · rw [Function.update_of_ne hne, Function.update_self, hval]

theorem Fresh.moveTo (h : Fresh c d guard value) : Fresh c (d.moveTo guard) guard value :=
  ⟨h.step.turn (Same.moveTo d guard) h.live (turns_moveTo (h.step.sound.tracked_of_live h.live)
    (h.step.sound.dense.bounds h.live)) id, h.free, by rw [layout_moveTo, h.temp]⟩

theorem Fresh.guarded {T : ∀ bits : Nat, (Int → BitVec bits) → Prop}
    [∀ bits cells, Decidable (T bits cells)]
    (h : Fresh c d guard fun bits cells => if T bits cells then 1 else 0) (hp : d.pointer = guard)
    (hf : Local c f) (hbody : Does (d.emit "[") e f) :
    Does c (((e.clear guard).emit "]").free guard)
      fun bits cells => if T bits cells then f bits cells else cells := by
  have hlive : e.layout.status guard ≠ .free := hbody.ext.live h.live
  have hclear := Step.turn hbody (Same.clear _ guard) (R := fun bits x y =>
    y guard = 0 ∧ (∀ v, v ≠ guard → d.layout.status v ≠ .free → y v = f bits x v) ∧
      ∀ v, d.layout.status v = .free → y v = x v ∨ y v = 0) hlive
    (turns_clear (hbody.sound.tracked_of_live hlive) (hbody.sound.dense.bounds hlive)) (by
      rintro bits x y ⟨hkeep, htidy⟩
      refine ⟨Function.update_self .., fun v hv hvd => ?_, fun v hv => ?_⟩
      · rw [Function.update_of_ne hv]
        exact hkeep v hvd
      · rw [Function.update_of_ne (by rintro rfl; exact h.live hv)]
        exact htidy v hv)
  have honce := hclear.once (Q := fun bits x y =>
      (x guard ≠ 0 ∧ y guard = 0 ∧ (∀ v, v ≠ guard → d.layout.status v ≠ .free → y v = f bits x v) ∧
        ∀ v, d.layout.status v = .free → y v = x v ∨ y v = 0) ∨ x guard = 0 ∧ y = x)
    (by rw [hp, pointer_clear]) (fun hP => by rw [hp]; exact hP.1)
    (fun hx hP => .inl ⟨by rwa [hp] at hx, hP⟩) (fun hx => .inr ⟨by rwa [hp] at hx, rfl⟩)
  refine Step.giveBack (h.step.trans honce ?_) h.free ?_
  · rintro bits x y z ⟨hkeep, htidy, hval⟩ (⟨hg, hg0, hbody, hrest⟩ | ⟨hg, hz⟩)
    · have hT : T bits x := by
        by_contra hT
        rw [if_neg hT] at hval
        exact hg hval
      refine ⟨fun v hv => ?_, fun v hv => ?_⟩
      · dsimp only
        rw [if_pos hT, hbody v (h.ne_of_live hv) (h.step.ext.live hv)]
        exact hf.reads hkeep v hv
      · by_cases hvg : v = guard
        · subst hvg
          exact .inr hg0
        · by_cases hvd : d.layout.status v = .free
          · rcases hrest v hvd with hz | hz
            · rw [hz]
              exact htidy v hvg
            · exact .inr hz
          · rw [hbody v hvg hvd, hf.keeps y hv]
            exact htidy v hvg
    · subst hz
      refine ⟨fun v hv => ?_, fun v hv => ?_⟩
      · dsimp only
        by_cases hT : T bits x
        · rw [if_pos hT] at hval
          exact eq_of_one_eq_zero (hval.symm.trans hg) _ _
        · rw [if_neg hT]
          exact hkeep v hv
      · by_cases hvg : v = guard
        · subst hvg
          exact .inr hg
        · exact htidy v hvg
  · rw [layout_emit, layout_clear, hbody.ext.keeps h.live]
    exact h.temp

theorem does_whenIndexIs (h : Sound c) {index : Int} (hi : c.layout.status index ≠ .free)
    (slot : Nat) {body : Compilation → Compilation} (hf : Local c f)
    (hbody : ∀ {e : Compilation}, Extends c e → Sound e → Does e (body e) f) :
    Does c (c.whenIndexIs index slot body) fun bits cells =>
      if cells index = slot then f bits cells else cells := by
  obtain ⟨⟨probe, c₁⟩, hc₁⟩ : ∃ x, c.copy index = x := ⟨_, rfl⟩
  obtain ⟨c₂, hc₂⟩ : ∃ x, (if 0 < (slot : Int) then
    (c₁.moveTo probe).emit (repeated '-' (slot : Int).toNat) else c₁) = x := ⟨_, rfl⟩
  obtain ⟨⟨guard, c₃⟩, hc₃⟩ : ∃ x, c₂.allocateTemp = x := ⟨_, rfl⟩
  have hcode : c.whenIndexIs index slot body =
      (((((body (((c₃.testProbe probe guard).moveTo guard).emit "[")).clear guard).emit "]").free
        guard).free probe) := by
    simp only [whenIndexIs, hc₁, hc₂, hc₃]
    rfl
  have hprobe := (fresh_copy h hi hc₁).takeAway slot
  rw [hc₂] at hprobe
  obtain ⟨hguard, htemp, hne⟩ := hprobe.test hc₃
  have hmoved := hguard.moveTo
  have hrun := hbody (hmoved.step.ext.trans (.of_same (.emit _ "[")))
    (hmoved.step.sound.of_same (.emit _ "[") hmoved.step.sound.tracked)
  rw [hcode]
  refine Step.giveBack (Step.imp (hmoved.guarded rfl hf hrun) ?_) hprobe.free ?_
  · rintro bits x y ⟨hkeep, htidy⟩
    refine ⟨fun v hv => ?_, htidy⟩
    rw [hkeep v hv]
    simp only [sub_eq_zero]
  · have hlive : (((c₃.testProbe probe guard).moveTo guard).emit "[").layout.status probe ≠ .free := by
      rw [layout_emit, layout_moveTo, htemp]
      simp
    have hkept := hrun.ext.keeps hlive
    rw [layout_emit, layout_moveTo, htemp] at hkept
    simp only [Compilation.free, Layout.free, Layout.status_set_of_ne (Ne.symm hne), layout_emit,
      layout_clear, hkept]

def selected {bits : Nat} (index : Int)
    (f : Nat → ∀ bits : Nat, (Int → BitVec bits) → Int → BitVec bits) (slots : List Nat)
    (cells : Int → BitVec bits) : Int → BitVec bits :=
  slots.foldl (fun cells (k : Nat) => if cells index = k then f k bits cells else cells) cells

theorem does_atElement (h : Sound c) {index : Int} (hi : c.layout.status index ≠ .free)
    (b : Binding) (body : Int → Compilation → Compilation)
    {f : Nat → ∀ bits : Nat, (Int → BitVec bits) → Int → BitVec bits}
    (hf : ∀ k < b.length, Local c (f k))
    (hbody : ∀ k < b.length, ∀ {e : Compilation}, Extends c e → Sound e →
      Does e (body (b.base + k) e) (f k)) :
    Does c (c.atElement b index body) fun _ cells => selected index f (List.range b.length) cells := by
  suffices hslots : ∀ slots : List Nat, (∀ k ∈ slots, k < b.length) →
      Does c (slots.foldl (fun c (slot : Nat) => c.whenIndexIs index slot (body (b.base + slot))) c)
        fun _ cells => selected index f slots cells from
    hslots _ fun k hk => List.mem_range.1 hk
  intro slots hslots
  induction slots using List.reverseRecOn with
  | nil => exact .refl h
  | append_singleton slots k ih =>
      have hk : k < b.length := hslots k (by simp)
      have hdoes := ih fun j hj => hslots j (by simp [hj])
      have hstep := does_whenIndexIs hdoes.sound (hdoes.ext.live hi) k ((hf k hk).extend hdoes.ext)
        fun he => hbody k hk (hdoes.ext.trans he)
      have htrans := hdoes.trans hstep ((hf k hk).when hi k)
      simp only [selected, List.foldl_append, List.foldl_cons, List.foldl_nil] at htrans ⊢
      exact htrans

theorem selected_read {bits : Nat} {index result base : Int} (hi : index ≠ result)
    {n : Nat} (hb : ∀ k < n, base + (k : Int) ≠ result) (cells : Int → BitVec bits) :
    selected index (fun k _ cells => Function.update cells result (cells result + cells (base + k)))
      (List.range n) cells =
    Function.update cells result (cells result +
      ((List.range n).map fun k : Nat => if cells index = k then cells (base + k) else 0).sum) := by
  induction n with
  | zero => simp [selected]
  | succ n ih =>
      have hprev := ih fun k hk => hb k (Nat.lt_succ_of_lt hk)
      have hlast := hb n (Nat.lt_succ_self n)
      simp only [selected] at hprev
      simp only [selected, List.range_succ, List.foldl_append, List.foldl_cons, List.foldl_nil, hprev,
        List.map_append, List.map_cons, List.map_nil, List.sum_append, List.sum_cons, List.sum_nil,
        Function.update_of_ne hi, Function.update_of_ne hlast, Function.update_self, add_zero]
      split
      · rw [Function.update_idem, add_assoc]
      · rw [add_zero]

theorem selected_write {bits : Nat} {index value base : Int} {n : Nat}
    (hi : ∀ k < n, base + (k : Int) ≠ index) (cells : Int → BitVec bits) :
    selected index (fun k _ cells => Function.update cells (base + k) (cells value))
      (List.range n) cells =
    fun x => if ∃ k < n, x = base + (k : Int) ∧ cells index = (k : BitVec bits) then cells value
      else cells x := by
  induction n with
  | zero => simp [selected]
  | succ n ih =>
      have hprev := ih fun k hk => hi k (Nat.lt_succ_of_lt hk)
      simp only [selected] at hprev
      simp only [selected, List.range_succ, List.foldl_append, List.foldl_cons, List.foldl_nil, hprev,
        ite_self]
      have hindex : ¬∃ k < n, index = base + (k : Int) ∧ cells index = (k : BitVec bits) := by
        rintro ⟨k, hk, heq, -⟩
        exact hi k (Nat.lt_succ_of_lt hk) heq.symm
      rw [if_neg hindex]
      funext x
      split
      · rename_i hn
        by_cases hx : x = base + (n : Int)
        · subst hx
          rw [Function.update_self, if_pos ⟨n, Nat.lt_succ_self n, rfl, hn⟩]
        · rw [Function.update_of_ne hx]
          refine if_congr ⟨?_, ?_⟩ rfl rfl
          · rintro ⟨k, hk, h⟩
            exact ⟨k, Nat.lt_succ_of_lt hk, h⟩
          · rintro ⟨k, hk, rfl, h⟩
            refine ⟨k, ?_, rfl, h⟩
            rcases Nat.lt_succ_iff_lt_or_eq.1 hk with hk | rfl
            · exact hk
            · exact absurd rfl hx
      · rename_i hn
        refine if_congr ⟨?_, ?_⟩ rfl rfl
        · rintro ⟨k, hk, h⟩
          exact ⟨k, Nat.lt_succ_of_lt hk, h⟩
        · rintro ⟨k, hk, hx, h⟩
          refine ⟨k, ?_, hx, h⟩
          rcases Nat.lt_succ_iff_lt_or_eq.1 hk with hk | rfl
          · exact hk
          · exact absurd h hn

theorem Fresh.store {source target : Int} (hk : Fresh c d source value)
    (ht : c.layout.status target ≠ .free) :
    Does c (((d.clear target).drain source target .plus).free source) fun bits cells =>
      Function.update cells target (value bits cells) := by
  have hlive := hk.step.ext.live ht
  have hne := hk.ne_of_live ht
  have hbounds := hk.step.sound.dense.bounds hlive
  have hturn := (turns_clear (hk.step.sound.tracked_of_live hlive) hbounds).trans
    (turns_drain (c := d.clear target) hbounds (hk.step.sound.dense.bounds hk.live) hbounds hne .plus)
  refine Step.giveBack (hk.step.turn ((Same.clear _ _).trans (.drain _ _ _ _)) hk.live hturn ?_) hk.free
    (by rw [layout_drain, layout_clear, hk.temp])
  rintro bits x y ⟨hkeep, htidy, hval⟩
  simp only [Function.update_self, Function.update_of_ne (Ne.symm hne), Sign.apply, zero_add,
    Function.update_idem, hval]
  refine ⟨fun v hv => ?_, fun v hv => ?_⟩
  · rw [Function.update_of_ne (hk.ne_of_live hv)]
    by_cases hvt : v = target
    · subst hvt
      rw [Function.update_self, Function.update_self]
    · rw [Function.update_of_ne hvt, Function.update_of_ne hvt, hkeep v hv]
  · by_cases hvk : v = source
    · subst hvk
      exact .inr (Function.update_self ..)
    · rw [Function.update_of_ne hvk, Function.update_of_ne (by rintro rfl; exact ht hv)]
      exact htidy v hvk

end Compilation

end TapeCompiler
