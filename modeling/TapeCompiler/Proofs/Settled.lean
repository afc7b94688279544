import TapeCompiler.Proofs.Failure
import TapeCompiler.Proofs.Watch

namespace TapeCompiler

open Compilation

structure Compilation.Settled (c : Compilation) : Prop where
  sound : Sound c
  nodup : c.functions.expanding.Nodup
  known : ∀ name ∈ c.functions.expanding, (c.functions.bodies.find? name).isSome

namespace Compilation.Settled

variable {c d : Compilation} {a : Int}

theorem initial : Settled Compilation.initial := by
  refine ⟨.initial, List.nodup_nil, fun name hname => ?_⟩
  cases hname

theorem of_functions (h : Settled c) (hd : Sound d) (hf : d.functions = c.functions) : Settled d :=
  ⟨hd, hf ▸ h.nodup, hf ▸ h.known⟩

theorem extend (h : Settled c) (hext : Extends c d) (hd : Sound d) : Settled d :=
  h.of_functions hd hext.functions

theorem turn_below (h : Settled c) (hsame : Same c d)
    (hp : 0 ≤ d.pointer ∧ d.pointer < c.layout.highWater) : Settled d := by
  rw [← hsame.layout] at hp
  exact h.of_functions (h.sound.of_same hsame (by omega)) hsame.functions

theorem turn (h : Settled c) (hsame : Same c d) (hp : c.layout.status d.pointer ≠ .free) :
    Settled d :=
  h.turn_below hsame (h.sound.dense.bounds hp)

theorem giveBack (h : Settled c) (ha : c.layout.status a = .temp) : Settled (c.free a) :=
  h.of_functions (h.sound.free ha) rfl

theorem release (h : Settled c) (a : Int) : Settled (c.release a) := by
  by_cases htemp : c.layout.status a = .temp
  · rw [release_temp htemp]
    exact (h.turn (.clear c a) (by rw [pointer_clear, htemp]; simp)).giveBack
      (by rw [layout_clear, htemp])
  · rwa [release_kept htemp]

theorem freeCondition (h : Settled c) (a : Int) : Settled (c.freeCondition a) := by
  by_cases htemp : c.layout.status a = .temp
  · rw [freeCondition_temp htemp]
    exact h.giveBack htemp
  · rwa [freeCondition_kept htemp]

theorem record (h : Settled c) (event : Event) : Settled (c.record event) :=
  h.of_functions (h.sound.record event) rfl

end Compilation.Settled

namespace Watch

open Compile

variable {α β : Type} {c d : Compilation} {options : CompileOptions}

structure Safe (w : Watch α) (c : Compilation) : Prop where
  passed : ∀ x ∈ w.passed c, Settled x
  failed : ∀ {error d}, w.compile c = .error error d →
    ∃ x ∈ w.passed c, x.layout = d.layout ∧ x.bindings = d.bindings

namespace Safe

variable {w : Watch α} {f : α → Watch β} {x : Compile α}

theorem of_pure (a : α) : (pure a : Watch α).Safe c := by
  refine ⟨fun x hx => ?_, fun h => ?_⟩
  · cases hx
  · cases h

theorem of_quiet (h : ∀ {error d}, x c ≠ .error error d) : (quiet x).Safe c := by
  refine ⟨fun y hy => ?_, fun hx => ?_⟩
  · cases hy
  · exact absurd hx h

theorem bind (hw : w.Safe c) (hf : ∀ {a d}, w.compile c = .ok a d → (f a).Safe d) :
    (w >>= f).Safe c := by
  refine ⟨fun x hx => ?_, fun herror => ?_⟩
  · rcases mem_passed_bind.1 hx with hx | ⟨a, d, hc, hx⟩
    · exact hw.passed x hx
    · exact (hf hc).passed x hx
  · rw [compile_bind, bind_error] at herror
    rcases herror with hc | ⟨a, e, hc, herror⟩
    · obtain ⟨x, hx, hsame⟩ := hw.failed hc
      exact ⟨x, mem_passed_bind.2 (.inl hx), hsame⟩
    · obtain ⟨x, hx, hsame⟩ := (hf hc).failed herror
      exact ⟨x, mem_passed_bind.2 (.inr ⟨a, e, hc, hx⟩), hsame⟩

theorem of_step (hok : ∀ {a d}, x c = .ok a d → Settled d)
    (herror : ∀ {error d}, x c = .error error d → Settled d) : (step x).Safe c := by
  cases hx : x c with
  | ok a d =>
      have hpassed : (step x).passed c = [d] := by simp only [step, hx]
      refine ⟨fun y hy => ?_, fun hfailed => ?_⟩
      · rw [hpassed, List.mem_singleton] at hy
        exact hy ▸ hok hx
      · cases hx.symm.trans hfailed
  | error error d =>
      have hpassed : (step x).passed c = [d] := by simp only [step, hx]
      refine ⟨fun y hy => ?_, fun hfailed => ?_⟩
      · rw [hpassed, List.mem_singleton] at hy
        exact hy ▸ herror hx
      · cases hx.symm.trans hfailed
        exact ⟨d, by simp [hpassed], rfl, rfl⟩

theorem of_modify {g : Compilation → Compilation} (h : Settled (g c)) :
    (step (modify g)).Safe c :=
  of_step (fun hok => modify_ok.1 hok ▸ h) fun herror => by cases herror

theorem of_modifyGet {g : Compilation → α × Compilation} {a : α} (hg : g c = (a, d))
    (h : Settled d) : (step (modifyGet g)).Safe c := by
  refine of_step (fun hok => ?_) fun herror => by cases herror
  cases (modifyGet_ok.1 hok).symm.trans hg
  exact h

theorem change {g : Compilation → Compilation} {f : Unit → Watch β} (h : Settled (g c))
    (hf : (f ()).Safe (g c)) : (step (modify g) >>= f).Safe c :=
  .bind (of_modify h) fun hd => modify_ok.1 hd ▸ hf

theorem look {f : Compilation → Watch β} (hf : (f c).Safe c) : (quiet get >>= f).Safe c := by
  refine .bind (of_quiet fun herror => by cases herror) fun hd => ?_
  obtain ⟨rfl, rfl⟩ := get_ok.1 hd
  exact hf

theorem of_fail {fault : CompileFault} (h : Settled c) : (step (fail fault : Compile α)).Safe c :=
  of_step (fun hok => absurd hok fail_ok) fun herror => by
    cases herror
    exact h

theorem of_clean (h : Settled c) (hx : Clean x) (hok : ∀ {a d}, x c = .ok a d → Settled d) :
    (step x).Safe c :=
  of_step hok fun herror => hx _ _ _ herror ▸ h

theorem of_look (h : Settled c) (hx : Clean x) (hlook : ∀ {a d}, x c = .ok a d → c = d) :
    (step x).Safe c :=
  of_clean h hx fun hok => hlook hok ▸ h

theorem locate {line : Int} (hw : w.Safe c) : (locate line w).Safe c := by
  refine ⟨hw.passed, fun {error d} herror => ?_⟩
  change Compile.locate line w.compile c = _ at herror
  unfold Compile.locate at herror
  split at herror
  · cases herror
  · rename_i hx
    cases herror
    exact hw.failed hx

theorem ensuring {finish : Compilation → Compilation} (hw : w.Safe c)
    (hok : ∀ {a d}, w.compile c = .ok a d → Settled (finish d))
    (hsame : ∀ d, (finish d).layout = d.layout ∧ (finish d).bindings = d.bindings) :
    (ensuring finish w).Safe c := by
  refine ⟨fun x hx => ?_, fun {error d} herror => ?_⟩
  · rcases mem_passed_ensuring.1 hx with hx | ⟨a, d, hc, rfl⟩
    · exact hw.passed x hx
    · exact hok hc
  · rw [compile_ensuring] at herror
    unfold Compile.ensuring at herror
    split at herror
    · cases herror
    · rename_i hc
      cases herror
      obtain ⟨x, hx, hlayout, hbindings⟩ := hw.failed hc
      exact ⟨x, mem_passed_ensuring.2 (.inl hx), hlayout.trans (hsame _).1.symm,
        hbindings.trans (hsame _).2.symm⟩

end Safe

theorem allocate_safe (h : Settled c) : allocate.Safe c := by
  obtain ⟨hext, hsound, -⟩ := h.sound.allocateTemp rfl
  exact .of_modifyGet rfl (h.extend hext hsound)

theorem copy_safe (h : Settled c) {source : Int} (hs : c.layout.status source ≠ .free) :
    (copy source).Safe c := by
  refine (allocate_safe h).bind fun {kept c₁} hkept => ?_
  obtain ⟨hext, hsound, -⟩ := h.sound.allocateTemp (modifyGet_ok.1 hkept)
  refine (allocate_safe (h.extend hext hsound)).bind fun {back c₂} hback => ?_
  refine .change ?_ (.of_pure kept)
  have hcopy : c.copy source = (kept, (c₂.copyInto source kept back).free back) := by
    simp only [Compilation.copy, modifyGet_ok.1 hkept, modifyGet_ok.1 hback]
    rfl
  have hfresh := fresh_copy h.sound hs hcopy
  exact h.extend hfresh.step.ext hfresh.step.sound

theorem copy_ok {source a : Int} : (copy source).compile c = .ok a d ↔ c.copy source = (a, d) := by
  rw [compile_copy, modifyGet_ok]

theorem addCopy_safe (h : Settled c) {source target : Int} (hs : c.layout.status source ≠ .free)
    (ht : c.layout.status target ≠ .free) (sign : Sign) : (addCopy source target sign).Safe c := by
  refine (copy_safe h hs).bind fun {copied d} hcopy => .of_modify ?_
  have hdoes := does_addCopy h.sound hs ht sign
  simp only [Compilation.addCopy, copy_ok.1 hcopy] at hdoes
  exact h.extend hdoes.ext hdoes.sound

theorem setValue_safe {address : Int} (h : Settled c) (ha : c.layout.status address ≠ .free)
    (value : Int) : (step (setValue value address)).Safe c := by
  refine .of_step (fun hok => ?_) fun herror => ?_
  · obtain ⟨-, rfl⟩ := setValue_ok.1 hok
    exact h.turn (.countAt _ _ _) (by rwa [pointer_countAt])
  · obtain ⟨-, -, rfl⟩ := setValue_error.1 herror
    exact h.turn (.clear _ _) (by rwa [pointer_clear])

theorem constant_safe (h : Settled c) (value : Int) : (constant value).Safe c := by
  refine (allocate_safe h).bind fun {address d} ha => ?_
  obtain ⟨hext, hsound, -, htemp, -⟩ := h.sound.allocateTemp (modifyGet_ok.1 ha)
  exact (setValue_safe (h.extend hext hsound) (by simp [htemp]) value).bind fun _ => .of_pure _

theorem greatest_safe (h : Settled c) : greatest.Safe c := by
  refine (allocate_safe h).bind fun {address d} ha => .change ?_ (.of_pure _)
  have hd : c.greatest = (address, (d.clear address).emit "-") := by
    simp only [Compilation.greatest, modifyGet_ok.1 ha]
  have hfresh := fresh_greatest h.sound hd
  exact h.extend hfresh.step.ext hfresh.step.sound

theorem join_safe (h : Settled c) {a b : Int} (ha : c.layout.status a ≠ .free)
    (hb : c.layout.status b ≠ .free) (sign : Sign) (giveBack : Bool) :
    (join sign giveBack a b).Safe c := by
  refine (copy_safe h ha).bind fun {k₁ c₁} hc₁ => ?_
  have h₁ := fresh_copy h.sound ha (copy_ok.1 hc₁)
  have hsettled₁ := h.extend h₁.step.ext h₁.step.sound
  refine (copy_safe hsettled₁ (h₁.step.ext.live hb)).bind fun {k₂ c₂} hc₂ => ?_
  have h₂ := fresh_copy h₁.step.sound (h₁.step.ext.live hb) (copy_ok.1 hc₂)
  refine (allocate_safe (hsettled₁.extend h₂.step.ext h₂.step.sound)).bind fun {r c₃} hc₃ => ?_
  obtain ⟨hfresh, ⟨-, htemp₁⟩, ⟨-, htemp₂⟩, -, -, hne⟩ := fresh_joinInto h.sound ha hb
    (copy_ok.1 hc₁) (copy_ok.1 hc₂) (modifyGet_ok.1 hc₃) sign
  have hjoined := h.extend hfresh.step.ext hfresh.step.sound
  refine .change hjoined ?_
  split
  · refine .change (hjoined.giveBack htemp₁)
      (.change ((hjoined.giveBack htemp₁).giveBack ?_) (.of_pure _))
    simp only [Compilation.free, Layout.free, Layout.status_set_of_ne (Ne.symm hne), htemp₂]
  · exact .of_pure _

theorem whenIndexIs_safe (h : Settled c) {index : Int} (hi : c.layout.status index ≠ .free)
    (slot : Nat) {body : Watch Unit} {f : Compilation → Compilation}
    (hcompile : body.compile = modify f)
    (hbody : ∀ {e}, Extends c e → Settled e → body.Safe e ∧ Extends e (f e) ∧ Sound (f e)) :
    (whenIndexIs index slot body).Safe c ∧ Extends c (c.whenIndexIs index slot f) ∧
      Sound (c.whenIndexIs index slot f) := by
  obtain ⟨⟨probe, c₁⟩, hc₁⟩ : ∃ x, c.copy index = x := ⟨_, rfl⟩
  obtain ⟨c₂, hc₂⟩ : ∃ x, (if 0 < (slot : Int) then
    (c₁.moveTo probe).emit (repeated '-' (slot : Int).toNat) else c₁) = x := ⟨_, rfl⟩
  obtain ⟨⟨guard, c₃⟩, hc₃⟩ : ∃ x, c₂.allocateTemp = x := ⟨_, rfl⟩
  have hprobe := (fresh_copy h.sound hi hc₁).takeAway slot
  rw [hc₂] at hprobe
  have h₂ := h.extend hprobe.step.ext hprobe.step.sound
  obtain ⟨hext₃, hsound₃, -⟩ := h₂.sound.allocateTemp hc₃
  obtain ⟨hguard, htemp, hne⟩ := hprobe.test hc₃
  have hmoved := hguard.moveTo
  obtain ⟨c₄, hc₄⟩ : ∃ x, ((c₃.testProbe probe guard).moveTo guard).emit "[" = x := ⟨_, rfl⟩
  have hext₄ : Extends c c₄ := hc₄ ▸ hmoved.step.ext.trans (.of_same (.emit _ "["))
  have h₄ : Settled c₄ := h.extend hext₄
    (hc₄ ▸ hmoved.step.sound.of_same (.emit _ "[") hmoved.step.sound.tracked)
  have hguard₄ : c₄.layout.status guard = .temp := by
    rw [← hc₄, layout_emit, hmoved.temp]
  have hprobe₄ : c₄.layout.status probe = .temp := by
    rw [← hc₄, layout_emit, layout_moveTo, htemp]
  obtain ⟨hsafe, hext₅, hsound₅⟩ := hbody hext₄ h₄
  have h₅ := h₄.extend hext₅ hsound₅
  have hguard₅ := (hext₅.keeps (by simp [hguard₄])).trans hguard₄
  have hprobe₅ := (hext₅.keeps (by simp [hprobe₄])).trans hprobe₄
  have hclosed : Settled (((f c₄).clear guard).emit "]") :=
    h₅.turn ((Same.clear _ _).trans (.emit _ _)) (by rw [pointer_emit, pointer_clear, hguard₅]; simp)
  have h₆ : Settled ((((f c₄).clear guard).emit "]").free guard) :=
    hclosed.giveBack (by rw [layout_emit, layout_clear, hguard₅])
  have hprobe₆ : ((((f c₄).clear guard).emit "]").free guard).layout.status probe = .temp := by
    simp only [Compilation.free, Layout.free, Layout.status_set_of_ne (Ne.symm hne), layout_emit,
      layout_clear, hprobe₅]
  have h₇ := h₆.giveBack hprobe₆
  have hcode : c.whenIndexIs index slot f =
      ((((f c₄).clear guard).emit "]").free guard).free probe := by
    simp only [Compilation.whenIndexIs, hc₁, hc₂, hc₃, ← hc₄]
    rfl
  refine ⟨?_, ?_, hcode ▸ h₇.sound⟩
  · refine (copy_safe h hi).bind fun {p e} he => ?_
    cases (copy_ok.1 he).symm.trans hc₁
    have hallocate : (if 0 < (slot : Int) then (c₁.moveTo probe).emit
        (repeated '-' (slot : Int).toNat) else c₁).allocateTemp = (guard, c₃) := by
      rw [hc₂, hc₃]
    refine .bind (.of_modifyGet hallocate (h₂.extend hext₃ hsound₃)) fun {_ _} hg => ?_
    cases (modifyGet_ok.1 hg).symm.trans hallocate
    subst hc₄
    refine .change h₄ (hsafe.bind fun hd => ?_)
    rw [hcompile, modify_ok] at hd
    subst hd
    exact .change h₆ (.of_modify h₇)
  · have hback := (hext₄.trans hext₅).trans (.of_same ((Same.clear (f c₄) guard).trans (.emit _ "]")))
    rw [hcode]
    refine (hback.free hclosed.sound.dense hguard.free ?_).free h₆.sound.dense hprobe.free ?_
    · rw [layout_emit, layout_clear, hguard₅]
      simp
    · rw [hprobe₆]
      simp

theorem atElement_safe (h : Settled c) {index : Int} (hi : c.layout.status index ≠ .free)
    (b : Binding) {body : Int → Watch Unit} {f : Int → Compilation → Compilation}
    (hcompile : ∀ cell, (body cell).compile = modify (f cell))
    (hbody : ∀ k < b.length, ∀ {e}, Extends c e → Settled e →
      (body (b.base + k)).Safe e ∧ Extends e (f (b.base + k) e) ∧ Sound (f (b.base + k) e)) :
    (atElement b index body).Safe c ∧ Extends c (c.atElement b index f) ∧
      Sound (c.atElement b index f) := by
  suffices hslots : ∀ slots : List Nat, (∀ k ∈ slots, k < b.length) → ∀ {d}, Extends c d →
      Settled d → Safe (slots.forM fun slot => whenIndexIs index slot (body (b.base + slot))) d ∧
        Extends c (slots.foldl (fun c (k : Nat) => c.whenIndexIs index k (f (b.base + k))) d) ∧
        Sound (slots.foldl (fun c (k : Nat) => c.whenIndexIs index k (f (b.base + k))) d) from
    hslots _ (fun k hk => List.mem_range.1 hk) (.refl c) h
  intro slots
  induction slots with
  | nil =>
      intro _ d hext hd
      exact ⟨.of_pure _, hext, hd.sound⟩
  | cons k slots ih =>
      intro hmem d hext hd
      obtain ⟨hsafe, hext', hsound⟩ := whenIndexIs_safe hd (hext.live hi) k (hcompile _)
        fun he => hbody k (hmem k (by simp)) (hext.trans he)
      obtain ⟨hrest, hend⟩ := ih (fun j hj => hmem j (by simp [hj])) (hext.trans hext')
        (hd.extend hext' hsound)
      refine ⟨hsafe.bind fun hok => ?_, hend⟩
      rw [compile_whenIndexIs _ _ (hcompile _), modify_ok] at hok
      exact hok ▸ hrest

theorem readElement_safe (h : Settled c) {name : String} {index : Watch Int} (hindex : index.Safe c)
    (hyields : ∀ {a d}, index.compile c = .ok a d → ∃ value, Yields c d a value) :
    (readElement name index).Safe c := by
  refine .bind (.of_look h (binding_clean name) fun hb => (binding_ok.1 hb).2) fun {b _} hfound => ?_
  obtain ⟨hb, rfl⟩ := binding_ok.1 hfound
  refine hindex.bind fun {ix c₁} hix => ?_
  obtain ⟨value, hyields⟩ := hyields hix
  have h₁ := h.extend hyields.step.ext hyields.step.sound
  refine (allocate_safe h₁).bind fun {r c₂} hr => ?_
  have hzero := fresh_zero h₁.sound (modifyGet_ok.1 hr)
  have h₂ := h₁.extend hzero.step.ext hzero.step.sound
  refine .change h₂ ?_
  have hcell (k : Nat) (hk : k < b.length) : (c₂.clear r).layout.status (b.base + k) ≠ .free :=
    hzero.step.ext.live (hyields.step.ext.live (by simp [h.sound.bound hb k hk]))
  obtain ⟨hsafe, hext, hsound⟩ := atElement_safe h₂ (hzero.step.ext.live hyields.live) b
    (fun cell => compile_addCopy cell r .plus) fun k hk e he hsettled => by
      have hdoes := does_addCopy hsettled.sound (he.live (hcell k hk)) (he.live hzero.live) .plus
      exact ⟨addCopy_safe hsettled (he.live (hcell k hk)) (he.live hzero.live) .plus, hdoes.ext,
        hdoes.sound⟩
  refine hsafe.bind fun {_ _} hd => ?_
  rw [compile_atElement b ix fun cell => compile_addCopy cell r .plus, modify_ok] at hd
  subst hd
  exact .change ((h₂.extend hext hsound).release ix) (.of_pure _)

theorem evaluated {node : Node} {a : Int} (h : Settled c)
    (hd : (evaluate options node).compile c = .ok a d) : ∃ value, Yields c d a value := by
  rw [compile_evaluate] at hd
  obtain ⟨value, hyields, -⟩ := evaluate_yields h.sound hd
  exact ⟨value, hyields⟩

theorem evaluate_safe (h : Settled c) (node : Node) : (evaluate options node).Safe c := by
  have hbinary {left right : Node} {sign : Sign} {giveBack : Bool} {c : Compilation} (h : Settled c)
      (ihl : ∀ {c}, Settled c → (evaluate options left).Safe c)
      (ihr : ∀ {c}, Settled c → (evaluate options right).Safe c)
      (hjoin : ∀ {c d a b r}, Sound c → c.layout.status a ≠ .free → c.layout.status b ≠ .free →
        (join sign giveBack a b).compile c = .ok r d → Extends c d ∧ Sound d) :
      Safe (do
        let a ← evaluate options left
        let b ← evaluate options right
        let result ← join sign giveBack a b
        step (modify (·.release b))
        step (modify (·.release a))
        return result) c := by
    refine (ihl h).bind fun {a c₁} ha => ?_
    obtain ⟨va, hya⟩ := evaluated h ha
    have h₁ := h.extend hya.step.ext hya.step.sound
    refine (ihr h₁).bind fun {b c₂} hb => ?_
    obtain ⟨vb, hyb⟩ := evaluated h₁ hb
    have h₂ := h₁.extend hyb.step.ext hyb.step.sound
    have hlive := hyb.step.ext.live hya.live
    refine (join_safe h₂ hlive hyb.live sign giveBack).bind fun {r c₃} hr => ?_
    obtain ⟨hext, hsound⟩ := hjoin h₂.sound hlive hyb.live hr
    have h₃ := (h₂.extend hext hsound).release b
    exact .change h₃ (.change (h₃.release a) (.of_pure r))
  fun_induction evaluate options node generalizing c with
  | case1 number => exact constant_safe h number
  | case2 name =>
      exact .of_look h (element_clean name 0) fun hd => (element_ok.1 hd).choose_spec.2.2.2
  | case3 name index number =>
      exact .of_look h (element_clean name number) fun hd => (element_ok.1 hd).choose_spec.2.2.2
  | case4 name index hliteral ih => exact readElement_safe h (ih h) (evaluated h)
  | case5 left right ihl ihr =>
      refine hbinary h ihl ihr fun hc ha hb hd => ?_
      rw [compile_sum, modifyGet_ok] at hd
      have hfresh := fresh_sum hc ha hb hd
      exact ⟨hfresh.step.ext, hfresh.step.sound⟩
  | case6 left right ihl ihr =>
      refine hbinary h ihl ihr fun hc ha hb hd => ?_
      rw [compile_difference, modifyGet_ok] at hd
      have hfresh := fresh_difference hc options ha hb hd
      exact ⟨hfresh.step.ext, hfresh.step.sound⟩
  | case7 => exact .of_fail h
  | case8 => exact greatest_safe h
  | case9 => exact .of_fail h

theorem condition_safe (h : Settled c) (node : Node) : (condition options node).Safe c := by
  unfold condition
  split
  · exact evaluate_safe h node
  · exact .of_fail h

theorem detach_safe (h : Settled c) {a : Int} (ha : c.layout.status a ≠ .free) :
    (detach a).Safe c := by
  refine .look ?_
  split
  · exact .of_pure a
  · exact copy_safe h ha

theorem detach_ok {a a' : Int} (hd : (detach a).compile c = .ok a' d) :
    (if c.layout.isTemp a then (a, c) else c.copy a) = (a', d) := by
  rw [compile_detach] at hd
  simp only [bind_ok, get_ok] at hd
  obtain ⟨_, _, ⟨rfl, rfl⟩, hd⟩ := hd
  split at hd
  · rename_i htemp
    obtain ⟨rfl, rfl⟩ := pure_ok.1 hd
    exact if_pos htemp
  · rename_i htemp
    rw [if_neg htemp]
    exact modifyGet_ok.1 hd

theorem writeElement_safe (h : Settled c) (name : String) (index value : Node) :
    (writeElement name (evaluate options index) (evaluate options value)).Safe c := by
  refine .bind (.of_look h (binding_clean name) fun hb => (binding_ok.1 hb).2) fun {b _} hfound => ?_
  obtain ⟨hb, rfl⟩ := binding_ok.1 hfound
  refine (evaluate_safe h index).bind fun {ix c₁} hix => ?_
  obtain ⟨vi, hyi⟩ := evaluated h hix
  have h₁ := h.extend hyi.step.ext hyi.step.sound
  refine (detach_safe h₁ hyi.live).bind fun {ix' c₂} hdetach => ?_
  have hown := hyi.detach (detach_ok hdetach)
  have h₂ := h.extend hown.step.ext hown.step.sound
  refine (evaluate_safe h₂ value).bind fun {a c₃} ha => ?_
  obtain ⟨v, hv⟩ := evaluated h₂ ha
  have h₃ := h₂.extend hv.step.ext hv.step.sound
  have hcell (k : Nat) (hk : k < b.length) : c₃.layout.status (b.base + k) ≠ .free :=
    hv.step.ext.live (hown.step.ext.live (by simp [h.sound.bound hb k hk]))
  have hstore (cell : Int) := compile_copied a
    fun copied c => ((c.clear cell).drain copied cell .plus).free copied
  obtain ⟨hsafe, hext, hsound⟩ := atElement_safe h₃ (hv.step.ext.live hown.live) b hstore
    fun k hk e he hsettled => by
      obtain ⟨⟨copied, e'⟩, hcopy⟩ : ∃ x, e.copy a = x := ⟨_, rfl⟩
      have hdoes := (fresh_copy hsettled.sound (he.live hv.live) hcopy).store (he.live (hcell k hk))
      simp only [hcopy]
      refine ⟨(copy_safe hsettled (he.live hv.live)).bind fun hok => .of_modify ?_, hdoes.ext,
        hdoes.sound⟩
      cases (copy_ok.1 hok).symm.trans hcopy
      exact hsettled.extend hdoes.ext hdoes.sound
  refine hsafe.bind fun {_ _} hd => ?_
  rw [compile_atElement b ix' hstore, modify_ok] at hd
  subst hd
  have h₄ := (h₃.extend hext hsound).release a
  exact .change h₄ (.of_modify (h₄.release ix'))

end Watch

end TapeCompiler
