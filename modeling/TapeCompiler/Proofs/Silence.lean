import TapeCompiler.Proofs.Assignment
import TapeCompiler.Proofs.Bounds
import TapeCompiler.Proofs.FrameLaw
import TapeCompiler.Proofs.TapeSize

namespace TapeCompiler

open Compile

namespace Compilation

def talk (c : Compilation) : List Instruction :=
  (Instruction.ofText c.code).filter (·.stop?.isSome)

section

variable (c : Compilation)

theorem talk_emit {text : String} (h : (Instruction.ofText text).filter (·.stop?.isSome) = []) :
    (c.emit text).talk = c.talk := by
  simp [talk, emit, ofText_append, h]

theorem talk_repeated {i : Instruction} (h : i.stop? = none) (n : Nat) :
    (Instruction.ofText (repeated i.toChar n)).filter (·.stop?.isSome) = [] := by
  rw [ofText_repeated, List.filter_eq_nil_iff]
  intro j hj
  rw [(List.mem_replicate.1 hj).2, h]
  exact Bool.false_ne_true

theorem talk_emit_repeated {i : Instruction} (h : i.stop? = none) (n : Nat) :
    (c.emit (repeated i.toChar n)).talk = c.talk :=
  talk_emit c (talk_repeated h n)

theorem talk_moveTo (target : Int) : (c.moveTo target).talk = c.talk := by
  unfold moveTo
  dsimp only
  split
  · exact talk_emit_repeated c (i := .right) rfl _
  · exact talk_emit_repeated c (i := .left) rfl _

theorem talk_clear (a : Int) : (c.clear a).talk = c.talk := by
  rw [clear, clearHere, talk_emit _ rfl, talk_moveTo]

theorem talk_free (a : Int) : (c.free a).talk = c.talk := rfl

theorem talk_allocateTemp : c.allocateTemp.2.talk = c.talk := rfl

theorem talk_release (a : Int) : (c.release a).talk = c.talk := by
  unfold release
  split
  · rw [talk_free, talk_clear]
  · rfl

theorem talk_countAt (value a : Int) : (c.countAt value a).talk = c.talk := by
  have hclear : ((c.moveTo a).clearHere).talk = c.talk := talk_clear c a
  unfold countAt countHere
  dsimp only
  split
  · exact (talk_emit_repeated _ (i := .increment) rfl _).trans hclear
  · exact (talk_emit_repeated _ (i := .decrement) rfl _).trans hclear

theorem talk_drain (source target : Int) (sign : Sign) :
    (c.drain source target sign).talk = c.talk := by
  have hsign : (Instruction.ofText sign.code).filter (·.stop?.isSome) = [] := by
    cases sign <;> rfl
  unfold drain
  rw [talk_emit _ rfl, talk_moveTo, talk_emit _ hsign, talk_moveTo, talk_emit _ rfl, talk_moveTo]

theorem talk_copyInto (source kept back : Int) : (c.copyInto source kept back).talk = c.talk := by
  unfold copyInto
  rw [talk_drain, talk_emit _ rfl, talk_moveTo, talk_emit _ rfl, talk_moveTo, talk_emit _ rfl,
    talk_moveTo, talk_emit _ rfl, talk_moveTo, talk_clear, talk_clear]

theorem talk_copy (source : Int) : (c.copy source).2.talk = c.talk := by
  change ((copyInto _ source _ _).free _).talk = c.talk
  rw [talk_free, talk_copyInto]
  rfl

theorem talk_addCopy (source target : Int) (sign : Sign) :
    (c.addCopy source target sign).talk = c.talk := by
  unfold addCopy
  rw [talk_free, talk_drain, talk_copy]

theorem talk_greatest : c.greatest.2.talk = c.talk := by
  unfold greatest
  rw [talk_emit _ rfl, talk_clear, talk_allocateTemp]

theorem talk_sum (a b : Int) : (c.sum a b).2.talk = c.talk := by
  unfold sum
  rw [talk_free, talk_free, talk_drain, talk_drain, talk_clear, talk_allocateTemp, talk_copy,
    talk_copy]

theorem talk_difference (options : CompileOptions) (a b : Int) :
    (c.difference options a b).2.talk = c.talk := by
  unfold difference
  dsimp only
  split
  · rw [talk_free, talk_free, talk_drain, talk_drain, talk_clear, talk_allocateTemp, talk_copy,
      talk_copy]
  · rw [talk_drain, talk_drain, talk_clear, talk_allocateTemp, talk_copy, talk_copy]

theorem talk_whenIndexIs {body : Compilation → Compilation} (hbody : ∀ c, (body c).talk = c.talk)
    (index slot : Int) : (c.whenIndexIs index slot body).talk = c.talk := by
  have hprobe (d : Compilation) (probe : Int) : (if 0 < slot then
      (d.moveTo probe).emit (repeated '-' slot.toNat) else d).talk = d.talk := by
    split
    · exact (talk_emit_repeated _ (i := .decrement) rfl _).trans (talk_moveTo d probe)
    · rfl
  unfold whenIndexIs
  rw [talk_free, talk_free, talk_emit _ rfl, talk_clear, hbody, talk_emit _ rfl, talk_moveTo,
    talk_emit _ rfl, talk_clear, talk_clear, talk_emit _ rfl, talk_moveTo, talk_countAt,
    talk_allocateTemp, hprobe, talk_copy]

theorem talk_atElement {body : Int → Compilation → Compilation}
    (hbody : ∀ a c, (body a c).talk = c.talk) (b : Binding) (index : Int) :
    (c.atElement b index body).talk = c.talk := by
  unfold atElement
  generalize List.range b.length = slots
  induction slots generalizing c with
  | nil => rfl
  | cons slot slots ih => rw [List.foldl_cons, ih, talk_whenIndexIs c (hbody _)]

end

end Compilation

namespace Compile

open Compilation

variable {options : CompileOptions} {c d : Compilation} {a : Int} {name : String}

theorem readElement_talk {index : Compile Int}
    (hindex : ∀ {a d}, index c = .ok a d → d.talk = c.talk)
    (h : readElement name index c = .ok a d) : d.talk = c.talk := by
  simp only [readElement, bind_ok, binding_ok, modifyGet_ok, modify_ok, pure_ok] at h
  obtain ⟨b, _, ⟨-, rfl⟩, i, c₁, hi, r, c₂, hr, _, _, rfl, _, _, rfl, _, _, rfl, -, rfl⟩ := h
  have htaken := talk_allocateTemp c₁
  rw [hr] at htaken
  rw [talk_release, talk_atElement _ (fun cell e => talk_addCopy e cell r .plus), talk_clear,
    htaken, hindex hi]

theorem evaluate_talk {node : Node} (h : evaluate options node c = .ok a d) : d.talk = c.talk := by
  fun_induction evaluate options node generalizing c d a with
  | case1 value =>
      obtain ⟨e, he, -, rfl⟩ := constant_ok.1 h
      have htaken := talk_allocateTemp c
      rw [he] at htaken
      rw [talk_countAt, htaken]
  | case2 name =>
      obtain ⟨_, -, -, -, rfl⟩ := element_ok.1 h
      rfl
  | case3 name index value =>
      obtain ⟨_, -, -, -, rfl⟩ := element_ok.1 h
      rfl
  | case4 name index _ ih => exact readElement_talk ih h
  | case5 left right ihl ihr =>
      simp only [bind_ok, modifyGet_ok, modify_ok, pure_ok] at h
      obtain ⟨x, c₁, hx, y, c₂, hy, r, c₃, hr, _, _, rfl, -, rfl⟩ := h
      have hsum := talk_sum c₂ x y
      rw [hr] at hsum
      rw [talk_release, talk_release, hsum, ihr hy, ihl hx]
  | case6 left right ihl ihr =>
      simp only [bind_ok, modifyGet_ok, modify_ok, pure_ok] at h
      obtain ⟨x, c₁, hx, y, c₂, hy, r, c₃, hr, _, _, rfl, -, rfl⟩ := h
      have hdifference := talk_difference c₂ options x y
      rw [hr] at hdifference
      rw [talk_release, talk_release, hdifference, ihr hy, ihl hx]
  | case7 => exact absurd h fail_ok
  | case8 =>
      have htalk := talk_greatest c
      rwa [modifyGet_ok.1 h] at htalk
  | case9 => exact absurd h fail_ok

theorem writeElement_talk {index value : Node}
    (h : writeElement name (evaluate options index) (evaluate options value) c = .ok () d) :
    d.talk = c.talk := by
  simp only [writeElement, bind_ok, binding_ok, get_ok] at h
  obtain ⟨b, _, ⟨-, rfl⟩, i, c₁, hi, _, _, ⟨rfl, rfl⟩, h⟩ := h
  have hwrite {i' v : Int} {e : Compilation} (he : e.talk = c₁.talk)
      {c₂ : Compilation} (hv : evaluate options value e = .ok v c₂) :
      (((c₂.atElement b i' fun cell c => (((c.copy v).2.clear cell).drain (c.copy v).1 cell
        .plus).free (c.copy v).1).release v).release i').talk = c.talk := by
    rw [talk_release, talk_release, talk_atElement, evaluate_talk hv, he, evaluate_talk hi]
    intro cell c
    rw [talk_free, talk_drain, talk_clear, talk_copy]
  split at h
  · simp only [bind_ok, pure_ok, modify_ok] at h
    obtain ⟨_, _, ⟨rfl, rfl⟩, v, c₂, hv, _, _, rfl, _, _, rfl, rfl⟩ := h
    exact hwrite rfl hv
  · simp only [bind_ok, modifyGet_ok, modify_ok] at h
    obtain ⟨i', c₂, hcopy, v, c₃, hv, _, _, rfl, _, _, rfl, rfl⟩ := h
    have htalk := talk_copy c₁ i
    rw [hcopy] at htalk
    exact hwrite htalk hv

end Compile

namespace Machine

theorem slice_of_ticks {n steps : Nat} {m m' : Machine} {input : List CodePoint}
    (hquiet : ∀ i ∈ m.program, i.stop? = none)
    (h : ticks n { m with steps } input = (m', .finished)) :
    ∃ left, m.slice n = ⟨.finished, left, { m' with steps := m.steps }⟩ := by
  induction n generalizing m steps with
  | zero => cases h
  | succ n ih =>
      rw [ticks, tick] at h
      rw [slice]
      split at h
      · rename_i htick
        split at htick
        · cases htick
        · rename_i i hi
          have hstop := hquiet i (Array.mem_of_getElem? hi)
          simp only [hstop, perform_steps] at htick
          cases htick
          obtain ⟨left, hslice⟩ := ih (m := m.perform i) (by
            have hprogram : (m.perform i).program = m.program := by cases i <;> rfl
            rwa [hprogram]) h
          have hsteps : (m.perform i).steps = m.steps := by cases i <;> rfl
          dsimp only at hi
          rw [hi]
          simp only [hstop]
          exact ⟨left, by rw [hslice, hsteps]⟩
      · rename_i htick
        split at htick
        · rename_i hi
          cases htick
          cases h
          dsimp only at hi
          rw [hi]
          exact ⟨n + 1, rfl⟩
        · rename_i i hi
          have hstop := hquiet i (Array.mem_of_getElem? hi)
          simp only [hstop] at htick
          cases htick
      · cases h

def Completes (m : Machine) (code : String) (tape tape' : Tape) : Prop :=
  (m.load code).2 = none ∧ ∃ budget left m',
    slice budget { (m.load code).1 with tape } = ⟨.finished, left, m'⟩ ∧ m'.tape = tape'

end Machine

namespace Compilation

variable {c d : Compilation}
  {P : ∀ bits : Nat, (Int → BitVec bits) → (Int → BitVec bits) → Prop}

theorem quiet_of_talk {added : String} (hcode : d.code = c.code ++ added) (h : d.talk = c.talk) :
    ∀ i ∈ Instruction.ofText added, i.stop? = none := by
  rw [talk, hcode, ofText_append, List.filter_append] at h
  have hnone := List.filter_eq_nil_iff.1 (List.append_right_eq_self.1 h)
  intro i hi
  exact Option.not_isSome_iff_eq_none.1 (hnone i hi)

theorem Step.completes (h : Step c d P) (htalk : d.talk = c.talk) :
    ∃ added, d.code = c.code ++ added ∧
      ∀ (m : Machine) (tape : Tape), d.layout.highWater ≤ m.setting.size →
        tape.Fits m.setting → (tape.pointer : Int) = c.pointer →
        ∃ tape' cells, m.Completes added tape tape' ∧ tape'.Fits m.setting ∧
          (tape'.pointer : Int) = d.pointer ∧
          P m.setting.bits (World.ofTape m.setting.bits tape []).cells cells ∧
          ∀ x : Nat, x < m.setting.size → tape'.value x = (cells x).toNat := by
  obtain ⟨k, hk, hruns⟩ := h.runs
  obtain ⟨added, hadded, htext⟩ := hk.text
  refine ⟨added, hadded, ?_⟩
  intro m tape hroom hfits hpointer
  obtain ⟨hload, hholds⟩ := m.load_holds htext
  have hshows := m.load_shows_tape added hfits.size hfits.pointer
    (by simpa only [m.setting.modulus_eq_pow] using hfits.cells) []
  obtain ⟨cells, hrun, hP⟩ := hruns m.setting (World.ofTape m.setting.bits tape []) hpointer
  obtain ⟨n, m', hticks, hshows'⟩ := hrun.ticks_ended hroom hshows (hpointer ▸ hk.leads)
    (hholds.replace tape)
  obtain ⟨left, hslice⟩ := Machine.slice_of_ticks (m := { (m.load added).1 with tape })
    (by
      intro i hi
      exact quiet_of_talk hadded htalk i (by simpa [Machine.load] using hi)) hticks
  have hstart := m.load_inBounds added
  have hend := Machine.InBounds.slice (m := { (m.load added).1 with tape })
    ⟨hstart.setting, hstart.program, hfits, hstart.pc, hstart.jumps⟩ n
  rw [hslice] at hend
  refine ⟨m'.tape, cells, ⟨hload, n, left, _, hslice, rfl⟩, hend.tape, hshows'.pointer, hP, ?_⟩
  intro x hx
  rw [Tape.value, Array.getD_eq_getD_getElem?, hshows'.cells x hx]
  rfl

end Compilation

end TapeCompiler
