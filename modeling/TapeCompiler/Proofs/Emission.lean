import TapeCompiler.Compile.Cells
import TapeCompiler.Proofs.Counting
import Mathlib.Tactic.Ring

namespace TapeCompiler

theorem ofText_append (a b : String) :
    Instruction.ofText (a ++ b) = Instruction.ofText a ++ Instruction.ofText b := by
  simp [Instruction.ofText, String.toList_append]

theorem ofText_repeated {i : Instruction} (n : Nat) :
    Instruction.ofText (repeated i.toChar n) = List.replicate n i := by
  simp only [Instruction.ofText, repeated, String.toList_ofList]
  induction n with
  | zero => rfl
  | succ n ih => simp [List.replicate_succ, ih]

def Sign.apply {bits : Nat} : Sign → BitVec bits → BitVec bits → BitVec bits
  | .plus, a, b => a + b
  | .minus, a, b => a - b

def Sign.action : Sign → Action
  | .plus => .increment
  | .minus => .decrement

namespace Compilation

structure Emits (bound : Int) (c c' : Compilation) (k : Code) : Prop where
  text : ∃ added, c'.code = c.code ++ added ∧ Instruction.ofText added = k.flatten
  leads : k.Leads bound c.pointer c'.pointer

namespace Emits

variable {bound : Int} {c d e : Compilation} {k l : Code}

theorem mono {bound' : Int} (h : Emits bound c d k) (hle : bound ≤ bound') :
    Emits bound' c d k :=
  ⟨h.text, h.leads.mono hle⟩

theorem trans (h : Emits bound c d k) (h' : Emits bound d e l) : Emits bound c e (k ++ l) := by
  obtain ⟨a, ha, hk⟩ := h.text
  obtain ⟨b, hb, hl⟩ := h'.text
  refine ⟨⟨a ++ b, ?_, ?_⟩, h.leads.append h'.leads⟩
  · rw [hb, ha, String.append_assoc]
  · rw [ofText_append, hk, hl, Code.flatten_append]

theorem whole (h : Emits bound initial d k) : Instruction.ofText d.code = k.flatten := by
  obtain ⟨added, hadded, hk⟩ := h.text
  rw [hadded, ← hk, ofText_append]
  rfl

theorem unique {bound' : Int} (h : Emits bound c d k) (h' : Emits bound' c d l) : k = l := by
  obtain ⟨a, ha, hk⟩ := h.text
  obtain ⟨b, hb, hl⟩ := h'.text
  have hab : a = b := (String.append_right_inj c.code).1 (ha.symm.trans hb)
  exact Code.flatten_injective (by rw [← hk, ← hl, hab])

theorem same (hcode : d.code = c.code) (hpointer : d.pointer = c.pointer) :
    Emits bound c d .done :=
  ⟨⟨"", by simp [hcode], rfl⟩, hpointer.symm⟩

theorem act {a : Action} {text : String} (ht : Instruction.ofText text = [a.instruction])
    (hs : a.shift = 0) (hp : 0 ≤ c.pointer ∧ c.pointer < bound) :
    Emits bound c (c.emit text) (.act a .done) := by
  refine ⟨⟨text, rfl, ht⟩, ?_⟩
  simp [Code.Leads, hs, hp, emit]

theorem loop (h : Emits bound (c.emit "[") d k) (hp : d.pointer = c.pointer) :
    Emits bound c (d.emit "]") (.loop k .done) := by
  obtain ⟨a, ha, hk⟩ := h.text
  refine ⟨⟨"[" ++ a ++ "]", ?_, ?_⟩, ?_⟩
  · simp only [emit] at ha ⊢
    rw [ha, String.append_assoc, String.append_assoc, String.append_assoc]
  · rw [ofText_append, ofText_append, hk]
    rfl
  · have hl := h.leads
    rw [hp] at hl
    exact ⟨hl, hp.symm⟩

end Emits

def Turns (bound : Int) (c c' : Compilation)
    (f : ∀ bits : Nat, (Int → BitVec bits) → Int → BitVec bits) : Prop :=
  ∃ k, Emits bound c c' k ∧ ∀ (s : Setting) (w : World s.bits), w.pointer = c.pointer →
    Runs s k w (.done { w with cells := f s.bits w.cells, pointer := c'.pointer })

namespace Turns

variable {bound : Int} {c d e : Compilation}
  {f g : ∀ bits : Nat, (Int → BitVec bits) → Int → BitVec bits}

theorem trans (h : Turns bound c d f) (h' : Turns bound d e g) :
    Turns bound c e fun bits cells => g bits (f bits cells) := by
  obtain ⟨k, hk, hr⟩ := h
  obtain ⟨l, hl, hr'⟩ := h'
  refine ⟨k ++ l, hk.trans hl, fun s w hp => ?_⟩
  exact (hr s w hp).append (hr' s _ rfl)

theorem same (hcode : d.code = c.code) (hpointer : d.pointer = c.pointer) :
    Turns bound c d fun _ cells => cells := by
  refine ⟨.done, .same hcode hpointer, fun s w hp => ?_⟩
  have hw : ({ w with pointer := d.pointer } : World s.bits) = w := by rw [hpointer, ← hp]
  rw [hw]
  exact .done

theorem congr (h : Turns bound c d f)
    (hfg : ∀ (bits : Nat) (cells : Int → BitVec bits), f bits cells = g bits cells) : Turns bound c d g := by
  obtain ⟨k, hk, hr⟩ := h
  refine ⟨k, hk, fun s w hp => ?_⟩
  rw [← hfg]
  exact hr s w hp

theorem loop (h : Turns bound (c.emit "[") d f) (hp : d.pointer = c.pointer)
    (hf : ∀ (bits : Nat) (cells : Int → BitVec bits),
      f bits cells c.pointer = cells c.pointer - 1) :
    Turns bound c (d.emit "]") fun bits cells => (f bits)^[(cells c.pointer).toNat] cells := by
  obtain ⟨k, hk, hr⟩ := h
  refine ⟨.loop k .done, hk.loop hp, fun s w hw => ?_⟩
  have hbody (w : World s.bits) (hw : w.pointer = c.pointer) :
      Runs s k w (.done { w with cells := f s.bits w.cells }) := by
    have hsame : ({ w with cells := f s.bits w.cells, pointer := d.pointer } : World s.bits) =
        { w with cells := f s.bits w.cells } := by rw [hp, ← hw]
    rw [← hsame]
    exact hr s w hw
  have hrun := Runs.count hbody (hf s.bits) w hw
  have hend : (d.emit "]").pointer = w.pointer := by rw [hw, ← hp]; rfl
  rw [hend]
  exact hrun

theorem once (h : Turns bound (c.emit "[") d f) (hp : d.pointer = c.pointer)
    (h0 : ∀ (bits : Nat) (cells : Int → BitVec bits), f bits cells c.pointer = 0) :
    Turns bound c (d.emit "]") fun bits cells =>
      if cells c.pointer = 0 then cells else f bits cells := by
  obtain ⟨k, hk, hr⟩ := h
  refine ⟨.loop k .done, hk.loop hp, fun s w hw => ?_⟩
  have hend : (d.emit "]").pointer = w.pointer := by rw [hw, ← hp]; rfl
  rw [hend]
  dsimp only
  split
  · rename_i hz
    exact .loop_end (by rwa [World.read, hw]) .done
  · rename_i hz
    have hbody := hr s w hw
    rw [hp, ← hw] at hbody
    refine .loop_step (by rwa [World.read, hw]) hbody (.loop_end ?_ .done)
    simp only [World.read, hw]
    exact h0 _ _

end Turns

theorem emit_emit (c : Compilation) (a b : String) : (c.emit a).emit b = c.emit (a ++ b) := by
  simp [emit, String.append_assoc]

@[simp] theorem pointer_emit (c : Compilation) (text : String) :
    (c.emit text).pointer = c.pointer := rfl

@[simp] theorem layout_emit (c : Compilation) (text : String) :
    (c.emit text).layout = c.layout := rfl

@[simp] theorem pointer_moveTo (c : Compilation) (t : Int) : (c.moveTo t).pointer = t := rfl

theorem moveTo_eq (c : Compilation) (t : Int) :
    c.moveTo t = { c with
      pointer := t
      code := c.code ++ if c.pointer < t then repeated '>' (t - c.pointer).toNat
        else repeated '<' (c.pointer - t).toNat } := by
  unfold moveTo
  split <;> rfl

@[simp] theorem layout_moveTo (c : Compilation) (t : Int) : (c.moveTo t).layout = c.layout := by
  rw [moveTo_eq]

variable {bound : Int} {c : Compilation}

theorem emits_moveTo (hp : 0 ≤ c.pointer ∧ c.pointer < bound) {t : Int}
    (ht : 0 ≤ t ∧ t < bound) : Emits bound c (c.moveTo t) (Code.move c.pointer t) := by
  refine ⟨?_, Code.leads_move hp ht⟩
  rw [moveTo_eq]
  refine ⟨_, rfl, ?_⟩
  simp only [Code.move]
  split
  · rw [Code.flatten_times]
    exact ofText_repeated (i := .right) _
  · rw [Code.flatten_times]
    exact ofText_repeated (i := .left) _

theorem turns_moveTo (hp : 0 ≤ c.pointer ∧ c.pointer < bound) {t : Int}
    (ht : 0 ≤ t ∧ t < bound) : Turns bound c (c.moveTo t) fun _ cells => cells := by
  refine ⟨_, emits_moveTo hp ht, fun s w hw => ?_⟩
  rw [← hw]
  exact Runs.move w t

theorem turns_sign (hp : 0 ≤ c.pointer ∧ c.pointer < bound) (sign : Sign) :
    Turns bound c (c.emit sign.code) fun _ cells =>
      Function.update cells c.pointer (sign.apply (cells c.pointer) 1) := by
  refine ⟨.act sign.action .done, ?_, fun s w hw => ?_⟩
  · cases sign
    · exact .act rfl rfl hp
    · exact .act rfl rfl hp
  · cases sign
    all_goals
      refine .act rfl ?_
      simp only [Sign.apply, World.write, World.read, hw, pointer_emit]
      rw [← hw]
      exact .done

theorem Turns.drainLoop {d : Compilation}
    {f : ∀ bits : Nat, (Int → BitVec bits) → Int → BitVec bits} (factor : Int → Int)
    (h : Turns bound (c.emit "[") d f) (hp : d.pointer = c.pointer)
    (hf : ∀ (bits : Nat) (cells : Int → BitVec bits) (x : Int),
      f bits cells x = cells x + (factor x : BitVec bits))
    (hself : factor c.pointer = -1) :
    Turns bound c (d.emit "]") fun _ cells x => cells x + factor x * cells c.pointer := by
  have hloop := h.loop hp fun bits cells => by
    rw [hf, hself]
    push_cast
    ring
  refine hloop.congr fun bits cells => ?_
  have hrounds (n : Nat) : ∀ cells x, (f bits)^[n] cells x = cells x + factor x * n := by
    induction n with
    | zero => simp
    | succ n ih =>
        intro cells x
        rw [Function.iterate_succ_apply, ih, hf]
        push_cast
        ring
  funext x
  rw [hrounds, BitVec.natCast_eq_ofNat, BitVec.ofNat_toNat, BitVec.setWidth_eq]

theorem turns_clearHere (hp : 0 ≤ c.pointer ∧ c.pointer < bound) :
    Turns bound c c.clearHere fun _ cells => Function.update cells c.pointer 0 := by
  have hbody := turns_sign (c := c.emit "[") hp .minus
  have hloop := hbody.drainLoop (fun x => if x = c.pointer then -1 else 0) rfl
    (fun bits cells x => by
      by_cases hx : x = c.pointer
      · subst hx
        simp [Sign.apply, sub_eq_add_neg]
      · simp [hx])
    (if_pos rfl)
  have hcode : ((c.emit "[").emit Sign.minus.code).emit "]" = c.clearHere := by
    rw [emit_emit, emit_emit]
    rfl
  rw [hcode] at hloop
  refine hloop.congr fun bits cells => ?_
  funext x
  by_cases hx : x = c.pointer
  · subst hx
    simp
  · simp [hx]

@[simp] theorem pointer_clear (c : Compilation) (t : Int) : (c.clear t).pointer = t := rfl

@[simp] theorem layout_clear (c : Compilation) (t : Int) : (c.clear t).layout = c.layout := by
  simp [clear, clearHere]

theorem turns_clear (hp : 0 ≤ c.pointer ∧ c.pointer < bound) {t : Int}
    (ht : 0 ≤ t ∧ t < bound) :
    Turns bound c (c.clear t) fun _ cells => Function.update cells t 0 :=
  (turns_moveTo hp ht).trans (turns_clearHere (c := c.moveTo t) ht)

theorem turns_repeated (hp : 0 ≤ c.pointer ∧ c.pointer < bound) (n : Nat) :
    Turns bound c (c.emit (repeated '+' n)) (fun _ cells =>
      Function.update cells c.pointer (cells c.pointer + n)) ∧
    Turns bound c (c.emit (repeated '-' n)) (fun _ cells =>
      Function.update cells c.pointer (cells c.pointer - n)) := by
  constructor
  · refine ⟨Code.times .increment n, ⟨⟨_, rfl, ?_⟩, ?_⟩, fun s w hw => ?_⟩
    · rw [Code.flatten_times]
      exact ofText_repeated (i := .increment) n
    · simpa [Action.shift] using Code.leads_times (a := .increment) n hp (by simpa [Action.shift])
    · have h := Runs.times_increment n w
      simpa only [World.write, World.read, hw, pointer_emit] using h
  · refine ⟨Code.times .decrement n, ⟨⟨_, rfl, ?_⟩, ?_⟩, fun s w hw => ?_⟩
    · rw [Code.flatten_times]
      exact ofText_repeated (i := .decrement) n
    · simpa [Action.shift] using Code.leads_times (a := .decrement) n hp (by simpa [Action.shift])
    · have h := Runs.times_decrement n w
      simpa only [World.write, World.read, hw, pointer_emit] using h

@[simp] theorem pointer_countHere (c : Compilation) (value : Int) :
    (c.countHere value).pointer = c.pointer := by
  unfold countHere
  dsimp only
  split <;> rfl

@[simp] theorem layout_countHere (c : Compilation) (value : Int) :
    (c.countHere value).layout = c.layout := by
  unfold countHere
  dsimp only
  split <;> rfl

theorem turns_countHere (hp : 0 ≤ c.pointer ∧ c.pointer < bound) (value : Int) :
    Turns bound c (c.countHere value) fun bits cells =>
      Function.update cells c.pointer (BitVec.ofInt bits value) := by
  have hclear := turns_clearHere hp
  have hcast (bits : Nat) : ((value : Int) : BitVec bits) = BitVec.ofInt bits value := rfl
  unfold countHere
  dsimp only
  split
  · refine (hclear.trans (turns_repeated (c := c.clearHere) hp value.toNat).1).congr
      fun bits cells => ?_
    have hvalue : ((value.toNat : Nat) : Int) = value := by omega
    have hpointer : c.clearHere.pointer = c.pointer := rfl
    rw [hpointer, Function.update_self, Function.update_idem, zero_add, ← hcast, ← hvalue,
      Int.cast_natCast, hvalue]
  · refine (hclear.trans (turns_repeated (c := c.clearHere) hp (-value).toNat).2).congr
      fun bits cells => ?_
    have hvalue : value = -(((-value).toNat : Nat) : Int) := by omega
    have hpointer : c.clearHere.pointer = c.pointer := rfl
    rw [hpointer, Function.update_self, Function.update_idem, zero_sub, ← hcast]
    conv_rhs => rw [hvalue]
    rw [Int.cast_neg, Int.cast_natCast]

@[simp] theorem pointer_countAt (c : Compilation) (value t : Int) :
    (c.countAt value t).pointer = t := by
  simp [countAt]

@[simp] theorem layout_countAt (c : Compilation) (value t : Int) :
    (c.countAt value t).layout = c.layout := by
  simp [countAt]

theorem turns_countAt (hp : 0 ≤ c.pointer ∧ c.pointer < bound) (value : Int) {t : Int}
    (ht : 0 ≤ t ∧ t < bound) :
    Turns bound c (c.countAt value t) fun bits cells =>
      Function.update cells t (BitVec.ofInt bits value) :=
  (turns_moveTo hp ht).trans (turns_countHere (c := c.moveTo t) ht value)

@[simp] theorem pointer_drain (c : Compilation) (source target : Int) (sign : Sign) :
    (c.drain source target sign).pointer = source := rfl

@[simp] theorem layout_drain (c : Compilation) (source target : Int) (sign : Sign) :
    (c.drain source target sign).layout = c.layout := by
  simp [drain]

theorem turns_drain (hp : 0 ≤ c.pointer ∧ c.pointer < bound) {source target : Int}
    (hs : 0 ≤ source ∧ source < bound) (ht : 0 ≤ target ∧ target < bound)
    (hne : target ≠ source) (sign : Sign) :
    Turns bound c (c.drain source target sign) fun _ cells =>
      Function.update (Function.update cells target (sign.apply (cells target) (cells source)))
        source 0 := by
  let c₁ := c.moveTo source
  let c₂ := ((c₁.emit "[").moveTo target).emit sign.code
  have hmove : Turns bound c c₁ fun _ cells => cells := turns_moveTo hp hs
  have hbody : Turns bound (c₁.emit "[") ((c₂.moveTo source).emit Sign.minus.code) _ :=
    (((turns_moveTo (c := c₁.emit "[") hs ht).trans
      (turns_sign (c := (c₁.emit "[").moveTo target) ht sign)).trans
      (turns_moveTo (c := c₂) ht hs)).trans (turns_sign (c := c₂.moveTo source) hs .minus)
  have hloop := hbody.drainLoop
    (fun x => if x = source then -1 else if x = target then
      match sign with | .plus => 1 | .minus => -1 else 0) rfl
    (fun bits cells x => by
      simp only [pointer_moveTo, Sign.apply]
      by_cases hx : x = source
      · subst hx
        simp [Ne.symm hne, sub_eq_add_neg]
      · by_cases hx' : x = target
        · subst hx'
          cases sign <;> simp [hx, sub_eq_add_neg]
        · simp [hx, hx'])
    (if_pos rfl)
  have hcode : ((c₂.moveTo source).emit Sign.minus.code).emit "]" = c.drain source target sign := by
    rw [emit_emit]
    rfl
  rw [hcode] at hloop
  refine (hmove.trans hloop).congr fun bits cells => ?_
  funext x
  have hpointer : c₁.pointer = source := rfl
  simp only [hpointer]
  by_cases hx : x = source
  · subst hx
    simp
  · by_cases hx' : x = target
    · subst hx'
      cases sign <;> simp [hx, Sign.apply, sub_eq_add_neg]
    · simp [hx, hx']

end Compilation

end TapeCompiler
