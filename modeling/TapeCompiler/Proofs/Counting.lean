import TapeCompiler.Proofs.Code
import Mathlib.Data.BitVec
import Mathlib.Tactic.Abel

namespace TapeCompiler

theorem toNat_sub_one {bits : Nat} {x : BitVec bits} (h : x ≠ 0) :
    (x - 1).toNat + 1 = x.toNat := by
  have hx : x.toNat ≠ 0 := fun h0 => h (BitVec.eq_of_toNat_eq (by simpa using h0))
  have hlt := x.isLt
  have hbits : bits ≠ 0 := by
    rintro rfl
    simp at hlt
    omega
  have hone : (1 : BitVec bits).toNat = 1 := by
    have : 1 < 2 ^ bits := Nat.one_lt_two_pow hbits
    simp [Nat.mod_eq_of_lt this]
  rw [BitVec.toNat_sub, hone]
  have : 2 ^ bits - 1 + x.toNat = x.toNat - 1 + 2 ^ bits := by omega
  rw [this, Nat.add_mod_right, Nat.mod_eq_of_lt (by omega)]
  omega

namespace Code

def move (p t : Int) : Code :=
  if p < t then times .right (t - p).toNat else times .left (p - t).toNat

theorem leads_times {a : Action} {bound p : Int} (n : Nat) (hp : 0 ≤ p ∧ p < bound)
    (hn : 0 ≤ p + n * a.shift ∧ p + n * a.shift < bound) :
    (times a n).Leads bound p (p + n * a.shift) := by
  induction n generalizing p with
  | zero => simp [times, Leads]
  | succ n ih =>
      have hstep : p + ((n + 1 : Nat) : Int) * a.shift = p + a.shift + n * a.shift := by
        rw [Nat.cast_succ, add_mul, one_mul]
        abel
      rw [hstep] at hn ⊢
      have hmid : 0 ≤ p + a.shift ∧ p + a.shift < bound := by
        cases a <;> simp only [Action.shift] at hn ⊢ <;> omega
      exact ⟨hmid.1, hmid.2, ih hmid hn⟩

theorem leads_move {bound p t : Int} (hp : 0 ≤ p ∧ p < bound) (ht : 0 ≤ t ∧ t < bound) :
    (move p t).Leads bound p t := by
  unfold move
  split
  · have h : p + ((t - p).toNat : Int) * Action.right.shift = t := by
      simp only [Action.shift]
      omega
    have := leads_times (a := .right) (t - p).toNat hp (by rw [h]; exact ht)
    rwa [h] at this
  · have h : p + ((p - t).toNat : Int) * Action.left.shift = t := by
      simp only [Action.shift]
      omega
    have := leads_times (a := .left) (p - t).toNat hp (by rw [h]; exact ht)
    rwa [h] at this

end Code

namespace Runs

variable {s : Setting}

theorem times_move {a : Action} (ha : a = .right ∨ a = .left) (n : Nat) (w : World s.bits) :
    Runs s (Code.times a n) w (.done { w with pointer := w.pointer + n * a.shift }) := by
  induction n generalizing w with
  | zero =>
      simp only [Nat.cast_zero, zero_mul, add_zero]
      exact .done
  | succ n ih =>
      have hstep : w.pointer + ((n + 1 : Nat) : Int) * a.shift =
          w.pointer + a.shift + n * a.shift := by
        rw [Nat.cast_succ, add_mul, one_mul]
        abel
      rw [hstep]
      refine .act ?_ (ih { w with pointer := w.pointer + a.shift })
      rcases ha with rfl | rfl
      · rfl
      · simp [Action.perform, Action.shift, sub_eq_add_neg]

theorem move (w : World s.bits) (t : Int) :
    Runs s (Code.move w.pointer t) w (.done { w with pointer := t }) := by
  unfold Code.move
  split
  · have h : w.pointer + ((t - w.pointer).toNat : Int) * Action.right.shift = t := by
      simp only [Action.shift]
      omega
    simpa only [h] using times_move (.inl rfl) (t - w.pointer).toNat w
  · have h : w.pointer + ((w.pointer - t).toNat : Int) * Action.left.shift = t := by
      simp only [Action.shift]
      omega
    simpa only [h] using times_move (.inr rfl) (w.pointer - t).toNat w

theorem times_increment (n : Nat) (w : World s.bits) :
    Runs s (Code.times .increment n) w
      (.done (w.write (w.read + n))) := by
  induction n generalizing w with
  | zero =>
      simp only [Nat.cast_zero, add_zero, World.write_read]
      exact .done
  | succ n ih =>
      have hsum : w.read + ((n + 1 : Nat) : BitVec s.bits) = w.read + 1 + n := by
        push_cast
        abel
      rw [hsum]
      have h := ih (w.write (w.read + 1))
      simp only [World.write_write, World.read_write] at h
      exact .act rfl h

theorem times_decrement (n : Nat) (w : World s.bits) :
    Runs s (Code.times .decrement n) w
      (.done (w.write (w.read - n))) := by
  induction n generalizing w with
  | zero =>
      simp only [Nat.cast_zero, sub_zero, World.write_read]
      exact .done
  | succ n ih =>
      have hsum : w.read - ((n + 1 : Nat) : BitVec s.bits) = w.read - 1 - n := by
        push_cast
        abel
      rw [hsum]
      have h := ih (w.write (w.read - 1))
      simp only [World.write_write, World.read_write] at h
      exact .act rfl h

theorem count {body : Code} {p : Int}
    {f : (Int → BitVec s.bits) → Int → BitVec s.bits}
    (hbody : ∀ w : World s.bits, w.pointer = p → Runs s body w (.done { w with cells := f w.cells }))
    (hf : ∀ cells, f cells p = cells p - 1) (w : World s.bits) (hp : w.pointer = p) :
    Runs s (.loop body .done) w
      (.done { w with cells := f^[(w.cells p).toNat] w.cells }) := by
  generalize hn : (w.cells p).toNat = n
  induction n generalizing w with
  | zero =>
      refine .loop_end ?_ .done
      rw [World.read, hp]
      exact BitVec.eq_of_toNat_eq (by simpa using hn)
  | succ n ih =>
      have h0 : w.cells p ≠ 0 := fun h => by simp [h] at hn
      refine .loop_step (by rwa [World.read, hp]) (hbody w hp) ?_
      rw [Function.iterate_succ_apply]
      refine ih { w with cells := f w.cells } hp ?_
      have := toNat_sub_one h0
      simp only [hf]
      omega

end Runs

end TapeCompiler
