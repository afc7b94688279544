import TapeCompiler.Machine.Basic
import Mathlib.Logic.Function.Basic

namespace TapeCompiler

inductive Action where
  | right
  | left
  | increment
  | decrement
  | put
  | putChar
  | get
  | dump
  deriving DecidableEq, Repr

namespace Action

def instruction : Action → Instruction
  | right => .right
  | left => .left
  | increment => .increment
  | decrement => .decrement
  | put => .put
  | putChar => .putChar
  | get => .get
  | dump => .dump

def shift : Action → Int
  | right => 1
  | left => -1
  | _ => 0

def writes : Action → Bool
  | increment | decrement | get => true
  | _ => false

theorem shift_of_writes {a : Action} (h : a.writes = true) : a.shift = 0 := by
  cases a <;> first | rfl | cases h

end Action

inductive Code where
  | done
  | act (action : Action) (rest : Code)
  | loop (body rest : Code)
  deriving DecidableEq, Repr

structure World (bits : Nat) where
  cells : Int → BitVec bits
  pointer : Int
  input : List CodePoint
  printed : List Printed

inductive Ending (bits : Nat) where
  | done (world : World bits)
  | failed (fault : MachineFault) (world : World bits)

namespace World

variable {bits : Nat}

def read (w : World bits) : BitVec bits := w.cells w.pointer

def write (w : World bits) (value : BitVec bits) : World bits :=
  { w with cells := Function.update w.cells w.pointer value }

def print (w : World bits) (piece : Printed) : World bits :=
  { w with printed := w.printed ++ [piece] }

def initial (bits : Nat) (input : List CodePoint) : World bits := ⟨fun _ => 0, 0, input, []⟩

@[simp] theorem read_write (w : World bits) (value : BitVec bits) :
    (w.write value).read = value := by
  simp [read, write]

@[simp] theorem write_write (w : World bits) (value value' : BitVec bits) :
    (w.write value).write value' = w.write value' := by
  simp [write]

@[simp] theorem write_read (w : World bits) : w.write w.read = w := by
  simp [read, write]

end World

def Ending.world {bits : Nat} : Ending bits → World bits
  | done w => w
  | failed _ w => w

def Action.perform (s : Setting) (w : World s.bits) : Action → Ending s.bits
  | right => .done { w with pointer := w.pointer + 1 }
  | left => .done { w with pointer := w.pointer - 1 }
  | increment => .done (w.write (w.read + 1))
  | decrement => .done (w.write (w.read - 1))
  | put => .done (w.print (.number w.read.toNat))
  | putChar =>
      if Machine.lastCodePoint < w.read.toNat then .failed (.notCodePoint w.read.toNat) w
      else .done (w.print (.character w.read.toNat))
  | get =>
      match (Machine.blank s).readInput w.input with
      | .error fault => .failed fault w
      | .ok value => .done { w.write (BitVec.ofInt s.bits value) with input := w.input.tail }
  | dump => .done w

namespace Code

def append : Code → Code → Code
  | done, other => other
  | act a rest, other => act a (rest.append other)
  | loop body rest, other => loop body (rest.append other)

instance : Append Code := ⟨append⟩

@[simp] theorem done_append (k : Code) : done ++ k = k := rfl

@[simp] theorem act_append (a : Action) (k l : Code) : act a k ++ l = act a (k ++ l) := rfl

@[simp] theorem loop_append (b k l : Code) : loop b k ++ l = loop b (k ++ l) := rfl

@[simp] theorem append_done (k : Code) : k ++ done = k := by
  induction k with
  | done => rfl
  | act a k ih => simp [ih]
  | loop b k _ ih => simp [ih]

def flatten : Code → List Instruction
  | done => []
  | act a rest => a.instruction :: rest.flatten
  | loop body rest => .loopStart :: (body.flatten ++ .loopEnd :: rest.flatten)

def size (k : Code) : Nat := k.flatten.length

@[simp] theorem flatten_append (k l : Code) : (k ++ l).flatten = k.flatten ++ l.flatten := by
  induction k with
  | done => rfl
  | act a k ih => simp [flatten, ih]
  | loop b k _ ih => simp [flatten, ih]

theorem eq_of_flatten_append {k l : Code} {xs ys : List Instruction}
    (h : k.flatten ++ xs = l.flatten ++ ys) (hx : ∀ i ∈ xs.head?, i = .loopEnd)
    (hy : ∀ i ∈ ys.head?, i = .loopEnd) : k = l ∧ xs = ys := by
  induction k generalizing l xs ys with
  | done =>
      cases l with
      | done => exact ⟨rfl, h⟩
      | act a l =>
          rw [show xs = a.instruction :: (l.flatten ++ ys) from h] at hx
          cases a <;> cases hx _ rfl
      | loop b l =>
          rw [show xs = .loopStart :: (b.flatten ++ .loopEnd :: l.flatten ++ ys) from h] at hx
          cases hx _ rfl
  | act a k ih =>
      cases l with
      | done =>
          rw [show ys = a.instruction :: (k.flatten ++ xs) from h.symm] at hy
          cases a <;> cases hy _ rfl
      | act a' l =>
          obtain ⟨ha, hrest⟩ := List.cons.inj h
          obtain ⟨rfl, rfl⟩ := ih hrest hx hy
          cases a <;> cases a' <;> first | exact ⟨rfl, rfl⟩ | cases ha
      | loop b l =>
          obtain ⟨ha, -⟩ := List.cons.inj h
          cases a <;> cases ha
  | loop b k ihb ih =>
      cases l with
      | done =>
          rw [show ys = .loopStart :: (b.flatten ++ .loopEnd :: k.flatten ++ xs) from h.symm] at hy
          cases hy _ rfl
      | act a l =>
          obtain ⟨ha, -⟩ := List.cons.inj h
          cases a <;> cases ha
      | loop b' l =>
          simp only [flatten, List.cons_append, List.append_assoc, List.cons.injEq, true_and] at h
          obtain ⟨rfl, hrest⟩ := ihb h (by simp) (by simp)
          obtain ⟨rfl, rfl⟩ := ih (List.cons.inj hrest).2 hx hy
          exact ⟨rfl, rfl⟩

theorem flatten_injective {k l : Code} (h : k.flatten = l.flatten) : k = l := by
  have happend : k.flatten ++ [] = l.flatten ++ [] := by rw [h]
  exact (eq_of_flatten_append happend (by simp) (by simp)).1

def times (a : Action) : Nat → Code
  | 0 => done
  | n + 1 => act a (times a n)

theorem flatten_times (a : Action) (n : Nat) :
    (times a n).flatten = List.replicate n a.instruction := by
  induction n with
  | zero => rfl
  | succ n ih => simp [times, flatten, ih, List.replicate_succ]

def Leads (bound : Int) : Code → Int → Int → Prop
  | done, p, q => p = q
  | act a rest, p, q =>
      0 ≤ p + a.shift ∧ p + a.shift < bound ∧ rest.Leads bound (p + a.shift) q
  | loop body rest, p, q => body.Leads bound p p ∧ rest.Leads bound p q

theorem Leads.mono {k : Code} {bound bound' p q : Int} (h : k.Leads bound p q)
    (hle : bound ≤ bound') : k.Leads bound' p q := by
  induction k generalizing p q with
  | done => exact h
  | act a k ih => exact ⟨h.1, by have := h.2.1; omega, ih h.2.2⟩
  | loop b k ihb ih => exact ⟨ihb h.1, ih h.2⟩

theorem Leads.append {k l : Code} {bound p q r : Int} (hk : k.Leads bound p q)
    (hl : l.Leads bound q r) : (k ++ l).Leads bound p r := by
  induction k generalizing p with
  | done =>
      cases hk
      exact hl
  | act a k ih => exact ⟨hk.1, hk.2.1, ih hk.2.2⟩
  | loop b k _ ih => exact ⟨hk.1, ih hk.2⟩

end Code

namespace Action

variable {s : Setting} {a : Action} {w w' : World s.bits}

theorem pointer_perform (h : a.perform s w = .done w') : w'.pointer = w.pointer + a.shift := by
  cases a <;> simp only [perform] at h
  case putChar =>
    split at h
    · cases h
    · cases h
      simp [World.print, shift]
  case get =>
    split at h
    · cases h
    · cases h
      simp [World.write, shift]
  all_goals
    cases h
    simp [World.write, World.print, shift]
    try rfl

theorem cells_perform (h : a.perform s w = .done w') {x : Int}
    (hx : a.writes = true → x ≠ w.pointer) : w'.cells x = w.cells x := by
  cases a <;> simp only [perform] at h
  case putChar =>
    split at h
    · cases h
    · cases h
      rfl
  case get =>
    split at h
    · cases h
    · cases h
      exact Function.update_of_ne (hx rfl) _ _
  case increment =>
    cases h
    exact Function.update_of_ne (hx rfl) _ _
  case decrement =>
    cases h
    exact Function.update_of_ne (hx rfl) _ _
  all_goals
    cases h
    rfl

theorem world_failed {f : MachineFault} (h : a.perform s w = .failed f w') : w' = w := by
  cases a <;> simp only [perform] at h
  case putChar =>
    split at h
    · cases h
      rfl
    · cases h
  case get =>
    split at h
    · cases h
      rfl
    · cases h
  all_goals cases h

end Action

inductive Runs (s : Setting) : Code → World s.bits → Ending s.bits → Prop where
  | done {w} : Runs s .done w (.done w)
  | act {a k w w' e} : a.perform s w = .done w' → Runs s k w' e → Runs s (.act a k) w e
  | act_failed {a k w w' f} : a.perform s w = .failed f w' → Runs s (.act a k) w (.failed f w')
  | loop_end {b k w e} : w.read = 0 → Runs s k w e → Runs s (.loop b k) w e
  | loop_step {b k w w' e} : w.read ≠ 0 → Runs s b w (.done w') → Runs s (.loop b k) w' e →
      Runs s (.loop b k) w e
  | loop_failed {b k w w' f} : w.read ≠ 0 → Runs s b w (.failed f w') →
      Runs s (.loop b k) w (.failed f w')

namespace Runs

variable {s : Setting}

theorem deterministic {k : Code} {w : World s.bits} {e e' : Ending s.bits} (h : Runs s k w e)
    (h' : Runs s k w e') : e = e' := by
  induction h generalizing e' with
  | done =>
      cases h'
      rfl
  | act ha _ ih =>
      cases h' with
      | act ha' h' =>
          cases ha.symm.trans ha'
          exact ih h'
      | act_failed ha' => cases ha.symm.trans ha'
  | act_failed ha =>
      cases h' with
      | act ha' _ => cases ha.symm.trans ha'
      | act_failed ha' =>
          cases ha.symm.trans ha'
          rfl
  | loop_end h0 _ ih =>
      cases h' with
      | loop_end _ h' => exact ih h'
      | loop_step h0' _ _ => exact absurd h0 h0'
      | loop_failed h0' _ => exact absurd h0 h0'
  | loop_step h0 _ _ ihb ih =>
      cases h' with
      | loop_end h0' _ => exact absurd h0' h0
      | loop_step _ hb' h' =>
          cases ihb hb'
          exact ih h'
      | loop_failed _ hb' => cases ihb hb'
  | loop_failed h0 _ ihb =>
      cases h' with
      | loop_end h0' _ => exact absurd h0' h0
      | loop_step _ hb' _ => cases ihb hb'
      | loop_failed _ hb' =>
          cases ihb hb'
          rfl

@[elab_as_elim]
theorem loop_rounds {b : Code}
    {motive : ∀ (w : World s.bits) (e : Ending s.bits), Runs s (.loop b .done) w e → Prop}
    (stop : ∀ {w} (h0 : w.read = 0), motive w (.done w) (.loop_end h0 .done))
    (round : ∀ {w w' e} (h0 : w.read ≠ 0) (hb : Runs s b w (.done w'))
      (hrest : Runs s (.loop b .done) w' e), motive w' e hrest → motive w e (.loop_step h0 hb hrest))
    (failed : ∀ {w w' f} (h0 : w.read ≠ 0) (hb : Runs s b w (.failed f w')),
      motive w (.failed f w') (.loop_failed h0 hb))
    {w : World s.bits} {e : Ending s.bits} (h : Runs s (.loop b .done) w e) : motive w e h := by
  have hrounds {k : Code} {w : World s.bits} {e : Ending s.bits} (hrun : Runs s k w e)
      (hk : k = .loop b .done) (h : Runs s (.loop b .done) w e) : motive w e h := by
    induction hrun with
    | done | act | act_failed => cases hk
    | loop_end h0 hrest =>
        cases hk
        cases hrest
        exact stop h0
    | loop_step h0 hb hrest _ ih =>
        cases hk
        exact round h0 hb hrest (ih rfl hrest)
    | loop_failed h0 hb =>
        cases hk
        exact failed h0 hb
  exact hrounds h rfl h

theorem loop_invariant {b : Code} {w v : World s.bits} {P : World s.bits → Prop}
    (h : Runs s (.loop b .done) w (.done v)) (hw : P w)
    (hround : ∀ {u u'}, P u → u.read ≠ 0 → Runs s b u (.done u') → P u') : P v ∧ v.read = 0 := by
  generalize he : Ending.done v = e at h
  induction h using loop_rounds with
  | stop h0 =>
      cases he
      exact ⟨hw, h0⟩
  | round h0 hb _ ih => exact ih (hround hw h0 hb) he
  | failed => cases he

theorem append {k l : Code} {w w' : World s.bits} {e : Ending s.bits}
    (hk : Runs s k w (.done w')) (hl : Runs s l w' e) : Runs s (k ++ l) w e := by
  generalize hd : Ending.done w' = d at hk
  induction hk with
  | done =>
      cases hd
      exact hl
  | act ha _ ih => exact .act ha (ih hd)
  | act_failed ha => cases hd
  | loop_end h0 _ ih => exact .loop_end h0 (ih hd)
  | loop_step h0 hb _ _ ih => exact .loop_step h0 hb (ih hd)
  | loop_failed h0 _ => cases hd

theorem append_failed {k : Code} (l : Code) {w w' : World s.bits} {f : MachineFault}
    (hk : Runs s k w (.failed f w')) : Runs s (k ++ l) w (.failed f w') := by
  generalize hd : Ending.failed f w' = d at hk
  induction hk with
  | done => cases hd
  | act ha _ ih => exact .act ha (ih hd)
  | act_failed ha =>
      cases hd
      exact .act_failed ha
  | loop_end h0 _ ih => exact .loop_end h0 (ih hd)
  | loop_step h0 hb _ _ ih => exact .loop_step h0 hb (ih hd)
  | loop_failed h0 hb =>
      cases hd
      exact .loop_failed h0 hb

theorem append_iff {k l : Code} {w : World s.bits} {e : Ending s.bits} :
    Runs s (k ++ l) w e ↔ (∃ w', Runs s k w (.done w') ∧ Runs s l w' e) ∨
      ∃ f w', e = .failed f w' ∧ Runs s k w (.failed f w') := by
  constructor
  · intro h
    generalize hm : k ++ l = m at h
    induction h generalizing k with
    | done =>
        cases k with
        | done =>
            cases hm
            exact .inl ⟨_, .done, .done⟩
        | act a k => cases hm
        | loop b k => cases hm
    | @act a m w w' e ha hrest ih =>
        cases k with
        | done =>
            cases hm
            exact .inl ⟨_, .done, .act ha hrest⟩
        | act a' k =>
            cases hm
            rcases ih rfl with ⟨w', hk, hl⟩ | ⟨f, w', rfl, hk⟩
            · exact .inl ⟨w', .act ha hk, hl⟩
            · exact .inr ⟨f, w', rfl, .act ha hk⟩
        | loop b k => cases hm
    | act_failed ha =>
        cases k with
        | done =>
            cases hm
            exact .inl ⟨_, .done, .act_failed ha⟩
        | act a' k =>
            cases hm
            exact .inr ⟨_, _, rfl, .act_failed ha⟩
        | loop b k => cases hm
    | loop_end h0 hrest ih =>
        cases k with
        | done =>
            cases hm
            exact .inl ⟨_, .done, .loop_end h0 hrest⟩
        | act a k => cases hm
        | loop b k =>
            cases hm
            rcases ih rfl with ⟨w', hk, hl⟩ | ⟨f, w', rfl, hk⟩
            · exact .inl ⟨w', .loop_end h0 hk, hl⟩
            · exact .inr ⟨f, w', rfl, .loop_end h0 hk⟩
    | loop_step h0 hb hrest _ ih =>
        cases k with
        | done =>
            cases hm
            exact .inl ⟨_, .done, .loop_step h0 hb hrest⟩
        | act a k => cases hm
        | loop b k =>
            cases hm
            rcases ih (k := .loop _ k) rfl with ⟨w', hk, hl⟩ | ⟨f, w', rfl, hk⟩
            · exact .inl ⟨w', .loop_step h0 hb hk, hl⟩
            · exact .inr ⟨f, w', rfl, .loop_step h0 hb hk⟩
    | loop_failed h0 hb =>
        cases k with
        | done =>
            cases hm
            exact .inl ⟨_, .done, .loop_failed h0 hb⟩
        | act a k => cases hm
        | loop b k =>
            cases hm
            exact .inr ⟨_, _, rfl, .loop_failed h0 hb⟩
  · rintro (⟨w', hk, hl⟩ | ⟨f, w', rfl, hk⟩)
    · exact hk.append hl
    · exact hk.append_failed l

theorem pointer_eq {k : Code} {w w' : World s.bits} {bound p q : Int} (hk : k.Leads bound p q)
    (h : Runs s k w (.done w')) (hp : w.pointer = p) : w'.pointer = q := by
  generalize hd : Ending.done w' = d at h
  induction h generalizing p q w' with
  | done =>
      cases hd
      exact hp.trans hk
  | act ha _ ih => exact ih hk.2.2 (by rw [Action.pointer_perform ha, hp]) hd
  | act_failed _ => cases hd
  | loop_end _ _ ih => exact ih hk.2 hp hd
  | loop_step _ _ _ ihb ih => exact ih hk (ihb hk.1 hp rfl) hd
  | loop_failed _ _ => cases hd

theorem cells_outside {k : Code} {w : World s.bits} {e : Ending s.bits} {bound p q : Int}
    (hk : k.Leads bound p q) (h : Runs s k w e) (hp : w.pointer = p) {x : Int}
    (hx : x < 0 ∨ bound ≤ x) : e.world.cells x = w.cells x := by
  induction h generalizing p q with
  | done => rfl
  | act ha _ ih =>
      rw [ih hk.2.2 (by rw [Action.pointer_perform ha, hp])]
      exact Action.cells_perform ha fun hw => by
        have := Action.shift_of_writes hw
        have := hk.1
        have := hk.2.1
        omega
  | act_failed ha => rw [Ending.world, Action.world_failed ha]
  | loop_end _ _ ih => exact ih hk.2 hp
  | loop_step _ hb _ ihb ih => exact (ih hk (hb.pointer_eq hk.1 hp)).trans (ihb hk.1 hp)
  | loop_failed _ _ ihb => exact ihb hk.1 hp

end Runs

end TapeCompiler
