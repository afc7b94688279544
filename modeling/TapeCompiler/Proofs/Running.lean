import TapeCompiler.Proofs.Brackets
import TapeCompiler.Proofs.Ticks
import Mathlib.Logic.Function.Basic

namespace TapeCompiler

variable {s : Setting}

theorem Setting.toNat_ofInt (s : Setting) (value : Int) :
    ((BitVec.ofInt s.bits value).toNat : Int) = value % s.modulus := by
  have hpos : ((2 ^ s.bits : Nat) : Int) ≠ 0 := by
    have := Nat.two_pow_pos s.bits
    omega
  rw [BitVec.toNat_ofInt, Int.toNat_of_nonneg (Int.emod_nonneg _ hpos), s.modulus_eq]
  rfl

theorem Setting.toNat_add_ofInt (s : Setting) (b : BitVec s.bits) (value : Int) :
    ((b + BitVec.ofInt s.bits value).toNat : Int) = (b.toNat + value) % s.modulus := by
  have hsum : b + BitVec.ofInt s.bits value = BitVec.ofInt s.bits (b.toNat + value) := by
    simp [BitVec.ofInt_add]
  rw [hsum, s.toNat_ofInt]

structure Shows (s : Setting) (m : Machine) (w : World s.bits) : Prop where
  setting : m.setting = s
  size : m.tape.cells.size = s.size
  pointer : (m.tape.pointer : Int) = w.pointer
  inside : m.tape.pointer < s.size
  cells : ∀ i, i < s.size → m.tape.cells[i]? = some ((w.cells i).toNat : Int)
  printed : m.printed.toList = w.printed

namespace Shows

variable {m : Machine} {w : World s.bits}

theorem read (h : Shows s m w) : m.tape.read = (w.read.toNat : Int) := by
  rw [Tape.read, Array.getD_eq_getD_getElem?, h.cells _ h.inside, h.pointer]
  rfl

theorem read_eq_zero_iff (h : Shows s m w) : m.tape.read = 0 ↔ w.read = 0 := by
  rw [h.read]
  constructor
  · intro h0
    exact BitVec.eq_of_toNat_eq (by simpa using h0)
  · intro h0
    simp [h0]

theorem jump (h : Shows s m w) (pc steps : Nat) :
    Shows s { m with pc, steps } w :=
  ⟨h.setting, h.size, h.pointer, h.inside, h.cells, h.printed⟩

theorem write (h : Shows s m w) {tape : Tape} {value : BitVec s.bits}
    (hpointer : tape.pointer = m.tape.pointer) (hsize : tape.cells.size = m.tape.cells.size)
    (hself : tape.cells[m.tape.pointer]? = some (value.toNat : Int))
    (hother : ∀ i, i ≠ m.tape.pointer → tape.cells[i]? = m.tape.cells[i]?) :
    Shows s { m with tape } (w.write value) := by
  refine ⟨h.setting, hsize.trans h.size, by rw [hpointer]; exact h.pointer,
    by rw [hpointer]; exact h.inside, fun i hi => ?_, h.printed⟩
  by_cases hip : i = m.tape.pointer
  · subst hip
    have hread : (w.write value).cells w.pointer = value := w.read_write value
    rw [hself, h.pointer, hread]
  · have hne : (i : Int) ≠ w.pointer := by
      rw [← h.pointer]
      omega
    have hkeeps : (w.write value).cells i = w.cells i := Function.update_of_ne hne _ _
    rw [hother i hip, h.cells i hi, hkeeps]

theorem add (h : Shows s m w) (amount : Int) :
    Shows s { m with tape := m.tape.add m.setting.modulus amount }
      (w.write (w.read + BitVec.ofInt s.bits amount)) := by
  refine h.write rfl (by simp [Tape.add]) ?_ fun i hi => ?_
  · have hcell := h.cells _ h.inside
    simp only [Tape.add, Array.getElem?_modify, if_true, hcell, Option.map_some]
    rw [s.toNat_add_ofInt, h.setting, h.pointer]
    rfl
  · rw [Tape.add, Array.getElem?_modify, if_neg (Ne.symm hi)]

theorem store (h : Shows s m w) (value : Int) (input : List CodePoint) :
    Shows s (m.store value) { w.write (BitVec.ofInt s.bits value) with input } := by
  have hwrite : Shows s (m.store value) (w.write (BitVec.ofInt s.bits value)) := by
    refine h.write rfl (by simp [Tape.write]) ?_ fun i hi => ?_
    · rw [Tape.write, Array.getElem?_setIfInBounds_self_of_lt (by rw [h.size]; exact h.inside),
        h.setting, s.toNat_ofInt]
    · rw [Tape.write, Array.getElem?_setIfInBounds_ne (Ne.symm hi)]
  exact ⟨hwrite.setting, hwrite.size, hwrite.pointer, hwrite.inside, hwrite.cells,
    hwrite.printed⟩

theorem print (h : Shows s m w) (piece : Printed) : Shows s (m.print piece) (w.print piece) :=
  ⟨h.setting, h.size, h.pointer, h.inside, h.cells, by
    simp [Machine.print, World.print, h.printed]⟩

theorem right (h : Shows s m w) (hp : w.pointer + 1 < s.size) :
    Shows s { m with tape := m.tape.right } { w with pointer := w.pointer + 1 } := by
  have hpointer := h.pointer
  have hright : m.tape.right.pointer = m.tape.pointer + 1 := by
    rw [Tape.right, h.size]
    exact Nat.mod_eq_of_lt (by omega)
  refine ⟨h.setting, h.size, ?_, by dsimp only; omega, h.cells, h.printed⟩
  dsimp only
  omega

theorem left (h : Shows s m w) (hp : 0 ≤ w.pointer - 1) :
    Shows s { m with tape := m.tape.left } { w with pointer := w.pointer - 1 } := by
  have hpointer := h.pointer
  have hinside := h.inside
  have hleft : m.tape.left.pointer = m.tape.pointer - 1 := by
    rw [Tape.left, h.size]
    dsimp only
    rw [show m.tape.pointer + (s.size - 1) = m.tape.pointer - 1 + s.size by omega,
      Nat.add_mod_right]
    exact Nat.mod_eq_of_lt (by omega)
  refine ⟨h.setting, h.size, ?_, by dsimp only; omega, h.cells, h.printed⟩
  dsimp only
  omega

end Shows

structure Machine.Goes (s : Setting) (m m' : Machine) (w' : World s.bits) (pc : Nat) : Prop where
  shows : Shows s m' w'
  pc : m'.pc = pc
  program : m'.program = m.program
  jumps : m'.jumps = m.jumps

theorem Machine.Goes.placed {m m' : Machine} {w' : World s.bits} {pc position : Nat} {k : Code}
    (h : Goes s m m' w' pc) (hplaced : k.Placed m.program m.jumps position) :
    k.Placed m'.program m'.jumps position := by
  rwa [h.program, h.jumps]

theorem Machine.readInput_eq {m : Machine} (h : m.setting = s) (input : List CodePoint) :
    m.readInput input = (blank s).readInput input := by
  subst h
  rfl

section

variable {m : Machine} {w w' : World s.bits} {a : Action}

theorem Shows.tick_done (h : Shows s m w) (hprogram : m.program[m.pc]? = some a.instruction)
    (hlow : 0 ≤ w.pointer + a.shift) (hhigh : w.pointer + a.shift < s.size)
    (hdone : a.perform s w = .done w') :
    ∃ m', m.tick w.input = (m', .running w'.input) ∧ Machine.Goes s m m' w' (m.pc + 1) := by
  cases a <;> simp only [Action.perform] at hdone <;>
    simp only [Machine.tick, hprogram, Action.instruction, Instruction.stop?, Machine.answer,
      Machine.perform]
  case right =>
    cases hdone
    exact ⟨_, rfl, (h.right hhigh).jump _ _, rfl, rfl, rfl⟩
  case left =>
    cases hdone
    exact ⟨_, rfl, (h.left hlow).jump _ _, rfl, rfl, rfl⟩
  case increment =>
    cases hdone
    have hadd := h.add 1
    rw [show BitVec.ofInt s.bits 1 = 1 from BitVec.eq_of_toNat_eq rfl] at hadd
    exact ⟨_, rfl, hadd.jump _ _, rfl, rfl, rfl⟩
  case decrement =>
    cases hdone
    have hadd := h.add (-1)
    rw [BitVec.ofInt_neg, ← BitVec.sub_eq_add_neg,
      show BitVec.ofInt s.bits 1 = 1 from BitVec.eq_of_toNat_eq rfl] at hadd
    exact ⟨_, rfl, hadd.jump _ _, rfl, rfl, rfl⟩
  case put =>
    cases hdone
    rw [h.read]
    exact ⟨_, rfl, (h.print _).jump _ _, rfl, rfl, rfl⟩
  case putChar =>
    rw [h.read]
    split at hdone
    · cases hdone
    · rename_i hlast
      cases hdone
      rw [if_neg hlast]
      exact ⟨_, rfl, (h.print _).jump _ _, rfl, rfl, rfl⟩
  case get =>
    rw [Machine.readInput_eq h.setting]
    cases hread : (Machine.blank s).readInput w.input with
    | error fault =>
        rw [hread] at hdone
        cases hdone
    | ok value =>
        rw [hread] at hdone
        cases hdone
        exact ⟨_, rfl, (h.store value _).jump _ _, rfl, rfl, rfl⟩
  case dump =>
    cases hdone
    exact ⟨_, rfl, ⟨h.setting, h.size, h.pointer, h.inside, h.cells, h.printed⟩, rfl, rfl, rfl⟩

theorem Shows.tick_failed {f : MachineFault} (h : Shows s m w)
    (hprogram : m.program[m.pc]? = some a.instruction) (hfailed : a.perform s w = .failed f w') :
    m.tick w.input = (m, .failed f) := by
  cases a <;> simp only [Action.perform] at hfailed <;>
    simp only [Machine.tick, hprogram, Action.instruction, Instruction.stop?, Machine.answer]
  case putChar =>
    rw [h.read]
    split at hfailed
    · rename_i hlast
      cases hfailed
      rw [if_pos hlast]
    · cases hfailed
  case get =>
    rw [Machine.readInput_eq h.setting]
    cases hread : (Machine.blank s).readInput w.input with
    | error fault =>
        rw [hread] at hfailed
        cases hfailed
        rfl
    | ok value =>
        rw [hread] at hfailed
        cases hfailed
  all_goals cases hfailed

theorem Shows.tick_loop (h : Shows s m w) {b k : Code} {position : Nat}
    (hplaced : (Code.loop b k).Placed m.program m.jumps position)
    (hpc : m.pc = position ∨ m.pc = position + b.size + 1) :
    ∃ m', m.tick w.input = (m', .running w.input) ∧
      Machine.Goes s m m' w
        (if w.read = 0 then position + b.size + 2 else position + 1) := by
  obtain ⟨hstart, hend, htable, htable', -, -⟩ := hplaced
  rcases hpc with hpc | hpc
  · have hpartner : m.partner = position + b.size + 1 := by
      rw [Machine.partner, Array.getD_eq_getD_getElem?, hpc, htable]
      rfl
    rw [← hpc] at hstart
    simp only [Machine.tick, hstart, Instruction.stop?, Machine.perform, hpartner,
      h.read_eq_zero_iff]
    refine ⟨_, rfl, h.jump _ _, ?_, rfl, rfl⟩
    dsimp only
    split <;> omega
  · have hpartner : m.partner = position := by
      rw [Machine.partner, Array.getD_eq_getD_getElem?, hpc, htable']
      rfl
    rw [← hpc] at hend
    simp only [Machine.tick, hend, Instruction.stop?, Machine.perform, hpartner,
      h.read_eq_zero_iff]
    refine ⟨_, rfl, h.jump _ _, ?_, rfl, rfl⟩
    dsimp only
    split <;> omega

end

def Ending.progress : Ending s.bits → Machine.Progress
  | .done _ => .finished
  | .failed f _ => .failed f

def Code.Meets : Code → Nat → Nat → Prop
  | .loop b _, position, pc => pc = position ∨ pc = position + b.size + 1
  | _, position, pc => pc = position

theorem Code.Meets.start (k : Code) (position : Nat) : k.Meets position position := by
  cases k <;> simp [Code.Meets]

theorem Machine.Goes.meets {m m' : Machine} {w' : World s.bits} {pc : Nat} {k : Code}
    (h : Goes s m m' w' pc) : k.Meets pc m'.pc := by
  rw [h.pc]
  exact .start k pc

def Machine.Follows (s : Setting) (m : Machine) (input : List CodePoint) (pc : Nat) :
    Ending s.bits → Prop
  | .done w => ∃ n m', ticks n m input = (m', .running w.input) ∧ Goes s m m' w pc
  | .failed f w => ∃ n m', ticks n m input = (m', .failed f) ∧ Shows s m' w

namespace Machine.Follows

variable {m m' : Machine} {w : World s.bits} {input input' : List CodePoint} {pc pc' : Nat}
  {e : Ending s.bits}

theorem before {n : Nat} (hticks : ticks n m input = (m', .running w.input))
    (hgoes : Goes s m m' w pc') (h : Follows s m' w.input pc e) : Follows s m input pc e := by
  cases e with
  | done w' =>
      obtain ⟨n', m'', hticks', hgoes'⟩ := h
      exact ⟨n + n', m'', (ticks_add n' hticks).trans hticks', hgoes'.shows, hgoes'.pc,
        hgoes'.program.trans hgoes.program, hgoes'.jumps.trans hgoes.jumps⟩
  | failed f w' =>
      obtain ⟨n', m'', hticks', hshows⟩ := h
      exact ⟨n + n', m'', (ticks_add n' hticks).trans hticks', hshows⟩

end Machine.Follows

theorem Machine.ticks_one {m m' : Machine} {input : List CodePoint} {p : Progress}
    (h : m.tick input = (m', p)) : ticks 1 m input = (m', p) := by
  rw [ticks, h]
  cases p <;> rfl

theorem Runs.follows {k : Code} {w : World s.bits} {e : Ending s.bits} (h : Runs s k w e)
    {m : Machine} {position : Nat} {bound q : Int} (hbound : bound ≤ s.size)
    (hshows : Shows s m w) (hleads : k.Leads bound w.pointer q)
    (hplaced : k.Placed m.program m.jumps position) (hpc : k.Meets position m.pc) :
    m.Follows s w.input (position + k.size) e := by
  induction h generalizing m position q with
  | done => exact ⟨0, m, rfl, hshows, hpc, rfl, rfl⟩
  | @act a k w w' e ha hrest ih =>
      cases hpc
      obtain ⟨hlow, hhigh, hrestleads⟩ := hleads
      obtain ⟨m', htick, hgoes⟩ := hshows.tick_done hplaced.1 hlow (by omega) ha
      rw [← Action.pointer_perform ha] at hrestleads
      refine .before (Machine.ticks_one htick) hgoes ?_
      have hplaced' : k.Placed m'.program m'.jumps (m.pc + 1) := hgoes.placed hplaced.2
      have := ih hgoes.shows hrestleads hplaced' hgoes.meets
      rwa [Code.size_act, Nat.add_comm k.size, ← Nat.add_assoc]
  | @act_failed a k w w' f ha =>
      cases hpc
      refine ⟨1, m, Machine.ticks_one (hshows.tick_failed hplaced.1 ha), ?_⟩
      rwa [Action.world_failed ha]
  | @loop_end b k w e h0 hrest ih =>
      obtain ⟨m', htick, hgoes⟩ := hshows.tick_loop hplaced hpc
      rw [if_pos h0] at hgoes
      refine .before (Machine.ticks_one htick) hgoes ?_
      have hplaced' : k.Placed m'.program m'.jumps (position + b.size + 2) :=
        hgoes.placed hplaced.2.2.2.2.2
      have := ih hgoes.shows hleads.2 hplaced' hgoes.meets
      rwa [Code.size_loop, show position + (b.size + k.size + 2) =
        position + b.size + 2 + k.size by omega]
  | @loop_step b k w w' e h0 hb hrest ihb ih =>
      obtain ⟨m', htick, hgoes⟩ := hshows.tick_loop hplaced hpc
      rw [if_neg h0] at hgoes
      refine .before (Machine.ticks_one htick) hgoes ?_
      have hplaced' : b.Placed m'.program m'.jumps (position + 1) :=
        hgoes.placed hplaced.2.2.2.2.1
      obtain ⟨n, m₁, hticks, hgoes₁⟩ := ihb hgoes.shows hleads.1 hplaced' hgoes.meets
      refine .before hticks hgoes₁ ?_
      rw [← hb.pointer_eq hleads.1 rfl] at hleads
      refine ih hgoes₁.shows hleads (hgoes₁.placed (hgoes.placed hplaced)) (.inr ?_)
      rw [hgoes₁.pc]
      omega
  | @loop_failed b k w w' f h0 hb ihb =>
      obtain ⟨m', htick, hgoes⟩ := hshows.tick_loop hplaced hpc
      rw [if_neg h0] at hgoes
      refine .before (Machine.ticks_one htick) hgoes ?_
      have hplaced' : b.Placed m'.program m'.jumps (position + 1) :=
        hgoes.placed hplaced.2.2.2.2.1
      exact ihb hgoes.shows hleads.1 hplaced' hgoes.meets

theorem Machine.ticks_split {n n' : Nat} {m m' m'' : Machine} {input input' : List CodePoint}
    {p : Progress} (hended : ticks n m input = (m'', p)) (hp : p.outcome ≠ .unfinished)
    (h : ticks n' m input = (m', .running input')) :
    n' < n ∧ ticks (n - n') m' input' = (m'', p) := by
  have hlt : n' < n := by
    by_contra hle
    have := ticks_ended (n' - n) hended hp
    rw [Nat.add_sub_cancel' (by omega), h] at this
    cases this
    exact hp rfl
  refine ⟨hlt, ?_⟩
  rw [← ticks_add (n - n') h, Nat.add_sub_cancel' (Nat.le_of_lt hlt), hended]

theorem exists_runs {n : Nat} {k : Code} {w : World s.bits} {m m' : Machine}
    {p : Machine.Progress} (hended : Machine.ticks n m w.input = (m', p))
    (hp : p.outcome ≠ .unfinished) {position : Nat} {bound q : Int} (hbound : bound ≤ s.size)
    (hshows : Shows s m w) (hleads : k.Leads bound w.pointer q)
    (hplaced : k.Placed m.program m.jumps position) (hpc : k.Meets position m.pc) :
    ∃ e, Runs s k w e := by
  induction n using Nat.strongRecOn generalizing k w m position q with
  | _ n ih =>
      cases k with
      | done => exact ⟨_, .done⟩
      | act a k =>
          cases hpc
          cases ha : a.perform s w with
          | failed f w' => exact ⟨_, .act_failed ha⟩
          | done w' =>
              obtain ⟨hlow, hhigh, hrestleads⟩ := hleads
              obtain ⟨m₁, htick, hgoes⟩ := hshows.tick_done hplaced.1 hlow (by omega) ha
              rw [← Action.pointer_perform ha] at hrestleads
              obtain ⟨hn, hended'⟩ :=
                Machine.ticks_split hended hp (Machine.ticks_one htick)
              obtain ⟨e, he⟩ := ih (n - 1) (by omega) hended' hgoes.shows hrestleads
                (hgoes.placed hplaced.2) hgoes.meets
              exact ⟨e, .act ha he⟩
      | loop b k =>
          obtain ⟨m₁, htick, hgoes⟩ := hshows.tick_loop hplaced hpc
          obtain ⟨hn, hended'⟩ := Machine.ticks_split hended hp (Machine.ticks_one htick)
          by_cases h0 : w.read = 0
          · rw [if_pos h0] at hgoes
            obtain ⟨e, he⟩ := ih (n - 1) (by omega) hended' hgoes.shows hleads.2
              (hgoes.placed hplaced.2.2.2.2.2) hgoes.meets
            exact ⟨e, .loop_end h0 he⟩
          · rw [if_neg h0] at hgoes
            have hplaced' : b.Placed m₁.program m₁.jumps (position + 1) :=
              hgoes.placed hplaced.2.2.2.2.1
            obtain ⟨e, he⟩ :=
              ih (n - 1) (by omega) hended' hgoes.shows hleads.1 hplaced' hgoes.meets
            cases e with
            | failed f w' => exact ⟨_, .loop_failed h0 he⟩
            | done w' =>
                -- The body has run, so the machine is at the end of the loop with fewer ticks left.
                obtain ⟨n', m₂, hticks, hgoes₂⟩ :=
                  he.follows hbound hgoes.shows hleads.1 hplaced' hgoes.meets
                obtain ⟨hn', hended''⟩ := Machine.ticks_split hended' hp hticks
                rw [← he.pointer_eq hleads.1 rfl] at hleads
                obtain ⟨e, he'⟩ := ih (n - 1 - n') (by omega) hended'' hgoes₂.shows hleads
                  (hgoes₂.placed (hgoes.placed hplaced)) (.inr (by rw [hgoes₂.pc]; omega))
                exact ⟨e, .loop_step h0 he he'⟩

structure Machine.Holds (m : Machine) (k : Code) : Prop where
  program : m.program = k.flatten.toArray
  placed : k.Placed m.program m.jumps 0
  pc : m.pc = 0

theorem Machine.load_holds (m : Machine) {text : String} {k : Code}
    (h : Instruction.ofText text = k.flatten) :
    (m.load text).2 = none ∧ (m.load text).1.Holds k := by
  obtain ⟨table, hpair, hpaired⟩ := Brackets.pair_flatten k
  simp only [load, h, hpair]
  refine ⟨rfl, rfl, hpaired.placed fun i hi => ?_, rfl⟩
  rw [Nat.zero_add, List.getElem?_toArray]

theorem Machine.load_shows (m : Machine) (text : String) (input : List CodePoint) :
    Shows m.setting (m.load text).1 (World.initial m.setting.bits input) := by
  refine ⟨rfl, by simp [load, blank, Tape.blank], rfl, m.setting.size_pos, fun i hi => ?_, rfl⟩
  simp [load, blank, Tape.blank, World.initial, hi]

theorem Machine.run_eq (m : Machine) {text : String} {k : Code}
    (h : Instruction.ofText text = k.flatten) (rounds : Nat) (input : List CodePoint) :
    m.run rounds text input = resume sliceSteps rounds input (m.load text).1 := by
  have hload := (m.load_holds h).1
  rw [run]
  split <;> rename_i heq <;> rw [heq] at hload ⊢
  cases hload

section

variable {k : Code} {w : World s.bits} {m m' : Machine} {chunk : Nat} {bound q : Int}

theorem Runs.ticks_ended {e : Ending s.bits} (h : Runs s k w e) (hbound : bound ≤ s.size)
    (hshows : Shows s m w) (hleads : k.Leads bound w.pointer q) (hholds : m.Holds k) :
    ∃ n m', Machine.ticks n m w.input = (m', e.progress) ∧ Shows s m' e.world := by
  have hfollows := h.follows hbound hshows hleads hholds.placed
    (by rw [hholds.pc]; exact .start k 0)
  cases e with
  | failed f w' => exact hfollows
  | done w' =>
      obtain ⟨n, m', hticks, hgoes⟩ := hfollows
      refine ⟨n + 1, m', (Machine.ticks_add 1 hticks).trans (Machine.ticks_one ?_), hgoes.shows⟩
      have hend : m'.program[m'.pc]? = none := by
        rw [hgoes.program, hgoes.pc, hholds.program]
        exact Array.getElem?_eq_none (by simp [Code.size])
      rw [Machine.tick, hend]
      rfl

theorem Machine.runs_of_ticks {n : Nat} {p : Progress} (h : Machine.ticks n m w.input = (m', p))
    (hp : p.outcome ≠ .unfinished) (hbound : bound ≤ s.size) (hshows : Shows s m w)
    (hleads : k.Leads bound w.pointer q) (hholds : m.Holds k) :
    ∃ e, Runs s k w e ∧ p = e.progress ∧ Shows s m' e.world := by
  obtain ⟨e, he⟩ := exists_runs h hp hbound hshows hleads hholds.placed
    (by rw [hholds.pc]; exact .start k 0)
  obtain ⟨n', m₁, h', hshows'⟩ := he.ticks_ended hbound hshows hleads hholds
  obtain ⟨rfl, rfl⟩ := Machine.ticks_unique h h' hp (by cases e <;> intro h <;> cases h)
  exact ⟨e, he, rfl, hshows'⟩

theorem Machine.runs_of_finished {rounds : Nat}
    (h : Machine.resume chunk rounds w.input m = (m', .finished)) (hbound : bound ≤ s.size)
    (hshows : Shows s m w) (hleads : k.Leads bound w.pointer q) (hholds : m.Holds k) :
    ∃ w', Runs s k w (.done w') ∧ Shows s m' w' := by
  obtain ⟨n, hticks⟩ := ticks_of_finished h
  obtain ⟨e, he, hp, hshows'⟩ := runs_of_ticks hticks (fun h => by cases h) hbound hshows hleads
    hholds
  cases e with
  | done w' => exact ⟨w', he, hshows'⟩
  | failed f w' => cases hp

theorem resume_ended (hbound : bound ≤ s.size) (hlimit : s.stepLimit = none) (hchunk : 0 < chunk)
    (hshows : Shows s m w) (hleads : k.Leads bound w.pointer q) (hholds : m.Holds k) :
    (∀ {e}, Runs s k w e → ∃ rounds m',
      Machine.resume chunk rounds w.input m = (m', e.progress.outcome) ∧ Shows s m' e.world) ∧
    ∀ {rounds m' outcome}, Machine.resume chunk rounds w.input m = (m', outcome) →
      outcome ≠ .unfinished →
      ∃ e, Runs s k w e ∧ outcome = e.progress.outcome ∧ Shows s m' e.world := by
  have hlimit' : m.setting.stepLimit = none := by rw [hshows.setting, hlimit]
  constructor
  · intro e he
    obtain ⟨n, m', hticks, hshows'⟩ := he.ticks_ended hbound hshows hleads hholds
    obtain ⟨rounds, hresume⟩ := (Machine.resume_ended_iff hlimit' hchunk
      (by cases e <;> intro h <;> cases h)).2 ⟨n, hticks⟩
    exact ⟨rounds, m', hresume, hshows'⟩
  · intro rounds m' outcome hresume houtcome
    obtain ⟨n, p, hticks, hp, -⟩ := Machine.resume_ticks rounds w.input hlimit' hchunk
    rw [hresume] at hticks hp
    obtain rfl : outcome = p.outcome := hp
    obtain ⟨e, he, rfl, hshows'⟩ := Machine.runs_of_ticks hticks houtcome hbound hshows hleads hholds
    exact ⟨e, he, rfl, hshows'⟩

end

def Machine.small (stepLimit : Option Int) : Machine :=
  blank ⟨20, 8, 256, false, stepLimit, by decide, by decide, by decide, by decide⟩

end TapeCompiler
