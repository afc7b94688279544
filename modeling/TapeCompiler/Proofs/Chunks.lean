import TapeCompiler.Proofs.Ticks

namespace TapeCompiler

structure Stepper where
  tape : Tape
  pc : Nat
  input : List CodePoint
  printed : Array Printed
  dumps : Array Dump
  deriving DecidableEq, Repr

namespace Stepper

def start (setting : Setting) (input : List CodePoint) : Stepper :=
  ⟨Tape.blank setting.size, 0, input, #[], #[]⟩

inductive Next where
  | moved (w : Stepper)
  | finished
  | failed (fault : MachineFault)
  deriving DecidableEq, Repr

section

variable (setting : Setting) (program : Array Instruction) (jumps : Array Nat)

def step (w : Stepper) : Next :=
  match program[w.pc]? with
  | none => .finished
  | some .right => .moved { w with tape := w.tape.right, pc := w.pc + 1 }
  | some .left => .moved { w with tape := w.tape.left, pc := w.pc + 1 }
  | some .increment => .moved { w with tape := w.tape.add setting.modulus 1, pc := w.pc + 1 }
  | some .decrement => .moved { w with tape := w.tape.add setting.modulus (-1), pc := w.pc + 1 }
  | some .loopStart =>
      if w.tape.read = 0 then .moved { w with pc := jumps.getD w.pc w.pc + 1 }
      else .moved { w with pc := w.pc + 1 }
  | some .loopEnd =>
      if w.tape.read = 0 then .moved { w with pc := w.pc + 1 }
      else .moved { w with pc := jumps.getD w.pc w.pc + 1 }
  | some .put =>
      .moved { w with printed := w.printed.push (.number w.tape.read), pc := w.pc + 1 }
  | some .putChar =>
      if w.tape.read ≤ 0x10ffff then
        .moved { w with printed := w.printed.push (.character w.tape.read.toNat), pc := w.pc + 1 }
      else .failed (.notCodePoint w.tape.read)
  | some .get =>
      match (Machine.blank setting).readInput w.input with
      | .ok value =>
          .moved
            { w with
              tape := w.tape.write (value % setting.modulus)
              input := w.input.tail
              pc := w.pc + 1 }
      | .error fault => .failed fault
  | some .dump =>
      .moved { w with dumps := w.dumps.push ⟨w.tape.pointer, w.tape.front 32⟩, pc := w.pc + 1 }

def after : Nat → Stepper → Option Stepper
  | 0, w => some w
  | n + 1, w =>
      match w.step setting program jumps with
      | .moved w => after n w
      | .finished => none
      | .failed _ => none

end

def Next.progress : Next → Machine.Progress
  | moved w => .running w.input
  | finished => .finished
  | failed fault => .failed fault

end Stepper

namespace Machine

open Stepper (Next)

def onto (m : Machine) (w : Stepper) (n : Nat) : Machine :=
  { m with tape := w.tape, pc := w.pc, steps := n, printed := w.printed, dumps := w.dumps }

def runIn (chunk : Nat) (m : Machine) (rounds : Nat) (program : String)
    (input : List CodePoint) : Machine × Outcome :=
  match m.load program with
  | (m, some fault) => (m, .failed fault)
  | (m, none) => resume chunk rounds input m

variable {m m' : Machine} {w w' : Stepper}

theorem tick_onto (m : Machine) (w : Stepper) (n : Nat) : (m.onto w n).tick w.input =
    (match w.step m.setting m.program m.jumps with
    | .moved w => m.onto w (n + 1)
    | .finished => m.onto w n
    | .failed _ => m.onto w n, (w.step m.setting m.program m.jumps).progress) := by
  have hprogram : (m.onto w n).program[(m.onto w n).pc]? = m.program[w.pc]? := rfl
  rw [tick, Stepper.step, hprogram]
  cases m.program[w.pc]? with
  | none => rfl
  | some i =>
      cases i
      case loopStart =>
        by_cases h : w.tape.read = 0
        · simp [Instruction.stop?, perform, onto, partner, Next.progress, h]
        · simp [Instruction.stop?, perform, onto, Next.progress, h]
      case loopEnd =>
        by_cases h : w.tape.read = 0
        · simp [Instruction.stop?, perform, onto, Next.progress, h]
        · simp [Instruction.stop?, perform, onto, partner, Next.progress, h]
      case putChar =>
        by_cases h : w.tape.read ≤ 0x10ffff
        · simp [Instruction.stop?, answer, onto, print, pass, lastCodePoint, Next.progress, h,
            Int.not_lt.2 h]
        · simp [Instruction.stop?, answer, onto, lastCodePoint, Next.progress, h, Int.not_le.1 h]
      case get =>
        have hread : (m.onto w n).readInput w.input = (blank m.setting).readInput w.input := rfl
        simp only [Instruction.stop?, answer, hread]
        cases (blank m.setting).readInput w.input <;> rfl
      all_goals rfl

theorem ticks_after {n k : Nat} (h : w.after m.setting m.program m.jumps n = some w') :
    ticks n (m.onto w k) w.input = (m.onto w' (k + n), .running w'.input) := by
  induction n generalizing w k with
  | zero =>
      cases h
      rfl
  | succ n ih =>
      rw [ticks, tick_onto]
      rw [Stepper.after] at h
      split at h <;> rename_i hstep
      · rw [hstep]
        simp only [Next.progress]
        rw [ih h, Nat.add_right_comm, Nat.add_assoc]
      · cases h
      · cases h

theorem after_of_ticks {n k : Nat} {p : Progress}
    (h : ticks n (m.onto w k) w.input = (m', p)) (hp : p.outcome ≠ .unfinished) :
    ∃ j w', w.after m.setting m.program m.jumps j = some w' ∧
      (w'.step m.setting m.program m.jumps).progress = p ∧ m' = m.onto w' (k + j) := by
  induction n generalizing w k with
  | zero =>
      cases h
      exact absurd rfl hp
  | succ n ih =>
      rw [ticks, tick_onto] at h
      cases hstep : w.step m.setting m.program m.jumps with
      | moved w₁ =>
          rw [hstep] at h
          obtain ⟨j, w', hafter, hend, hm⟩ := ih h
          refine ⟨j + 1, w', ?_, hend, by rw [hm, Nat.add_right_comm, Nat.add_assoc]⟩
          rw [Stepper.after, hstep]
          exact hafter
      | finished =>
          rw [hstep] at h
          cases h
          exact ⟨0, w, rfl, by rw [hstep]; rfl, rfl⟩
      | failed fault =>
          rw [hstep] at h
          cases h
          exact ⟨0, w, rfl, by rw [hstep]; rfl, rfl⟩

theorem ticks_ended_iff {p : Progress} (hp : p.outcome ≠ .unfinished) :
    (∃ n, ticks n (m.onto w 0) w.input = (m', p)) ↔
      ∃ n w', w.after m.setting m.program m.jumps n = some w' ∧
        (w'.step m.setting m.program m.jumps).progress = p ∧ m' = m.onto w' n := by
  constructor
  · rintro ⟨n, h⟩
    simpa using after_of_ticks h hp
  · rintro ⟨n, w', hafter, rfl, rfl⟩
    have hticks := ticks_after (k := 0) hafter
    refine ⟨n + 1, ?_⟩
    rw [ticks_add 1 hticks, ticks, tick_onto, Nat.zero_add]
    cases hstep : w'.step m.setting m.program m.jumps with
    | moved => rw [hstep] at hp; exact absurd rfl hp
    | finished => rfl
    | failed => rfl

theorem runIn_of_loads {chunk rounds : Nat} {text : String} {input : List CodePoint}
    (h : (m.load text).2 = none) :
    m.runIn chunk rounds text input = resume chunk rounds input (m.load text).1 := by
  rw [runIn]
  split <;> rename_i heq <;> rw [heq] at h ⊢
  cases h

theorem progress_eq_finished {next : Next} : next.progress = .finished ↔ next = .finished := by
  cases next <;> simp [Next.progress]

theorem progress_eq_failed {next : Next} {fault : MachineFault} :
    next.progress = .failed fault ↔ next = .failed fault := by
  cases next <;> simp [Next.progress]

theorem runIn_ended_iff {chunk : Nat} {text : String} {input : List CodePoint} {p : Progress}
    (hlimit : m.setting.stepLimit = none) (hloads : (m.load text).2 = none) (hchunk : 0 < chunk)
    (hp : p.outcome ≠ .unfinished) :
    (∃ rounds, m.runIn chunk rounds text input = (m', p.outcome)) ↔
      ∃ n w, (Stepper.start m.setting input).after m.setting (m.load text).1.program
          (m.load text).1.jumps n = some w ∧
        (w.step m.setting (m.load text).1.program (m.load text).1.jumps).progress = p ∧
        m' = (m.load text).1.onto w n := by
  simp only [runIn_of_loads hloads]
  exact (resume_ended_iff (m := (m.load text).1) hlimit hchunk hp).trans
    (ticks_ended_iff (m := (m.load text).1) (w := Stepper.start m.setting input) hp)

end Machine

open Machine in
theorem slices_unobservable {m : Machine} (hlimit : m.setting.stepLimit = none)
    (text : String) (input : List CodePoint) (hloads : (m.load text).2 = none) {chunk : Nat}
    (hchunk : 1 ≤ chunk) (m' : Machine) :
    ((∃ rounds, m.runIn chunk rounds text input = (m', .finished)) ↔
      ∃ n w, (Stepper.start m.setting input).after m.setting (m.load text).1.program
          (m.load text).1.jumps n = some w ∧
        w.step m.setting (m.load text).1.program (m.load text).1.jumps = .finished ∧
        m' = (m.load text).1.onto w n) ∧
    (∀ fault, (∃ rounds, m.runIn chunk rounds text input = (m', .failed fault)) ↔
      ∃ n w, (Stepper.start m.setting input).after m.setting (m.load text).1.program
          (m.load text).1.jumps n = some w ∧
        w.step m.setting (m.load text).1.program (m.load text).1.jumps = .failed fault ∧
        m' = (m.load text).1.onto w n) ∧
    ∀ rounds, m.run rounds text input = m.runIn sliceSteps rounds text input := by
  refine ⟨?_, fun fault => ?_, fun rounds => rfl⟩
  · simpa only [progress_eq_finished, Progress.outcome] using
      runIn_ended_iff (p := .finished) hlimit hloads hchunk (by simp [Progress.outcome])
  · simpa only [progress_eq_failed, Progress.outcome] using
      runIn_ended_iff (p := .failed fault) hlimit hloads hchunk (by simp [Progress.outcome])

theorem slices_unobservable_echo : ∃ m : Machine,
    m.setting.stepLimit = none ∧ (m.load "+[>,.<]").2 = none ∧ 1 ≤ 3 ∧
    ∃ rounds m', m.runIn 3 rounds "+[>,.<]" "7x" = (m', .failed (.notDigit 'x')) ∧
      m'.steps = 8 ∧ m'.pc = 3 ∧ m'.tape = ⟨#[1, 7], 1⟩ ∧ m'.output = [55] := by
  let m := Machine.blank ⟨2, 8, 256, true, none, by decide, by decide, by decide, by decide⟩
  let w : Stepper := ⟨⟨#[1, 7], 1⟩, 3, ['x'], #[.number 7], #[]⟩
  obtain ⟨rounds, h⟩ := ((slices_unobservable (m := m) rfl "+[>,.<]" "7x" rfl (by decide : 1 ≤ 3)
    _).2.1 (.notDigit 'x')).2 ⟨8, w, by decide +kernel, by decide +kernel, rfl⟩
  exact ⟨m, rfl, rfl, by decide, rounds, _, h, rfl, rfl, rfl, by decide⟩

end TapeCompiler
