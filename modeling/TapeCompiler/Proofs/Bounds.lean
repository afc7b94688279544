import TapeCompiler.Proofs.Tracking

namespace TapeCompiler

namespace Brackets

def Within (n : Nat) (table : Array Nat) : Prop := table.size = n ∧ ∀ i ∈ table, i < n

theorem Within.close {n start stop : Nat} {table : Array Nat} (h : Within n table)
    (hstart : start < n) (hstop : stop < n) :
    Within n ((table.setIfInBounds start stop).setIfInBounds stop start) := by
  refine ⟨by simpa using h.1, ?_⟩
  intro i hi
  rcases Array.mem_or_eq_of_mem_setIfInBounds hi with hi | rfl
  · rcases Array.mem_or_eq_of_mem_setIfInBounds hi with hi | rfl
    · exact h.2 i hi
    · exact hstop
  · exact hstart

theorem pairFrom_within {n position : Nat} {opened : List Nat} {table : Array Nat}
    (program : List Instruction) (htable : Within n table) (hopened : ∀ i ∈ opened, i < n)
    (hroom : position + program.length ≤ n) :
    Within n (pairFrom position opened table program).1 := by
  induction program generalizing position opened table with
  | nil => exact htable
  | cons i rest ih =>
      simp only [List.length_cons] at hroom
      have hposition : position < n := by omega
      have hrest : position + 1 + rest.length ≤ n := by omega
      cases i
      case loopStart => exact ih htable (List.forall_mem_cons.2 ⟨hposition, hopened⟩) hrest
      case loopEnd =>
        cases opened with
        | nil => exact htable
        | cons start opened =>
            obtain ⟨hstart, hopened⟩ := List.forall_mem_cons.1 hopened
            exact ih (htable.close hstart hposition) hopened hrest
      all_goals exact ih htable hopened hrest

theorem pair_within (program : List Instruction) : Within program.length (pair program).1 := by
  refine pairFrom_within program ⟨Array.size_range, fun i hi => Array.mem_range.1 hi⟩ ?_ ?_
  · intro i hi
    cases hi
  · omega

end Brackets

theorem Setting.modulus_eq_pow (s : Setting) : (s.modulus : Int) = 2 ^ s.bits := by
  rw [s.modulus_eq]
  exact Int.natCast_pow 2 s.bits

namespace Tape

structure Fits (tape : Tape) (s : Setting) : Prop where
  size : tape.cells.size = s.size
  pointer : tape.pointer < s.size
  cells : ∀ value ∈ tape.cells, 0 ≤ value ∧ value < 2 ^ s.bits

variable {tape : Tape} {s : Setting}

theorem blank_fits (s : Setting) : (blank s.size).Fits s := by
  refine ⟨Array.size_replicate, s.size_pos, ?_⟩
  intro value hvalue
  rw [(Array.mem_replicate.1 hvalue).2]
  exact ⟨Int.le_refl 0, Int.pow_pos (by decide)⟩

theorem emod_bounds (s : Setting) (value : Int) :
    0 ≤ value % s.modulus ∧ value % s.modulus < 2 ^ s.bits := by
  have hpos : (0 : Int) < 2 ^ s.bits := Int.pow_pos (by decide)
  rw [s.modulus_eq_pow]
  exact ⟨Int.emod_nonneg _ (Int.ne_of_gt hpos), Int.emod_lt_of_pos _ hpos⟩

theorem Fits.right (h : tape.Fits s) : tape.right.Fits s := by
  refine ⟨h.size, ?_, h.cells⟩
  have := s.size_pos
  simp only [Tape.right, h.size]
  exact Nat.mod_lt _ this

theorem Fits.left (h : tape.Fits s) : tape.left.Fits s := by
  refine ⟨h.size, ?_, h.cells⟩
  have := s.size_pos
  simp only [Tape.left, h.size]
  exact Nat.mod_lt _ this

theorem Fits.write (h : tape.Fits s) (value : Int) :
    (tape.write (value % s.modulus)).Fits s := by
  refine ⟨by simpa [Tape.write] using h.size, h.pointer, ?_⟩
  intro v hv
  rcases Array.mem_or_eq_of_mem_setIfInBounds hv with hv | rfl
  · exact h.cells v hv
  · exact emod_bounds s value

theorem Fits.add (h : tape.Fits s) (amount : Int) : (tape.add s.modulus amount).Fits s := by
  refine ⟨by simpa [Tape.add] using h.size, h.pointer, ?_⟩
  intro v hv
  obtain ⟨i, hi⟩ := Array.mem_iff_getElem?.1 hv
  simp only [Tape.add, Array.getElem?_modify] at hi
  split at hi
  · obtain ⟨old, -, rfl⟩ := Option.map_eq_some_iff.1 hi
    exact emod_bounds s _
  · exact h.cells v (Array.mem_iff_getElem?.2 ⟨i, hi⟩)

def read? (tape : Tape) : Option Int := tape.cells[tape.pointer]?

def write? (tape : Tape) (value : Int) : Option Tape :=
  if tape.pointer < tape.cells.size then some (tape.write value) else none

theorem Fits.read?_eq (h : tape.Fits s) : tape.read? = some tape.read := by
  have hp : tape.pointer < tape.cells.size := h.size ▸ h.pointer
  rw [read?, read, Array.getD_eq_getD_getElem?, Array.getElem?_eq_getElem hp]
  rfl

theorem Fits.write?_eq (h : tape.Fits s) (value : Int) : tape.write? value = some (tape.write value) :=
  if_pos (h.size ▸ h.pointer)

theorem Fits.write_read (h : tape.Fits s) (modulus : Nat) (amount : Int) :
    tape.write ((tape.read + amount) % modulus) = tape.add modulus amount := by
  have hp : tape.pointer < tape.cells.size := h.size ▸ h.pointer
  have hread : tape.read = tape.cells[tape.pointer] := by
    rw [read, Array.getD_eq_getD_getElem?, Array.getElem?_eq_getElem hp]
    rfl
  simp only [Tape.write, Tape.add, hread, mk.injEq, and_true]
  refine Array.ext_getElem? fun i => ?_
  rw [Array.getElem?_setIfInBounds, Array.getElem?_modify]
  by_cases hi : tape.pointer = i
  · subst hi
    simp [hp]
  · simp [hi]

end Tape

namespace Machine

structure InBounds (s : Setting) (code : Array Instruction) (m : Machine) : Prop where
  setting : m.setting = s
  program : m.program = code
  tape : m.tape.Fits s
  pc : m.pc ≤ code.size
  jumps : Brackets.Within code.size m.jumps

variable {s : Setting} {code : Array Instruction} {m : Machine}

theorem InBounds.entry (h : m.InBounds s code) (hpc : m.pc < code.size) :
    m.jumps[m.pc]? = some m.partner ∧ m.partner < code.size := by
  have hsize : m.pc < m.jumps.size := h.jumps.1 ▸ hpc
  rw [partner, Array.getD_eq_getD_getElem?, Array.getElem?_eq_getElem hsize]
  exact ⟨rfl, h.jumps.2 _ (Array.getElem_mem hsize)⟩

theorem InBounds.perform (h : m.InBounds s code) (hpc : m.pc < code.size)
    (i : Instruction) : (m.perform i).InBounds s code := by
  obtain ⟨-, hpartner⟩ := h.entry hpc
  obtain ⟨rfl, rfl, htape, -, hjumps⟩ := h
  cases i
  case right => exact ⟨rfl, rfl, htape.right, hpc, hjumps⟩
  case left => exact ⟨rfl, rfl, htape.left, hpc, hjumps⟩
  case increment => exact ⟨rfl, rfl, htape.add 1, hpc, hjumps⟩
  case decrement => exact ⟨rfl, rfl, htape.add (-1), hpc, hjumps⟩
  case loopStart =>
    refine ⟨rfl, rfl, htape, ?_, hjumps⟩
    simp only [Machine.perform]
    split <;> omega
  case loopEnd =>
    refine ⟨rfl, rfl, htape, ?_, hjumps⟩
    simp only [Machine.perform]
    split <;> omega
  all_goals exact ⟨rfl, rfl, htape, hpc, hjumps⟩

theorem InBounds.slice (h : m.InBounds s code) (budget : Nat) :
    (m.slice budget).machine.InBounds s code := by
  fun_induction Machine.slice budget m with
  | case1 m => exact h
  | case2 m budget hi => exact h
  | case3 m budget i hi stop hstop => exact h
  | case4 m budget i hi hstop ih =>
      have hpc := (Array.getElem?_eq_some_iff.1 hi).1
      exact ih (h.perform (h.program ▸ hpc) i)

theorem InBounds.answer (h : m.InBounds s code) (input : List CodePoint) {stop : Stop}
    (hstop : stop = .finished ∨ stop = .budget ∨ m.pc < m.program.size) :
    (m.answer input stop).1.InBounds s code := by
  obtain ⟨rfl, rfl, htape, hpc, hjumps⟩ := h
  cases stop <;> simp only [reduceCtorEq, false_or] at hstop <;> simp only [Machine.answer]
  case finished => exact ⟨rfl, rfl, htape, hpc, hjumps⟩
  case budget => exact ⟨rfl, rfl, htape, hpc, hjumps⟩
  case put => exact ⟨rfl, rfl, htape, hstop, hjumps⟩
  case dump => exact ⟨rfl, rfl, htape, hstop, hjumps⟩
  case putChar =>
    split
    · exact ⟨rfl, rfl, htape, hpc, hjumps⟩
    · exact ⟨rfl, rfl, htape, hstop, hjumps⟩
  case get =>
    split
    · exact ⟨rfl, rfl, htape, hpc, hjumps⟩
    · exact ⟨rfl, rfl, htape.write _, hstop, hjumps⟩

theorem stop_slice (budget : Nat) (m : Machine) :
    (m.slice budget).stop = .finished ∨ (m.slice budget).stop = .budget ∨
      (m.slice budget).machine.pc < (m.slice budget).machine.program.size := by
  fun_induction Machine.slice budget m with
  | case1 m =>
      by_cases hpc : m.pc < m.program.size
      · simp [hpc]
      · simp [hpc]
  | case2 m budget hi => exact .inl rfl
  | case3 m budget i hi stop hstop => exact .inr (.inr (Array.getElem?_eq_some_iff.1 hi).1)
  | case4 m budget i hi hstop ih => exact ih

theorem InBounds.round (h : m.InBounds s code) (chunk : Nat) (input : List CodePoint) :
    (m.round chunk input).1.InBounds s code := by
  rw [Machine.round]
  split
  · exact h
  · rename_i budget _
    have hslice := h.slice budget
    refine InBounds.answer ?_ input (stop_slice budget m)
    exact ⟨hslice.setting, hslice.program, hslice.tape, hslice.pc, hslice.jumps⟩

theorem InBounds.resume (h : m.InBounds s code) (chunk rounds : Nat) (input : List CodePoint) :
    (resume chunk rounds input m).1.InBounds s code := by
  induction rounds generalizing m input with
  | zero => exact h
  | succ rounds ih =>
      have hround := h.round chunk input
      rw [Machine.resume]
      split <;> rename_i heq <;> rw [heq] at hround
      · exact ih hround _
      · exact hround
      · exact hround

theorem load_inBounds (m : Machine) (text : String) :
    (m.load text).1.InBounds m.setting (Instruction.ofText text).toArray := by
  refine ⟨rfl, rfl, Tape.blank_fits m.setting, Nat.zero_le _, ?_⟩
  simpa [load] using Brackets.pair_within (Instruction.ofText text)

theorem run_inBounds (m : Machine) (rounds : Nat) (text : String) (input : List CodePoint) :
    (m.run rounds text input).1.InBounds m.setting (Instruction.ofText text).toArray := by
  have hload := m.load_inBounds text
  rw [run]
  split <;> rename_i heq <;> rw [heq] at hload
  · exact hload
  · exact hload.resume _ _ _

def perform? (m : Machine) : Instruction → Option Machine
  | .right =>
      if m.tape.cells.size = 0 then none
      else some { m with tape := m.tape.right, pc := m.pc + 1 }
  | .left =>
      if m.tape.cells.size = 0 then none
      else some { m with tape := m.tape.left, pc := m.pc + 1 }
  | .increment => do
      let value ← m.tape.read?
      let tape ← m.tape.write? ((value + 1) % m.setting.modulus)
      return { m with tape, pc := m.pc + 1 }
  | .decrement => do
      let value ← m.tape.read?
      let tape ← m.tape.write? ((value - 1) % m.setting.modulus)
      return { m with tape, pc := m.pc + 1 }
  | .loopStart => do
      let value ← m.tape.read?
      let target ← if value = 0 then m.jumps[m.pc]? else some m.pc
      return { m with pc := target + 1 }
  | .loopEnd => do
      let value ← m.tape.read?
      let target ← if value = 0 then some m.pc else m.jumps[m.pc]?
      return { m with pc := target + 1 }
  | _ => some { m with pc := m.pc + 1 }

def slice? : Nat → Machine → Option Slice
  | 0, m => some ⟨if m.pc < m.program.size then .budget else .finished, 0, m⟩
  | budget + 1, m =>
      if m.pc < m.program.size then do
        let instruction ← m.program[m.pc]?
        match instruction.stop? with
        | some stop => return ⟨stop, budget + 1, m⟩
        | none => slice? budget (← m.perform? instruction)
      else some ⟨.finished, budget + 1, m⟩

theorem InBounds.perform?_eq (h : m.InBounds s code) (hpc : m.pc < code.size)
    (i : Instruction) : m.perform? i = some (m.perform i) := by
  have hsize : m.tape.cells.size ≠ 0 := by
    have := s.size_pos
    rw [h.tape.size]
    omega
  obtain ⟨hentry, -⟩ := h.entry hpc
  have hread := h.tape.read?_eq
  cases i
  case right => exact if_neg hsize
  case left => exact if_neg hsize
  case increment =>
    simp only [perform?, hread, h.tape.write?_eq, Option.bind_eq_bind, Option.bind_some,
      h.tape.write_read]
    rfl
  case decrement =>
    simp only [perform?, hread, h.tape.write?_eq, Option.bind_eq_bind, Option.bind_some,
      Int.sub_eq_add_neg, h.tape.write_read]
    rfl
  case loopStart =>
    simp only [perform?, hread, hentry, Option.bind_eq_bind, Option.bind_some, Machine.perform]
    split <;> rfl
  case loopEnd =>
    simp only [perform?, hread, hentry, Option.bind_eq_bind, Option.bind_some, Machine.perform]
    split <;> rfl
  all_goals rfl

theorem InBounds.slice?_eq (h : m.InBounds s code) (budget : Nat) :
    m.slice? budget = some (m.slice budget) := by
  induction budget generalizing m with
  | zero => rfl
  | succ budget ih =>
      have hprogram := h.program
      rw [slice?, Machine.slice]
      split
      · rename_i hpc
        rw [Array.getElem?_eq_getElem hpc]
        simp only [Option.bind_eq_bind, Option.bind_some]
        cases hstop : m.program[m.pc].stop? with
        | some stop => rfl
        | none =>
            rw [h.perform?_eq (hprogram ▸ hpc)]
            exact ih (h.perform (hprogram ▸ hpc) _)
      · rename_i hpc
        rw [Array.getElem?_eq_none (by omega)]

theorem slice_add (m : Machine) {n : Nat} (k : Nat) (h : (m.slice n).stop = .budget) :
    m.slice (n + k) = (m.slice n).machine.slice k := by
  induction n generalizing m with
  | zero => rw [Nat.zero_add]; rfl
  | succ n ih =>
      rw [Nat.add_right_comm]
      simp only [Machine.slice] at h ⊢
      split <;> rename_i hi <;> simp only [hi] at h
      · cases h
      · rename_i i
        split <;> rename_i hstop <;> simp only [hstop] at h
        · cases i <;> cases hstop <;> cases h
        · exact ih _ h

end Machine

theorem run_stays_in_bounds (m : Machine) (text : String) (input : List CodePoint)
    (rounds n : Nat) :
    (m.moment rounds n text input).InBounds m.setting (Instruction.ofText text).toArray ∧
    (∀ budget, (m.moment rounds n text input).slice? budget =
      some ((m.moment rounds n text input).slice budget)) ∧
    m.moment rounds 0 text input = (m.run rounds text input).1 ∧
    (((m.run rounds text input).1.slice n).stop = .budget → ∀ k,
      (m.run rounds text input).1.slice (n + k) = (m.moment rounds n text input).slice k) := by
  have h : (m.moment rounds n text input).InBounds m.setting (Instruction.ofText text).toArray :=
    (m.run_inBounds rounds text input).slice n
  refine ⟨h, h.slice?_eq, rfl, ?_⟩
  intro hstop k
  exact Machine.slice_add _ k hstop

end TapeCompiler
