import TapeCompiler.Machine.Basic

namespace TapeCompiler.Machine

def tick (m : Machine) (input : List CodePoint) : Machine × Progress :=
  match m.program[m.pc]? with
  | none => (m, .finished)
  | some instruction =>
      match instruction.stop? with
      | some stop => m.answer input stop
      | none => ({ m.perform instruction with steps := m.steps + 1 }, .running input)

def ticks : Nat → Machine → List CodePoint → Machine × Progress
  | 0, m, input => (m, .running input)
  | n + 1, m, input =>
      match m.tick input with
      | (m, .running input) => ticks n m input
      | (m, .finished) => (m, .finished)
      | (m, .failed fault) => (m, .failed fault)

def Progress.outcome : Progress → Outcome
  | running _ => .unfinished
  | finished => .finished
  | failed fault => .failed fault

theorem ticks_add {n : Nat} (k : Nat) {m m' : Machine} {input input' : List CodePoint}
    (h : ticks n m input = (m', .running input')) :
    ticks (n + k) m input = ticks k m' input' := by
  induction n generalizing m input with
  | zero =>
      cases h
      rw [Nat.zero_add]
  | succ n ih =>
      rw [Nat.add_right_comm, ticks]
      rw [ticks] at h
      split at h
      · exact ih h
      · cases h
      · cases h

theorem ticks_ended {n : Nat} (k : Nat) {m m' : Machine} {input : List CodePoint} {p : Progress}
    (h : ticks n m input = (m', p)) (hp : p.outcome ≠ .unfinished) :
    ticks (n + k) m input = (m', p) := by
  induction n generalizing m input with
  | zero =>
      cases h
      exact absurd rfl hp
  | succ n ih =>
      rw [Nat.add_right_comm, ticks]
      rw [ticks] at h
      split at h
      · exact ih h
      · exact h
      · exact h

theorem ticks_unique {n n' : Nat} {m m₁ m₂ : Machine} {input : List CodePoint} {p p' : Progress}
    (h : ticks n m input = (m₁, p)) (h' : ticks n' m input = (m₂, p'))
    (hp : p.outcome ≠ .unfinished) (hp' : p'.outcome ≠ .unfinished) : m₁ = m₂ ∧ p = p' := by
  have h₁ := ticks_ended n' h hp
  have h₂ := ticks_ended n h' hp'
  rw [Nat.add_comm, h₂] at h₁
  simpa using h₁.symm

theorem setting_perform (m : Machine) (i : Instruction) :
    (m.perform i).setting = m.setting := by
  cases i <;> rfl

theorem setting_answer (m : Machine) (input : List CodePoint) (stop : Stop) :
    (m.answer input stop).1.setting = m.setting := by
  cases stop <;> simp only [answer]
  case putChar => split <;> rfl
  case get => split <;> rfl
  all_goals rfl

theorem setting_slice (budget : Nat) (m : Machine) :
    (m.slice budget).machine.setting = m.setting := by
  fun_induction slice budget m with
  | case1 => rfl
  | case2 => rfl
  | case3 => rfl
  | case4 m budget i hi hstop ih => rw [ih, setting_perform]

theorem setting_round (m : Machine) (chunk : Nat) (input : List CodePoint) :
    (m.round chunk input).1.setting = m.setting := by
  rw [round]
  split
  · rfl
  · rw [setting_answer]
    exact setting_slice _ m

theorem setting_resume (chunk rounds : Nat) (input : List CodePoint) (m : Machine) :
    (resume chunk rounds input m).1.setting = m.setting := by
  induction rounds generalizing m input with
  | zero => rfl
  | succ rounds ih =>
      have hround := setting_round m chunk input
      rw [resume]
      split <;> rename_i h <;> rw [h] at hround
      · rw [ih, hround]
      · exact hround
      · exact hround

theorem perform_steps (m : Machine) (i : Instruction) (n : Nat) :
    { m with steps := n }.perform i = { m.perform i with steps := n } := by
  cases i <;> rfl

theorem left_slice_le (budget : Nat) (m : Machine) : (m.slice budget).left ≤ budget := by
  induction budget generalizing m with
  | zero => exact Nat.le_refl 0
  | succ budget ih =>
      rw [slice]
      split
      · exact Nat.le_refl _
      · split
        · exact Nat.le_refl _
        · exact Nat.le_succ_of_le (ih _)

theorem ticks_slice (budget n : Nat) (m : Machine) (input : List CodePoint) :
    ticks (budget - (m.slice budget).left) { m with steps := n } input =
      ({ (m.slice budget).machine with steps := n + (budget - (m.slice budget).left) },
        .running input) := by
  induction budget generalizing m n with
  | zero => rfl
  | succ budget ih =>
      rw [slice]
      split
      · simp [ticks]
      · rename_i i hi
        split
        · simp [ticks]
        · rename_i hstop
          have htick : { m with steps := n }.tick input =
              ({ m.perform i with steps := n + 1 }, .running input) := by
            simp only [tick, hi, hstop, perform_steps]
          have hle := left_slice_le budget (m.perform i)
          rw [Nat.succ_sub hle, ticks, htick]
          dsimp only
          rw [ih (n + 1), Nat.succ_add, Nat.add_succ]

theorem slice_stop (budget : Nat) (m : Machine) :
    ((m.slice budget).stop = .budget ∧ (m.slice budget).left = 0) ∨
      ∀ n input, { (m.slice budget).machine with steps := n }.tick input =
        { (m.slice budget).machine with steps := n }.answer input (m.slice budget).stop := by
  fun_induction slice budget m with
  | case1 m =>
      by_cases hpc : m.pc < m.program.size
      · simp [hpc]
      · right
        intro n input
        simp only [tick, hpc, if_false]
        rw [Array.getElem?_eq_none (by omega)]
        rfl
  | case2 m budget hi =>
      right
      intro n input
      simp only [tick, hi]
      rfl
  | case3 m budget i hi stop hstop =>
      right
      intro n input
      simp only [tick, hi, hstop]
  | case4 m budget i hi hstop ih => exact ih

theorem steps_slice (budget : Nat) (m : Machine) : (m.slice budget).machine.steps = m.steps := by
  fun_induction slice budget m with
  | case1 => rfl
  | case2 => rfl
  | case3 => rfl
  | case4 m budget i hi hstop ih =>
      rw [ih]
      cases i <;> rfl

theorem tick_finished {m m' : Machine} {input : List CodePoint}
    (h : m.tick input = (m', .finished)) : m'.program[m'.pc]? = none := by
  rw [tick] at h
  split at h
  · cases h
    assumption
  · rename_i i _
    split at h
    · rename_i stop hstop
      cases stop <;> simp only [answer] at h
      case finished => cases i <;> cases hstop
      case putChar => split at h <;> cases h
      case get => split at h <;> cases h
      all_goals cases h
    · cases h

theorem round_finished {m m' : Machine} {chunk : Nat} {input : List CodePoint}
    (h : m.round chunk input = (m', .finished)) : m'.program[m'.pc]? = none := by
  rw [round] at h
  split at h
  · cases h
  · rename_i budget _
    dsimp only at h
    rcases slice_stop budget m with ⟨hstop, -⟩ | htick
    · rw [hstop] at h
      cases h
    · rw [← htick] at h
      exact tick_finished h

theorem resume_finished {m m' : Machine} {chunk rounds : Nat} {input : List CodePoint}
    (h : resume chunk rounds input m = (m', .finished)) : m'.program[m'.pc]? = none := by
  induction rounds generalizing m input with
  | zero => cases h
  | succ rounds ih =>
      rw [resume] at h
      split at h
      · exact ih h
      · rename_i hround
        cases h
        exact round_finished hround
      · cases h

variable {m m' : Machine} {chunk : Nat}

theorem round_ticks {budget : Nat} (input : List CodePoint)
    (hbudget : m.budget chunk = .ok budget) :
    ∃ n, (0 < budget → 0 < n) ∧ ticks n m input = m.round chunk input := by
  have hslice := ticks_slice budget m.steps m input
  simp only [round, hbudget, steps_slice]
  rcases slice_stop budget m with ⟨hstop, hleft⟩ | htick
  · refine ⟨budget, id, ?_⟩
    rw [hleft, Nat.sub_zero] at hslice
    rw [hstop, hleft, Nat.sub_zero]
    exact hslice
  · refine ⟨budget - (m.slice budget).left + 1, fun _ => Nat.succ_pos _, ?_⟩
    rw [← htick]
    refine (ticks_add 1 hslice).trans ?_
    simp only [ticks]
    split <;> (rename_i h; exact h.symm)

theorem ticks_of_finished {rounds : Nat} {input : List CodePoint}
    (h : resume chunk rounds input m = (m', .finished)) :
    ∃ n, ticks n m input = (m', .finished) := by
  induction rounds generalizing m input with
  | zero => cases h
  | succ rounds ih =>
      cases hbudget : m.budget chunk with
      | error fault =>
          simp only [resume, round, hbudget] at h
          cases h
      | ok budget =>
          obtain ⟨n, -, hn⟩ := round_ticks input hbudget
          rw [resume] at h
          split at h
          · rename_i hround
            obtain ⟨n', hn'⟩ := ih h
            exact ⟨n + n', (ticks_add n' (hn.trans hround)).trans hn'⟩
          · rename_i hround
            cases h
            exact ⟨n, hn.trans hround⟩
          · cases h

theorem resume_ticks (rounds : Nat) (input : List CodePoint) (hlimit : m.setting.stepLimit = none)
    (hchunk : 0 < chunk) :
    ∃ n p, ticks n m input = ((resume chunk rounds input m).1, p) ∧
      (resume chunk rounds input m).2 = p.outcome ∧ (p.outcome = .unfinished → rounds ≤ n) := by
  induction rounds generalizing m input with
  | zero => exact ⟨0, .running input, rfl, rfl, fun _ => Nat.le_refl 0⟩
  | succ rounds ih =>
      have hbudget : m.budget chunk = .ok chunk := by rw [budget, hlimit]
      obtain ⟨n, hpos, hn⟩ := round_ticks input hbudget
      have hsetting := setting_round m chunk input
      obtain ⟨⟨m₁, p⟩, hround⟩ : ∃ r, m.round chunk input = r := ⟨_, rfl⟩
      rw [hround] at hn hsetting
      simp only [resume, hround]
      cases p with
      | running input₁ =>
          obtain ⟨n', p, hticks, hp, hle⟩ := ih input₁ (m := m₁) (by rw [hsetting, hlimit])
          refine ⟨n + n', p, (ticks_add n' hn).trans hticks, hp, fun h => ?_⟩
          have := hle h
          have := hpos hchunk
          omega
      | finished => exact ⟨n, .finished, hn, rfl, fun h => nomatch h⟩
      | failed fault => exact ⟨n, .failed fault, hn, rfl, fun h => nomatch h⟩

theorem outcome_injective {p p' : Progress} (h : p.outcome = p'.outcome)
    (hp : p.outcome ≠ .unfinished) : p = p' := by
  cases p with
  | running input => exact absurd rfl hp
  | finished => cases p' <;> first | rfl | cases h
  | failed fault => cases p' <;> cases h; rfl

theorem resume_ended_iff {p : Progress} {input : List CodePoint}
    (hlimit : m.setting.stepLimit = none) (hchunk : 0 < chunk) (hp : p.outcome ≠ .unfinished) :
    (∃ rounds, resume chunk rounds input m = (m', p.outcome)) ↔
      ∃ n, ticks n m input = (m', p) := by
  constructor
  · rintro ⟨rounds, hresume⟩
    obtain ⟨n, p', hn, hp', -⟩ := resume_ticks rounds input hlimit hchunk
    rw [hresume] at hn hp'
    exact ⟨n, by rw [hn, outcome_injective hp' hp]⟩
  · rintro ⟨n, hn⟩
    obtain ⟨n', p', hn', hp', hle⟩ := resume_ticks (n + 1) input hlimit hchunk
    refine ⟨n + 1, ?_⟩
    have hended : p'.outcome ≠ .unfinished := by
      intro h
      have := ticks_ended (n' - n) hn hp
      rw [Nat.add_sub_cancel' (by have := hle h; omega), hn'] at this
      cases this
      exact hp h
    obtain ⟨rfl, rfl⟩ := ticks_unique hn hn' hp hended
    exact Prod.ext rfl hp'

end TapeCompiler.Machine
