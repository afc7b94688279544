import TapeCompiler.Proofs.Chunks
import TapeCompiler.Proofs.Running

namespace TapeCompiler

namespace Machine

def withLimit (m : Machine) (limit : Option Int) : Machine :=
  { m with setting := { m.setting with stepLimit := limit } }

def lastInSlice (m : Machine) (input : List CodePoint) : Nat → Bool
  | 0 => false
  | n + 1 => ((ticks n m input).1.program[(ticks n m input).1.pc]?.bind Instruction.stop?).isNone

inductive EndsUnder (limit : Nat) (m : Machine)
    (input : List CodePoint) : Machine → Outcome → Prop where
  | finished {n m' rest} : ticks n m input = (m', .running rest) →
      m'.tick rest = (m', .finished) →
      m'.steps < limit ∨ m'.steps = limit ∧ m.lastInSlice input n = true →
      EndsUnder limit m input m' .finished
  | failed {n m' rest fault} : ticks n m input = (m', .running rest) →
      m'.tick rest = (m', .failed fault) → m'.steps < limit →
      EndsUnder limit m input m' (.failed fault)
  | cut {n m' rest} : ticks n m input = (m', .running rest) → m'.steps = limit →
      (m'.tick rest = (m', .finished) → m.lastInSlice input n = false) →
      EndsUnder limit m input m' (.failed (.stepLimit limit))

variable {m m' m₁ : Machine} {input input₁ rest : List CodePoint} {chunk n k limit : Nat}
  {limit' : Option Int} {p : Progress}

section

variable (m : Machine) (limit' : Option Int)

theorem withLimit_perform (i : Instruction) :
    (m.withLimit limit').perform i = (m.perform i).withLimit limit' := by
  cases i <;> rfl

theorem withLimit_answer (input : List CodePoint) (stop : Stop) :
    (m.withLimit limit').answer input stop =
      ((m.answer input stop).1.withLimit limit', (m.answer input stop).2) := by
  have hread : (m.withLimit limit').readInput input = m.readInput input := rfl
  have htape : (m.withLimit limit').tape = m.tape := rfl
  cases stop
  case putChar =>
    simp only [answer, htape]
    split
    · rfl
    · rfl
  case get =>
    simp only [answer, hread]
    cases m.readInput input <;> rfl
  all_goals rfl

theorem withLimit_tick (input : List CodePoint) :
    (m.withLimit limit').tick input =
      ((m.tick input).1.withLimit limit', (m.tick input).2) := by
  have hprogram : (m.withLimit limit').program[(m.withLimit limit').pc]? = m.program[m.pc]? := rfl
  rw [tick, tick, hprogram]
  split
  · rfl
  · split
    · rw [withLimit_answer]
    · rw [withLimit_perform]
      rfl

theorem withLimit_ticks (n : Nat) (input : List CodePoint) :
    ticks n (m.withLimit limit') input =
      ((ticks n m input).1.withLimit limit', (ticks n m input).2) := by
  induction n generalizing m input with
  | zero => rfl
  | succ n ih =>
      obtain ⟨⟨m₁, p⟩, htick⟩ : ∃ r, m.tick input = r := ⟨_, rfl⟩
      simp only [ticks, withLimit_tick, htick]
      cases p with
      | running rest => exact ih m₁ rest
      | finished => rfl
      | failed fault => rfl

end

theorem finished_ended : Progress.finished.outcome ≠ .unfinished := by simp [Progress.outcome]

theorem failed_ended (fault : MachineFault) : (Progress.failed fault).outcome ≠ .unfinished := by
  simp [Progress.outcome]

theorem tick_cases (m : Machine) (input : List CodePoint) :
    (∃ m' rest, m.tick input = (m', .running rest) ∧ m'.steps = m.steps + 1) ∨
      ∃ p, m.tick input = (m, p) ∧ p.outcome ≠ .unfinished := by
  rw [tick]
  cases m.program[m.pc]? with
  | none => exact .inr ⟨.finished, rfl, finished_ended⟩
  | some i =>
      cases i
      case putChar =>
        simp only [Instruction.stop?, answer]
        split
        · exact .inr ⟨_, rfl, failed_ended _⟩
        · exact .inl ⟨_, _, rfl, rfl⟩
      case get =>
        simp only [Instruction.stop?, answer]
        split
        · exact .inr ⟨_, rfl, failed_ended _⟩
        · exact .inl ⟨_, _, rfl, rfl⟩
      all_goals exact .inl ⟨_, _, rfl, rfl⟩

theorem steps_ticks (h : ticks n m input = (m', .running rest)) : m'.steps = m.steps + n := by
  induction n generalizing m input with
  | zero =>
      cases h
      rfl
  | succ n ih =>
      rw [ticks] at h
      rcases tick_cases m input with ⟨m₁, input₁, htick, hsteps⟩ | ⟨p, htick, hp⟩
      · rw [htick] at h
        rw [ih h, hsteps]
        omega
      · rw [htick] at h
        cases p with
        | running => exact absurd rfl hp
        | finished => cases h
        | failed => cases h

theorem ticks_ended_at (h : ticks n m input = (m', p)) (hp : p.outcome ≠ .unfinished) :
    ∃ k rest, ticks k m input = (m', .running rest) ∧ m'.tick rest = (m', p) := by
  induction n generalizing m input with
  | zero =>
      cases h
      exact absurd rfl hp
  | succ n ih =>
      rw [ticks] at h
      rcases tick_cases m input with ⟨m₁, input₁, htick, -⟩ | ⟨p', htick, hp'⟩
      · rw [htick] at h
        obtain ⟨k, rest, hk, hend⟩ := ih h
        refine ⟨k + 1, rest, ?_, hend⟩
        rw [ticks, htick]
        exact hk
      · rw [htick] at h
        refine ⟨0, input, ?_⟩
        cases p' with
        | running => exact absurd rfl hp'
        | finished =>
            cases h
            exact ⟨rfl, htick⟩
        | failed fault =>
            cases h
            exact ⟨rfl, htick⟩

theorem ticks_succ_of_ended (h : ticks n m input = (m', .running rest))
    (hend : m'.tick rest = (m', p)) (hp : p.outcome ≠ .unfinished) :
    ticks (n + 1) m input = (m', p) := by
  rw [ticks_add 1 h, ticks, hend]
  cases p with
  | running => exact absurd rfl hp
  | finished => rfl
  | failed => rfl

theorem le_of_ended (h : ticks k m input = (m', .running rest)) (hend : m'.tick rest = (m', p))
    (hp : p.outcome ≠ .unfinished) (hn : ticks n m input = (m₁, .running input₁)) : n ≤ k := by
  refine Nat.le_of_not_lt fun hlt => ?_
  have hended := ticks_ended (n - (k + 1)) (ticks_succ_of_ended h hend hp) hp
  rw [Nat.add_sub_cancel' hlt, hn] at hended
  cases hended
  exact hp rfl

theorem lastInSlice_add (h : ticks n m input = (m₁, .running input₁)) (hk : 0 < k) :
    m.lastInSlice input (n + k) = m₁.lastInSlice input₁ k := by
  obtain ⟨k, rfl⟩ : ∃ j, k = j + 1 := ⟨k - 1, by omega⟩
  rw [← Nat.add_assoc, lastInSlice, lastInSlice, ticks_add k h]

theorem slice_ends (budget : Nat) (m : Machine) :
    ((m.slice budget).stop = .budget ∧ (m.slice budget).left = 0 ∧
        (m.slice budget).machine.program[(m.slice budget).machine.pc]? ≠ none) ∨
      ((m.slice budget).stop = .finished ∧
        (m.slice budget).machine.program[(m.slice budget).machine.pc]? = none) ∨
      (0 < (m.slice budget).left ∧
        ∃ i, (m.slice budget).machine.program[(m.slice budget).machine.pc]? = some i ∧
          i.stop? = some (m.slice budget).stop) := by
  fun_induction slice budget m with
  | case1 m =>
      by_cases hpc : m.pc < m.program.size
      · simp [hpc]
      · simp [hpc]
  | case2 m budget hi => exact .inr (.inl ⟨rfl, hi⟩)
  | case3 m budget i hi stop hstop => exact .inr (.inr ⟨Nat.succ_pos _, i, hi, hstop⟩)
  | case4 m budget i hi hstop ih => exact ih

theorem lastInSlice_slice (budget steps : Nat) (m : Machine) (input : List CodePoint)
    (hpos : 0 < budget - (m.slice budget).left) :
    { m with steps }.lastInSlice input (budget - (m.slice budget).left) = true := by
  induction budget generalizing m steps with
  | zero => exact absurd hpos (Nat.lt_irrefl 0)
  | succ budget ih =>
      cases hi : m.program[m.pc]? with
      | none => simp [slice, hi] at hpos
      | some i =>
          cases hstop : i.stop? with
          | some stop => simp [slice, hi, hstop] at hpos
          | none =>
              have hslice : m.slice (budget + 1) = (m.perform i).slice budget := by
                simp only [slice, hi, hstop]
              have htick : ticks 1 { m with steps } input =
                  ({ m.perform i with steps := steps + 1 }, .running input) := by
                simp only [ticks, tick, hi, hstop, perform_steps]
              rw [hslice, Nat.succ_sub (left_slice_le ..), Nat.succ_eq_one_add]
              rcases Nat.eq_zero_or_pos (budget - ((m.perform i).slice budget).left) with hz | hpos
              · simp [hz, lastInSlice, ticks, hi, hstop]
              · rw [lastInSlice_add htick hpos]
                exact ih (steps + 1) (m.perform i) hpos

theorem EndsUnder.after {outcome : Outcome} (h : ticks n m input = (m₁, .running input₁))
    (hend : m₁.tick input₁ = (m₁, .finished) → m.lastInSlice input n = false)
    (hrest : EndsUnder limit m₁ input₁ m' outcome) : EndsUnder limit m input m' outcome := by
  cases hrest with
  | @finished k _ rest hk hfinished hlast =>
      refine .finished ((ticks_add k h).trans hk) hfinished ?_
      rcases Nat.eq_zero_or_pos k with rfl | hpos
      · exact hlast.imp_right fun hzero => by cases hzero.2
      · rwa [lastInSlice_add h hpos]
  | @failed k _ rest fault hk hfailed hlt => exact .failed ((ticks_add k h).trans hk) hfailed hlt
  | @cut k _ rest hk hsteps hlast =>
      refine .cut ((ticks_add k h).trans hk) hsteps ?_
      rcases Nat.eq_zero_or_pos k with rfl | hpos
      · cases hk
        exact hend
      · rwa [lastInSlice_add h hpos]

theorem budget_of_lt (hlimit : m.setting.stepLimit = some (limit : Int)) (hlt : m.steps < limit)
    (chunk : Nat) : m.budget chunk = .ok (min chunk (limit - m.steps)) := by
  rw [budget, hlimit]
  dsimp only
  rw [if_neg (by omega), Int.toNat_sub]

theorem round_under (hlimit : m.setting.stepLimit = some (limit : Int)) (hlt : m.steps < limit)
    (hchunk : 0 < chunk) (input : List CodePoint) :
    (∃ n m₁ input₁, m.round chunk input = (m₁, .running input₁) ∧
        ticks n m input = (m₁, .running input₁) ∧ 0 < n ∧ m₁.steps ≤ limit ∧
        (m₁.tick input₁ = (m₁, .finished) → m.lastInSlice input n = false)) ∨
      ∃ m₁ p, m.round chunk input = (m₁, p) ∧ p.outcome ≠ .unfinished ∧
        EndsUnder limit m input m₁ p.outcome := by
  obtain ⟨b, hb⟩ : ∃ b, b = min chunk (limit - m.steps) := ⟨_, rfl⟩
  have hround : m.round chunk input = answer { (m.slice b).machine with
      steps := m.steps + (b - (m.slice b).left) } input (m.slice b).stop := by
    simp only [round, budget_of_lt hlimit hlt, ← hb, steps_slice]
  have hticks := ticks_slice b m.steps m input
  have hlast := lastInSlice_slice b m.steps m input
  have hleft := left_slice_le b m
  rw [hround]
  obtain ⟨k, hk⟩ : ∃ k, k = b - (m.slice b).left := ⟨_, rfl⟩
  rw [← hk] at hticks hlast ⊢
  change ticks k m input = _ at hticks
  -- The budget of the slice ends at the limit, and a slice that stops early has room for an answer.
  rcases slice_ends b m with ⟨hstop, hzero, hat⟩ | ⟨hstop, hat⟩ | ⟨hsome, i, hat, hstop⟩
  · rw [hstop]
    refine .inl ⟨k, _, input, rfl, hticks, by omega, by dsimp only; omega, fun hfinished => ?_⟩
    exact absurd (tick_finished hfinished) hat
  · rw [hstop]
    refine .inr ⟨_, .finished, rfl, finished_ended, .finished hticks ?_ ?_⟩
    · simp only [tick, hat]
    · dsimp only
      rcases Nat.lt_or_ge (m.steps + k) limit with hless | hmore
      · exact .inl hless
      · exact .inr ⟨by omega, hlast (by omega)⟩
  · have htick : ∀ m₁ : Machine, m₁ = { (m.slice b).machine with steps := m.steps + k } →
        m₁.tick input = m₁.answer input (m.slice b).stop := by
      rintro _ rfl
      simp only [tick, hat, hstop]
    obtain ⟨m₁, hm₁⟩ : ∃ m₁, m₁ = { (m.slice b).machine with steps := m.steps + k } := ⟨_, rfl⟩
    have hsteps : m₁.steps = m.steps + k := by rw [hm₁]
    have hat : m₁.program[m₁.pc]? = some i := by rw [hm₁]; exact hat
    rw [← hm₁, ← htick m₁ hm₁]
    rw [← hm₁] at hticks
    rcases tick_cases m₁ input with ⟨m₂, input₂, htick, hcount⟩ | ⟨p, htick, hp⟩
    · refine .inl ⟨k + 1, m₂, input₂, htick, ?_, Nat.succ_pos k, by omega, fun _ => ?_⟩
      · rw [ticks_add 1 hticks, ticks, htick]
        rfl
      · simp [lastInSlice, hticks, hat, hstop]
    · refine .inr ⟨m₁, p, htick, hp, ?_⟩
      cases p with
      | running => exact absurd rfl hp
      | finished =>
          rw [tick_finished htick] at hat
          cases hat
      | failed fault => exact .failed hticks htick (by omega)

theorem resume_under (hlimit : m.setting.stepLimit = some (limit : Int)) (hle : m.steps ≤ limit)
    (hchunk : 0 < chunk) (input : List CodePoint) :
    ∃ rounds m' outcome, resume chunk rounds input m = (m', outcome) ∧
      EndsUnder limit m input m' outcome := by
  obtain ⟨left, hleft⟩ : ∃ left, left = limit - m.steps := ⟨_, rfl⟩
  induction left using Nat.strongRecOn generalizing m input with
  | ind left ih =>
      rcases Nat.lt_or_eq_of_le hle with hlt | heq
      · rcases round_under hlimit hlt hchunk input with
          ⟨n, m₁, input₁, hround, hticks, hpos, hsteps, hlast⟩ | ⟨m₁, p, hround, hp, hends⟩
        · have hcount := steps_ticks hticks
          have hsetting := setting_round m chunk input
          rw [hround] at hsetting
          obtain ⟨rounds, m', outcome, hresume, hends⟩ := ih (limit - m₁.steps) (by omega)
            (hsetting ▸ hlimit) hsteps input₁ rfl
          refine ⟨rounds + 1, m', outcome, ?_, hends.after hticks hlast⟩
          rw [resume, hround]
          exact hresume
        · refine ⟨1, m₁, p.outcome, ?_, hends⟩
          rw [resume, hround]
          cases p with
          | running => exact absurd rfl hp
          | finished => rfl
          | failed fault => rfl
      · refine ⟨1, m, _, ?_, .cut (n := 0) rfl heq fun _ => rfl⟩
        have hbudget : m.budget chunk = .error (.stepLimit limit) := by
          rw [budget, hlimit]
          exact if_pos (by omega)
        simp only [resume, round, hbudget]

theorem lastInSlice_withLimit (n : Nat) :
    (m.withLimit limit').lastInSlice input n = m.lastInSlice input n := by
  cases n with
  | zero => rfl
  | succ n =>
      rw [lastInSlice, lastInSlice, withLimit_ticks]
      rfl

theorem tick_of_withLimit (h : (m.withLimit limit').tick input = (m.withLimit limit', p))
    (hp : p.outcome ≠ .unfinished) : m.tick input = (m, p) := by
  rw [withLimit_tick] at h
  have hnext : (m.tick input).2 = p := congrArg Prod.snd h
  rcases tick_cases m input with ⟨m₁, rest, htick, -⟩ | ⟨p', htick, -⟩
  · rw [htick] at hnext
    subst hnext
    exact absurd rfl hp
  · rw [htick] at hnext ⊢
    rw [← hnext]

namespace EndsUnder

variable {outcome : Outcome}

theorem of_withLimit (h : EndsUnder limit (m.withLimit limit') input m' outcome) :
    ∃ m₁, m' = m₁.withLimit limit' ∧ EndsUnder limit m input m₁ outcome := by
  have hreach {n : Nat} {m' : Machine} {rest : List CodePoint}
      (hn : ticks n (m.withLimit limit') input = (m', .running rest)) :
      ∃ m₁, m' = m₁.withLimit limit' ∧ ticks n m input = (m₁, .running rest) := by
    rw [withLimit_ticks] at hn
    obtain ⟨⟨m₁, p⟩, hm₁⟩ : ∃ r, ticks n m input = r := ⟨_, rfl⟩
    rw [hm₁] at hn
    cases hn
    exact ⟨m₁, rfl, hm₁⟩
  cases h with
  | finished hn hend hlast =>
      obtain ⟨m₁, rfl, hm₁⟩ := hreach hn
      rw [lastInSlice_withLimit] at hlast
      exact ⟨m₁, rfl, .finished hm₁ (tick_of_withLimit hend finished_ended) hlast⟩
  | failed hn hend hlt =>
      obtain ⟨m₁, rfl, hm₁⟩ := hreach hn
      exact ⟨m₁, rfl, .failed hm₁ (tick_of_withLimit hend (failed_ended _)) hlt⟩
  | cut hn hsteps hlast =>
      obtain ⟨m₁, rfl, hm₁⟩ := hreach hn
      refine ⟨m₁, rfl, .cut hm₁ hsteps fun hend => ?_⟩
      rw [lastInSlice_withLimit] at hlast
      exact hlast (by rw [withLimit_tick, hend])

theorem of_ended (h : EndsUnder limit m input m' outcome) (hstart : m.steps = 0)
    (hn : ticks n m input = (m₁, p)) (hp : p.outcome ≠ .unfinished)
    (hlast : m₁.steps < limit ∨
      p = .finished ∧ m₁.steps = limit ∧ m.lastInSlice input limit = true) :
    m' = m₁ ∧ outcome = p.outcome := by
  cases h with
  | finished hk hend _ =>
      obtain ⟨rfl, rfl⟩ := ticks_unique (ticks_succ_of_ended hk hend finished_ended) hn
        finished_ended hp
      exact ⟨rfl, rfl⟩
  | failed hk hend _ =>
      obtain ⟨rfl, rfl⟩ := ticks_unique (ticks_succ_of_ended hk hend (failed_ended _)) hn
        (failed_ended _) hp
      exact ⟨rfl, rfl⟩
  | @cut k _ rest hk hsteps hcut =>
      obtain ⟨j, rest', hj, hend⟩ := ticks_ended_at hn hp
      have hle := le_of_ended hj hend hp hk
      have hcount := steps_ticks hj
      have hcount' := steps_ticks hk
      obtain ⟨rfl, hlimit, hquiet⟩ := hlast.resolve_left (by omega)
      obtain rfl : k = j := by omega
      cases hk.symm.trans hj
      have hnot := hcut hend
      rw [show k = limit by omega, hquiet] at hnot
      cases hnot

theorem of_not_ended (h : EndsUnder limit m input m' outcome) (hstart : m.steps = 0)
    (hfinished : ∀ n m₁, ticks n m input = (m₁, .finished) →
      limit < m₁.steps ∨ m₁.steps = limit ∧ m.lastInSlice input limit = false)
    (hfailed : ∀ n m₁ fault, ticks n m input = (m₁, .failed fault) → limit ≤ m₁.steps) :
    outcome = .failed (.stepLimit limit) ∧ m'.steps = limit := by
  cases h with
  | @finished k _ rest hk hend hlast =>
      have hcount := steps_ticks hk
      rcases hfinished _ _ (ticks_succ_of_ended hk hend finished_ended) with hlt | ⟨heq, hnot⟩
      · omega
      · have hquiet := (hlast.resolve_left (by omega)).2
        rw [show k = limit by omega, hnot] at hquiet
        cases hquiet
  | failed hk hend hlt =>
      have hle := hfailed _ _ _ (ticks_succ_of_ended hk hend (failed_ended _))
      omega
  | cut hk hsteps _ => exact ⟨rfl, hsteps⟩

end EndsUnder

theorem run_of_loads {text : String} {input : List CodePoint} {rounds : Nat}
    (h : (m.load text).2 = none) :
    (m.withLimit limit').run rounds text input =
      resume sliceSteps rounds input ((m.load text).1.withLimit limit') :=
  runIn_of_loads h

theorem run_withoutLimit_iff {text : String} {input : List CodePoint} (h : (m.load text).2 = none)
    (hp : p.outcome ≠ .unfinished) :
    (∃ rounds, (m.withLimit none).run rounds text input = (m', p.outcome)) ↔
      ∃ n, ticks n ((m.load text).1.withLimit none) input = (m', p) := by
  simp only [run_of_loads h]
  exact resume_ended_iff rfl (by decide) hp

end Machine

open Machine in
theorem limit_cuts_off (m : Machine) (text : String) (input : List CodePoint)
    (hloads : (m.load text).2 = none) (limit : Nat) :
    (∀ rounds m', (m.withLimit none).run rounds text input = (m', .finished) →
      m'.steps < limit ∨
        m'.steps = limit ∧ (m.load text).1.lastInSlice input limit = true →
      ∃ rounds, (m.withLimit (some limit)).run rounds text input =
        (m'.withLimit (some limit), .finished)) ∧
    (∀ rounds m' fault, (m.withLimit none).run rounds text input = (m', .failed fault) →
      m'.steps < limit →
      ∃ rounds, (m.withLimit (some limit)).run rounds text input =
        (m'.withLimit (some limit), .failed fault)) ∧
    ((∀ rounds m', (m.withLimit none).run rounds text input = (m', .finished) →
        limit < m'.steps ∨
          m'.steps = limit ∧ (m.load text).1.lastInSlice input limit = false) →
      (∀ rounds m' fault, (m.withLimit none).run rounds text input = (m', .failed fault) →
        limit ≤ m'.steps) →
      ∃ rounds m', (m.withLimit (some limit)).run rounds text input =
        (m', .failed (.stepLimit limit)) ∧ m'.steps = limit) := by
  obtain ⟨rounds, m₁, outcome, hresume, hunder⟩ : ∃ rounds m₁ outcome,
      resume sliceSteps rounds input ((m.load text).1.withLimit (some limit)) =
        (m₁, outcome) ∧
      EndsUnder limit ((m.load text).1.withLimit (some limit)) input m₁ outcome :=
    resume_under rfl (Nat.zero_le _) (by decide) input
  obtain ⟨m₂, rfl, hends⟩ := EndsUnder.of_withLimit (m := (m.load text).1.withLimit none) hunder
  rw [← run_of_loads hloads] at hresume
  have hlast (limit : Nat) : ((m.load text).1.withLimit none).lastInSlice input limit =
    (m.load text).1.lastInSlice input limit := lastInSlice_withLimit limit
  refine ⟨fun rounds' m' hrun hsteps => ?_, fun rounds' m' fault hrun hsteps => ?_,
    fun hfinished hfailed => ?_⟩
  · obtain ⟨n, hn⟩ := (run_withoutLimit_iff hloads finished_ended).1 ⟨rounds', hrun⟩
    obtain ⟨rfl, rfl⟩ := hends.of_ended rfl hn finished_ended
      (hsteps.imp_right fun h => ⟨rfl, h.1, (hlast _).trans h.2⟩)
    exact ⟨rounds, hresume⟩
  · obtain ⟨n, hn⟩ := (run_withoutLimit_iff hloads (failed_ended fault)).1 ⟨rounds', hrun⟩
    obtain ⟨rfl, rfl⟩ := hends.of_ended rfl hn (failed_ended fault) (.inl hsteps)
    exact ⟨rounds, hresume⟩
  · obtain ⟨rfl, hsteps⟩ := hends.of_not_ended rfl
      (fun n m' hn => by
        obtain ⟨rounds', hrun⟩ := (run_withoutLimit_iff hloads finished_ended).2 ⟨n, hn⟩
        exact (hfinished rounds' m' hrun).imp_right fun h => ⟨h.1, (hlast _).trans h.2⟩)
      (fun n m' fault hn => by
        obtain ⟨rounds', hrun⟩ := (run_withoutLimit_iff hloads (failed_ended fault)).2 ⟨n, hn⟩
        exact hfailed rounds' m' fault hrun)
    exact ⟨rounds, _, hresume, hsteps⟩

open Machine in
theorem limit_cuts_off_at_end : ((small none).load "++[>.<-]").2 = none ∧
    ∃ m', (∃ rounds, ((small none).withLimit none).run rounds "++[>.<-]" "" = (m', .finished)) ∧
      m'.steps = 13 ∧ m'.output = [48, 48] ∧
      ∃ rounds, ((small none).withLimit (some 13)).run rounds "++[>.<-]" "" =
        (m'.withLimit (some 13), .finished) := by
  have hends : (((small none).withLimit none).run 3 "++[>.<-]" "").2 = .finished ∧
      (((small none).withLimit none).run 3 "++[>.<-]" "").1.steps = 13 ∧
      (((small none).withLimit none).run 3 "++[>.<-]" "").1.output = [48, 48] ∧
      ((small none).load "++[>.<-]").1.lastInSlice [] 13 = true := by decide +kernel
  obtain ⟨⟨m', outcome⟩, hrun⟩ :
    ∃ r, ((small none).withLimit none).run 3 "++[>.<-]" "" = r := ⟨_, rfl⟩
  rw [hrun] at hends
  obtain ⟨rfl, hsteps, houtput, hlast⟩ := hends
  refine ⟨rfl, m', ⟨3, hrun⟩, hsteps, houtput, ?_⟩
  exact (limit_cuts_off (small none) "++[>.<-]" "" rfl 13).1 3 m' hrun (.inr ⟨hsteps, hlast⟩)

open Machine in
theorem limit_cuts_off_ended_run : ((small none).load ".").2 = none ∧
    ∃ m', (∃ rounds, ((small none).withLimit none).run rounds "." "" = (m', .finished)) ∧
      m'.steps = 1 ∧ m'.output = [48] ∧
      ∃ rounds, ((small none).withLimit (some 1)).run rounds "." "" =
        (m'.withLimit (some 1), .failed (.stepLimit 1)) := by
  have hends : (((small none).withLimit none).run 2 "." "").2 = .finished ∧
      (((small none).withLimit none).run 2 "." "").1.steps = 1 ∧
      (((small none).withLimit none).run 2 "." "").1.output = [48] ∧
      ((small none).withLimit (some 1)).run 2 "." "" =
        ((((small none).withLimit none).run 2 "." "").1.withLimit (some 1),
          .failed (.stepLimit 1)) := by decide +kernel
  obtain ⟨hfinished, hsteps, houtput, hcut⟩ := hends
  exact ⟨rfl, _, ⟨2, Prod.ext rfl hfinished⟩, hsteps, houtput, 2, hcut⟩

end TapeCompiler
