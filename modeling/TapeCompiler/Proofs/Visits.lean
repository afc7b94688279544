import TapeCompiler.Proofs.Tracking

namespace TapeCompiler

open Compilation

variable {s : Setting}

/-- The code, run on the first world, comes to the instruction with this number, or to its end, with
the second world. From the end of a loop it goes on behind the start of that loop. -/
inductive Visits (s : Setting) : Code → World s.bits → Nat → World s.bits → Prop where
  | start {k w} : Visits s k w 0 w
  | act {a k w w' i v} : a.perform s w = .done w' → Visits s k w' i v →
      Visits s (.act a k) w (i + 1) v
  | skip {b k w i v} : w.read = 0 → Visits s k w i v → Visits s (.loop b k) w (b.size + 2 + i) v
  | body {b k w i v} : w.read ≠ 0 → Visits s b w i v → Visits s (.loop b k) w (i + 1) v
  | again {b k w w' i v} : w.read ≠ 0 → Runs s b w (.done w') → 0 < i →
      Visits s (.loop b k) w' i v → Visits s (.loop b k) w i v

namespace Visits

variable {k l b : Code} {w v : World s.bits} {i : Nat}

theorem le_size (h : Visits s k w i v) : i ≤ k.size := by
  induction h with
  | start => exact Nat.zero_le _
  | act _ _ ih =>
      rw [Code.size_act]
      omega
  | skip _ _ ih =>
      rw [Code.size_loop]
      omega
  | body _ _ ih =>
      rw [Code.size_loop]
      omega
  | again _ _ _ _ ih => exact ih

theorem runs (h : Visits s k w k.size v) : Runs s k w (.done v) := by
  generalize hi : k.size = i at h
  induction h with
  | @start k w =>
      cases k with
      | done => exact .done
      | act a k =>
          rw [Code.size_act] at hi
          omega
      | loop b k =>
          rw [Code.size_loop] at hi
          omega
  | act ha _ ih => exact .act ha (ih (by rw [Code.size_act] at hi; omega))
  | skip h0 _ ih => exact .loop_end h0 (ih (by rw [Code.size_loop] at hi; omega))
  | body h0 hb =>
      have := hb.le_size
      rw [Code.size_loop] at hi
      omega
  | again h0 hb _ _ ih => exact .loop_step h0 hb (ih hi)

theorem append_right (h : Visits s (k ++ l) w (k.size + i) v) :
    ∃ u, Runs s k w (.done u) ∧ Visits s l u i v := by
  generalize hm : k ++ l = m, hj : k.size + i = j at h
  induction h generalizing k i with
  | start =>
      cases k with
      | done =>
          cases hm
          obtain rfl : i = 0 := by simpa using hj
          exact ⟨_, .done, .start⟩
      | act a k =>
          rw [Code.size_act] at hj
          omega
      | loop b k =>
          rw [Code.size_loop] at hj
          omega
  | act ha hrest ih =>
      cases k with
      | done =>
          cases hm
          obtain rfl : i = _ := by simpa using hj
          exact ⟨_, .done, .act ha hrest⟩
      | act a k =>
          cases hm
          rw [Code.size_act] at hj
          obtain ⟨u, hu, hl⟩ := ih (i := i) rfl (by omega)
          exact ⟨u, .act ha hu, hl⟩
      | loop b k => cases hm
  | skip h0 hrest ih =>
      cases k with
      | done =>
          cases hm
          obtain rfl : i = _ := by simpa using hj
          exact ⟨_, .done, .skip h0 hrest⟩
      | act a k => cases hm
      | loop b k =>
          cases hm
          rw [Code.size_loop] at hj
          obtain ⟨u, hu, hl⟩ := ih (i := i) rfl (by omega)
          exact ⟨u, .loop_end h0 hu, hl⟩
  | body h0 hb ih =>
      cases k with
      | done =>
          cases hm
          obtain rfl : i = _ := by simpa using hj
          exact ⟨_, .done, .body h0 hb⟩
      | act a k => cases hm
      | loop b k =>
          cases hm
          have := hb.le_size
          rw [Code.size_loop] at hj
          omega
  | again h0 hb hpos hrest ih =>
      cases k with
      | done =>
          cases hm
          obtain rfl : i = _ := by simpa using hj
          exact ⟨_, .done, .again h0 hb hpos hrest⟩
      | act a k => cases hm
      | loop b k =>
          cases hm
          obtain ⟨u, hu, hl⟩ := ih (k := .loop _ k) rfl hj
          exact ⟨u, .loop_step h0 hb hu, hl⟩

theorem append_left (h : Visits s (k ++ l) w i v) (hi : i ≤ k.size) : Visits s k w i v := by
  generalize hm : k ++ l = m at h
  induction h generalizing k with
  | start => exact .start
  | act ha _ ih =>
      cases k with
      | done =>
          rw [Code.size_done] at hi
          omega
      | act a k =>
          cases hm
          rw [Code.size_act] at hi
          exact .act ha (ih (by omega) rfl)
      | loop b k => cases hm
  | skip h0 _ ih =>
      cases k with
      | done =>
          rw [Code.size_done] at hi
          omega
      | act a k => cases hm
      | loop b k =>
          cases hm
          rw [Code.size_loop] at hi
          exact .skip h0 (ih (by omega) rfl)
  | body h0 hb _ =>
      cases k with
      | done =>
          rw [Code.size_done] at hi
          omega
      | act a k => cases hm
      | loop b k =>
          cases hm
          exact .body h0 hb
  | again h0 hb hpos _ ih =>
      cases k with
      | done =>
          rw [Code.size_done] at hi
          omega
      | act a k => cases hm
      | loop b k =>
          cases hm
          exact .again h0 hb hpos (ih (k := .loop _ k) hi rfl)

theorem of_loop {P : World s.bits → Prop} (h : Visits s (.loop b k) w (i + 1) v) (hi : i ≤ b.size)
    (hw : P w) (hround : ∀ {u u'}, P u → u.read ≠ 0 → Runs s b u (.done u') → P u') :
    ∃ u, P u ∧ u.read ≠ 0 ∧ Visits s b u i v := by
  generalize hm : Code.loop b k = m, hj : i + 1 = j at h
  induction h with
  | start => cases hj
  | act => cases hm
  | skip =>
      cases hm
      omega
  | body h0 hb =>
      cases hm
      cases hj
      exact ⟨_, hw, h0, hb⟩
  | again h0 hb _ _ ih =>
      cases hm
      exact ih (hround hw h0 hb) rfl hj

end Visits

structure Visiting (k : Code) (w : World s.bits) (m : Machine) (v : World s.bits) : Prop where
  program : m.program = k.flatten.toArray
  placed : k.Placed m.program m.jumps 0
  shows : Shows s m v
  visits : Visits s k w m.pc v

section

variable {k : Code} {w v : World s.bits} {i position : Nat} {m m' : Machine} {bound q : Int}

theorem Visits.tick (h : Visits s k w i v) (hi : i < k.size) (hbound : bound ≤ s.size)
    (hshows : Shows s m v) (hleads : k.Leads bound w.pointer q)
    (hplaced : k.Placed m.program m.jumps position) (hpc : m.pc = position + i) :
    (∃ f, m.tick v.input = (m, .failed f)) ∨ ∃ m' v' i', m.tick v.input = (m', .running v'.input) ∧
      Visits s k w i' v' ∧ 0 < i' ∧ Machine.Goes s m m' v' (position + i') := by
  induction h generalizing position q with
  | @start k w =>
      cases k with
      | done => exact absurd hi (Nat.lt_irrefl 0)
      | act a k =>
          obtain ⟨hlow, hhigh, -⟩ := hleads
          obtain ⟨hfetch, -⟩ := hplaced
          rw [Nat.add_zero] at hpc
          rw [← hpc] at hfetch
          cases ha : a.perform s w with
          | done w' =>
              obtain ⟨m', htick, hgoes⟩ := hshows.tick_done hfetch hlow (by omega) ha
              rw [hpc] at hgoes
              exact .inr ⟨m', w', 1, htick, .act ha .start, Nat.one_pos, hgoes⟩
          | failed f w' => exact .inl ⟨f, hshows.tick_failed hfetch ha⟩
      | loop b k =>
          obtain ⟨m', htick, hgoes⟩ := hshows.tick_loop hplaced (.inl hpc)
          by_cases h0 : w.read = 0
          · rw [if_pos h0] at hgoes
            exact .inr ⟨m', w, b.size + 2 + 0, htick, .skip h0 .start, by omega, hgoes⟩
          · rw [if_neg h0] at hgoes
            exact .inr ⟨m', w, 0 + 1, htick, .body h0 .start, Nat.one_pos, hgoes⟩
  | act ha _ ih =>
      rw [Code.size_act] at hi
      have hrest := hleads.2.2
      rw [← Action.pointer_perform ha] at hrest
      rcases ih (by omega) hshows hrest hplaced.2 (by omega) with
        hfailed | ⟨m', v', i', hm', hv', -, hgoes⟩
      · exact .inl hfailed
      · refine .inr ⟨m', v', i' + 1, hm', .act ha hv', Nat.succ_pos _, ?_⟩
        rwa [← Nat.add_assoc, Nat.add_right_comm]
  | @skip b k w i v h0 _ ih =>
      rw [Code.size_loop] at hi
      rcases ih (by omega) hshows hleads.2 hplaced.2.2.2.2.2 (by omega) with
        hfailed | ⟨m', v', i', hm', hv', -, hgoes⟩
      · exact .inl hfailed
      · refine .inr ⟨m', v', b.size + 2 + i', hm', .skip h0 hv', by omega, ?_⟩
        rwa [← Nat.add_assoc]
  | @body b k w i v h0 hb ih =>
      rcases Nat.lt_or_eq_of_le hb.le_size with hlt | rfl
      · rcases ih hlt hshows hleads.1 hplaced.2.2.2.2.1 (by omega) with
          hfailed | ⟨m', v', i', hm', hv', -, hgoes⟩
        · exact .inl hfailed
        · refine .inr ⟨m', v', i' + 1, hm', .body h0 hv', Nat.succ_pos _, ?_⟩
          rwa [← Nat.add_assoc, Nat.add_right_comm]
      · obtain ⟨m', htick, hgoes⟩ := hshows.tick_loop hplaced (.inr (by omega))
        by_cases hv : v.read = 0
        · rw [if_pos hv] at hgoes
          exact .inr ⟨m', v, b.size + 2 + 0, htick, .again h0 hb.runs (by omega) (.skip hv .start),
            by omega, hgoes⟩
        · rw [if_neg hv] at hgoes
          exact .inr ⟨m', v, 0 + 1, htick, .again h0 hb.runs Nat.one_pos (.body hv .start),
            Nat.one_pos, hgoes⟩
  | again h0 hb _ _ ih =>
      rw [← hb.pointer_eq hleads.1 rfl] at hleads
      rcases ih hi hshows hleads hplaced hpc with hfailed | ⟨m', v', i', hm', hv', hpos, hgoes⟩
      · exact .inl hfailed
      · exact .inr ⟨m', v', i', hm', .again h0 hb hpos hv', hpos, hgoes⟩

namespace Visiting

theorem tick (h : Visiting k w m v) (hbound : bound ≤ s.size) (hleads : k.Leads bound w.pointer q) :
    ∃ v', Visiting k w (m.tick v.input).1 v' ∧
      ∀ input, (m.tick v.input).2 = .running input → v'.input = input := by
  rcases Nat.lt_or_ge m.pc k.size with hpc | hpc
  · rcases h.visits.tick hpc hbound h.shows hleads h.placed (Nat.zero_add _).symm with
      ⟨f, htick⟩ | ⟨m', v', i, htick, hv', -, hgoes⟩
    · rw [htick]
      exact ⟨v, h, fun input hrunning => by cases hrunning⟩
    · rw [htick]
      refine ⟨v', ⟨hgoes.program.trans h.program, hgoes.placed h.placed, hgoes.shows, ?_⟩,
        fun input hrunning => ?_⟩
      · rwa [hgoes.pc, Nat.zero_add]
      · cases hrunning
        rfl
  · have hend : m.program[m.pc]? = none := by
      rw [h.program]
      exact Array.getElem?_eq_none (by simpa [Code.size] using hpc)
    rw [Machine.tick, hend]
    exact ⟨v, h, fun input hrunning => by cases hrunning⟩

theorem ticks (h : Visiting k w m v) (hbound : bound ≤ s.size) (hleads : k.Leads bound w.pointer q)
    (n : Nat) : ∃ v', Visiting k w (Machine.ticks n m v.input).1 v' ∧
      ∀ input, (Machine.ticks n m v.input).2 = .running input → v'.input = input := by
  induction n generalizing m v with
  | zero => exact ⟨v, h, fun input hrunning => by cases hrunning; rfl⟩
  | succ n ih =>
      obtain ⟨v', hv', hinput⟩ := h.tick hbound hleads
      rw [Machine.ticks]
      split <;> rename_i heq <;> rw [heq] at hv' hinput
      · cases hinput _ rfl
        exact ih hv'
      · exact ⟨v', hv', fun input hrunning => by cases hrunning⟩
      · exact ⟨v', hv', fun input hrunning => by cases hrunning⟩

theorem steps (h : Visiting k w m v) (n : Nat) : Visiting k w { m with steps := n } v :=
  ⟨h.program, h.placed, h.shows.jump _ _, h.visits⟩

theorem slice (h : Visiting k w m v) (hbound : bound ≤ s.size) (hleads : k.Leads bound w.pointer q)
    (budget : Nat) : ∃ v', Visiting k w (m.slice budget).machine v' := by
  have hslice := Machine.ticks_slice budget m.steps m v.input
  obtain ⟨v', hv', -⟩ := h.ticks hbound hleads (budget - (m.slice budget).left)
  rw [hslice] at hv'
  exact ⟨v', hv'.steps (m.slice budget).machine.steps⟩

theorem resume (h : Visiting k w m v) (hbound : bound ≤ s.size) (hleads : k.Leads bound w.pointer q)
    (chunk rounds : Nat) : ∃ v', Visiting k w (Machine.resume chunk rounds v.input m).1 v' := by
  induction rounds generalizing m v with
  | zero => exact ⟨v, h⟩
  | succ rounds ih =>
      have hround : ∃ v', Visiting k w (m.round chunk v.input).1 v' ∧
          ∀ input, (m.round chunk v.input).2 = .running input → v'.input = input := by
        cases hbudget : m.budget chunk with
        | error fault =>
            rw [Machine.round, hbudget]
            exact ⟨v, h, fun input hrunning => by cases hrunning⟩
        | ok budget =>
            obtain ⟨n, -, hn⟩ := Machine.round_ticks v.input hbudget
            rw [← hn]
            exact h.ticks hbound hleads n
      obtain ⟨v', hv', hinput⟩ := hround
      rw [Machine.resume]
      split <;> rename_i heq <;> rw [heq] at hv' hinput
      · cases hinput _ rfl
        exact ih hv'
      · exact ⟨v', hv'⟩
      · exact ⟨v', hv'⟩

end Visiting

end

theorem Machine.moment_visits (m : Machine) {text : String} {k : Code} {bound q : Int}
    (h : Instruction.ofText text = k.flatten) (hleads : k.Leads bound 0 q)
    (hbound : bound ≤ m.setting.size) (rounds count : Nat) (input : List CodePoint) :
    ∃ v, Visits m.setting k (.initial m.setting.bits input)
        (m.moment rounds count text input).pc v ∧
      Shows m.setting (m.moment rounds count text input) v := by
  obtain ⟨-, hholds⟩ := m.load_holds h
  have hstart : Visiting k (World.initial m.setting.bits input) (m.load text).1
      (World.initial m.setting.bits input) :=
    ⟨hholds.program, hholds.placed, m.load_shows text input, by rw [hholds.pc]; exact .start⟩
  obtain ⟨u, hu⟩ := hstart.resume hbound hleads Machine.sliceSteps rounds
  obtain ⟨v, hv⟩ := hu.slice hbound hleads count
  rw [moment, m.run_eq h]
  exact ⟨v, hv.visits, hv.shows⟩

end TapeCompiler
