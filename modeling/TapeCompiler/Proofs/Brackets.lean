import TapeCompiler.Proofs.Code

namespace TapeCompiler

namespace Code

@[simp] theorem size_done : done.size = 0 := rfl

@[simp] theorem size_act (a : Action) (k : Code) : (act a k).size = k.size + 1 := rfl

@[simp] theorem size_loop (b k : Code) : (loop b k).size = b.size + k.size + 2 := by
  simp only [size, flatten, List.length_cons, List.length_append]
  omega

def Paired (table : Array Nat) : Code → Nat → Prop
  | done, _ => True
  | act _ rest, position => rest.Paired table (position + 1)
  | loop body rest, position =>
      table[position]? = some (position + body.size + 1) ∧
        table[position + body.size + 1]? = some position ∧
        body.Paired table (position + 1) ∧ rest.Paired table (position + body.size + 2)

theorem Paired.congr {table table' : Array Nat} {k : Code} {position : Nat}
    (h : k.Paired table position)
    (heq : ∀ i, position ≤ i → i < position + k.size → table'[i]? = table[i]?) :
    k.Paired table' position := by
  induction k generalizing position with
  | done => trivial
  | act a k ih => exact ih h fun i hi hi' => heq i (by omega) (by simp only [size_act]; omega)
  | loop b k ihb ih =>
      obtain ⟨hstart, hend, hb, hk⟩ := h
      simp only [size_loop] at heq
      refine ⟨?_, ?_, ihb hb fun i hi hi' => heq i (by omega) (by omega),
        ih hk fun i hi hi' => heq i (by omega) (by omega)⟩
      · rw [heq position (by omega) (by omega), hstart]
      · rw [heq (position + b.size + 1) (by omega) (by omega), hend]

end Code

namespace Brackets

theorem pairFrom_action (a : Action) (position : Nat) (opened : List Nat) (table : Array Nat)
    (rest : List Instruction) :
    pairFrom position opened table (a.instruction :: rest) =
      pairFrom (position + 1) opened table rest := by
  cases a <;> rfl

theorem pairFrom_flatten (k : Code) (position : Nat) (opened : List Nat) (table : Array Nat)
    (rest : List Instruction) (hsize : position + k.size ≤ table.size) :
    ∃ table' : Array Nat,
      pairFrom position opened table (k.flatten ++ rest) =
        pairFrom (position + k.size) opened table' rest ∧
      table'.size = table.size ∧ k.Paired table' position ∧
      ∀ i, i < position ∨ position + k.size ≤ i → table'[i]? = table[i]? := by
  induction k generalizing position opened table rest with
  | done => exact ⟨table, rfl, rfl, trivial, fun _ _ => rfl⟩
  | act a k ih =>
      simp only [Code.size_act] at hsize ⊢
      obtain ⟨table', hpair, hsize', hk, houtside⟩ :=
        ih (position + 1) opened table rest (by omega)
      refine ⟨table', ?_, hsize', hk, fun i hi => houtside i (by omega)⟩
      rw [Code.flatten, List.cons_append, pairFrom_action, hpair]
      congr 1
      omega
  | loop b k ihb ih =>
      simp only [Code.size_loop] at hsize ⊢
      obtain ⟨inner, hinner, hinnersize, hb, hbefore⟩ := ihb (position + 1) (position :: opened)
        table (.loopEnd :: (k.flatten ++ rest)) (by omega)
      obtain ⟨closed, hclosed⟩ : ∃ closed, closed = (inner.setIfInBounds position
        (position + 1 + b.size)).setIfInBounds (position + 1 + b.size) position := ⟨_, rfl⟩
      have hclosedsize : closed.size = inner.size := by simp [hclosed]
      have hother {i : Nat} (hs : i ≠ position) (he : i ≠ position + 1 + b.size) :
          closed[i]? = inner[i]? := by
        rw [hclosed, Array.getElem?_setIfInBounds_ne he.symm,
          Array.getElem?_setIfInBounds_ne hs.symm]
      obtain ⟨table', hpair, hsize', hk, hafter⟩ :=
        ih (position + 1 + b.size + 1) opened closed rest (by omega)
      have hnext : position + 1 + b.size + 1 = position + b.size + 2 := by omega
      have hend : position + 1 + b.size = position + b.size + 1 := by omega
      refine ⟨table', ?_, by omega, ⟨?_, ?_, hb.congr fun i hi hi' => ?_, ?_⟩, fun i hi => ?_⟩
      · have hshape : (Code.loop b k).flatten ++ rest =
            .loopStart :: (b.flatten ++ .loopEnd :: (k.flatten ++ rest)) := by
          simp [Code.flatten]
        rw [hshape, pairFrom, hinner, pairFrom, ← hclosed, hpair]
        congr 1
        omega
      · rw [hafter position (by omega), hclosed, Array.getElem?_setIfInBounds_ne (by omega),
          Array.getElem?_setIfInBounds_self_of_lt (by omega), hend]
      · rw [← hend, hafter _ (by omega), hclosed,
          Array.getElem?_setIfInBounds_self_of_lt (by simp; omega)]
      · rw [hafter i (by omega), hother (by omega) (by omega)]
      · rwa [← hnext]
      · rw [hafter i (by omega), hother (by omega) (by omega), hbefore i (by omega)]

theorem pair_flatten (k : Code) :
    ∃ table, pair k.flatten = (table, none) ∧ k.Paired table 0 := by
  obtain ⟨table, hpair, -, hk, -⟩ :=
    pairFrom_flatten k 0 [] (Array.range k.flatten.length) [] (by simp [Code.size])
  rw [List.append_nil] at hpair
  exact ⟨table, hpair, hk⟩

end Brackets

namespace Code

def Placed (program : Array Instruction) (table : Array Nat) : Code → Nat → Prop
  | done, _ => True
  | act a rest, position =>
      program[position]? = some a.instruction ∧ rest.Placed program table (position + 1)
  | loop body rest, position =>
      program[position]? = some .loopStart ∧
        program[position + body.size + 1]? = some .loopEnd ∧
        table[position]? = some (position + body.size + 1) ∧
        table[position + body.size + 1]? = some position ∧
        body.Placed program table (position + 1) ∧
        rest.Placed program table (position + body.size + 2)

theorem Paired.placed {program : Array Instruction} {table : Array Nat} {k : Code}
    {position : Nat} (h : k.Paired table position)
    (hprogram : ∀ i, i < k.size → program[position + i]? = k.flatten[i]?) :
    k.Placed program table position := by
  induction k generalizing position with
  | done => trivial
  | act a k ih =>
      simp only [size_act] at hprogram
      refine ⟨hprogram 0 (by omega), ih h fun i hi => ?_⟩
      have := hprogram (i + 1) (by omega)
      rwa [show position + (i + 1) = position + 1 + i by omega] at this
  | loop b k ihb ih =>
      obtain ⟨hstart, hend, hb, hk⟩ := h
      simp only [size_loop, flatten] at hprogram
      refine ⟨hprogram 0 (by omega), ?_, hstart, hend, ihb hb fun i hi => ?_,
        ih hk fun i hi => ?_⟩
      · have := hprogram (b.size + 1) (by omega)
        simpa [size, Nat.add_assoc] using this
      · have := hprogram (i + 1) (by omega)
        rw [List.getElem?_cons_succ, List.getElem?_append_left hi] at this
        rwa [show position + (i + 1) = position + 1 + i by omega] at this
      · have := hprogram (b.size + i + 2) (by omega)
        rw [List.getElem?_cons_succ, List.getElem?_append_right (by simp only [size]; omega),
          show b.size + i + 1 - b.flatten.length = i + 1 by simp only [size]; omega,
          List.getElem?_cons_succ] at this
        rwa [show position + (b.size + i + 2) = position + b.size + 2 + i by omega] at this

end Code

end TapeCompiler
