import TapeCompiler.Proofs.Passage
import TapeCompiler.Proofs.Recompilation

namespace TapeCompiler

open Compile Compilation

section

variable {options : CompileOptions} {nodes : List Node} {node : Node} {c d p q e : Compilation}
  {around : Option (Compilation × Node)} {m : Machine} {rounds count : Nat} {input : List CodePoint}

theorem Compile.program_place (hd : program options nodes c = .ok () d)
    (hcodes : ∀ code ∈ Node.verbatimsIn nodes, code = "&")
    (hmark : .statement node p q around ∈ programLandmarks options nodes) :
    Sound p ∧ (∀ code ∈ node.verbatims, code = "&") ∧
      (∃ call, form options call node p = .ok () q) ∧ q.Precedes d := by
  obtain ⟨flat, hexpands, hpasses⟩ := program_passed hd hmark
  obtain ⟨hp, -, hnode, hform, -, hafter⟩ := hpasses.place Sound.initial rfl
    (Gathers.verbatims.expands_initial hexpands (by simp [Node.verbatimsIn, Node.verbatims]) hcodes)
  exact ⟨hp, hnode, hform, hafter⟩

theorem Compile.program_visits (hd : program options nodes c = .ok () d)
    (hcodes : ∀ code ∈ Node.verbatimsIn nodes, code = "&")
    (hmark : .statement node p q around ∈ programLandmarks options nodes) {bound : Int} {n : Code}
    (hn : Emits bound p q n) (hsize : d.layout.highWater ≤ m.setting.size) {i : Nat}
    (hi : i ≤ n.size) (hpc : (m.moment rounds count d.code input).pc = p.position + i) :
    ∃ u v : World m.setting.bits, u.pointer = p.pointer ∧ Visits m.setting n u i v ∧
      Shows m.setting (m.moment rounds count d.code input) v ∧
      (Owned around → Ready true p u.cells) := by
  obtain ⟨flat, hexpands, hpasses⟩ := program_passed hd hmark
  have hdumps : ∀ code ∈ Node.verbatimsIn flat, code = "&" :=
    Gathers.verbatims.expands_initial hexpands (by simp [Node.verbatimsIn, Node.verbatims]) hcodes
  obtain ⟨k, hk⟩ := hpasses.lowered.emits Sound.initial rfl hdumps
  obtain ⟨v, hvisit, hshows⟩ := m.moment_visits hk.whole hk.leads hsize rounds count input
  obtain ⟨u, hu, hvisits, hready, -⟩ := hpasses.visits Sound.initial rfl hdumps hk hn
    (w := .initial m.setting.bits input) rfl hi (by rw [← hpc]; exact Nat.zero_add _) hvisit
  exact ⟨u, v, hu, hvisits, hshows, hready rfl fun _ _ _ => rfl⟩

theorem Compile.program_clears (hd : program options nodes c = .ok () d)
    (hcodes : ∀ code ∈ Node.verbatimsIn nodes, code = "&")
    (hmark : .statement node p q around ∈ programLandmarks options nodes) {base bound bound' : Int}
    {n : Nat} {r : Code} (hturns : Turns bound p e fun _ cells => zeroed base n cells)
    (hr : Emits bound' e q r) (hsize : d.layout.highWater ≤ m.setting.size)
    (hpc : (m.moment rounds count d.code input).pc = e.position) {x : Nat}
    (hx : (x : Int) < d.layout.highWater)
    (hcell : base ≤ x ∧ x < base + n ∨ p.layout.highWater ≤ x ∧ Owned around) :
    (m.moment rounds count d.code input).tape.cells[x]? = some 0 := by
  obtain ⟨l, hl, hrun⟩ := hturns
  obtain ⟨u, v, hu, hvisits, hshows, hready⟩ := program_visits hd hcodes hmark
    ((hl.mono (Int.le_max_left _ bound')).trans (hr.mono (Int.le_max_right bound _))) hsize
    (Code.le_size_append (Nat.le_refl l.size) r) (hpc.trans hl.position)
  cases (hvisits.append_left (Nat.le_refl _)).runs.deterministic (hrun _ u hu)
  rw [hshows.cells x (by omega)]
  have hzero : zeroed base n u.cells x = 0 := by
    by_cases hin : base ≤ x ∧ (x : Int) < base + n
    · exact if_pos hin
    · obtain ⟨hnew, howned⟩ := hcell.resolve_left hin
      exact (if_neg hin).trans (hready howned rfl x hnew)
  simp only [hzero]
  rfl

theorem declared_zero_on_every_pass {line : Int} {name : String} {type : CellType}
    {length : Option Int} (hd : Compile.program options nodes c = .ok () d)
    (hcodes : ∀ code ∈ Node.verbatimsIn nodes, code = "&")
    (hmark : .statement (.declare line name type length) p q around ∈
      programLandmarks options nodes)
    (m : Machine) (hsize : max 1 d.layout.highWater ≤ m.setting.size) :
    (∃ rest, d.code = q.code ++ rest) ∧ ∃ base : Nat,
      q.bindings.find? name = some ⟨base, (length.getD 1).toNat, type⟩ ∧
      ∀ (rounds count : Nat) (input : List CodePoint),
        (m.moment rounds count d.code input).pc = (Instruction.ofText q.code).length →
        ∀ i < (length.getD 1).toNat,
          length.isSome = true ∨ ((base + i : Nat) : Int) < p.layout.highWater ∨ Owned around →
          (m.moment rounds count d.code input).tape.cells[base + i]? = some 0 := by
  have hsize : d.layout.highWater ≤ m.setting.size := (le_max_right ..).trans hsize
  obtain ⟨hp, -, ⟨call, hform⟩, hafter⟩ := Compile.program_place hd hcodes hmark
  obtain ⟨base, hdeclares, harray⟩ := declare_turns hp hform
  obtain ⟨n, hn, hend, hturns⟩ := hdeclares.turns
  have hsound := hdeclares.sound hp
  have hsame : Emits d.layout.highWater q q .done := .same rfl rfl
  lift base to Nat using hdeclares.low
  have hbound : q.bindings.find? name = some ⟨base, (length.getD 1).toNat, type⟩ := by
    rw [hdeclares.bindings, Table.find?_insert, if_pos rfl]
  refine ⟨hafter.code, base, hbound, fun rounds count input hpc i hi hcase => ?_⟩
  have hlt : ((base + i : Nat) : Int) < d.layout.highWater := by
    have hlive : q.layout.status (base + i) ≠ .free := by
      rw [hsound.bound hbound i hi]
      simp
    have := hsound.dense.bounds hlive
    have := hafter.grows
    omega
  rcases hcase with hsome | hused | howned
  · exact Compile.program_clears hd hcodes hmark (harray hsome) hsame hsize hpc hlt
      (.inl (by omega))
  · exact Compile.program_clears hd hcodes hmark hturns hsame hsize hpc hlt (.inl (by omega))
  · refine Compile.program_clears hd hcodes hmark hturns hsame hsize hpc hlt ?_
    by_cases hused : ((base + i : Nat) : Int) < p.layout.highWater
    · exact .inl (by omega)
    · exact .inr ⟨by omega, howned⟩

def Landmark.declared (m : Machine) (rounds count : Nat) (input : List CodePoint) (name : String)
    (cell : Nat) (value : Int) (d : Compilation) : Landmark → Bool
  | .statement (.declare _ other type none) _ q _ =>
      other = name ∧ max 1 d.layout.highWater ≤ m.setting.size ∧
        q.bindings.find? name = some ⟨cell, 1, type⟩ ∧
        (m.moment rounds count d.code input).pc = (Instruction.ofText q.code).length ∧
        (m.moment rounds count d.code input).tape.cells[cell]? = some value
  | _ => false

theorem Landmark.of_declared {name : String} {cell : Nat} {value : Int} {mark : Landmark}
    (h : mark.declared m rounds count input name cell value d = true) :
    ∃ line type p q around, mark = .statement (.declare line name type none) p q around ∧
      max 1 d.layout.highWater ≤ m.setting.size ∧ q.bindings.find? name = some ⟨cell, 1, type⟩ ∧
      (m.moment rounds count d.code input).pc = (Instruction.ofText q.code).length ∧
      (m.moment rounds count d.code input).tape.cells[cell]? = some value := by
  unfold Landmark.declared at h
  split at h
  · obtain ⟨rfl, hrest⟩ := of_decide_eq_true h
    exact ⟨_, _, _, _, _, rfl, hrest⟩
  · cases h

def Landmark.settled (taken : Int) : Landmark → Bool
  | .statement _ p _ (some (start, .loop line test body)) =>
      p.layout.highWater = taken && body.all Node.isPlain &&
        (Node.ownIn? false start.bindings.names [] [.loop line test body]).isSome
  | _ => false

theorem Landmark.of_settled {taken : Int}
    (h : (Landmark.statement node p q around).settled taken = true) :
    p.layout.highWater = taken ∧ around.isSome = true ∧ Owned around := by
  unfold Landmark.settled at h
  split at h
  · rename_i heq
    cases heq
    simp only [Bool.and_eq_true, decide_eq_true_eq] at h
    refine ⟨h.1.1, rfl, fun start loop heq flat bodies hflat => ?_⟩
    cases heq
    obtain ⟨rfl, -⟩ := hflat.unique (.loop (.of_plain h.1.2 _) .nil)
    exact h.2
  · cases h

def Node.tidyRounds : List Node :=
  [.declare 1 "c" .number none, .input 2 "c",
    .loop 3 (.var "c" none) [
      .unsafeBlock 4 1 [.unsafeShow 5], .declare 6 "x" .number none, .declare 7 "y" .number none,
      .assign 8 "x" none (.literal 3 false), .assign 9 "y" none (.literal 7 false),
      .remove 10 "y", .remove 11 "x", .input 12 "c"]]

theorem declared_zero_on_every_pass_tidyRounds :
    ∃ d line type p q around, Compile.program {} Node.tidyRounds Compilation.initial = .ok () d ∧
      Node.verbatimsIn Node.tidyRounds = [] ∧
      .statement (.declare line "y" type none) p q around ∈ programLandmarks {} Node.tidyRounds ∧
      max 1 d.layout.highWater ≤ ((Machine.small none).setting.size : Int) ∧
      p.layout.highWater = 2 ∧ around.isSome = true ∧ Owned around ∧
      ((Machine.small none).moment 4 2 d.code "ab").pc = (Instruction.ofText q.code).length ∧
      ((Machine.small none).moment 4 2 d.code "ab").tape.cells[2]? = some 0 := by
  obtain ⟨d, hd, mark, hmark, hcheck⟩ := exists_of_comesTo (show comesTo {} Node.tidyRounds
    (fun d mark => mark.declared (Machine.small none) 4 2 "ab" "y" 2 0 d && mark.settled 2) = true
      by decide +kernel)
  rw [Bool.and_eq_true] at hcheck
  obtain ⟨line, type, p, q, around, rfl, hsize, hbound, hpc, -⟩ := Landmark.of_declared hcheck.1
  obtain ⟨hwater, hsome, howned⟩ := Landmark.of_settled hcheck.2
  obtain ⟨-, base, hbase, hzero⟩ := declared_zero_on_every_pass hd (by simp [Node.verbatimsIn,
    Node.verbatims, Node.tidyRounds]) hmark (Machine.small none) hsize
  cases hbase.symm.trans hbound
  exact ⟨d, line, type, p, q, around, hd, rfl, hmark, hsize, hwater, hsome, howned, hpc,
    hzero 4 2 "ab" hpc 0 Nat.one_pos (.inr (.inr howned))⟩

def Node.leftover : List Node :=
  [.declare 1 "c" .number none, .assign 2 "c" none (.literal 1 false),
    .loop 3 (.var "c" none) [
      .declare 4 "y" .number none, .display 5 (.var "y" none),
      .assign 6 "y" none (.literal 1 false), .input 7 "c"]]

theorem declaration_keeps_old_value :
    ∃ d line type p q around, Compile.program {} Node.leftover Compilation.initial = .ok () d ∧
      Node.verbatimsIn Node.leftover = [] ∧
      .statement (.declare line "y" type none) p q around ∈ programLandmarks {} Node.leftover ∧
      max 1 d.layout.highWater ≤ ((Machine.small none).setting.size : Int) ∧
      q.bindings.find? "y" = some ⟨(1 : Nat), 1, type⟩ ∧
      ((Machine.small none).moment 2 1 d.code "a").pc = (Instruction.ofText q.code).length ∧
      ((Machine.small none).moment 2 1 d.code "a").tape.cells[1]? = some 1 := by
  obtain ⟨d, hd, mark, hmark, hcheck⟩ := exists_of_comesTo (show comesTo {} Node.leftover
    (Landmark.declared (Machine.small none) 2 1 "a" "y" 1 1) = true by decide +kernel)
  obtain ⟨line, type, p, q, around, rfl, hrest⟩ := Landmark.of_declared hcheck
  exact ⟨d, line, type, p, q, around, hd, rfl, hmark, hrest⟩

theorem block_zero_on_every_entry {line size : Int} {body : List Node}
    (hd : Compile.program options nodes c = .ok () d)
    (hcodes : ∀ code ∈ Node.verbatimsIn nodes, code = "&")
    (hmark : .statement (.unsafeBlock line size body) p q around ∈ programLandmarks options nodes)
    (m : Machine) (hsize : max 1 d.layout.highWater ≤ m.setting.size) :
    (∃ rest, d.code = (p.startBlock size).code ++ rest) ∧ ∃ start : Nat,
      (p.startBlock size).unsafeRegion = some ⟨start, size⟩ ∧
      ∀ (rounds count : Nat) (input : List CodePoint),
        (m.moment rounds count d.code input).pc =
          (Instruction.ofText (p.startBlock size).code).length →
        ∀ i : Nat, i < size → ((start + i : Nat) : Int) < p.layout.highWater ∨ Owned around →
          (m.moment rounds count d.code input).tape.cells[start + i]? = some 0 := by
  have hsize : d.layout.highWater ≤ m.setting.size := (le_max_right ..).trans hsize
  obtain ⟨hp, hnode, ⟨call, hform⟩, hafter⟩ := Compile.program_place hd hcodes hmark
  obtain ⟨hpositive, -, -⟩ := unsafeBlock_ok hform
  obtain ⟨hbefore, hbody, -⟩ := unsafeBlock_parts (S := fun _ => False) hp (fun hx => hx.elim) hform
  obtain ⟨r, hr, -⟩ := hbody.code fun code hmem => hnode code hmem ▸ moveless_dump
  obtain ⟨n, hn, hend, hturns⟩ := startBlock_turns hp hpositive
  obtain ⟨h0, -, -⟩ := Layout.firstFit_spec hp.dense size
  have hregion : (p.startBlock size).unsafeRegion = some ⟨p.layout.firstFit size, size⟩ :=
    (Same.moveTo (p.enterBlock size) _).unsafeRegion
  have hwithin := hbefore.sound.region_bounds hpositive hregion
  generalize p.layout.firstFit size = start at hend hturns h0 hregion hwithin
  lift start to Nat using h0
  have hcode := (hr.precedes hbody.grows).trans hafter
  refine ⟨hcode.code, start, hregion, fun rounds count input hpc i hi hcase => ?_⟩
  have hlt : ((start + i : Nat) : Int) < d.layout.highWater := by
    have := hcode.grows
    omega
  refine Compile.program_clears hd hcodes hmark hturns hr hsize hpc hlt ?_
  by_cases hused : ((start + i : Nat) : Int) < p.layout.highWater
  · exact .inl (by omega)
  · exact .inr ⟨by omega, hcase.resolve_left hused⟩

def Landmark.entered (m : Machine) (rounds count : Nat) (input : List CodePoint) (cell : Nat)
    (value : Int) (d : Compilation) : Landmark → Bool
  | .statement (.unsafeBlock _ size _) p _ _ =>
      0 < size ∧ max 1 d.layout.highWater ≤ m.setting.size ∧
        (p.startBlock size).unsafeRegion = some ⟨cell, size⟩ ∧
        (m.moment rounds count d.code input).pc =
          (Instruction.ofText (p.startBlock size).code).length ∧
        (m.moment rounds count d.code input).tape.cells[cell]? = some value
  | _ => false

theorem Landmark.of_entered {cell : Nat} {value : Int} {mark : Landmark}
    (h : mark.entered m rounds count input cell value d = true) :
    ∃ line size body p q around, mark = .statement (.unsafeBlock line size body) p q around ∧
      0 < size ∧ max 1 d.layout.highWater ≤ m.setting.size ∧
      (p.startBlock size).unsafeRegion = some ⟨cell, size⟩ ∧
      (m.moment rounds count d.code input).pc =
        (Instruction.ofText (p.startBlock size).code).length ∧
      (m.moment rounds count d.code input).tape.cells[cell]? = some value := by
  unfold Landmark.entered at h
  split at h
  · exact ⟨_, _, _, _, _, _, rfl, of_decide_eq_true h⟩
  · cases h

theorem block_zero_on_every_entry_tidyRounds :
    ∃ d line size body p q around,
      Compile.program {} Node.tidyRounds Compilation.initial = .ok () d ∧
      Node.verbatimsIn Node.tidyRounds = [] ∧
      .statement (.unsafeBlock line size body) p q around ∈ programLandmarks {} Node.tidyRounds ∧
      max 1 d.layout.highWater ≤ ((Machine.small none).setting.size : Int) ∧
      p.layout.highWater = 1 ∧ around.isSome = true ∧ Owned around ∧
      (p.startBlock size).unsafeRegion = some ⟨(1 : Nat), size⟩ ∧
      ((Machine.small none).moment 3 2 d.code "ab").pc =
        (Instruction.ofText (p.startBlock size).code).length ∧
      ((Machine.small none).moment 3 2 d.code "ab").tape.cells[1]? = some 0 := by
  obtain ⟨d, hd, mark, hmark, hcheck⟩ := exists_of_comesTo (show comesTo {} Node.tidyRounds
    (fun d mark => mark.entered (Machine.small none) 3 2 "ab" 1 0 d && mark.settled 1) = true by
      decide +kernel)
  rw [Bool.and_eq_true] at hcheck
  obtain ⟨line, size, body, p, q, around, rfl, hpositive, hsize, hregion, hpc, -⟩ :=
    Landmark.of_entered hcheck.1
  obtain ⟨hwater, hsome, howned⟩ := Landmark.of_settled hcheck.2
  obtain ⟨-, start, hstart, hzero⟩ := block_zero_on_every_entry hd (by simp [Node.verbatimsIn,
    Node.verbatims, Node.tidyRounds]) hmark (Machine.small none) hsize
  cases hstart.symm.trans hregion
  exact ⟨d, line, size, body, p, q, around, hd, rfl, hmark, hsize, hwater, hsome, howned, hregion,
    hpc, hzero 3 2 "ab" hpc 0 hpositive (.inr howned)⟩

def Node.reentry : List Node :=
  [.declare 1 "c" .number none, .assign 2 "c" none (.literal 1 false),
    .loop 3 (.var "c" none) [
      .unsafeBlock 4 1 [.unsafeShow 5], .declare 6 "y" .number none,
      .assign 7 "y" none (.literal 1 false), .input 8 "c"]]

theorem block_reentered_with_old_value :
    ∃ d line size body p q around,
      Compile.program {} Node.reentry Compilation.initial = .ok () d ∧
      Node.verbatimsIn Node.reentry = [] ∧
      .statement (.unsafeBlock line size body) p q around ∈ programLandmarks {} Node.reentry ∧
      0 < size ∧ max 1 d.layout.highWater ≤ ((Machine.small none).setting.size : Int) ∧
      (p.startBlock size).unsafeRegion = some ⟨(1 : Nat), size⟩ ∧
      ((Machine.small none).moment 2 2 d.code "a").pc =
        (Instruction.ofText (p.startBlock size).code).length ∧
      ((Machine.small none).moment 2 2 d.code "a").tape.cells[1]? = some 1 := by
  obtain ⟨d, hd, mark, hmark, hcheck⟩ := exists_of_comesTo (show comesTo {} Node.reentry
    (Landmark.entered (Machine.small none) 2 2 "a" 1 1) = true by decide +kernel)
  obtain ⟨line, size, body, p, q, around, rfl, hrest⟩ := Landmark.of_entered hcheck
  exact ⟨d, line, size, body, p, q, around, hd, rfl, hmark, hrest⟩

end

end TapeCompiler
