import TapeCompiler.Proofs.Expansion
import TapeCompiler.Proofs.Running

namespace TapeCompiler

open Compilation

def Instruction.shift : Instruction → Int
  | right => 1
  | left => -1
  | _ => 0

def offset (program : List Instruction) : Int := program.count .right - program.count .left

@[simp] theorem offset_nil : offset [] = 0 := rfl

@[simp] theorem offset_cons (i : Instruction) (program : List Instruction) :
    offset (i :: program) = i.shift + offset program := by
  cases i <;> simp [offset, Instruction.shift] <;> omega

@[simp] theorem offset_append (program rest : List Instruction) :
    offset (program ++ rest) = offset program + offset rest := by
  simp only [offset, List.count_append]
  omega

theorem offset_take_succ {program : List Instruction} {n : Nat} {i : Instruction}
    (h : program[n]? = some i) :
    offset (program.take (n + 1)) = offset (program.take n) + i.shift := by
  simp [List.take_add_one, h]

theorem Action.shift_instruction (a : Action) : a.instruction.shift = a.shift := by
  cases a <;> rfl

theorem Action.instruction_ne (a : Action) :
    a.instruction ≠ .loopStart ∧ a.instruction ≠ .loopEnd := by
  cases a <;> simp [instruction]

namespace Code

variable {bound p q : Int} {k : Code}

theorem Leads.offset (h : k.Leads bound p q) : offset k.flatten = q - p := by
  induction k generalizing p q with
  | done =>
      cases h
      simp [flatten]
  | act a k ih =>
      rw [flatten, offset_cons, ih h.2.2, a.shift_instruction]
      omega
  | loop b k ihb ih =>
      rw [flatten, offset_cons, offset_append, offset_cons, ihb h.1, ih h.2]
      simp [Instruction.shift]

theorem Leads.offset_take (h : k.Leads bound p q) (hp : 0 ≤ p ∧ p < bound) (n : Nat) :
    0 ≤ p + TapeCompiler.offset (k.flatten.take n) ∧
      p + TapeCompiler.offset (k.flatten.take n) < bound := by
  induction k generalizing p q n with
  | done => simpa [flatten] using hp
  | act a k ih =>
      cases n with
      | zero => simpa using hp
      | succ n =>
          have := ih h.2.2 ⟨h.1, h.2.1⟩ n
          rw [flatten, List.take_succ_cons, offset_cons, a.shift_instruction]
          omega
  | loop b k ihb ih =>
      cases n with
      | zero => simpa using hp
      | succ n =>
          have hb := ihb h.1 hp n
          have hk := ih h.2 hp (n - b.size - 1)
          rw [flatten, List.take_succ_cons, offset_cons, List.take_append, offset_append]
          obtain hn | ⟨n', hn⟩ : n - b.size = 0 ∨ ∃ n', n - b.size = n' + 1 := by
            rcases Nat.eq_zero_or_eq_succ_pred (n - b.size) with hn | hn
            · exact .inl hn
            · exact .inr ⟨_, hn⟩
          · rw [← size, hn]
            simpa [Instruction.shift] using hb
          · have hzero := h.1.offset
            rw [← size, hn, List.take_succ_cons, offset_cons,
              List.take_of_length_le (by rw [← size]; omega)]
            rw [hn, Nat.add_sub_cancel] at hk
            simp only [Instruction.shift]
            omega

theorem offset_take_body {b : Code} {n : Nat} (hn : n ≤ b.size) :
    TapeCompiler.offset ((loop b k).flatten.take (n + 1)) =
      TapeCompiler.offset (b.flatten.take n) := by
  rw [flatten, List.take_succ_cons, offset_cons, List.take_append_of_le_length hn]
  simp [Instruction.shift]

theorem offset_take_rest {b : Code} (hb : b.Leads bound p p) (n : Nat) :
    TapeCompiler.offset ((loop b k).flatten.take (b.size + 2 + n)) =
      TapeCompiler.offset (k.flatten.take n) := by
  rw [flatten, show b.size + 2 + n = b.size + (n + 1) + 1 by omega, List.take_succ_cons,
    size, List.take_length_add_append, List.take_succ_cons]
  simp [Instruction.shift, hb.offset]

theorem Leads.level {program : Array Instruction} {table : Array Nat} {position i : Nat}
    (h : k.Leads bound p q) (hplaced : k.Placed program table position)
    (hi : k.flatten[i]? = some .loopStart ∨ k.flatten[i]? = some .loopEnd) :
    ∃ j, table[position + i]? = some (position + j) ∧ j < k.size ∧
      TapeCompiler.offset (k.flatten.take (j + 1)) =
        TapeCompiler.offset (k.flatten.take i) := by
  induction k generalizing position i p q with
  | done => simp [flatten] at hi
  | act a k ih =>
      cases i with
      | zero =>
          simp only [flatten, List.getElem?_cons_zero, Option.some.injEq] at hi
          exact absurd hi (by simpa using a.instruction_ne)
      | succ i =>
          obtain ⟨j, htable, hj, hoffset⟩ := ih h.2.2 hplaced.2 hi
          refine ⟨j + 1, ?_, by simpa using hj, ?_⟩
          · rw [show position + (i + 1) = position + 1 + i by omega, htable]
            congr 1
            omega
          · rw [flatten, List.take_succ_cons, List.take_succ_cons, offset_cons, offset_cons,
              hoffset]
  | loop b k ihb ih =>
      obtain ⟨-, -, hstart, hend, hbplaced, hkplaced⟩ := hplaced
      have hbody := h.1.offset
      cases i with
      | zero =>
          refine ⟨b.size + 1, hstart, by rw [size_loop]; omega, ?_⟩
          exact offset_take_rest h.1 0
      | succ i =>
          rcases Nat.lt_trichotomy i b.size with hlt | rfl | hgt
          · have hi' : b.flatten[i]? = some .loopStart ∨ b.flatten[i]? = some .loopEnd := by
              rwa [flatten, List.getElem?_cons_succ, List.getElem?_append_left hlt] at hi
            obtain ⟨j, htable, hj, hoffset⟩ := ihb h.1 hbplaced hi'
            refine ⟨j + 1, ?_, by rw [size_loop]; omega, ?_⟩
            · rw [show position + (i + 1) = position + 1 + i by omega, htable]
              congr 1
              omega
            · rw [offset_take_body (by omega), offset_take_body hlt.le, hoffset]
          · refine ⟨0, by rw [← Nat.add_assoc]; exact hend, by simp, ?_⟩
            rw [offset_take_body (Nat.zero_le _), offset_take_body (Nat.le_refl _), size,
              List.take_length, hbody]
            simp
          · obtain ⟨i, rfl⟩ : ∃ i', i = b.size + 1 + i' := ⟨i - b.size - 1, by omega⟩
            have hi' : k.flatten[i]? = some .loopStart ∨ k.flatten[i]? = some .loopEnd := by
              rwa [flatten, List.getElem?_cons_succ,
                List.getElem?_append_right (by simp only [size]; omega),
                show b.size + 1 + i - b.flatten.length = i + 1 by simp only [size]; omega,
                List.getElem?_cons_succ] at hi
            obtain ⟨j, htable, hj, hoffset⟩ := ih h.2 hkplaced hi'
            refine ⟨b.size + 2 + j, ?_, by rw [size_loop]; omega, ?_⟩
            · rw [show position + (b.size + 1 + i + 1) = position + b.size + 2 + i by omega, htable]
              congr 1
              omega
            · rw [show b.size + 2 + j + 1 = b.size + 2 + (j + 1) by omega, offset_take_rest h.1,
                show b.size + 1 + i + 1 = b.size + 2 + i by omega, offset_take_rest h.1, hoffset]

end Code

structure Tracked (k : Code) (m : Machine) : Prop where
  program : m.program = k.flatten.toArray
  placed : k.Placed m.program m.jumps 0
  size : m.tape.cells.size = m.setting.size
  pc : m.pc ≤ k.size
  pointer : (m.tape.pointer : Int) = offset (k.flatten.take m.pc)

namespace Tracked

variable {k : Code} {m m' : Machine} {bound q : Int}

theorem fetch {i : Instruction} (h : Tracked k m) (hi : m.program[m.pc]? = some i) :
    k.flatten[m.pc]? = some i ∧ m.pc + 1 ≤ k.size ∧
      offset (k.flatten.take (m.pc + 1)) = m.tape.pointer + i.shift := by
  rw [h.program, List.getElem?_toArray] at hi
  refine ⟨hi, (List.getElem?_eq_some_iff.1 hi).1, ?_⟩
  rw [offset_take_succ hi, h.pointer]

theorem move (h : Tracked k m) (hprogram : m'.program = m.program) (hjumps : m'.jumps = m.jumps)
    (hsetting : m'.setting = m.setting) (hsize : m'.tape.cells.size = m.tape.cells.size)
    (hpc : m'.pc ≤ k.size) (hpointer : (m'.tape.pointer : Int) = offset (k.flatten.take m'.pc)) :
    Tracked k m' :=
  ⟨hprogram.trans h.program, by rw [hprogram, hjumps]; exact h.placed,
    by rw [hsize, hsetting, h.size], hpc, hpointer⟩

theorem steps (h : Tracked k m) (n : Nat) : Tracked k { m with steps := n } :=
  ⟨h.program, h.placed, h.size, h.pc, h.pointer⟩

theorem next (h : Tracked k m) {i : Instruction} (hi : m.program[m.pc]? = some i)
    (hshift : i.shift = 0) (hprogram : m'.program = m.program) (hjumps : m'.jumps = m.jumps)
    (hsetting : m'.setting = m.setting) (hsize : m'.tape.cells.size = m.tape.cells.size)
    (hpc : m'.pc = m.pc + 1) (hpointer : m'.tape.pointer = m.tape.pointer) : Tracked k m' := by
  obtain ⟨-, hle, hoffset⟩ := h.fetch hi
  refine h.move hprogram hjumps hsetting hsize (by omega) ?_
  rw [hpointer, hpc, hoffset, hshift, Int.add_zero]

theorem bounds (h : Tracked k m) (hleads : k.Leads bound 0 q) (hpos : 0 < bound) :
    (m.tape.pointer : Int) < bound := by
  have := hleads.offset_take ⟨Int.le_refl 0, hpos⟩ m.pc
  have := h.pointer
  omega

theorem jump (h : Tracked k m) (hleads : k.Leads bound 0 q)
    (hi : m.program[m.pc]? = some .loopStart ∨ m.program[m.pc]? = some .loopEnd) {pc : Nat}
    (hpc : pc = m.pc + 1 ∨ pc = m.partner + 1) : Tracked k { m with pc } := by
  rcases hpc with rfl | rfl
  · rcases hi with hi | hi <;> exact h.next hi rfl rfl rfl rfl rfl rfl rfl
  · have hi' : k.flatten[m.pc]? = some .loopStart ∨ k.flatten[m.pc]? = some .loopEnd := by
      rwa [h.program, List.getElem?_toArray] at hi
    obtain ⟨j, htable, hj, hlevel⟩ := hleads.level h.placed hi'
    have hpartner : m.partner = j := by
      rw [Machine.partner, Array.getD_eq_getD_getElem?]
      simpa using congrArg (Option.getD · m.pc) htable
    refine h.move rfl rfl rfl rfl (by rw [hpartner]; exact hj) ?_
    rw [hpartner, hlevel, h.pointer]

theorem perform (h : Tracked k m) (hleads : k.Leads bound 0 q) (hpos : 0 < bound)
    (hbound : bound ≤ m.setting.size) {i : Instruction} (hi : m.program[m.pc]? = some i)
    (hstop : i.stop? = none) : Tracked k (m.perform i) := by
  obtain ⟨hfetch, hle, hoffset⟩ := h.fetch hi
  obtain ⟨hlow, hhigh⟩ := hleads.offset_take ⟨Int.le_refl 0, hpos⟩ (m.pc + 1)
  have hin := h.bounds hleads hpos
  have hsize := h.size
  cases i with
  | right =>
      refine h.move rfl rfl rfl rfl hle ?_
      simp only [Machine.perform, Tape.right, hoffset, Instruction.shift] at hhigh ⊢
      rw [Nat.mod_eq_of_lt (by omega)]
      omega
  | left =>
      refine h.move rfl rfl rfl rfl hle ?_
      simp only [Machine.perform, Tape.left, hoffset, Instruction.shift] at hlow ⊢
      rw [show m.tape.pointer + (m.tape.cells.size - 1) =
        m.tape.pointer - 1 + m.tape.cells.size by omega, Nat.add_mod_right,
        Nat.mod_eq_of_lt (by omega)]
      omega
  | increment => exact h.next hi rfl rfl rfl rfl (by simp [Machine.perform, Tape.add]) rfl rfl
  | decrement => exact h.next hi rfl rfl rfl rfl (by simp [Machine.perform, Tape.add]) rfl rfl
  | loopStart =>
      refine h.jump hleads (.inl hi) ?_
      split
      · exact .inr rfl
      · exact .inl rfl
  | loopEnd =>
      refine h.jump hleads (.inr hi) ?_
      split
      · exact .inl rfl
      · exact .inr rfl
  | put => cases hstop
  | putChar => cases hstop
  | get => cases hstop
  | dump => cases hstop

theorem slice (h : Tracked k m) (hleads : k.Leads bound 0 q) (hpos : 0 < bound)
    (hbound : bound ≤ m.setting.size) (budget : Nat) : Tracked k (m.slice budget).machine := by
  fun_induction Machine.slice budget m with
  | case1 m => exact h
  | case2 m budget hi => exact h
  | case3 m budget i hi stop hstop => exact h
  | case4 m budget i hi hstop ih =>
      exact ih (h.perform hleads hpos hbound hi hstop) (by rwa [Machine.setting_perform])

theorem answer (h : Tracked k m) (input : List CodePoint) {i : Instruction} {stop : Stop}
    (hi : m.program[m.pc]? = some i) (hstop : i.stop? = some stop) :
    Tracked k (m.answer input stop).1 := by
  cases i with
  | put =>
      cases hstop
      exact h.next hi rfl rfl rfl rfl rfl rfl rfl
  | putChar =>
      cases hstop
      simp only [Machine.answer]
      split
      · exact h
      · exact h.next hi rfl rfl rfl rfl rfl rfl rfl
  | get =>
      cases hstop
      simp only [Machine.answer]
      split
      · exact h
      · exact h.next hi rfl rfl rfl rfl (by simp [Machine.pass, Machine.store, Tape.write]) rfl rfl
  | dump =>
      cases hstop
      exact h.next hi rfl rfl rfl rfl rfl rfl rfl
  | right => cases hstop
  | left => cases hstop
  | increment => cases hstop
  | decrement => cases hstop
  | loopStart => cases hstop
  | loopEnd => cases hstop

theorem tick (h : Tracked k m) (hleads : k.Leads bound 0 q) (hpos : 0 < bound)
    (hbound : bound ≤ m.setting.size) (input : List CodePoint) : Tracked k (m.tick input).1 := by
  rw [Machine.tick]
  split
  · exact h
  · rename_i i hi
    split
    · rename_i stop hstop
      exact h.answer input hi hstop
    · rename_i hstop
      exact (h.perform hleads hpos hbound hi hstop).steps _

theorem round (h : Tracked k m) (hleads : k.Leads bound 0 q) (hpos : 0 < bound)
    (hbound : bound ≤ m.setting.size) (chunk : Nat) (input : List CodePoint) :
    Tracked k (m.round chunk input).1 := by
  rw [Machine.round]
  split
  · exact h
  · rename_i budget _
    dsimp only
    have hslice := h.slice hleads hpos hbound budget
    rcases Machine.slice_stop budget m with ⟨hstop, -⟩ | htick
    · rw [hstop]
      exact hslice.steps _
    · rw [← htick]
      exact (hslice.steps _).tick hleads hpos (by rwa [Machine.setting_slice]) input

theorem resume (h : Tracked k m) (hleads : k.Leads bound 0 q) (hpos : 0 < bound)
    (hbound : bound ≤ m.setting.size) (chunk rounds : Nat) (input : List CodePoint) :
    Tracked k (Machine.resume chunk rounds input m).1 := by
  induction rounds generalizing m input with
  | zero => exact h
  | succ rounds ih =>
      have hround := h.round hleads hpos hbound chunk input
      have hsetting := Machine.setting_round m chunk input
      rw [Machine.resume]
      split <;> rename_i heq <;> rw [heq] at hround hsetting
      · exact ih hround (by rwa [hsetting]) _
      · exact hround
      · exact hround

theorem load (m : Machine) {text : String} (h : Instruction.ofText text = k.flatten) :
    Tracked k (m.load text).1 :=
  have hholds := (m.load_holds h).2
  ⟨hholds.program, hholds.placed, by simp [Machine.load, Machine.blank, Tape.blank],
    by rw [hholds.pc]; exact Nat.zero_le _, by rw [hholds.pc]; rfl⟩

theorem run (m : Machine) {text : String} (h : Instruction.ofText text = k.flatten)
    (hleads : k.Leads bound 0 q) (hpos : 0 < bound) (hbound : bound ≤ m.setting.size)
    (rounds : Nat) (input : List CodePoint) : Tracked k (m.run rounds text input).1 := by
  rw [Machine.run_eq m h]
  exact (load m h).resume hleads hpos hbound _ _ _

end Tracked

namespace Compile

variable {options : CompileOptions} {nodes : List Node} {c d : Compilation}

theorem expanded_moveless {flat : List Node} {bodies : Table (List Node)}
    (h : Expands Functions.initial.bodies nodes flat bodies)
    (hcodes : ∀ code ∈ Node.verbatimsIn nodes, Moveless code) :
    ∀ code ∈ Node.verbatimsIn flat, Moveless code :=
  Gathers.verbatims.expands_initial h
    (by simpa [Node.verbatimsIn, Node.verbatims] using moveless_dump) hcodes

theorem program_emits (hd : program options nodes c = .ok () d)
    (hcodes : ∀ code ∈ Node.verbatimsIn nodes, Moveless code) :
    ∃ k : Code, Instruction.ofText d.code = k.flatten ∧
      k.Leads d.layout.highWater 0 d.pointer := by
  obtain ⟨flat, hexpands, hlowered⟩ := program_lowered hd
  obtain ⟨k, hk, -⟩ := (hlowered.keeps Sound.initial rfl).1.code (expanded_moveless hexpands hcodes)
  exact ⟨k, hk.whole, hk.leads⟩

end Compile

def Machine.moment (m : Machine) (rounds count : Nat) (program : String)
    (input : List CodePoint) : Machine :=
  ((m.run rounds program input).1.slice count).machine

theorem pointer_tracked {options : CompileOptions} {nodes : List Node} {c d : Compilation}
    (hd : Compile.program options nodes c = .ok () d)
    (hcodes : ∀ code ∈ Node.verbatimsIn nodes, Moveless code) (m : Machine)
    (hsize : max 1 d.layout.highWater ≤ m.setting.size) :
    (m.load d.code).2 = none ∧
    (∀ rounds count input,
      ((m.moment rounds count d.code input).tape.pointer : Int) =
        offset ((Instruction.ofText d.code).take (m.moment rounds count d.code input).pc) ∧
      ((m.moment rounds count d.code input).tape.pointer : Int) < max 1 d.layout.highWater) ∧
    ∀ rounds input m', m.run rounds d.code input = (m', .finished) →
      (m'.tape.pointer : Int) = d.pointer := by
  obtain ⟨k, hk, hleads⟩ := Compile.program_emits hd hcodes
  have hleads' := hleads.mono (Int.le_max_right 1 d.layout.highWater)
  have hpos : 0 < max 1 d.layout.highWater := by omega
  have hrun := Tracked.run m hk hleads' hpos hsize
  refine ⟨(m.load_holds hk).1, fun rounds count input => ?_, fun rounds input m' hfinished => ?_⟩
  · have hmoment : Tracked k (m.moment rounds count d.code input) :=
      (hrun rounds input).slice hleads' hpos
        (by rw [Machine.run_eq m hk, Machine.setting_resume]; exact hsize) count
    exact ⟨by rw [hk]; exact hmoment.pointer, hmoment.bounds hleads' hpos⟩
  · have htracked := hrun rounds input
    rw [hfinished] at htracked
    rw [Machine.run_eq m hk] at hfinished
    have hend := Machine.resume_finished hfinished
    rw [htracked.program, List.getElem?_toArray, List.getElem?_eq_none_iff] at hend
    rw [htracked.pointer, List.take_of_length_le hend, hleads.offset, Int.sub_zero]

def Node.countdown : List Node :=
  [.declare 1 "i" .number none, .declare 2 "a" .number (some 3), .input 3 "i",
    .function 4 "mark" [
      .assign 5 "a" (some (.var "i" none)) (.math .minus (.var "i" none) .max),
      .call 6 "__dump"],
    .loop 7 (.var "i" none) [
      .assign 8 "i" none (.math .minus (.var "i" none) (.literal 1 false)),
      .call 9 "mark"],
    .unsafeBlock 10 2 [.unsafeGoto 11 1, .verbatim 12 "+,~"]]

theorem pointer_tracked_countdown :
    ∃ d, Compile.program {} Node.countdown Compilation.initial = .ok () d ∧
      max 1 d.layout.highWater ≤ ((Machine.small (some 1000000)).setting.size : Int) ∧
      (∀ code ∈ Node.verbatimsIn Node.countdown, Moveless code) ∧
      ((Machine.small (some 1000000)).load d.code).2 = none ∧
      (∀ rounds count input,
        (((Machine.small (some 1000000)).moment rounds count d.code input).tape.pointer : Int) =
          offset ((Instruction.ofText d.code).take
            ((Machine.small (some 1000000)).moment rounds count d.code input).pc) ∧
        (((Machine.small (some 1000000)).moment rounds count d.code input).tape.pointer : Int) <
          max 1 d.layout.highWater) ∧
      ∀ rounds input m', (Machine.small (some 1000000)).run rounds d.code input = (m', .finished) →
        (m'.tape.pointer : Int) = d.pointer := by
  have hcodes : ∀ code ∈ Node.verbatimsIn Node.countdown, Moveless code := by
    simp [Node.countdown, Node.verbatimsIn, Node.verbatims, Moveless]
  obtain ⟨d, hd, hsize⟩ := Compile.exists_of_fits
    (show Compile.fits {} Node.countdown 20 = true by decide +kernel)
  exact ⟨d, hd, hsize, hcodes, pointer_tracked hd hcodes (Machine.small (some 1000000)) hsize⟩

end TapeCompiler
