import TapeCompiler.Program
import TapeCompiler.Proofs.Tracking

namespace TapeCompiler

def Tape.value (tape : Tape) (address : Nat) : Int := tape.cells.getD address 0

namespace Tape

variable {tape tape' : Tape}

theorem value_write (h : tape.pointer < tape.cells.size) (value : Int) (address : Nat) :
    (tape.write value).value address =
      if address = tape.pointer then value else tape.value address := by
  simp only [Tape.value, write, Array.getD_eq_getD_getElem?, Array.getElem?_setIfInBounds]
  split
  · rename_i heq
    rw [if_pos heq.symm, Option.getD_some]
  · rename_i hne
    rw [if_neg (Ne.symm hne)]

theorem value_add (h : tape.pointer < tape.cells.size) (modulus : Nat) (amount : Int)
    (address : Nat) :
    (tape.add modulus amount).value address =
      if address = tape.pointer then (tape.read + amount) % modulus else tape.value address := by
  simp only [Tape.value, add, read, Array.getD_eq_getD_getElem?, Array.getElem?_modify]
  split
  · rename_i heq
    subst heq
    simp [h]
  · rename_i hne
    rw [if_neg (Ne.symm hne)]

theorem value_eq_zero (h : tape.cells.size ≤ address) : tape.value address = 0 := by
  rw [Tape.value, Array.getD_eq_getD_getElem?, Array.getElem?_eq_none h]
  rfl

theorem value_blank (size address : Nat) : (blank size).value address = 0 := by
  simp only [Tape.value, blank, Array.getD_eq_getD_getElem?, Array.getElem?_replicate]
  split <;> rfl

theorem nonzero_eq {count : Nat} (h : tape.cells.size ≤ count) :
    tape.nonzero =
      ((List.range count).filter (tape.value · ≠ 0)).map fun address =>
        (address, tape.value address) := by
  obtain ⟨extra, rfl⟩ := Nat.exists_eq_add_of_le h
  have hextra : ((List.range extra).map (tape.cells.size + ·)).filter (tape.value · ≠ 0) = [] := by
    simp [List.filter_eq_nil_iff, value_eq_zero]
  have hzip : tape.cells.toList.zipIdx =
      (List.range tape.cells.size).map fun address => (tape.value address, address) := by
    refine List.ext_getElem (by simp) fun n hn _ => ?_
    have hn' : n < tape.cells.size := by simpa using hn
    simp [Tape.value, hn']
  rw [List.range_add, List.filter_append, hextra, List.append_nil, nonzero, hzip, List.filter_map,
    List.map_map]
  rfl

theorem nonzero_congr (h : ∀ address, tape.value address = tape'.value address) :
    tape.nonzero = tape'.nonzero := by
  rw [nonzero_eq (Nat.le_max_left tape.cells.size tape'.cells.size),
    nonzero_eq (Nat.le_max_right tape.cells.size tape'.cells.size)]
  simp only [h]

theorem value_ne_zero_of_mem {cell : Nat × Int} (h : cell ∈ tape.nonzero) :
    tape.value cell.1 ≠ 0 := by
  rw [nonzero_eq (Nat.le_refl _)] at h
  obtain ⟨address, haddress, rfl⟩ := List.mem_map.1 h
  simpa using (List.mem_filter.1 haddress).2

end Tape

theorem Code.Leads.bound_pos {bound p q : Int} {k : Code} (h : k.Leads bound p q) {i : Instruction}
    (hi : i ∈ k.flatten) (hstart : i ≠ .loopStart) (hend : i ≠ .loopEnd) : 0 < bound := by
  induction k generalizing p q with
  | done => cases hi
  | act a k ih =>
      have := h.1
      have := h.2.1
      omega
  | loop b k ihb ih =>
      simp only [flatten, List.mem_cons, List.mem_append] at hi
      rcases hi with hi | hi | hi | hi
      · exact absurd hi hstart
      · exact ihb h.1 hi
      · exact absurd hi hend
      · exact ih h.2 hi

structure Paired (k : Code) (bound : Int) (m m' : Machine) : Prop where
  first : Tracked k m
  second : Tracked k m'
  room : max 1 bound ≤ m.setting.size
  room' : max 1 bound ≤ m'.setting.size
  modulus : m.setting.modulus = m'.setting.modulus
  numberInput : m.setting.numberInput = m'.setting.numberInput
  stepLimit : m.setting.stepLimit = m'.setting.stepLimit
  jumps : m.jumps = m'.jumps
  pc : m.pc = m'.pc
  steps : m.steps = m'.steps
  printed : m.printed = m'.printed
  cells : ∀ address, m.tape.value address = m'.tape.value address
  clear : ∀ address : Nat, bound ≤ address → m.tape.value address = 0

namespace Paired

variable {k : Code} {bound q : Int} {m m' : Machine}

theorem program (h : Paired k bound m m') : m.program = m'.program :=
  h.first.program.trans h.second.program.symm

theorem pointer (h : Paired k bound m m') : m.tape.pointer = m'.tape.pointer := by
  have hfirst := h.first.pointer
  have hsecond := h.second.pointer
  rw [h.pc] at hfirst
  omega

theorem read (h : Paired k bound m m') : m.tape.read = m'.tape.read := by
  rw [Tape.read, Tape.read, ← h.pointer]
  exact h.cells m.tape.pointer

theorem inside (h : Paired k bound m m') (hleads : k.Leads bound 0 q) :
    m.tape.pointer < m.tape.cells.size ∧ m'.tape.pointer < m'.tape.cells.size := by
  have hmax := hleads.mono (Int.le_max_right 1 bound)
  have hfirst := h.first.bounds hmax (by omega)
  have hsecond := h.second.bounds hmax (by omega)
  have := h.room
  have := h.room'
  rw [h.first.size, h.second.size]
  omega

theorem pointer_lt (h : Paired k bound m m') (hleads : k.Leads bound 0 q) {i : Instruction}
    (hi : m.program[m.pc]? = some i) (hstart : i ≠ .loopStart) (hend : i ≠ .loopEnd) :
    (m.tape.pointer : Int) < bound :=
  h.first.bounds hleads
    (hleads.bound_pos (List.mem_of_getElem? (h.first.fetch hi).1) hstart hend)

theorem cells_write (h : Paired k bound m m') {tape tape' : Tape} {value : Int}
    (hbound : (m.tape.pointer : Int) < bound)
    (htape : ∀ address, tape.value address =
      if address = m.tape.pointer then value else m.tape.value address)
    (htape' : ∀ address, tape'.value address =
      if address = m'.tape.pointer then value else m'.tape.value address) :
    (∀ address, tape.value address = tape'.value address) ∧
      ∀ address : Nat, bound ≤ address → tape.value address = 0 := by
  refine ⟨fun address => ?_, fun address haddress => ?_⟩
  · rw [htape, htape', h.pointer, h.cells]
  · rw [htape, if_neg (by omega), h.clear address haddress]

theorem withSteps (h : Paired k bound m m') (n : Nat) :
    Paired k bound { m with steps := n } { m' with steps := n } :=
  { h with first := h.first.steps n, second := h.second.steps n, steps := rfl }

theorem perform (h : Paired k bound m m') (hleads : k.Leads bound 0 q) {i : Instruction}
    (hi : m.program[m.pc]? = some i) (hstop : i.stop? = none) :
    Paired k bound (m.perform i) (m'.perform i) := by
  have hmax := hleads.mono (Int.le_max_right 1 bound)
  have hi' : m'.program[m'.pc]? = some i := by rw [← h.program, ← h.pc, hi]
  have hfirst := h.first.perform hmax (by omega) h.room hi hstop
  have hsecond := h.second.perform hmax (by omega) h.room' hi' hstop
  have hnext : m.pc + 1 = m'.pc + 1 := by rw [h.pc]
  have hpartner : m.partner = m'.partner := by
    rw [Machine.partner, Machine.partner, h.jumps, h.pc]
  obtain ⟨hinside, hinside'⟩ := h.inside hleads
  have hadd (amount : Int) (hbound : (m.tape.pointer : Int) < bound) :=
    h.cells_write hbound (Tape.value_add hinside m.setting.modulus amount)
      (by rw [h.modulus, h.read]; exact Tape.value_add hinside' m'.setting.modulus amount)
  cases i with
  | right => exact { h with first := hfirst, second := hsecond, pc := hnext }
  | left => exact { h with first := hfirst, second := hsecond, pc := hnext }
  | increment =>
      obtain ⟨hcells, hclear⟩ := hadd 1 (h.pointer_lt hleads hi (by simp) (by simp))
      exact { h with
        first := hfirst, second := hsecond, pc := hnext, cells := hcells, clear := hclear }
  | decrement =>
      obtain ⟨hcells, hclear⟩ := hadd (-1) (h.pointer_lt hleads hi (by simp) (by simp))
      exact { h with
        first := hfirst, second := hsecond, pc := hnext, cells := hcells, clear := hclear }
  | loopStart =>
      refine { h with first := hfirst, second := hsecond, pc := ?_ }
      simp only [Machine.perform, h.read, h.pc, hpartner]
  | loopEnd =>
      refine { h with first := hfirst, second := hsecond, pc := ?_ }
      simp only [Machine.perform, h.read, h.pc, hpartner]
  | put => cases hstop
  | putChar => cases hstop
  | get => cases hstop
  | dump => cases hstop

theorem slice (h : Paired k bound m m') (hleads : k.Leads bound 0 q) (budget : Nat) :
    (m.slice budget).stop = (m'.slice budget).stop ∧
      (m.slice budget).left = (m'.slice budget).left ∧
      Paired k bound (m.slice budget).machine (m'.slice budget).machine := by
  induction budget generalizing m m' with
  | zero => exact ⟨by simp only [Machine.slice, h.pc, h.program], rfl, h⟩
  | succ budget ih =>
      have hfetch : m'.program[m'.pc]? = m.program[m.pc]? := by rw [h.program, h.pc]
      simp only [Machine.slice, hfetch]
      split
      · exact ⟨rfl, rfl, h⟩
      · rename_i i hi
        split
        · exact ⟨rfl, rfl, h⟩
        · rename_i hstop
          exact ih (h.perform hleads hi hstop)

theorem readInput (h : Paired k bound m m') (input : List CodePoint) :
    m.readInput input = m'.readInput input := by
  simp only [Machine.readInput, h.numberInput]

theorem answer (h : Paired k bound m m') (hleads : k.Leads bound 0 q) (input : List CodePoint)
    {i : Instruction} {stop : Stop} (hi : m.program[m.pc]? = some i) (hstop : i.stop? = some stop) :
    (m.answer input stop).2 = (m'.answer input stop).2 ∧
      Paired k bound (m.answer input stop).1 (m'.answer input stop).1 := by
  have hi' : m'.program[m'.pc]? = some i := by rw [← h.program, ← h.pc, hi]
  have hfirst := h.first.answer input hi hstop
  have hsecond := h.second.answer input hi' hstop
  have hnext : m.pc + 1 = m'.pc + 1 := by rw [h.pc]
  have hsteps : m.steps + 1 = m'.steps + 1 := by rw [h.steps]
  cases i with
  | put =>
      cases hstop
      refine ⟨rfl, { h with
        first := hfirst, second := hsecond, pc := hnext, steps := hsteps, printed := ?_ }⟩
      simp only [Machine.answer, Machine.pass, Machine.print, h.printed, h.read]
  | putChar =>
      cases hstop
      simp only [Machine.answer, h.read] at hfirst hsecond ⊢
      split
      · exact ⟨rfl, h⟩
      · rename_i hpoint
        rw [if_neg hpoint] at hfirst hsecond
        refine ⟨rfl, { h with
          first := hfirst, second := hsecond, pc := hnext, steps := hsteps, printed := ?_ }⟩
        simp only [Machine.pass, Machine.print, h.printed]
  | get =>
      cases hstop
      simp only [Machine.answer, h.readInput] at hfirst hsecond ⊢
      split
      · exact ⟨rfl, h⟩
      · rename_i value hvalue
        simp only [hvalue] at hfirst hsecond
        obtain ⟨hinside, hinside'⟩ := h.inside hleads
        obtain ⟨hcells, hclear⟩ := h.cells_write (h.pointer_lt hleads hi (by simp) (by simp))
          (Tape.value_write hinside (value % m.setting.modulus))
          (by rw [h.modulus]; exact Tape.value_write hinside' (value % m'.setting.modulus))
        exact ⟨rfl, { h with
          first := hfirst, second := hsecond, pc := hnext, steps := hsteps, cells := hcells,
          clear := hclear }⟩
  | dump =>
      cases hstop
      exact ⟨rfl, { h with first := hfirst, second := hsecond, pc := hnext, steps := hsteps }⟩
  | right => cases hstop
  | left => cases hstop
  | increment => cases hstop
  | decrement => cases hstop
  | loopStart => cases hstop
  | loopEnd => cases hstop

theorem tick (h : Paired k bound m m') (hleads : k.Leads bound 0 q) (input : List CodePoint) :
    (m.tick input).2 = (m'.tick input).2 ∧
      Paired k bound (m.tick input).1 (m'.tick input).1 := by
  have hfetch : m'.program[m'.pc]? = m.program[m.pc]? := by rw [h.program, h.pc]
  simp only [Machine.tick, hfetch]
  split
  · exact ⟨rfl, h⟩
  · rename_i i hi
    split
    · rename_i stop hstop
      exact h.answer hleads input hi hstop
    · rename_i hstop
      rw [h.steps]
      exact ⟨rfl, (h.perform hleads hi hstop).withSteps _⟩

theorem budget (h : Paired k bound m m') (chunk : Nat) : m.budget chunk = m'.budget chunk := by
  simp only [Machine.budget, h.stepLimit, h.steps]

theorem round (h : Paired k bound m m') (hleads : k.Leads bound 0 q) (chunk : Nat)
    (input : List CodePoint) :
    (m.round chunk input).2 = (m'.round chunk input).2 ∧
      Paired k bound (m.round chunk input).1 (m'.round chunk input).1 := by
  simp only [Machine.round, h.budget chunk]
  split
  · exact ⟨rfl, h⟩
  · rename_i budget _
    obtain ⟨hstop, hleft, hslice⟩ := h.slice hleads budget
    have hends := hslice.withSteps ((m.slice budget).machine.steps + (budget - (m.slice budget).left))
    rw [← hslice.steps, ← hleft, ← hstop]
    rcases Machine.slice_stop budget m with ⟨hspent, -⟩ | htick
    · rw [hspent]
      exact ⟨rfl, hends⟩
    · rcases Machine.slice_stop budget m' with ⟨hspent, -⟩ | htick'
      · rw [hstop, hspent]
        exact ⟨rfl, hends⟩
      · rw [← htick, hstop, ← htick']
        exact hends.tick hleads input

theorem resume (h : Paired k bound m m') (hleads : k.Leads bound 0 q) (chunk rounds : Nat)
    (input : List CodePoint) :
    (Machine.resume chunk rounds input m).2 = (Machine.resume chunk rounds input m').2 ∧
      Paired k bound (Machine.resume chunk rounds input m).1
        (Machine.resume chunk rounds input m').1 := by
  induction rounds generalizing m m' input with
  | zero => exact ⟨rfl, h⟩
  | succ rounds ih =>
      obtain ⟨hprogress, hround⟩ := h.round hleads chunk input
      obtain ⟨⟨m₁, p⟩, hm⟩ : ∃ r, m.round chunk input = r := ⟨_, rfl⟩
      obtain ⟨⟨m₂, p'⟩, hm'⟩ : ∃ r, m'.round chunk input = r := ⟨_, rfl⟩
      rw [hm, hm'] at hprogress hround
      dsimp only at hprogress hround
      subst hprogress
      simp only [Machine.resume, hm, hm']
      cases p with
      | running rest => exact ih hround rest
      | finished => exact ⟨rfl, hround⟩
      | failed fault => exact ⟨rfl, hround⟩

end Paired

structure Snapshot where
  pc : Nat
  pointer : Nat
  steps : Nat
  printed : Array Printed
  cells : List (Nat × Int)
  deriving DecidableEq

def Machine.snapshot (m : Machine) : Snapshot :=
  ⟨m.pc, m.tape.pointer, m.steps, m.printed, m.tape.nonzero⟩

def observe (options : MachineOptions) (rounds : Nat) (code : String) (input : List CodePoint) :
    Except MachineFault (Snapshot × Machine.Outcome) :=
  (execute options rounds code input).map fun (m, outcome) => (m.snapshot, outcome)

namespace Paired

variable {k : Code} {bound : Int} {m m' : Machine}

theorem snapshot (h : Paired k bound m m') : m.snapshot = m'.snapshot := by
  rw [Machine.snapshot, Machine.snapshot, h.pc, h.pointer, h.steps, h.printed,
    Tape.nonzero_congr h.cells]

theorem nonzero_lt (h : Paired k bound m m') {cell : Nat × Int} (hcell : cell ∈ m.tape.nonzero) :
    (cell.1 : Int) < bound := by
  by_contra hbound
  exact Tape.value_ne_zero_of_mem hcell (h.clear cell.1 (by omega))

theorem load {text : String} (hk : Instruction.ofText text = k.flatten)
    (hroom : max 1 bound ≤ m.setting.size) (hroom' : max 1 bound ≤ m'.setting.size)
    (hmodulus : m.setting.modulus = m'.setting.modulus)
    (hnumber : m.setting.numberInput = m'.setting.numberInput)
    (hlimit : m.setting.stepLimit = m'.setting.stepLimit) :
    Paired k bound (m.load text).1 (m'.load text).1 where
  first := .load m hk
  second := .load m' hk
  room := hroom
  room' := hroom'
  modulus := hmodulus
  numberInput := hnumber
  stepLimit := hlimit
  jumps := rfl
  pc := rfl
  steps := rfl
  printed := rfl
  cells address := (Tape.value_blank _ address).trans (Tape.value_blank _ address).symm
  clear address _ := Tape.value_blank _ address

end Paired

theorem MachineOptions.check_resize (machine : MachineOptions) {size size' : Int} (hsize : 0 < size)
    (hsize' : 0 < size') :
    (∃ fault, MachineOptions.check { machine with tapeSize := size } = .error fault ∧
      MachineOptions.check { machine with tapeSize := size' } = .error fault) ∨
    ∃ s s', MachineOptions.check { machine with tapeSize := size } = .ok s ∧
      MachineOptions.check { machine with tapeSize := size' } = .ok s' ∧
      (s.size : Int) = size ∧ (s'.size : Int) = size' ∧ s.modulus = s'.modulus ∧
      s.numberInput = s'.numberInput ∧ s.stepLimit = s'.stepLimit := by
  by_cases hbits : 1 ≤ machine.bits ∧ machine.bits ≤ 32
  · right
    simp only [check, dif_pos hbits, dif_pos hsize, dif_pos hsize']
    exact ⟨_, _, rfl, rfl, Int.toNat_of_nonneg hsize.le, Int.toNat_of_nonneg hsize'.le, rfl, rfl, rfl⟩
  · left
    simp only [check, dif_neg hbits]
    exact ⟨_, rfl, rfl⟩

open Compilation

theorem tape_size_unobservable {options : CompileOptions} {nodes : List Node} {c d : Compilation}
    (hd : Compile.program options nodes c = .ok () d)
    (hcodes : ∀ code ∈ Node.verbatimsIn nodes, Moveless code) (machine : MachineOptions)
    {size size' : Int} (hsize : max 1 d.layout.highWater ≤ size)
    (hsize' : max 1 d.layout.highWater ≤ size') (rounds : Nat) (input : List CodePoint) :
    observe { machine with tapeSize := size } rounds d.code input =
      observe { machine with tapeSize := size' } rounds d.code input ∧
    ∀ seen outcome, observe { machine with tapeSize := size } rounds d.code input =
      .ok (seen, outcome) → ∀ cell ∈ seen.cells, (cell.1 : Int) < d.layout.highWater := by
  obtain ⟨k, hk, hleads⟩ := Compile.program_emits hd hcodes
  simp only [observe, execute, Machine.new]
  rcases machine.check_resize (show 0 < size by omega) (show 0 < size' by omega) with
    ⟨fault, hfault, hfault'⟩ | ⟨s, s', hs, hs', hroom, hroom', hmodulus, hnumber, hlimit⟩
  · rw [hfault, hfault']
    exact ⟨rfl, by simp [Except.map]⟩
  · have hload : Paired k d.layout.highWater ((Machine.blank s).load d.code).1
        ((Machine.blank s').load d.code).1 :=
      .load hk (hroom ▸ hsize) (hroom' ▸ hsize') hmodulus hnumber hlimit
    obtain ⟨houtcome, hpaired⟩ := hload.resume hleads Machine.sliceSteps rounds input
    rw [← Machine.run_eq _ hk, ← Machine.run_eq _ hk] at houtcome hpaired
    rw [hs, hs']
    refine ⟨?_, fun seen outcome hseen cell hcell => ?_⟩
    · simp only [Except.map, hpaired.snapshot, houtcome]
    · cases hseen
      exact hpaired.nonzero_lt hcell

theorem tape_size_unobservable_countdown :
    ∃ d, Compile.program {} Node.countdown Compilation.initial = .ok () d ∧
      (∀ code ∈ Node.verbatimsIn Node.countdown, Moveless code) ∧
      max 1 d.layout.highWater ≤ 20 ∧
      observe { tapeSize := 20, bits := 3, stepLimit := some 500 } 9 d.code "2" =
        observe { tapeSize := 30000, bits := 3, stepLimit := some 500 } 9 d.code "2" ∧
      ∀ seen outcome,
        observe { tapeSize := 20, bits := 3, stepLimit := some 500 } 9 d.code "2" =
          .ok (seen, outcome) → ∀ cell ∈ seen.cells, (cell.1 : Int) < d.layout.highWater := by
  have hcodes : ∀ code ∈ Node.verbatimsIn Node.countdown, Moveless code := by
    simp [Node.countdown, Node.verbatimsIn, Node.verbatims, Moveless]
  obtain ⟨d, hd, hsize⟩ := Compile.exists_of_fits
    (show Compile.fits {} Node.countdown 20 = true by decide +kernel)
  exact ⟨d, hd, hcodes, hsize, tape_size_unobservable hd hcodes
    { bits := 3, stepLimit := some 500 } hsize (hsize.trans (by decide)) 9 "2"⟩

end TapeCompiler
