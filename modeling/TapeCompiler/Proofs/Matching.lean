import TapeCompiler.Machine.Basic

namespace TapeCompiler

namespace Brackets

def Balanced (program : List Instruction) : Prop :=
  (∀ n ≤ program.length, (program.take n).count .loopEnd ≤ (program.take n).count .loopStart) ∧
    program.count .loopStart = program.count .loopEnd

instance (program : List Instruction) : Decidable (Balanced program) :=
  inferInstanceAs (Decidable (_ ∧ _))

structure Closes (program : List Instruction) (i j : Nat) : Prop where
  lt : i < j
  start : program[i]? = some .loopStart
  stop : program[j]? = some .loopEnd
  balanced : Balanced ((program.take j).drop (i + 1))

structure Pairs (program : List Instruction) (table : Array Nat) : Prop where
  size : table.size = program.length
  involutive : ∀ i < program.length, ∃ j, table[i]? = some j ∧ table[j]? = some i
  fixed : ∀ i < program.length, program[i]? ≠ some .loopStart → program[i]? ≠ some .loopEnd →
    table[i]? = some i
  start : ∀ i, program[i]? = some .loopStart → ∃ j, table[i]? = some j ∧ Closes program i j
  stop : ∀ j, program[j]? = some .loopEnd → ∃ i, table[j]? = some i ∧ Closes program i j

def Blames (program : List Instruction) : BracketFault → Prop
  | .unmatchedEnd p =>
      program[p]? = some .loopEnd ∧
        (program.take (p + 1)).count .loopStart < (program.take (p + 1)).count .loopEnd ∧
        ∀ n ≤ p, (program.take n).count .loopEnd ≤ (program.take n).count .loopStart
  | .unmatchedStart p =>
      (∀ n ≤ program.length,
        (program.take n).count .loopEnd ≤ (program.take n).count .loopStart) ∧
        program[p]? = some .loopStart ∧ (∀ j, ¬Closes program p j) ∧
        ∀ i, p < i → program[i]? = some .loopStart → ∃ j, Closes program i j

def depth (program : List Instruction) (n : Nat) : Int :=
  (program.take n).count .loopStart - (program.take n).count .loopEnd

variable {program : List Instruction} {i j n : Nat}

theorem depth_zero : depth program 0 = 0 := by simp [depth]

theorem depth_start (h : program[n]? = some .loopStart) :
    depth program (n + 1) = depth program n + 1 := by
  simp only [depth, List.take_add_one, h, List.count_append]
  simp
  omega

theorem depth_stop (h : program[n]? = some .loopEnd) :
    depth program (n + 1) = depth program n - 1 := by
  simp only [depth, List.take_add_one, h, List.count_append]
  simp
  omega

theorem depth_other {instruction : Instruction} (h : program[n]? = some instruction)
    (hstart : instruction ≠ .loopStart) (hstop : instruction ≠ .loopEnd) :
    depth program (n + 1) = depth program n := by
  simp [depth, List.take_add_one, h, List.count_append, hstart, hstop]

theorem depth_nonneg_iff : 0 ≤ depth program n ↔
    (program.take n).count .loopEnd ≤ (program.take n).count .loopStart := by
  simp only [depth]
  omega

theorem count_take_drop (program : List Instruction) (x : Instruction) (h : i ≤ n) :
    ((program.take n).drop i).count x + (program.take i).count x = (program.take n).count x := by
  have hsplit := congrArg (List.count x) (List.take_append_drop i (program.take n))
  rwa [List.count_append, List.take_take, Nat.min_eq_left h, Nat.add_comm] at hsplit

theorem balanced_drop_iff (program : List Instruction) (hij : i ≤ j) (hj : j ≤ program.length) :
    Balanced ((program.take j).drop i) ↔
      (∀ n, i ≤ n → n ≤ j → depth program i ≤ depth program n) ∧
        depth program j = depth program i := by
  have hpart {n : Nat} (hn : i + n ≤ j) :
      ((program.take j).drop i).take n = (program.take (i + n)).drop i := by
    rw [List.take_drop, List.take_take, Nat.min_eq_left hn]
  have hlength : ((program.take j).drop i).length = j - i := by
    rw [List.length_drop, List.length_take, Nat.min_eq_left hj]
  have hstarts := count_take_drop program .loopStart hij
  have hstops := count_take_drop program .loopEnd hij
  simp only [Balanced, hlength, depth]
  constructor
  · rintro ⟨hnever, htotal⟩
    refine ⟨fun n hin hnj => ?_, by omega⟩
    have hn := hnever (n - i) (by omega)
    rw [hpart (by omega), Nat.add_sub_cancel' hin] at hn
    have := count_take_drop program .loopStart hin
    have := count_take_drop program .loopEnd hin
    omega
  · rintro ⟨hdeep, hend⟩
    refine ⟨fun n hn => ?_, by omega⟩
    rw [hpart (by omega)]
    have := hdeep (i + n) (by omega) (by omega)
    have := count_take_drop program .loopStart (Nat.le_add_right i n)
    have := count_take_drop program .loopEnd (Nat.le_add_right i n)
    omega

theorem balanced_iff : Balanced program ↔
    (∀ n ≤ program.length, 0 ≤ depth program n) ∧ depth program program.length = 0 := by
  have h := balanced_drop_iff program (Nat.zero_le _) (Nat.le_refl _)
  rw [List.take_length, List.drop_zero, depth_zero] at h
  simpa using h

theorem closes_iff : Closes program i j ↔
    i < j ∧ program[i]? = some .loopStart ∧ program[j]? = some .loopEnd ∧
      (∀ n, i < n → n ≤ j → depth program i < depth program n) ∧
        depth program j = depth program i + 1 := by
  constructor
  · rintro ⟨hlt, hstart, hstop, hbalanced⟩
    have hj := (List.getElem?_eq_some_iff.1 hstop).1
    obtain ⟨hdeep, hend⟩ := (balanced_drop_iff program hlt (Nat.le_of_lt hj)).1 hbalanced
    rw [depth_start hstart] at hdeep hend
    exact ⟨hlt, hstart, hstop, fun n hin hnj => by have := hdeep n hin hnj; omega, hend⟩
  · rintro ⟨hlt, hstart, hstop, hdeep, hend⟩
    have hj := (List.getElem?_eq_some_iff.1 hstop).1
    refine ⟨hlt, hstart, hstop, (balanced_drop_iff program hlt (Nat.le_of_lt hj)).2 ?_⟩
    rw [depth_start hstart]
    exact ⟨fun n hin hnj => by have := hdeep n hin hnj; omega, hend⟩

/-- The loops that are open behind the first `n` instructions, the innermost first: each of them was
opened where it says, and what came after its start is balanced up to the next one. -/
def Opened (program : List Instruction) : List Nat → Nat → Prop
  | [], n => (∀ k ≤ n, 0 ≤ depth program k) ∧ depth program n = 0
  | start :: opened, n =>
      start < n ∧ program[start]? = some .loopStart ∧
        (∀ k, start < k → k ≤ n → depth program start < depth program k) ∧
        depth program n = depth program start + 1 ∧ Opened program opened start

namespace Opened

variable {opened : List Nat}

theorem depth_eq (h : Opened program opened n) : depth program n = opened.length := by
  induction opened generalizing n with
  | nil => exact h.2
  | cons start opened ih =>
      obtain ⟨-, -, -, hdepth, hrest⟩ := h
      rw [hdepth, ih hrest, List.length_cons, Int.natCast_succ]

theorem nonneg (h : Opened program opened n) : ∀ k ≤ n, 0 ≤ depth program k := by
  induction opened generalizing n with
  | nil => exact h.1
  | cons start opened ih =>
      obtain ⟨-, -, hdeep, -, hrest⟩ := h
      intro k hk
      have hstart := ih hrest start (Nat.le_refl _)
      rcases Nat.lt_or_ge start k with hlt | hge
      · have := hdeep k hlt hk
        omega
      · exact ih hrest k hge

theorem not_closes {start : Nat} (h : Opened program (start :: opened) n) (hj : j < n) :
    ¬Closes program start j := by
  intro hcloses
  obtain ⟨hlt, -, hstop, -, hend⟩ := closes_iff.1 hcloses
  have hdeep := h.2.2.1 (j + 1) (by omega) hj
  rw [depth_stop hstop] at hdeep
  omega

theorem lt (h : Opened program opened n) : ∀ start ∈ opened, start < n := by
  induction opened generalizing n with
  | nil => simp
  | cons start opened ih =>
      obtain ⟨hlt, -, -, -, hrest⟩ := h
      exact List.forall_mem_cons.2 ⟨hlt, fun i hi => Nat.lt_trans (ih hrest i hi) hlt⟩

theorem extend (h : Opened program opened n) (hnj : n ≤ j)
    (hdeep : ∀ k, n < k → k ≤ j → depth program n ≤ depth program k)
    (hdepth : depth program j = depth program n) : Opened program opened j := by
  have hwhole (floor : Int) (hfloor : floor ≤ depth program n) {k : Nat} (hk : k ≤ j)
      (hbefore : k ≤ n → floor ≤ depth program k) : floor ≤ depth program k := by
    rcases Nat.lt_or_ge n k with hlt | hge
    · exact Int.le_trans hfloor (hdeep k hlt hk)
    · exact hbefore hge
  cases opened with
  | nil => exact ⟨fun k hk => hwhole 0 (Int.le_of_eq h.2.symm) hk (h.1 k), hdepth.trans h.2⟩
  | cons start opened =>
      obtain ⟨hlt, hstart, hinside, hend, hrest⟩ := h
      refine ⟨by omega, hstart, fun k hsk hk => ?_, hdepth.trans hend, hrest⟩
      exact hwhole (depth program start + 1) (by omega) hk (hinside k hsk)

theorem push (h : Opened program opened n) (hstart : program[n]? = some .loopStart) :
    Opened program (n :: opened) (n + 1) := by
  have hdepth := depth_start hstart
  refine ⟨Nat.lt_succ_self n, hstart, fun k hnk hk => ?_, hdepth, h⟩
  obtain rfl : k = n + 1 := by omega
  omega

variable {start : Nat}

theorem closes (h : Opened program (start :: opened) n) (hstop : program[n]? = some .loopEnd) :
    Closes program start n := by
  obtain ⟨hlt, hstart, hinside, hend, -⟩ := h
  exact closes_iff.2 ⟨hlt, hstart, hstop, hinside, hend⟩

theorem pop (h : Opened program (start :: opened) n) (hstop : program[n]? = some .loopEnd) :
    Opened program opened (n + 1) := by
  obtain ⟨hlt, -, hinside, hend, hrest⟩ := h
  have hdepth := depth_stop hstop
  refine hrest.extend (by omega) (fun k hsk hk => ?_) (by omega)
  rcases Nat.lt_or_ge n k with hnk | hkn
  · obtain rfl : k = n + 1 := by omega
    omega
  · exact Int.le_of_lt (hinside k hsk hkn)

theorem pass (h : Opened program opened n) (hstart : program[n]? ≠ some .loopStart)
    (hstop : program[n]? ≠ some .loopEnd) (hn : n < program.length) :
    Opened program opened (n + 1) := by
  obtain ⟨instruction, hother⟩ : ∃ instruction, program[n]? = some instruction :=
    ⟨_, List.getElem?_eq_getElem hn⟩
  rw [hother] at hstart hstop
  have hdepth := depth_other hother (by simpa using hstart) (by simpa using hstop)
  refine h.extend (by omega) (fun k hnk hk => ?_) hdepth
  obtain rfl : k = n + 1 := by omega
  exact Int.le_of_eq hdepth.symm

end Opened

structure Entered (program : List Instruction) (opened : List Nat) (n : Nat) (table : Array Nat) :
    Prop where
  waiting : Opened program opened n
  size : table.size = program.length
  start : ∀ i < n, program[i]? = some .loopStart →
    i ∈ opened ∨ ∃ j < n, table[i]? = some j ∧ table[j]? = some i ∧ Closes program i j
  stop : ∀ j < n, program[j]? = some .loopEnd →
    ∃ i, table[j]? = some i ∧ table[i]? = some j ∧ Closes program i j
  fixed : ∀ i < program.length,
    n ≤ i ∨ program[i]? ≠ some .loopStart ∧ program[i]? ≠ some .loopEnd → table[i]? = some i

namespace Entered

variable {opened : List Nat} {table : Array Nat}

theorem initial (program : List Instruction) :
    Entered program [] 0 (Array.range program.length) := by
  refine ⟨⟨fun k hk => ?_, depth_zero⟩, Array.size_range, fun i hi => ?_, fun j hj => ?_,
    fun i hi _ => ?_⟩
  · obtain rfl := Nat.le_zero.1 hk
    exact Int.le_of_eq depth_zero.symm
  · omega
  · omega
  · rw [Array.getElem?_eq_getElem (by simpa using hi), Array.getElem_range]

theorem pass (h : Entered program opened n table) (hstart : program[n]? ≠ some .loopStart)
    (hstop : program[n]? ≠ some .loopEnd) (hn : n < program.length) :
    Entered program opened (n + 1) table := by
  refine ⟨h.waiting.pass hstart hstop hn, h.size, fun i hi hloop => ?_, fun j hj hloop => ?_,
    fun i hi hother => h.fixed i hi (hother.imp_left (by omega))⟩
  · have hin : i ≠ n := by
      rintro rfl
      exact hstart hloop
    refine (h.start i (by omega) hloop).imp_right ?_
    rintro ⟨j, hj, hpair⟩
    exact ⟨j, by omega, hpair⟩
  · have hjn : j ≠ n := by
      rintro rfl
      exact hstop hloop
    exact h.stop j (by omega) hloop

theorem push (h : Entered program opened n table) (hstart : program[n]? = some .loopStart) :
    Entered program (n :: opened) (n + 1) table := by
  refine ⟨h.waiting.push hstart, h.size, fun i hi hloop => ?_, fun j hj hloop => ?_,
    fun i hi hother => h.fixed i hi (hother.imp_left (by omega))⟩
  · rcases Nat.lt_or_eq_of_le (Nat.le_of_lt_succ hi) with hlt | rfl
    · refine (h.start i hlt hloop).imp (List.mem_cons_of_mem n) ?_
      rintro ⟨j, hj, hpair⟩
      exact ⟨j, by omega, hpair⟩
    · exact .inl List.mem_cons_self
  · have hjn : j ≠ n := by
      rintro rfl
      rw [hstart] at hloop
      cases hloop
    exact h.stop j (by omega) hloop

theorem pop {start : Nat} (h : Entered program (start :: opened) n table)
    (hstop : program[n]? = some .loopEnd) :
    Entered program opened (n + 1)
      ((table.setIfInBounds start n).setIfInBounds n start) := by
  have hcloses := h.waiting.closes hstop
  have hsn := hcloses.lt
  have hn : n < table.size := h.size ▸ (List.getElem?_eq_some_iff.1 hstop).1
  have hat_stop : ((table.setIfInBounds start n).setIfInBounds n start)[n]? = some start :=
    Array.getElem?_setIfInBounds_self_of_lt (by simpa using hn)
  have hat_start : ((table.setIfInBounds start n).setIfInBounds n start)[start]? = some n := by
    rw [Array.getElem?_setIfInBounds_ne (by omega),
      Array.getElem?_setIfInBounds_self_of_lt (by omega)]
  have helse {i : Nat} (hs : i ≠ start) (hn : i ≠ n) :
      ((table.setIfInBounds start n).setIfInBounds n start)[i]? = table[i]? := by
    rw [Array.getElem?_setIfInBounds_ne hn.symm, Array.getElem?_setIfInBounds_ne hs.symm]
  have hne {i : Nat} (hloop : program[i]? = some .loopEnd) : i ≠ start := by
    rintro rfl
    rw [hcloses.start] at hloop
    cases hloop
  refine ⟨h.waiting.pop hstop, by simpa using h.size, fun i hi hloop => ?_, fun j hj hloop => ?_,
    fun i hi hother => ?_⟩
  · by_cases his : i = start
    · subst his
      exact .inr ⟨n, by omega, hat_start, hat_stop, hcloses⟩
    · have hin : i ≠ n := by
        rintro rfl
        rw [hstop] at hloop
        cases hloop
      rcases h.start i (by omega) hloop with hmem | ⟨j, hj, hij, hji, hpair⟩
      · exact .inl ((List.mem_cons.1 hmem).resolve_left his)
      · refine .inr ⟨j, by omega, ?_, ?_, hpair⟩
        · rw [helse his hin, hij]
        · rw [helse (hne hpair.stop) (by omega), hji]
  · rcases Nat.lt_or_eq_of_le (Nat.le_of_lt_succ hj) with hlt | rfl
    · obtain ⟨i, hji, hij, hpair⟩ := h.stop j hlt hloop
      -- The start that is closed now was open until here, so no earlier end has it.
      have his : i ≠ start := by
        rintro rfl
        exact h.waiting.not_closes hlt hpair
      have hin := hpair.lt
      refine ⟨i, ?_, ?_, hpair⟩
      · rw [helse (hne hloop) (by omega), hji]
      · rw [helse his (by omega), hij]
    · exact ⟨start, hat_stop, hat_start, hcloses⟩
  · have his : i ≠ start := by
      rintro rfl
      rcases hother with hle | ⟨hnot, -⟩
      · omega
      · exact hnot hcloses.start
    have hin : i ≠ n := by
      rintro rfl
      rcases hother with hle | ⟨-, hnot⟩
      · omega
      · exact hnot hstop
    rw [helse his hin]
    exact h.fixed i hi (hother.imp_left (by omega))

theorem finish (h : Entered program [] program.length table) :
    Balanced program ∧ Pairs program table := by
  have hstart (i : Nat) (hloop : program[i]? = some .loopStart) :
      ∃ j, table[i]? = some j ∧ table[j]? = some i ∧ Closes program i j := by
    obtain ⟨j, -, hpair⟩ := (h.start i (List.getElem?_eq_some_iff.1 hloop).1 hloop).resolve_left
      List.not_mem_nil
    exact ⟨j, hpair⟩
  have hstop (j : Nat) (hloop : program[j]? = some .loopEnd) :=
    h.stop j (List.getElem?_eq_some_iff.1 hloop).1 hloop
  refine ⟨balanced_iff.2 h.waiting, h.size, fun i hi => ?_,
    fun i hi hs he => h.fixed i hi (.inr ⟨hs, he⟩), fun i hloop => ?_, fun j hloop => ?_⟩
  · by_cases hs : program[i]? = some .loopStart
    · obtain ⟨j, hij, hji, -⟩ := hstart i hs
      exact ⟨j, hij, hji⟩
    · by_cases he : program[i]? = some .loopEnd
      · obtain ⟨j, hij, hji, -⟩ := hstop i he
        exact ⟨j, hij, hji⟩
      · have hi := h.fixed i hi (.inr ⟨hs, he⟩)
        exact ⟨i, hi, hi⟩
  · obtain ⟨j, hij, -, hpair⟩ := hstart i hloop
    exact ⟨j, hij, hpair⟩
  · obtain ⟨i, hji, -, hpair⟩ := hstop j hloop
    exact ⟨i, hji, hpair⟩

theorem blames_start {start : Nat} (h : Entered program (start :: opened) program.length table) :
    ¬Balanced program ∧ Blames program (.unmatchedStart start) := by
  refine ⟨fun hbalanced => ?_, fun n hn => depth_nonneg_iff.1 (h.waiting.nonneg n hn),
    h.waiting.2.1, fun j hcloses => ?_, fun i hsi hloop => ?_⟩
  · have hdepth := h.waiting.depth_eq
    rw [(balanced_iff.1 hbalanced).2, List.length_cons] at hdepth
    omega
  · exact h.waiting.not_closes (List.getElem?_eq_some_iff.1 hcloses.stop).1 hcloses
  · rcases h.start i (List.getElem?_eq_some_iff.1 hloop).1 hloop with hmem | ⟨j, -, -, -, hpair⟩
    · rcases List.mem_cons.1 hmem with rfl | hmem
      · omega
      · have := h.waiting.2.2.2.2.lt i hmem
        omega
    · exact ⟨j, hpair⟩

theorem blames_stop (h : Entered program [] n table) (hstop : program[n]? = some .loopEnd) :
    ¬Balanced program ∧ Blames program (.unmatchedEnd n) := by
  have hexcess :
      (program.take (n + 1)).count .loopStart < (program.take (n + 1)).count .loopEnd := by
    refine Nat.lt_of_not_le fun hle => ?_
    have hdepth := depth_nonneg_iff.2 hle
    rw [depth_stop hstop, h.waiting.depth_eq, List.length_nil] at hdepth
    omega
  refine ⟨fun hbalanced => ?_, hstop, hexcess,
    fun k hk => depth_nonneg_iff.1 (h.waiting.nonneg k hk)⟩
  exact absurd hexcess (Nat.not_lt.2 (hbalanced.1 (n + 1) (List.getElem?_eq_some_iff.1 hstop).1))

end Entered

structure Judged (program : List Instruction) (result : Array Nat × Option BracketFault) :
    Prop where
  paired : result.2 = none → Balanced program ∧ Pairs program result.1
  blamed : ∀ fault, result.2 = some fault → ¬Balanced program ∧ Blames program fault

theorem Judged.of_table {table : Array Nat} (h : Balanced program ∧ Pairs program table) :
    Judged program (table, none) := by
  refine ⟨fun _ => h, fun fault hfault => ?_⟩
  cases hfault

theorem Judged.of_fault {table : Array Nat} {fault : BracketFault}
    (h : ¬Balanced program ∧ Blames program fault) : Judged program (table, some fault) := by
  refine ⟨fun hnone => ?_, fun fault' hfault => ?_⟩
  · cases hnone
  · cases hfault
    exact h

theorem pairFrom_judged {opened : List Nat} {table : Array Nat} {rest : List Instruction}
    (h : Entered program opened n table) (hrest : program.drop n = rest) (hn : n ≤ program.length) :
    Judged program (pairFrom n opened table rest) := by
  induction rest generalizing n opened table with
  | nil =>
      obtain rfl : n = program.length := by
        have := List.drop_eq_nil_iff.1 hrest
        omega
      cases opened with
      | nil => exact .of_table h.finish
      | cons start opened => exact .of_fault h.blames_start
  | cons i rest ih =>
      have hat : program[n]? = some i := by
        rw [← List.head?_drop, hrest]
        rfl
      have hnext : program.drop (n + 1) = rest := by
        rw [← List.tail_drop, hrest]
        rfl
      have hlt := (List.getElem?_eq_some_iff.1 hat).1
      cases i
      case loopStart => exact ih (h.push hat) hnext hlt
      case loopEnd =>
        cases opened with
        | nil => exact .of_fault (h.blames_stop hat)
        | cons start opened => exact ih (h.pop hat) hnext hlt
      all_goals exact ih (h.pass (by rw [hat]; simp) (by rw [hat]; simp) hlt) hnext hlt

theorem pair_judged (program : List Instruction) : Judged program (pair program) :=
  pairFrom_judged (.initial program) rfl (Nat.zero_le _)

theorem Blames.unique {fault fault' : BracketFault} (h : Blames program fault)
    (h' : Blames program fault') : fault = fault' := by
  have hclash {p q : Nat} (h : Blames program (.unmatchedEnd p))
      (h' : Blames program (.unmatchedStart q)) : False := by
    have := h'.1 (p + 1) (List.getElem?_eq_some_iff.1 h.1).1
    exact absurd h.2.1 (Nat.not_lt.2 this)
  have hend {p q : Nat} (h : Blames program (.unmatchedEnd p))
      (h' : Blames program (.unmatchedEnd q)) : q ≤ p :=
    Nat.le_of_not_lt fun hlt => absurd h.2.1 (Nat.not_lt.2 (h'.2.2 (p + 1) hlt))
  have hstart {p q : Nat} (h : Blames program (.unmatchedStart p))
      (h' : Blames program (.unmatchedStart q)) : q ≤ p := by
    refine Nat.le_of_not_lt fun hlt => ?_
    obtain ⟨j, hj⟩ := h.2.2.2 q hlt h'.2.1
    exact h'.2.2.1 j hj
  cases fault with
  | unmatchedEnd p =>
      cases fault' with
      | unmatchedEnd q => rw [Nat.le_antisymm (hend h' h) (hend h h')]
      | unmatchedStart q => exact (hclash h h').elim
  | unmatchedStart p =>
      cases fault' with
      | unmatchedEnd q => exact (hclash h' h).elim
      | unmatchedStart q => rw [Nat.le_antisymm (hstart h' h) (hstart h h')]

theorem Blames.not_paired {fault : BracketFault} {table : Array Nat} (h : Blames program fault)
    (hbalanced : Balanced program) (hpairs : Pairs program table) : False := by
  cases fault with
  | unmatchedEnd p =>
      have := hbalanced.1 (p + 1) (List.getElem?_eq_some_iff.1 h.1).1
      exact absurd h.2.1 (Nat.not_lt.2 this)
  | unmatchedStart p =>
      obtain ⟨j, -, hj⟩ := hpairs.start p h.2.1
      exact h.2.2.1 j hj

end Brackets

open Brackets

theorem loops_matched (m : Machine) (text : String) :
    ((m.load text).2 = none ↔ Balanced (Instruction.ofText text)) ∧
    ((m.load text).2 = none → Pairs (Instruction.ofText text) (m.load text).1.jumps) ∧
    ∀ fault, (m.load text).2 = some fault ↔
      ∃ cause, fault = .brackets cause ∧ Blames (Instruction.ofText text) cause := by
  have hjudged := pair_judged (Instruction.ofText text)
  have hfault : (m.load text).2 = (pair (Instruction.ofText text)).2.map .brackets := rfl
  have htable : (m.load text).1.jumps = (pair (Instruction.ofText text)).1 := rfl
  rw [hfault, htable]
  generalize pair (Instruction.ofText text) = result at hjudged
  obtain ⟨table, cause⟩ := result
  cases cause with
  | none =>
      obtain ⟨hbalanced, hpairs⟩ := hjudged.paired rfl
      refine ⟨⟨fun _ => hbalanced, fun _ => rfl⟩, fun _ => hpairs, fun fault => ⟨fun h => ?_, ?_⟩⟩
      · cases h
      · rintro ⟨cause, -, hblames⟩
        exact (hblames.not_paired hbalanced hpairs).elim
  | some cause =>
      obtain ⟨hunbalanced, hblames⟩ := hjudged.blamed cause rfl
      refine ⟨⟨fun h => ?_, fun hbalanced => absurd hbalanced hunbalanced⟩, fun h => ?_,
        fun fault => ⟨fun h => ?_, ?_⟩⟩
      · cases h
      · cases h
      · cases h
        exact ⟨cause, rfl, hblames⟩
      · rintro ⟨cause', rfl, hblames'⟩
        rw [hblames.unique hblames']
        rfl

theorem loops_matched_nested : ∃ m : Machine,
    (m.load "+[>[-]<[]]").2 = none ∧
    Pairs (Instruction.ofText "+[>[-]<[]]") (m.load "+[>[-]<[]]").1.jumps ∧
    (m.load "[[]+[").2 = some (.brackets (.unmatchedStart 4)) ∧
    Blames (Instruction.ofText "[[]+[") (.unmatchedStart 4) := by
  let m := Machine.blank ⟨2, 8, 256, false, none, by decide, by decide, by decide, by decide⟩
  obtain ⟨hbalanced, hpairs, -⟩ := loops_matched m "+[>[-]<[]]"
  have hloads := hbalanced.2 (by decide)
  have hfails : (m.load "[[]+[").2 = some (.brackets (.unmatchedStart 4)) := rfl
  obtain ⟨cause, heq, hblames⟩ := ((loops_matched m "[[]+[").2.2 _).1 hfails
  cases heq
  exact ⟨m, hloads, hpairs hloads, hfails, hblames⟩

end TapeCompiler
