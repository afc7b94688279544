import TapeCompiler.Proofs.Silence

namespace TapeCompiler

/-- The value of a node, from the numbers in the cells, which count modulo `modulus`. A computed
index names all slots that are congruent to it. -/
def Node.denotation (bindings : Table Binding) (modulus : Int) (cell : Int → Int) :
    Node → Option Int
  | .literal value _ => some (value % modulus)
  | .max => some (modulus - 1)
  | .var name none => do
      let b ← bindings.find? name
      if 0 < b.length then some (cell b.base) else none
  | .var name (some index) =>
      match index.literalValue? with
      | some i => do
          let b ← bindings.find? name
          if 0 ≤ i ∧ i < b.length then some (cell (b.base + i)) else none
      | none => do
          let b ← bindings.find? name
          let i ← index.denotation bindings modulus cell
          let slots := (List.range b.length).map fun k : Nat =>
            if (k : Int) % modulus = i then cell (b.base + k) else 0
          return slots.sum % modulus
  | .math .plus left right => do
      let a ← left.denotation bindings modulus cell
      let b ← right.denotation bindings modulus cell
      return (a + b) % modulus
  | .math .minus left right => do
      let a ← left.denotation bindings modulus cell
      let b ← right.denotation bindings modulus cell
      return (a - b) % modulus
  | _ => none

section

variable {bits : Nat}

theorem two_pow_pos (bits : Nat) : (0 : Int) < 2 ^ bits := Int.pow_pos (by decide)

theorem toNat_ofInt_eq (value : Int) :
    ((BitVec.ofInt bits value).toNat : Int) = value % 2 ^ bits := by
  rw [BitVec.toNat_ofInt, Int.natCast_pow]
  exact Int.toNat_of_nonneg (Int.emod_nonneg _ (Int.ne_of_gt (two_pow_pos bits)))

theorem toNat_allOnes_eq : ((BitVec.allOnes bits).toNat : Int) = 2 ^ bits - 1 := by
  rw [BitVec.toNat_allOnes, Int.natCast_sub Nat.one_le_two_pow, Int.natCast_pow]
  rfl

theorem toNat_add_eq (a b : BitVec bits) :
    ((a + b).toNat : Int) = ((a.toNat : Int) + b.toNat) % 2 ^ bits := by
  rw [BitVec.toNat_add, Int.natCast_emod, Int.natCast_add, Int.natCast_pow]
  rfl

theorem toNat_sub_eq (a b : BitVec bits) :
    ((a - b).toNat : Int) = ((a.toNat : Int) - b.toNat) % 2 ^ bits := by
  have hshift : ((2 : Nat) : Int) ^ bits - b.toNat + a.toNat = (a.toNat - b.toNat) + 2 ^ bits := by
    rw [Nat.cast_ofNat]
    omega
  rw [BitVec.toNat_sub, Int.natCast_emod, Int.natCast_add, Int.natCast_sub (Nat.le_of_lt b.isLt),
    Int.natCast_pow, hshift]
  exact Int.add_emod_right ..

theorem toNat_sum_eq (words : List (BitVec bits)) :
    (words.sum.toNat : Int) = (words.map fun word => (word.toNat : Int)).sum % 2 ^ bits := by
  induction words with
  | nil => simp
  | cons word words ih =>
      rw [List.sum_cons, toNat_add_eq, ih, List.map_cons, List.sum_cons, Int.add_emod_emod]

theorem eq_natCast_iff (i : BitVec bits) (k : Nat) :
    i = (k : BitVec bits) ↔ (k : Int) % 2 ^ bits = i.toNat := by
  have hk : (((k : BitVec bits).toNat : Nat) : Int) = (k : Int) % 2 ^ bits := by
    rw [BitVec.natCast_eq_ofNat, BitVec.toNat_ofNat, Int.natCast_emod, Int.natCast_pow]
    rfl
  rw [← hk, Int.natCast_inj, BitVec.toNat_inj, eq_comm]

namespace Compilation

theorem element_view_eq (bindings : Table Binding) (cells : Int → BitVec bits) (name : String)
    (i : Int) :
    (view bindings cells).element name i = (bindings.find? name).bind fun b =>
      if 0 ≤ i ∧ i < b.length then some (cells (b.base + i)) else none := by
  cases hb : bindings.find? name with
  | none => simp [Env.element, view, hb]
  | some b =>
      simp only [Env.element, view_eq_some hb, Option.bind_eq_bind, Option.bind_some, Variable.get?]
      by_cases hi : 0 ≤ i
      · have hcast : ((i.toNat : Nat) : Int) = i := by omega
        by_cases hlt : i < b.length
        · simp [hi, hlt, addresses, hcast, show i.toNat < b.length by omega]
        · simp [hi, hlt, addresses, show ¬ i.toNat < b.length by omega]
      · simp [hi]

theorem denotation_view (bindings : Table Binding) (cells : Int → BitVec bits) (node : Node) :
    node.denotation bindings (2 ^ bits) (fun x => (cells x).toNat) =
      ((view bindings cells).value node).map fun word => (word.toNat : Int) := by
  fun_induction Node.denotation bindings (2 ^ bits) (fun x => ((cells x).toNat : Int)) node with
  | case1 value isChar => simp only [Env.value, Option.map_some, toNat_ofInt_eq]
  | case2 => simp only [Env.value, Option.map_some, toNat_allOnes_eq]
  | case3 name =>
      rw [Env.value, element_view_eq]
      cases hb : bindings.find? name with
      | none => rfl
      | some b => simp only [Option.bind_eq_bind, Option.bind_some]; split <;> simp_all
  | case4 name index i hindex =>
      simp only [Env.value, hindex, element_view_eq]
      cases hb : bindings.find? name with
      | none => rfl
      | some b => simp only [Option.bind_eq_bind, Option.bind_some]; split <;> simp
  | case5 name index hindex ih =>
      simp only [Env.value, hindex, ih]
      cases hb : bindings.find? name with
      | none => simp [view, hb]
      | some b =>
          rw [view_eq_some hb]
          cases (view bindings cells).value index with
          | none => rfl
          | some i =>
              simp only [Option.bind_eq_bind, Option.bind_some, Option.map_some, Option.pure_def,
                readAt_addresses, toNat_sum_eq, List.map_map]
              congr 3
              refine List.map_congr_left fun k _ => ?_
              simp only [Function.comp_apply, eq_natCast_iff]
              split <;> rfl
  | case6 left right ihl ihr =>
      rw [ihl, ihr, Env.value]
      cases (view bindings cells).value left with
      | none => rfl
      | some a =>
          cases (view bindings cells).value right with
          | none => rfl
          | some b => exact congrArg some (toNat_add_eq a b).symm
  | case7 left right ihl ihr =>
      rw [ihl, ihr, Env.value]
      cases (view bindings cells).value left with
      | none => rfl
      | some a =>
          cases (view bindings cells).value right with
          | none => rfl
          | some b => exact congrArg some (toNat_sub_eq a b).symm
  | case8 node _ _ _ _ _ _ =>
      rw [Env.value] <;> first | rfl | assumption

end Compilation

end

namespace Tape

def denotation (tape : Tape) (bits : Nat) (bindings : Table Binding) (node : Node) : Option Int :=
  node.denotation bindings (2 ^ bits) fun x => tape.value x.toNat

namespace Fits

variable {tape tape' : Tape} {s : Setting} {bindings : Table Binding}

theorem value_bounds (h : tape.Fits s) (x : Nat) : 0 ≤ tape.value x ∧ tape.value x < 2 ^ s.bits := by
  rw [Tape.value, Array.getD_eq_getD_getElem?]
  cases hx : tape.cells[x]? with
  | none => exact ⟨Int.le_refl 0, two_pow_pos s.bits⟩
  | some value => exact h.cells value (Array.mem_of_getElem? hx)

theorem toNat_word (h : tape.Fits s) (x : Int) :
    (((World.ofTape s.bits tape []).cells x).toNat : Int) = tape.value x.toNat := by
  have hbounds := h.value_bounds x.toNat
  exact (toNat_ofInt_eq _).trans (Int.emod_eq_of_lt hbounds.1 hbounds.2)

theorem denotation_eq (h : tape.Fits s) (node : Node) :
    tape.denotation s.bits bindings node =
      ((Compilation.view bindings (World.ofTape s.bits tape []).cells).value node).map
        fun word => (word.toNat : Int) := by
  have hcells : (fun x : Int => tape.value x.toNat) =
      fun x => (((World.ofTape s.bits tape []).cells x).toNat : Int) :=
    funext fun x => (h.toNat_word x).symm
  rw [Tape.denotation, hcells, Compilation.denotation_view]

theorem denotation_bounds (h : tape.Fits s) {node : Node} {i : Int}
    (hi : tape.denotation s.bits bindings node = some i) : 0 ≤ i ∧ i < 2 ^ s.bits := by
  rw [h.denotation_eq] at hi
  obtain ⟨word, -, rfl⟩ := Option.map_eq_some_iff.1 hi
  exact ⟨Int.natCast_nonneg _, by exact_mod_cast word.isLt⟩

theorem denotation_element (h : tape.Fits s) {name : String} {index : Node} {b : Binding} {i : Int}
    (hindex : index.literalValue? = none) (hb : bindings.find? name = some b)
    (hi : tape.denotation s.bits bindings index = some i) (hlength : (b.length : Int) ≤ 2 ^ s.bits) :
    tape.denotation s.bits bindings (.var name (some index)) =
      some (if i < b.length then tape.value (b.base + i).toNat else 0) := by
  have hbounds := h.denotation_bounds hi
  have hslots (n : Nat) (hn : (n : Int) ≤ 2 ^ s.bits) :
      ((List.range n).map fun k : Nat =>
        if (k : Int) % 2 ^ s.bits = i then tape.value (b.base + k).toNat else 0).sum =
      if i < n then tape.value (b.base + i).toNat else 0 := by
    induction n with
    | zero => simp [hbounds.1]
    | succ n ih =>
        rw [List.range_succ, List.map_append, List.sum_append, ih (by omega), List.map_singleton,
          List.sum_singleton, Int.emod_eq_of_lt (by omega) (by omega)]
        by_cases heq : (n : Int) = i
        · subst heq
          simp
        · have hiff : i < (n : Int) ↔ i < ((n + 1 : Nat) : Int) := by omega
          simp [heq, hiff]
  unfold Tape.denotation at hi ⊢
  simp only [Node.denotation, hindex, hb, hi, Option.bind_eq_bind, Option.bind_some, Option.pure_def,
    hslots b.length hlength]
  congr 1
  split
  · exact Int.emod_eq_of_lt (h.value_bounds _).1 (h.value_bounds _).2
  · rfl

theorem value_beyond (h : tape.Fits s) {x : Nat} (hx : ¬ x < s.size) : tape.value x = 0 :=
  value_eq_zero (by rw [h.size]; exact Nat.le_of_not_lt hx)

theorem value_congr (h : tape.Fits s) (h' : tape'.Fits s) {cells : Int → BitVec s.bits}
    (hcells : ∀ x : Nat, x < s.size → tape'.value x = (cells x).toNat) {x : Nat}
    (hx : cells x = (World.ofTape s.bits tape []).cells x) : tape'.value x = tape.value x := by
  by_cases hlt : x < s.size
  · rw [hcells x hlt, hx, h.toNat_word]
    rfl
  · rw [h.value_beyond hlt, h'.value_beyond hlt]

theorem value_or_zero (h : tape.Fits s) (h' : tape'.Fits s) {cells : Int → BitVec s.bits}
    (hcells : ∀ x : Nat, x < s.size → tape'.value x = (cells x).toNat) {x : Nat}
    (hx : cells x = (World.ofTape s.bits tape []).cells x ∨ cells x = 0) :
    tape'.value x = tape.value x ∨ tape'.value x = 0 := by
  refine hx.imp (h.value_congr h' hcells) fun hzero => ?_
  by_cases hlt : x < s.size
  · rw [hcells x hlt, hzero]
    rfl
  · exact h'.value_beyond hlt

end Fits

end Tape

open Compile Compilation

variable {options : CompileOptions} {program : List Node} {start c d : Compilation}

theorem evaluate_on_dirty_tape (hc : c ∈ (Watch.program options program).passed start)
    {node : Node} {a : Int} (he : evaluate options node c = .ok a d) :
    ∃ added, d.code = c.code ++ added ∧ 0 ≤ a ∧ a < d.layout.highWater ∧
      ∀ (m : Machine) (tape : Tape), d.layout.highWater ≤ m.setting.size →
        tape.Fits m.setting → (tape.pointer : Int) = c.pointer →
        ∃ tape', m.Completes added tape tape' ∧ tape'.Fits m.setting ∧
          (tape'.pointer : Int) = d.pointer ∧
          tape.denotation m.setting.bits c.bindings node = some (tape'.value a.toNat) ∧
          (∀ x : Nat, c.layout.status x ≠ .free → tape'.value x = tape.value x) ∧
          (∀ x : Nat, (x : Int) ≠ a → tape'.value x = tape.value x ∨ tape'.value x = 0) ∧
          ∀ name index b i, node = .var name (some index) → index.literalValue? = none →
            c.bindings.find? name = some b → (b.length : Int) ≤ 2 ^ m.setting.bits →
            tape.denotation m.setting.bits c.bindings index = some i →
            tape'.value a.toNat = if i < b.length then tape.value (b.base + i).toNat else 0 := by
  have h := (Watch.program_safe options program start).passed c hc
  obtain ⟨value, hyields, hmeans, -⟩ := evaluate_yields h.sound he
  obtain ⟨added, hadded, hcompletes⟩ := hyields.step.completes (evaluate_talk he)
  have hplace := hyields.step.sound.dense.bounds hyields.live
  refine ⟨added, hadded, hplace.1, hplace.2, ?_⟩
  intro m tape hroom hfits hpointer
  obtain ⟨tape', cells, hdone, hfits', hpointer', ⟨hkeep, hother, hvalue⟩, hcells⟩ :=
    hcompletes m tape hroom hfits hpointer
  have hresult : tape.denotation m.setting.bits c.bindings node = some (tape'.value a.toNat) := by
    have hcast : ((a.toNat : Nat) : Int) = a := Int.toNat_of_nonneg hplace.1
    rw [hfits.denotation_eq, hmeans, hcells a.toNat (by omega), hcast, hvalue]
    rfl
  refine ⟨tape', hdone, hfits', hpointer', hresult, ?_, ?_, ?_⟩
  · intro x hx
    exact hfits.value_congr hfits' hcells (hkeep x hx)
  · intro x hx
    exact hfits.value_or_zero hfits' hcells (hother x hx)
  · rintro name index b i rfl hindex hb hlength hi
    rw [hfits.denotation_element hindex hb hi hlength] at hresult
    exact (Option.some.inj hresult).symm

def Compile.endsWithin {α : Type} (x : Compile α) (c : Compilation) (size : Int) : Bool :=
  match x c with
  | .ok _ d => d.layout.highWater ≤ size
  | .error _ _ => false

theorem exists_of_endsWithin {α : Type} {x : Compile α} {size : Int}
    (h : x.endsWithin c size = true) : ∃ a d, x c = .ok a d ∧ d.layout.highWater ≤ size := by
  unfold Compile.endsWithin at h
  split at h
  · exact ⟨_, _, ‹_›, of_decide_eq_true h⟩
  · cases h

def Tape.untidy : Tape := ⟨#[0, 1, 7, 9] ++ Array.replicate 16 5, 2⟩

theorem Tape.untidy_fits : untidy.Fits (Machine.small none).setting :=
  ⟨rfl, by decide, by decide⟩

def Node.nested : Node :=
  .math .minus (.var "a" (some (.var "a" (some (.literal 0 false))))) (.var "b" none)

theorem evaluate_on_dirty_tape_nested :
    ∃ c ∈ (Watch.program {} Node.shelf).passed Compilation.initial, ∃ a d added tape',
      evaluate {} Node.nested c = .ok a d ∧ d.code = c.code ++ added ∧
      (Machine.small none).Completes added Tape.untidy tape' ∧ tape'.value a.toNat = 254 := by
  have hany : ((Watch.program {} Node.shelf).passed Compilation.initial).any (fun c =>
      (c.pointer = 2 ∧ Tape.untidy.denotation 8 c.bindings Node.nested = some 254) &&
      (evaluate {} Node.nested).endsWithin c 20) = true := by
    decide +kernel
  obtain ⟨c, hc, hstate⟩ := List.any_eq_true.1 hany
  obtain ⟨hstate, hends⟩ := Bool.and_eq_true_iff.1 hstate
  obtain ⟨hpointer, hvalue⟩ := of_decide_eq_true hstate
  obtain ⟨a, d, he, hroom⟩ := exists_of_endsWithin hends
  obtain ⟨added, hadded, -, -, hruns⟩ := evaluate_on_dirty_tape hc he
  obtain ⟨tape', hdone, -, -, hresult, -⟩ :=
    hruns (Machine.small none) .untidy hroom Tape.untidy_fits hpointer.symm
  exact ⟨c, hc, a, d, added, tape', he, hadded, hdone, Option.some.inj (hresult.symm.trans hvalue)⟩

theorem assign_ok {line : Int} {name : String} {index value : Node}
    (hindex : index.literalValue? = none)
    (hd : statements options [.assign line name (some index) value] c = .ok () d) :
    ∃ event, writeElement name (evaluate options index) (evaluate options value)
      (c.record event) = .ok () d := by
  simp only [statements, block, bind_ok, get_ok, pure_ok] at hd
  obtain ⟨_, _, ⟨rfl, rfl⟩, _, _, hnode, -, rfl⟩ := hd
  obtain ⟨event, hform⟩ := asStatement_ok hnode
  simp only [form, assign, hindex] at hform
  exact ⟨event, hform⟩

theorem assign_at_computed_index (hc : c ∈ (Watch.program options program).passed start)
    {line : Int} {name : String} {index value : Node} (hindex : index.literalValue? = none)
    (hd : statements options [.assign line name (some index) value] c = .ok () d) :
    ∃ b added, c.bindings.find? name = some b ∧ d.bindings = c.bindings ∧
      d.code = c.code ++ added ∧
      ∀ (m : Machine) (tape : Tape), d.layout.highWater ≤ m.setting.size →
        tape.Fits m.setting → (tape.pointer : Int) = c.pointer →
        ∃ tape' i v, m.Completes added tape tape' ∧ (tape'.pointer : Int) = d.pointer ∧
          tape.denotation m.setting.bits c.bindings index = some i ∧
          tape.denotation m.setting.bits c.bindings value = some v ∧
          (∀ k : Nat, k < b.length → tape'.value (b.base + k).toNat =
            if (k : Int) % 2 ^ m.setting.bits = i then v else tape.value (b.base + k).toNat) ∧
          (∀ x : Nat, c.layout.status x ≠ .free → (∀ k : Nat, k < b.length → (x : Int) ≠ b.base + k) →
            tape'.value x = tape.value x) ∧
          (∀ x : Nat, c.layout.status x = .free → tape'.value x = tape.value x ∨ tape'.value x = 0) ∧
          ((b.length : Int) ≤ 2 ^ m.setting.bits → (b.length : Int) ≤ i →
            ∀ x : Nat, c.layout.status x ≠ .free → tape'.value x = tape.value x) := by
  have h := (Watch.program_safe options program start).passed c hc
  obtain ⟨event, hwrite⟩ := assign_ok hindex hd
  obtain ⟨b, vi, v, hb, hmi, hmv, hdoes⟩ := writeElement_does (h.sound.record event) hwrite
  obtain ⟨added, hadded, hcompletes⟩ := hdoes.completes (writeElement_talk hwrite)
  refine ⟨b, added, hb, hdoes.ext.bindings, hadded, ?_⟩
  intro m tape hroom hfits hpointer
  obtain ⟨tape', cells, hdone, hfits', hpointer', ⟨hlive, hfree⟩, hcells⟩ :=
    hcompletes m tape hroom hfits hpointer
  have hi := (hfits.denotation_eq index).trans (congrArg _ (hmi m.setting.bits _))
  have hv := (hfits.denotation_eq value).trans (congrArg _ (hmv m.setting.bits _))
  dsimp only at hlive
  generalize vi m.setting.bits (World.ofTape m.setting.bits tape []).cells = i at hlive hi
  generalize v m.setting.bits (World.ofTape m.setting.bits tape []).cells = v at hlive hv
  have hkept (x : Nat) (hx : c.layout.status x ≠ .free)
      (hne : ∀ k : Nat, k < b.length → (x : Int) = b.base + k →
        (k : Int) % 2 ^ m.setting.bits ≠ i.toNat) : tape'.value x = tape.value x := by
    refine hfits.value_congr hfits' hcells ((hlive x hx).trans (if_neg ?_))
    rintro ⟨k, hk, heq, hik⟩
    exact hne k hk heq ((eq_natCast_iff ..).1 hik)
  refine ⟨tape', i.toNat, v.toNat, hdone, hpointer', hi, hv, ?_, ?_, ?_, ?_⟩
  · intro k hk
    have hlive' : c.layout.status (b.base + k) ≠ .free := by simp [h.sound.bound hb k hk]
    have hbounds := h.sound.dense.bounds hlive'
    have hgrows : c.layout.highWater ≤ d.layout.highWater := hdoes.ext.grows
    have hcast : (((b.base + k).toNat : Nat) : Int) = b.base + k := Int.toNat_of_nonneg hbounds.1
    split
    · rename_i hik
      rw [hcells _ (by omega), hcast, hlive _ hlive', written,
        if_pos ⟨k, hk, rfl, (eq_natCast_iff ..).2 hik⟩]
    · rename_i hik
      refine hkept _ (hcast ▸ hlive') ?_
      intro k' _ heq
      have hsame : k' = k := by omega
      rwa [hsame]
  · intro x hx hne
    exact hkept x hx fun k hk heq => absurd heq (hne k hk)
  · intro x hx
    exact hfits.value_or_zero hfits' hcells (hfree x hx)
  · intro hlength hbeyond x hx
    refine hkept x hx fun k hk _ hik => ?_
    rw [Int.emod_eq_of_lt (by omega) (by omega)] at hik
    omega

def Node.overwrite : Node :=
  .assign 4 "a" (some (.math .minus (.var "a" (some (.literal 0 false))) (.literal 1 false)))
    (.var "a" (some (.literal 1 false)))

theorem assign_at_computed_index_overwrite :
    ∃ c ∈ (Watch.program {} Node.shelf).passed Compilation.initial, ∃ d added tape',
      statements {} [Node.overwrite] c = .ok () d ∧ d.code = c.code ++ added ∧
      (Machine.small none).Completes added Tape.untidy tape' ∧
      tape'.value 1 = 7 ∧ tape'.value 2 = 7 ∧ tape'.value 3 = 9 := by
  have hany : ((Watch.program {} Node.shelf).passed Compilation.initial).any (fun c =>
      (c.pointer = 2 ∧ c.bindings.find? "a" = some ⟨1, 2, .number⟩ ∧
        c.layout.status 3 = .named "b" 0 .number) &&
      (statements {} [Node.overwrite]).endsWithin c 20) = true := by
    decide +kernel
  obtain ⟨c, hc, hstate⟩ := List.any_eq_true.1 hany
  obtain ⟨hstate, hends⟩ := Bool.and_eq_true_iff.1 hstate
  obtain ⟨hpointer, ha, hb⟩ := of_decide_eq_true hstate
  obtain ⟨_, d, hd, hroom⟩ := exists_of_endsWithin hends
  obtain ⟨b, added, hfind, -, hadded, hruns⟩ := assign_at_computed_index hc rfl hd
  cases ha.symm.trans hfind
  obtain ⟨tape', i, v, hdone, -, hi, hv, harray, hothers, -⟩ :=
    hruns (Machine.small none) .untidy hroom Tape.untidy_fits hpointer.symm
  simp only [Tape.denotation, Node.denotation, Node.literalValue?, ha] at hi hv
  cases hi
  cases hv
  exact ⟨c, hc, d, added, tape', hd, hadded, hdone, harray 0 (by decide), harray 1 (by decide),
    hothers 3 (by simp [hb]) (by decide)⟩

end TapeCompiler
