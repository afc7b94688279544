import TapeCompiler.Proofs.Operations

namespace TapeCompiler

open Compile

namespace Compilation

variable {codes : List String} {S : Int → Prop} {c d : Compilation} {name : String} {type : CellType}
  {base : Int} {n : Nat}

theorem Extends.release (h : Extends c d) (hd : d.layout.Dense) {a : Int}
    (ha : d.layout.status a = .temp → c.layout.status a = .free) : Extends c (d.release a) := by
  by_cases htemp : d.layout.status a = .temp
  · rw [release_temp htemp]
    refine (h.trans (.of_same (.clear d a))).free ?_ (ha htemp) ?_
    · rwa [layout_clear]
    · rw [layout_clear, htemp]
      simp
  · rwa [release_kept htemp]

structure Declares (c d : Compilation) (name : String) (type : CellType) (base : Int) (n : Nat) :
    Prop where
  low : 0 ≤ base
  reach : base ≤ c.layout.highWater
  positive : 0 < n
  free : ∀ i < n, c.layout.status (base + (i : Int)) = .free
  layout : d.layout = c.layout.setRange base (fun i => .named name i type) n
  bindings : d.bindings = c.bindings.insert name ⟨base, n, type⟩
  functions : d.functions = c.functions
  unsafePointer : d.unsafePointer = c.unsafePointer
  unsafeRegion : d.unsafeRegion = c.unsafeRegion
  tracked : 0 ≤ d.pointer ∧ d.pointer < max 1 d.layout.highWater
  turns : ∃ m ≤ n, (m = n ∨ c.layout.highWater = base + m) ∧
    Turns d.layout.highWater c d fun _ cells => zeroed base m cells

theorem layout_clearReused (c : Compilation) (start count : Int) :
    (c.clearReused start count).layout = c.layout := by
  rw [clearReused_eq, layout_sweep]
  generalize (min (start + count) c.layout.highWater - start).toNat = m
  induction m with
  | zero => rfl
  | succ m ih => rw [List.range_succ, List.foldl_append, ih]; rfl

theorem same_clearReused (c : Compilation) (start count : Int) :
    Same c (c.clearReused start count) := by
  have hlayout := layout_clearReused c start count
  have hsame := same_sweep c start (fun _ layout => layout)
    (min (start + count) c.layout.highWater - start).toNat
  rw [← clearReused_eq] at hsame
  exact ⟨hlayout, hsame.bindings, hsame.functions, hsame.unsafePointer, hsame.unsafeRegion⟩

theorem declareScalar_declares (h : Sound c) (name : String) (type : CellType) :
    Declares c (c.declareScalar name type) name type c.layout.lowestFree 1 := by
  obtain ⟨hfree, h0, hle, -⟩ := Layout.lowestFree_spec h.dense
  have hsame := same_clearReused c c.layout.lowestFree 1
  have hlayout : (c.declareScalar name type).layout =
      c.layout.setRange c.layout.lowestFree (fun i => .named name i type) 1 := by
    simp [declareScalar, hsame.layout, Layout.setRange, Layout.bind]
  have hwater : (c.declareScalar name type).layout.highWater =
      max c.layout.highWater (c.layout.lowestFree + 1) := by
    rw [hlayout, Layout.highWater_setRange h0 hle]
    rfl
  obtain ⟨m, hm⟩ : ∃ m, (min (c.layout.lowestFree + 1) c.layout.highWater -
    c.layout.lowestFree).toNat = m := ⟨_, rfl⟩
  have hbound : 0 ≤ c.pointer ∧ c.pointer < (c.declareScalar name type).layout.highWater := by
    have := h.tracked
    omega
  have hpointer := pointer_sweep (g := fun _ layout => layout) hbound h0 (n := m) (by omega)
  have hturns := turns_sweep (g := fun _ layout => layout) hbound h0 (n := m) (by omega)
  rw [← hm, ← clearReused_eq] at hpointer hturns
  rw [hm] at hturns
  have hbind : Turns (c.declareScalar name type).layout.highWater
    (c.clearReused c.layout.lowestFree 1) (c.declareScalar name type) fun _ cells => cells :=
    .same rfl rfl
  refine ⟨h0, hle, Nat.one_pos, fun i hi => ?_, hlayout, ?_, hsame.functions, hsame.unsafePointer,
    hsame.unsafeRegion, ?_, m, by omega, by omega, hturns.trans hbind⟩
  · have hi : i = 0 := by omega
    simpa [hi] using hfree
  · simp only [declareScalar, hsame.bindings]
  · have hsamePointer : (c.declareScalar name type).pointer =
        (c.clearReused c.layout.lowestFree 1).pointer := rfl
    omega

theorem declareArray_eq (c : Compilation) (name : String) (type : CellType) {n : Nat} {base : Int}
    (hbase : c.layout.firstFit n = base) :
    c.declareArray name type n = { c.sweep base (fun i layout =>
      layout.bind (base + i) name i type) n with
      bindings := (c.sweep base (fun i layout => layout.bind (base + i) name i type) n).bindings.insert
        name ⟨base, n, type⟩ } := by
  simp only [declareArray, hbase]
  rfl

theorem layout_declareArray (c : Compilation) (name : String) (type : CellType) (n : Nat) :
    (c.declareArray name type n).layout =
      c.layout.setRange (c.layout.firstFit n) (fun i => .named name i type) n := by
  rw [declareArray_eq c name type rfl]
  exact layout_sweep ..

theorem declareArray_turns (h : Sound c) (name : String) (type : CellType) (hn : 0 < n) :
    (0 ≤ (c.declareArray name type n).pointer ∧
      (c.declareArray name type n).pointer < (c.declareArray name type n).layout.highWater) ∧
    Turns (c.declareArray name type n).layout.highWater c (c.declareArray name type n)
      fun _ cells => zeroed (c.layout.firstFit n) n cells := by
  obtain ⟨h0, hle, -⟩ := Layout.firstFit_spec h.dense n
  have hlayout := layout_declareArray c name type n
  obtain ⟨base, hbase⟩ : ∃ base, c.layout.firstFit n = base := ⟨_, rfl⟩
  have hcode := declareArray_eq c name type hbase
  rw [hbase] at h0 hle hlayout ⊢
  have hwater : (c.declareArray name type n).layout.highWater =
      max c.layout.highWater (base + n) := by
    rw [hlayout, Layout.highWater_setRange h0 hle]
  have hbound : 0 ≤ c.pointer ∧ c.pointer < (c.declareArray name type n).layout.highWater := by
    have := h.tracked
    omega
  have hpointer := pointer_sweep (g := fun i layout => layout.bind (base + i) name i type)
    hbound h0 (n := n) (by omega)
  have hturns := turns_sweep (g := fun i layout => layout.bind (base + i) name i type)
    hbound h0 (n := n) (by omega)
  have hbind : Turns (c.declareArray name type n).layout.highWater
      (c.sweep base (fun i layout => layout.bind (base + i) name i type) n)
      (c.declareArray name type n) fun _ cells => cells := by
    refine .same ?_ ?_
    · rw [hcode]
    · rw [hcode]
  have hsamePointer : (c.declareArray name type n).pointer =
      (c.sweep base (fun i layout => layout.bind (base + i) name i type) n).pointer := by rw [hcode]
  exact ⟨by omega, hturns.trans hbind⟩

theorem declareArray_declares (h : Sound c) (name : String) (type : CellType) (hn : 0 < n) :
    Declares c (c.declareArray name type n) name type (c.layout.firstFit n) n := by
  obtain ⟨h0, hle, hfree⟩ := Layout.firstFit_spec h.dense n
  have hlayout := layout_declareArray c name type n
  obtain ⟨htracked, hturns⟩ := declareArray_turns h name type hn
  have hsame := same_sweep c (c.layout.firstFit n)
    (fun i layout => layout.bind (c.layout.firstFit n + i) name i type) n
  have hcode := declareArray_eq c name type (n := n) rfl
  refine ⟨h0, hle, hn, fun i hi => hfree _ (by omega) (by omega), hlayout, ?_, ?_, ?_, ?_, by omega,
    n, Nat.le_refl n, .inl rfl, hturns⟩
  · rw [hcode, hsame.bindings]
    rfl
  · rw [hcode]
    exact hsame.functions
  · rw [hcode]
    exact hsame.unsafePointer
  · rw [hcode]
    exact hsame.unsafeRegion

theorem Sound.record (h : Sound c) (event : Event) : Sound (c.record event) :=
  ⟨⟨h.dense, h.bound⟩, h.reserved, h.inside, h.outside, h.tracked⟩

theorem Declares.of_record {event : Event} (h : Declares (c.record event) d name type base n) :
    Declares c d name type base n := by
  obtain ⟨m, hm, hend, k, hk, hrun⟩ := h.turns
  exact ⟨h.low, h.reach, h.positive, h.free, h.layout, h.bindings, h.functions, h.unsafePointer,
    h.unsafeRegion, h.tracked, m, hm, hend, k, ⟨hk.text, hk.leads⟩, hrun⟩

theorem Declares.sound (h : Sound c) (hd : Declares c d name type base n) : Sound d :=
  h.bindRange hd.low hd.reach hd.free hd.layout hd.bindings hd.unsafePointer hd.unsafeRegion
    hd.tracked

theorem Declares.keeps (h : Sound c) (hd : Declares c d name type base n)
    (hlive : ∀ {x}, S x → c.layout.status x ≠ .free) : Keeps codes S c d := by
  obtain ⟨m, hm, -, k, hk, hrun⟩ := hd.turns
  have houtside {x : Int} (hx : S x) : x < base ∨ base + n ≤ x := by
    rcases Layout.inside_or_outside base x n with ⟨i, hi, rfl⟩ | hout
    · exact absurd (hd.free i hi) (hlive hx)
    · exact hout
  refine ⟨hd.sound h, ?_, fun hx => ?_, fun _ => ⟨k, hk, ?_⟩⟩
  · rw [hd.layout, Layout.highWater_setRange hd.low hd.reach]
    omega
  · rw [hd.layout, Layout.status_setRange_outside (houtside hx)]
  · intro _ s w w' hw hdone x hx
    cases hdone.deterministic (hrun s w hw)
    have := houtside hx
    exact zeroed_outside (by omega)

theorem Sound.cells_below (h : Sound c) {b : Binding} (hb : c.bindings.find? name = some b)
    {i : Nat} (hi : i < b.length) : 0 ≤ b.base + (i : Int) ∧ b.base + i < c.layout.highWater :=
  h.dense.bounds (by rw [h.bound hb i hi]; simp)

structure Removes (c d : Compilation) (name : String) (b : Binding) : Prop where
  layout : d.layout = c.layout.setRange b.base (fun _ => .free) b.length
  highWater : d.layout.highWater = c.layout.highWater
  bindings : d.bindings = c.bindings.erase name
  functions : d.functions = c.functions
  unsafePointer : d.unsafePointer = c.unsafePointer
  unsafeRegion : d.unsafeRegion = c.unsafeRegion
  tracked : 0 ≤ d.pointer ∧ d.pointer < max 1 d.layout.highWater
  turns : Turns d.layout.highWater c d fun _ cells => zeroed b.base b.length cells

theorem removeVariable_removes (h : Sound c) {b : Binding} (hb : c.bindings.find? name = some b) :
    Removes c (c.removeVariable name b) name b := by
  have hcode : c.removeVariable name b = { c.sweep b.base (fun i layout => layout.free (b.base + i))
      b.length with bindings := (c.sweep b.base (fun i layout => layout.free (b.base + i))
        b.length).bindings.erase name } := by
    simp only [removeVariable, clearAndFree_eq]
  have hsame := same_sweep c b.base (fun i layout => layout.free (b.base + i)) b.length
  have hlayout : (c.removeVariable name b).layout =
      c.layout.setRange b.base (fun _ => .free) b.length := by
    rw [hcode]
    exact layout_sweep ..
  -- A variable without cells says nothing of where its cells would be, so it stands apart.
  rcases Nat.eq_zero_or_pos b.length with hzero | hpos
  · have hnothing : c.removeVariable name b = { c with bindings := c.bindings.erase name } := by
      rw [hcode, hzero]
      rfl
    rw [hnothing]
    have hturns : Turns c.layout.highWater c { c with bindings := c.bindings.erase name }
      fun _ cells => cells := .same rfl rfl
    refine ⟨by rw [hzero]; rfl, rfl, rfl, rfl, rfl, rfl, h.tracked, hturns.congr fun _ cells => ?_⟩
    funext x
    exact (zeroed_outside (by omega)).symm
  · have hfirst := h.cells_below hb hpos
    have hlast := h.cells_below hb (Nat.sub_lt hpos Nat.one_pos)
    have hwater : (c.removeVariable name b).layout.highWater = c.layout.highWater := by
      rw [hlayout, Layout.highWater_setRange (by omega) (by omega)]
      omega
    have hbound : 0 ≤ c.pointer ∧ c.pointer < c.layout.highWater := by
      have := h.tracked
      omega
    have hpointer := pointer_sweep (g := fun i layout => layout.free (b.base + i)) hbound
      (show 0 ≤ b.base by omega) (n := b.length) (by omega)
    have hturns := turns_sweep (g := fun i layout => layout.free (b.base + i)) hbound
      (show 0 ≤ b.base by omega) (n := b.length) (by omega)
    refine ⟨hlayout, hwater, ?_, ?_, ?_, ?_, ?_, ?_⟩
    · rw [hcode, hsame.bindings]
      rfl
    · rw [hcode]
      exact hsame.functions
    · rw [hcode]
      exact hsame.unsafePointer
    · rw [hcode]
      exact hsame.unsafeRegion
    · have hsamePointer : (c.removeVariable name b).pointer =
          (c.sweep b.base (fun i layout => layout.free (b.base + i)) b.length).pointer := by rw [hcode]
      omega
    · have herase : Turns c.layout.highWater
          (c.sweep b.base (fun i layout => layout.free (b.base + i)) b.length)
          (c.removeVariable name b) fun _ cells => cells := by
        refine .same ?_ ?_
        · rw [hcode]
        · rw [hcode]
      rw [hwater]
      exact hturns.trans herase

theorem Removes.sound (h : Sound c) {b : Binding} (hb : c.bindings.find? name = some b)
    (hd : Removes c d name b) : Sound d :=
  h.eraseRange hb hd.layout hd.bindings hd.unsafePointer hd.unsafeRegion hd.tracked

theorem Removes.keeps (h : Sound c) {b : Binding} (hb : c.bindings.find? name = some b)
    (hd : Removes c d name b) (hS : ∀ {x i t}, S x → c.layout.status x ≠ .named name i t) :
    Keeps codes S c d := by
  obtain ⟨k, hk, hrun⟩ := hd.turns
  have houtside {x : Int} (hx : S x) : x < b.base ∨ b.base + b.length ≤ x := by
    rcases Layout.inside_or_outside b.base x b.length with ⟨i, hi, rfl⟩ | hout
    · exact absurd (h.bound hb i hi) (hS hx)
    · exact hout
  refine ⟨hd.sound h hb, by rw [hd.highWater], fun hx => ?_, fun _ => ⟨k, hk, ?_⟩⟩
  · rw [hd.layout, Layout.status_setRange_outside (houtside hx)]
  · intro _ s w w' hw hdone x hx
    cases hdone.deterministic (hrun s w hw)
    exact zeroed_outside (houtside hx)

def startBlock (c : Compilation) (size : Int) : Compilation :=
  (c.enterBlock size).moveTo (c.layout.firstFit size)

theorem layout_enterBlock (c : Compilation) (size : Int) : (c.enterBlock size).layout =
    c.layout.setRange (c.layout.firstFit size) (fun _ => .reserved) size.toNat := by
  simp only [enterBlock, Compilation.record, (same_clearReused c _ size).layout,
    Layout.foldl_reserve]

theorem highWater_enterBlock (h : Sound c) {size : Int} (hsize : 0 < size) :
    (c.enterBlock size).layout.highWater =
      max c.layout.highWater (c.layout.firstFit size + size) := by
  obtain ⟨h0, hle, -⟩ := Layout.firstFit_spec h.dense size
  rw [layout_enterBlock, Layout.highWater_setRange h0 hle]
  omega

theorem enterBlock_turns (h : Sound c) {size : Int} (hsize : 0 < size) :
    (0 ≤ (c.enterBlock size).pointer ∧
      (c.enterBlock size).pointer < (c.enterBlock size).layout.highWater) ∧
    ∃ m : Nat, m ≤ size ∧ (m = size ∨ c.layout.highWater ≤ c.layout.firstFit size + m) ∧
      Turns (c.enterBlock size).layout.highWater c (c.enterBlock size)
        fun _ cells => zeroed (c.layout.firstFit size) m cells := by
  obtain ⟨h0, hle, -⟩ := Layout.firstFit_spec h.dense size
  have hwater := highWater_enterBlock h hsize
  obtain ⟨start, hstart⟩ : ∃ start, c.layout.firstFit size = start := ⟨_, rfl⟩
  rw [hstart] at h0 hle hwater ⊢
  have hpointer : (c.enterBlock size).pointer = (c.clearReused start size).pointer := by
    simp only [enterBlock, Compilation.record, hstart]
  have hcode : (c.enterBlock size).code = (c.clearReused start size).code := by
    simp only [enterBlock, Compilation.record, hstart]
  have hbound : 0 ≤ c.pointer ∧ c.pointer < (c.enterBlock size).layout.highWater := by
    have := h.tracked
    omega
  obtain ⟨m, hm⟩ : ∃ m, (min (start + size) c.layout.highWater - start).toNat = m := ⟨_, rfl⟩
  have htracked := pointer_sweep (g := fun _ layout => layout) hbound h0 (n := m) (by omega)
  have hturns := turns_sweep (g := fun _ layout => layout) hbound h0 (n := m) (by omega)
  rw [← hm, ← clearReused_eq] at htracked hturns
  rw [hm] at hturns
  exact ⟨by rwa [hpointer], m, by omega, by omega, hturns.trans (Turns.same hcode hpointer)⟩

theorem startBlock_turns (h : Sound c) {size : Int} (hsize : 0 < size) :
    ∃ m : Nat, m ≤ size ∧ (m = size ∨ c.layout.highWater ≤ c.layout.firstFit size + m) ∧
      Turns (c.enterBlock size).layout.highWater c (c.startBlock size)
        fun _ cells => zeroed (c.layout.firstFit size) m cells := by
  obtain ⟨h0, -, -⟩ := Layout.firstFit_spec h.dense size
  have hwater := highWater_enterBlock h hsize
  obtain ⟨htracked, m, hm, hend, hturns⟩ := enterBlock_turns h hsize
  exact ⟨m, hm, hend, hturns.trans (turns_moveTo htracked (by omega))⟩

theorem enterBlock_keeps (h : Sound c) (hnone : c.unsafePointer = none) {size : Int}
    (hsize : 0 < size) (hlive : ∀ {x}, S x → c.layout.status x ≠ .free) :
    Keeps codes S c (c.enterBlock size) := by
  obtain ⟨h0, hle, hfree⟩ := Layout.firstFit_spec h.dense size
  obtain ⟨htracked, m, hm, -, k, hk, hrun⟩ := enterBlock_turns h hsize
  have hwater := highWater_enterBlock h hsize
  have houtside {x : Int} (hx : S x) :
      x < c.layout.firstFit size ∨ c.layout.firstFit size + size ≤ x := by
    by_contra hinside
    exact hlive hx (hfree x (by omega) (by omega))
  refine ⟨h.reserveRange hnone hsize h0 hle (fun i hi => hfree _ (by omega) (by omega))
    (layout_enterBlock c size) (same_clearReused c _ size).bindings rfl rfl (by omega), by omega,
    fun hx => ?_, fun _ => ⟨k, hk, ?_⟩⟩
  · have := houtside hx
    rw [layout_enterBlock, Layout.status_setRange_outside (by omega)]
  · intro _ s w w' hw hdone x hx
    cases hdone.deterministic (hrun s w hw)
    have := houtside hx
    exact zeroed_outside (by omega)

theorem enterBlock_sound (h : Sound c) (hnone : c.unsafePointer = none) {size : Int}
    (hsize : 0 < size) : Sound (c.enterBlock size) := by
  have hkeeps : Keeps [] (fun _ => False) c (c.enterBlock size) :=
    enterBlock_keeps h hnone hsize fun hx => hx.elim
  exact hkeeps.sound

section

variable {start size : Int}

theorem layout_leaveBlock (c : Compilation) (start size : Int) :
    (c.clearAndFree (addresses start size.toNat)).leaveBlock.layout =
      c.layout.setRange start (fun _ => .free) size.toNat := by
  rw [clearAndFree_eq]
  exact layout_sweep ..

theorem Sound.region_bounds (h : Sound c) (hsize : 0 < size)
    (hopen : c.unsafeRegion = some ⟨start, size⟩) :
    0 ≤ start ∧ start + size ≤ c.layout.highWater := by
  have hreserved (x : Int) (hx : start ≤ x ∧ x < start + size) : c.layout.status x ≠ .free := by
    rw [(h.reserved x).2 ⟨_, hopen, hx⟩]
    simp
  have hfirst := h.dense.bounds (hreserved start (by omega))
  have hlast := h.dense.bounds (hreserved (start + size - 1) (by omega))
  omega

theorem highWater_leaveBlock (h : Sound c) (hsize : 0 < size)
    (hopen : c.unsafeRegion = some ⟨start, size⟩) :
    (c.clearAndFree (addresses start size.toNat)).leaveBlock.layout.highWater =
      c.layout.highWater := by
  have hbounds := h.region_bounds hsize hopen
  rw [layout_leaveBlock, Layout.highWater_setRange hbounds.1 (by omega)]
  omega

theorem leaveBlock_turns (h : Sound c) (hsize : 0 < size)
    (hopen : c.unsafeRegion = some ⟨start, size⟩) :
    (0 ≤ (c.clearAndFree (addresses start size.toNat)).leaveBlock.pointer ∧
      (c.clearAndFree (addresses start size.toNat)).leaveBlock.pointer < c.layout.highWater) ∧
    Turns c.layout.highWater c (c.clearAndFree (addresses start size.toNat)).leaveBlock
      fun _ cells => zeroed start size.toNat cells := by
  have hbounds := h.region_bounds hsize hopen
  have hbound : 0 ≤ c.pointer ∧ c.pointer < c.layout.highWater := by
    have := h.tracked
    omega
  have htracked := pointer_sweep (g := fun i layout => layout.free (start + i)) hbound hbounds.1
    (n := size.toNat) (by omega)
  have hturns := turns_sweep (g := fun i layout => layout.free (start + i)) hbound hbounds.1
    (n := size.toNat) (by omega)
  rw [← clearAndFree_eq] at htracked hturns
  have hleave : Turns c.layout.highWater (c.clearAndFree (addresses start size.toNat))
    (c.clearAndFree (addresses start size.toNat)).leaveBlock fun _ cells => cells := .same rfl rfl
  exact ⟨htracked, hturns.trans hleave⟩

theorem leaveBlock_keeps (h : Sound c) (hsize : 0 < size)
    (hopen : c.unsafeRegion = some ⟨start, size⟩) (hS : Apart S c) :
    Keeps codes S c (c.clearAndFree (addresses start size.toNat)).leaveBlock := by
  have hsame := same_sweep c start (fun i layout => layout.free (start + i)) size.toNat
  rw [← clearAndFree_eq] at hsame
  have hwater := highWater_leaveBlock h hsize hopen
  obtain ⟨htracked, k, hk, hrun⟩ := leaveBlock_turns h hsize hopen
  have houtside {x : Int} (hx : S x) : x < start ∨ start + size ≤ x := by
    by_contra hinside
    exact (hS hx).2 ((h.reserved x).2 ⟨_, hopen, by dsimp only; omega⟩)
  refine ⟨h.freeRange hsize hopen (layout_leaveBlock c start size) hsame.bindings rfl rfl
    (by omega), by omega, fun hx => ?_, fun _ => ⟨k, ⟨hk.text, hwater ▸ hk.leads⟩, ?_⟩⟩
  · have := houtside hx
    rw [layout_leaveBlock, Layout.status_setRange_outside (by omega)]
  · intro _ s w w' hw hdone x hx
    cases hdone.deterministic (hrun s w hw)
    have := houtside hx
    exact zeroed_outside (by omega)

end

end Compilation

namespace Compile

open Compilation

variable {codes : List String} {S : Int → Prop} {c d : Compilation} {options : CompileOptions}
  {name : String} {type : CellType}

theorem declare_turns {length : Option Int} (h : Sound c)
    (hd : declare name type length c = .ok () d) :
    ∃ base, Declares c d name type base ((length.getD 1).toNat) ∧ (length.isSome = true →
      Turns d.layout.highWater c d fun _ cells => zeroed base ((length.getD 1).toNat) cells) := by
  have hnoted {x : Compile Unit} {n : Nat}
      (hx : (if c.bindings.contains name then record (.redeclared name) >>= fun _ => x else x) c =
        .ok () d)
      (hdeclares : ∀ {c}, Sound c → x c = .ok () d → ∃ base, Declares c d name type base n ∧
        (length.isSome = true → Turns d.layout.highWater c d fun _ cells => zeroed base n cells)) :
      ∃ base, Declares c d name type base n ∧
        (length.isSome = true → Turns d.layout.highWater c d fun _ cells => zeroed base n cells) := by
    split at hx
    · simp only [bind_ok, record_ok] at hx
      obtain ⟨_, _, rfl, hx⟩ := hx
      obtain ⟨base, hbase, hturns⟩ := hdeclares (h.record _) hx
      refine ⟨base, hbase.of_record, fun hsome => ?_⟩
      obtain ⟨k, hk, hrun⟩ := hturns hsome
      exact ⟨k, ⟨hk.text, hk.leads⟩, hrun⟩
    · exact hdeclares h hx
  simp only [declare, bind_ok, get_ok] at hd
  obtain ⟨_, _, ⟨rfl, rfl⟩, hd⟩ := hd
  refine hnoted hd fun {c} h hx => ?_
  cases length with
  | none =>
      rw [modify_ok] at hx
      exact ⟨_, hx ▸ declareScalar_declares h name type, fun hsome => by cases hsome⟩
  | some length =>
      dsimp only at hx
      split at hx
      · exact absurd hx fail_ok
      · rename_i hpos
        rw [modify_ok] at hx
        subst hx
        have hn : 0 < length.toNat := by omega
        exact ⟨_, declareArray_declares h name type hn,
          fun _ => (declareArray_turns h name type hn).2⟩

theorem declare_declares {length : Option Int} (h : Sound c)
    (hd : declare name type length c = .ok () d) :
    ∃ base, Declares c d name type base ((length.getD 1).toNat) := by
  obtain ⟨base, hdeclares, -⟩ := declare_turns h hd
  exact ⟨base, hdeclares⟩

theorem remove_removes (h : Sound c) (hd : remove name c = .ok () d) :
    ∃ b, c.bindings.find? name = some b ∧ Removes c d name b := by
  simp only [remove, bind_ok, binding_ok, modify_ok] at hd
  obtain ⟨b, _, ⟨hb, rfl⟩, rfl⟩ := hd
  exact ⟨b, hb, removeVariable_removes h hb⟩

theorem isTextual_ok {node : Node} {b : Bool} (hd : isTextual node c = .ok b d) :
    c = d ∧ ∀ {bits : Nat} (cells : Int → BitVec bits),
      (view c.bindings cells).textual node = some b := by
  unfold isTextual at hd
  split at hd
  · obtain ⟨rfl, rfl⟩ := pure_ok.1 hd
    exact ⟨rfl, fun _ => rfl⟩
  · simp only [bind_ok, binding_ok, pure_ok] at hd
    obtain ⟨b, _, ⟨hb, rfl⟩, rfl, rfl⟩ := hd
    exact ⟨rfl, fun cells => by simp [Env.textual, view_eq_some hb]⟩
  · rename_i hliteral hvar
    obtain ⟨rfl, rfl⟩ := pure_ok.1 hd
    refine ⟨rfl, fun cells => ?_⟩
    cases node
    case literal number isChar => exact absurd rfl (hliteral number isChar)
    case var name index => exact absurd rfl (hvar name index)
    all_goals rfl

theorem display_ok {node : Node} (hd : display options node c = .ok () d) :
    ∃ a c₁ textual, evaluate options node c = .ok a c₁ ∧
      (∀ {bits : Nat} (cells : Int → BitVec bits),
        (view c₁.bindings cells).textual node = some textual) ∧
      d = ((c₁.moveTo a).emit (if textual then "~" else ".")).release a := by
  simp only [display, bind_ok, modify_ok] at hd
  obtain ⟨a, c₁, ha, _, _, rfl, textual, c₂, ht, _, _, rfl, rfl⟩ := hd
  obtain ⟨rfl, htextual⟩ := isTextual_ok ht
  rw [(Same.moveTo c₁ a).bindings] at htextual
  exact ⟨a, c₁, textual, ha, htextual, rfl⟩

theorem input_ok (hd : input name c = .ok () d) :
    ∃ b, c.bindings.find? name = some b ∧ 0 < b.length ∧ d = (c.moveTo b.base).emit "," := by
  simp only [input, bind_ok, element_ok, modify_ok] at hd
  obtain ⟨a, _, ⟨b, hb, hrange, rfl, rfl⟩, rfl⟩ := hd
  refine ⟨b, hb, by omega, ?_⟩
  rw [Int.add_zero]

theorem display_keeps {node : Node} (h : Sound c)
    (hlive : ∀ {x}, S x → c.layout.status x ≠ .free) (hd : display options node c = .ok () d) :
    Keeps codes S c d ∧ Extends c d := by
  obtain ⟨a, c₁, textual, ha, -, rfl⟩ := display_ok hd
  obtain ⟨value, hyields, -, -⟩ := evaluate_yields h ha
  have hbounds := hyields.step.sound.dense.bounds hyields.live
  have heval : Keeps codes S c c₁ := .of_yields hyields hlive
  have hmove : Keeps codes S c₁ (c₁.moveTo a) := .moveTo hyields.step.sound hbounds
  have hput : Keeps codes S (c₁.moveTo a) ((c₁.moveTo a).emit (if textual then "~" else ".")) := by
    cases textual
    · exact .act hmove.sound .put rfl rfl (by rwa [pointer_moveTo, layout_moveTo])
        fun hw => by cases hw
    · exact .act hmove.sound .putChar rfl rfl (by rwa [pointer_moveTo, layout_moveTo])
        fun hw => by cases hw
  have hlayout : ((c₁.moveTo a).emit (if textual then "~" else ".")).layout = c₁.layout := by
    rw [layout_emit, layout_moveTo]
  have hext := hyields.step.ext.trans (.of_same ((Same.moveTo c₁ a).trans
    (.emit _ (if textual then "~" else "."))))
  have hfree (htemp : ((c₁.moveTo a).emit (if textual then "~" else ".")).layout.status a = .temp) :
      c.layout.status a = .free := by
    rw [hlayout] at htemp
    exact (hyields.fresh htemp).free
  refine ⟨((heval.trans hmove).trans hput).trans (.release hput.sound fun htemp hx => ?_),
    hext.release hput.sound.dense hfree⟩
  exact hlive hx (hfree htemp)

theorem display_extends {node : Node} (h : Sound c) (hd : display options node c = .ok () d) :
    Extends c d := by
  have hkeeps : Keeps [] (fun _ => False) c d ∧ Extends c d := display_keeps h (fun hx => hx.elim) hd
  exact hkeeps.2

theorem input_same (hd : input name c = .ok () d) : Same c d := by
  obtain ⟨b, -, -, rfl⟩ := input_ok hd
  exact (Same.moveTo _ _).trans (.emit _ _)

theorem input_keeps (h : Sound c) (hS : ∀ {x i t}, S x → c.layout.status x ≠ .named name i t)
    (hd : input name c = .ok () d) : Keeps codes S c d ∧ Same c d := by
  refine ⟨?_, input_same hd⟩
  obtain ⟨b, hb, hlength, rfl⟩ := input_ok hd
  have hnamed := h.bound hb 0 hlength
  rw [Nat.cast_zero, Int.add_zero] at hnamed
  have hbounds := h.dense.bounds (show c.layout.status b.base ≠ .free by simp [hnamed])
  have hmove : Keeps codes S c (c.moveTo b.base) := .moveTo h hbounds
  exact hmove.trans (.act hmove.sound .get rfl rfl (by rwa [pointer_moveTo, layout_moveTo])
    fun _ hx => hS hx hnamed)

theorem unsafeBlock_ok {size : Int} {body : List Node}
    (hd : unsafeBlock options size body c = .ok () d) :
    0 < size ∧ c.unsafePointer = none ∧ ∃ e,
      operations options body ((c.enterBlock size).moveTo (c.layout.firstFit size)) = .ok () e ∧
      d = (e.clearAndFree (addresses (c.layout.firstFit size) size.toNat)).leaveBlock := by
  unfold unsafeBlock at hd
  split at hd
  · simp only [bind_ok] at hd
    obtain ⟨_, _, hfail, -⟩ := hd
    exact absurd hfail fail_ok
  · rename_i hsize
    simp only [bind_ok, get_ok] at hd
    obtain ⟨_, _, ⟨rfl, rfl⟩, hd⟩ := hd
    split at hd
    · simp only [bind_ok] at hd
      obtain ⟨_, _, hfail, -⟩ := hd
      exact absurd hfail fail_ok
    · rename_i hnone
      simp only [bind_ok, modify_ok, ensuring_ok] at hd
      obtain ⟨_, _, rfl, f, ⟨_, _, rfl, _, e, hbody, rfl⟩, rfl⟩ := hd
      exact ⟨by omega, by simpa using hnone, e, hbody, rfl⟩

theorem unsafeBlock_parts {size : Int} {body : List Node} (h : Sound c) (hS : Apart S c)
    (hd : unsafeBlock options size body c = .ok () d) :
    Keeps (Node.verbatimsIn body) S c (c.startBlock size) ∧
      Keeps (Node.verbatimsIn body) S (c.startBlock size) d ∧ SameScope c d ∧
      d.unsafePointer = none := by
  obtain ⟨hsize, hnone, e, hbody, rfl⟩ := unsafeBlock_ok hd
  have henter : Keeps (Node.verbatimsIn body) S c (c.enterBlock size) :=
    enterBlock_keeps h hnone hsize fun hx => (hS hx).1
  have hpoint : (c.enterBlock size).unsafePointer = some (c.layout.firstFit size) := rfl
  have hmove : Keeps (Node.verbatimsIn body) S (c.enterBlock size) (c.startBlock size) :=
    .moveTo henter.sound (henter.sound.dense.bounds (by
      rw [henter.sound.reserved_of_unsafePointer hpoint]
      simp))
  obtain ⟨hops, hscope⟩ := operations_keeps body hmove.sound (hmove.apart (henter.apart hS)) hbody
  have hscope := (SameScope.of_same (Same.moveTo (c.enterBlock size) _)).trans hscope
  have hopen : e.unsafeRegion = some ⟨c.layout.firstFit size, size⟩ := hscope.unsafeRegion
  have hleave : Keeps (Node.verbatimsIn body) S e
      (e.clearAndFree (addresses (c.layout.firstFit size) size.toNat)).leaveBlock :=
    leaveBlock_keeps hops.sound hsize hopen (hops.apart (hmove.apart (henter.apart hS)))
  have hsweep := same_sweep e (c.layout.firstFit size)
    (fun i layout => layout.free (c.layout.firstFit size + i)) size.toNat
  rw [← clearAndFree_eq] at hsweep
  have hreused := same_clearReused c (c.layout.firstFit size) size
  refine ⟨henter.trans hmove, hops.trans hleave, ⟨?_, ?_, (h.outside hnone).symm⟩, rfl⟩
  · exact hsweep.bindings.trans (hscope.bindings.trans hreused.bindings)
  · exact hsweep.functions.trans (hscope.functions.trans hreused.functions)

theorem unsafeBlock_keeps {size : Int} {body : List Node} (h : Sound c) (hS : Apart S c)
    (hd : unsafeBlock options size body c = .ok () d) :
    Keeps (Node.verbatimsIn body) S c d ∧ SameScope c d ∧
      d.unsafePointer = none := by
  obtain ⟨hstart, hbody, hscope⟩ := unsafeBlock_parts h hS hd
  exact ⟨hstart.trans hbody, hscope⟩

theorem startBlock_sound {size : Int} {body : List Node} (h : Sound c)
    (hd : unsafeBlock options size body c = .ok () d) :
    Keeps (Node.verbatimsIn body) (fun _ => False) c (c.startBlock size) :=
  (unsafeBlock_parts h (fun hx => hx.elim) hd).1

end Compile

end TapeCompiler
