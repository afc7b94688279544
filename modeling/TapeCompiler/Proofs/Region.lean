import TapeCompiler.Compile.Statement
import TapeCompiler.Proofs.Cells

namespace TapeCompiler

namespace Layout

def setRange (layout : Layout) (start : Int) (o : Nat → Occupancy) (count : Nat) : Layout :=
  (List.range count).foldl (fun layout (i : Nat) => layout.set (start + i) (o i)) layout

variable {layout : Layout} {start : Int} {o : Nat → Occupancy}

theorem setRange_succ (layout : Layout) (start : Int) (o : Nat → Occupancy) (n : Nat) :
    layout.setRange start o (n + 1) = (layout.setRange start o n).set (start + n) (o n) := by
  simp [setRange, List.range_succ]

theorem status_setRange_inside {n i : Nat} (hi : i < n) :
    (layout.setRange start o n).status (start + i) = o i := by
  induction n with
  | zero => omega
  | succ n ih =>
      rw [setRange_succ, status_set]
      split
      · have : i = n := by omega
        rw [this]
      · exact ih (by omega)

theorem status_setRange_outside {n : Nat} {x : Int} (hx : x < start ∨ start + n ≤ x) :
    (layout.setRange start o n).status x = layout.status x := by
  induction n with
  | zero => rfl
  | succ n ih =>
      rw [setRange_succ, status_set_of_ne (by omega)]
      exact ih (by omega)

theorem inside_or_outside (start x : Int) (n : Nat) :
    (∃ i < n, x = start + (i : Int)) ∨ (x < start ∨ start + n ≤ x) := by
  by_cases h : start ≤ x ∧ x < start + n
  · exact .inl ⟨(x - start).toNat, by omega, by omega⟩
  · exact .inr (by omega)

theorem highWater_setRange (h0 : 0 ≤ start) (hle : start ≤ layout.highWater) (n : Nat) :
    (layout.setRange start o n).highWater = max layout.highWater (start + n) := by
  induction n with
  | zero =>
      have hsame : layout.setRange start o 0 = layout := rfl
      rw [hsame]
      omega
  | succ n ih =>
      rw [setRange_succ, highWater_set _ (by omega), ih]
      omega

theorem Dense.setRange (h : layout.Dense) (h0 : 0 ≤ start) (hle : start ≤ layout.highWater) (n : Nat) :
    (layout.setRange start o n).Dense := by
  induction n with
  | zero => exact h
  | succ n ih =>
      rw [setRange_succ]
      refine ih.set _ (by omega) ?_
      rw [highWater_setRange h0 hle]
      omega

theorem foldl_reserve (layout : Layout) (start : Int) (n : Nat) :
    (addresses start n).foldl reserve layout = layout.setRange start (fun _ => .reserved) n := by
  simp only [addresses, List.foldl_map]
  rfl

end Layout

namespace Compilation

def zeroed {bits : Nat} (start : Int) (count : Nat) (cells : Int → BitVec bits) (x : Int) :
    BitVec bits :=
  if start ≤ x ∧ x < start + count then 0 else cells x

theorem zeroed_outside {bits : Nat} {start : Int} {n : Nat} {cells : Int → BitVec bits} {x : Int}
    (hx : x < start ∨ start + n ≤ x) : zeroed start n cells x = cells x :=
  if_neg (by omega)

def withLayout (c : Compilation) (layout : Layout) : Compilation := { c with layout }

@[simp] theorem layout_withLayout (c : Compilation) (layout : Layout) :
    (c.withLayout layout).layout = layout := rfl

@[simp] theorem pointer_withLayout (c : Compilation) (layout : Layout) :
    (c.withLayout layout).pointer = c.pointer := rfl

theorem clear_withLayout (c : Compilation) (layout : Layout) (t : Int) :
    (c.withLayout layout).clear t = (c.clear t).withLayout layout := by
  unfold clear
  rw [moveTo_eq, moveTo_eq]
  rfl

def sweep (c : Compilation) (start : Int) (mark : Nat → Layout → Layout) (count : Nat) :
    Compilation :=
  (List.range count).foldl
    (fun c (i : Nat) => (c.withLayout (mark i c.layout)).clear (start + i)) c

variable {c : Compilation} {start : Int} {g : Nat → Layout → Layout}

theorem sweep_succ (c : Compilation) (start : Int) (mark : Nat → Layout → Layout) (n : Nat) :
    c.sweep start mark (n + 1) = ((c.sweep start mark n).withLayout
      (mark n (c.sweep start mark n).layout)).clear (start + n) := by
  simp [sweep, List.range_succ]

theorem layout_sweep (c : Compilation) (start : Int) (mark : Nat → Layout → Layout) (n : Nat) :
    (c.sweep start mark n).layout = (List.range n).foldl (fun layout i => mark i layout) c.layout := by
  induction n with
  | zero => rfl
  | succ n ih =>
      rw [sweep_succ, layout_clear, layout_withLayout, ih, List.range_succ, List.foldl_append]
      rfl

theorem same_sweep (c : Compilation) (start : Int) (mark : Nat → Layout → Layout) (n : Nat) :
    Same (c.withLayout (c.sweep start mark n).layout) (c.sweep start mark n) := by
  induction n with
  | zero => exact .refl _
  | succ n ih =>
      have hclear := Same.clear ((c.sweep start mark n).withLayout
        (mark n (c.sweep start mark n).layout)) (start + n)
      rw [sweep_succ]
      exact ⟨rfl, hclear.bindings.trans ih.bindings, hclear.functions.trans ih.functions,
        hclear.unsafePointer.trans ih.unsafePointer, hclear.unsafeRegion.trans ih.unsafeRegion⟩

theorem pointer_sweep {bound : Int} {n : Nat} (hp : 0 ≤ c.pointer ∧ c.pointer < bound)
    (h0 : 0 ≤ start) (hle : start + n ≤ bound) :
    0 ≤ (c.sweep start g n).pointer ∧ (c.sweep start g n).pointer < bound := by
  cases n with
  | zero => exact hp
  | succ n =>
      rw [sweep_succ, pointer_clear]
      omega

theorem turns_sweep {bound : Int} {n : Nat} (hp : 0 ≤ c.pointer ∧ c.pointer < bound)
    (h0 : 0 ≤ start) (hle : start + n ≤ bound) :
    Turns bound c (c.sweep start g n) fun _ cells => zeroed start n cells := by
  induction n with
  | zero =>
      refine (Turns.same rfl rfl).congr fun bits cells => ?_
      funext x
      exact (zeroed_outside (by omega)).symm
  | succ n ih =>
      let d := (c.sweep start g n).withLayout (g n (c.sweep start g n).layout)
      have hmark : Turns bound (c.sweep start g n) d fun _ cells => cells := .same rfl rfl
      have hpointer : 0 ≤ d.pointer ∧ d.pointer < bound :=
        pointer_sweep (n := n) hp h0 (by omega)
      have hclear := turns_clear hpointer (t := start + n) (by omega)
      rw [sweep_succ]
      refine (((ih (by omega)).trans hmark).trans hclear).congr fun bits cells => ?_
      funext x
      by_cases hx : x = start + n
      · subst hx
        rw [Function.update_self, zeroed, if_pos (by omega)]
      · rw [Function.update_of_ne hx]
        exact if_congr (by omega) rfl rfl

theorem clearAndFree_eq (c : Compilation) (start : Int) (n : Nat) :
    c.clearAndFree (addresses start n) = c.sweep start (fun i layout => layout.free (start + i)) n := by
  simp only [clearAndFree, sweep, addresses, List.foldl_map]
  congr 1
  funext c i
  rw [clear_withLayout]
  simp only [Compilation.free, layout_clear, withLayout]

theorem Sound.bindRange {d : Compilation} (h : Sound c) {name : String} {type : CellType} {n : Nat}
    (h0 : 0 ≤ start) (hle : start ≤ c.layout.highWater)
    (hfree : ∀ i < n, c.layout.status (start + (i : Int)) = .free)
    (hlayout : d.layout = c.layout.setRange start (fun i => .named name i type) n)
    (hbindings : d.bindings = c.bindings.insert name ⟨start, n, type⟩)
    (hpointer : d.unsafePointer = c.unsafePointer) (hregion : d.unsafeRegion = c.unsafeRegion)
    (ht : 0 ≤ d.pointer ∧ d.pointer < max 1 d.layout.highWater) : Sound d := by
  have hstatus {x : Int} (hx : c.layout.status x ≠ .free) :
      d.layout.status x = c.layout.status x := by
    rw [hlayout]
    rcases Layout.inside_or_outside start x n with ⟨i, hi, rfl⟩ | hout
    · exact absurd (hfree i hi) hx
    · exact Layout.status_setRange_outside hout
  refine ⟨⟨by rw [hlayout]; exact h.dense.setRange h0 hle n, ?_⟩, ?_, ?_, ?_, ht⟩
  · intro name' b hb i hi
    rw [hbindings, Table.find?_insert] at hb
    split at hb
    · rename_i heq
      cases hb
      subst heq
      rw [hlayout, Layout.status_setRange_inside hi]
    · have hs := h.bound hb i hi
      rw [hstatus (by simp [hs]), hs]
  · intro x
    rw [hregion, ← h.reserved]
    constructor
    · intro hx
      rcases Layout.inside_or_outside start x n with ⟨i, hi, rfl⟩ | hout
      · rw [hlayout, Layout.status_setRange_inside hi] at hx
        cases hx
      · rwa [hlayout, Layout.status_setRange_outside hout] at hx
    · intro hx
      rw [hstatus (by simp [hx]), hx]
  · intro p hp
    rw [hpointer] at hp
    rw [hregion]
    exact h.inside hp
  · intro hp
    rw [hpointer] at hp
    rw [hregion]
    exact h.outside hp

theorem Sound.eraseRange {d : Compilation} (h : Sound c) {name : String} {b : Binding}
    (hb : c.bindings.find? name = some b)
    (hlayout : d.layout = c.layout.setRange b.base (fun _ => .free) b.length)
    (hbindings : d.bindings = c.bindings.erase name)
    (hpointer : d.unsafePointer = c.unsafePointer) (hregion : d.unsafeRegion = c.unsafeRegion)
    (ht : 0 ≤ d.pointer ∧ d.pointer < max 1 d.layout.highWater) : Sound d := by
  have hdense : d.layout.Dense := by
    rw [hlayout]
    rcases Nat.eq_zero_or_pos b.length with hzero | hpos
    · rw [hzero]
      exact h.dense
    · have hbase := h.bound hb 0 hpos
      have hbounds := h.dense.bounds
        (show c.layout.status (b.base + ((0 : Nat) : Int)) ≠ .free by rw [hbase]; simp)
      exact h.dense.setRange (by omega) (by omega) _
  refine ⟨⟨hdense, ?_⟩, ?_, ?_, ?_, ht⟩
  · intro name' b' hb' i hi
    rw [hbindings, Table.find?_erase] at hb'
    split at hb'
    · cases hb'
    · rename_i hne
      have hs := h.bound hb' i hi
      rcases Layout.inside_or_outside b.base (b'.base + (i : Int)) b.length with ⟨j, hj, heq⟩ | hout
      · rw [heq, h.bound hb j hj, Occupancy.named.injEq] at hs
        exact absurd hs.1 hne
      · rw [hlayout, Layout.status_setRange_outside hout, hs]
  · intro x
    rw [hregion, ← h.reserved, hlayout]
    rcases Layout.inside_or_outside b.base x b.length with ⟨i, hi, rfl⟩ | hout
    · rw [Layout.status_setRange_inside hi, h.bound hb i hi]
      simp
    · rw [Layout.status_setRange_outside hout]
  · intro p hp
    rw [hpointer] at hp
    rw [hregion]
    exact h.inside hp
  · intro hp
    rw [hpointer] at hp
    rw [hregion]
    exact h.outside hp

theorem Sound.reserveRange {d : Compilation} (h : Sound c) (hnone : c.unsafePointer = none) {size : Int}
    (hsize : 0 < size) (h0 : 0 ≤ start) (hle : start ≤ c.layout.highWater)
    (hfree : ∀ i < size.toNat, c.layout.status (start + (i : Int)) = .free)
    (hlayout : d.layout = c.layout.setRange start (fun _ => .reserved) size.toNat)
    (hbindings : d.bindings = c.bindings) (hpointer : d.unsafePointer = some start)
    (hregion : d.unsafeRegion = some ⟨start, size⟩)
    (ht : 0 ≤ d.pointer ∧ d.pointer < max 1 d.layout.highWater) : Sound d := by
  refine ⟨⟨by rw [hlayout]; exact h.dense.setRange h0 hle _, ?_⟩, ?_, ?_, ?_, ht⟩
  · intro name b hb i hi
    rw [hbindings] at hb
    have hs := h.bound hb i hi
    rcases Layout.inside_or_outside start (b.base + (i : Int)) size.toNat with ⟨j, hj, heq⟩ | hout
    · rw [heq, hfree j hj] at hs
      cases hs
    · rw [hlayout, Layout.status_setRange_outside hout, hs]
  · intro x
    rw [hlayout, hregion]
    rcases Layout.inside_or_outside start x size.toNat with ⟨i, hi, rfl⟩ | hout
    · rw [Layout.status_setRange_inside hi]
      exact ⟨fun _ => ⟨_, rfl, by simp only; omega, by simp only; omega⟩, fun _ => rfl⟩
    · rw [Layout.status_setRange_outside hout]
      constructor
      · intro hx
        obtain ⟨r, hr, -⟩ := (h.reserved x).1 hx
        rw [h.outside hnone] at hr
        cases hr
      · rintro ⟨r, hr, hlow, hhigh⟩
        cases hr
        simp only at hlow hhigh
        omega
  · intro p hp
    rw [hpointer] at hp
    cases hp
    exact ⟨_, hregion, by simp only; omega, by simp only; omega⟩
  · intro hp
    rw [hpointer] at hp
    cases hp

theorem Sound.freeRange {d : Compilation} (h : Sound c) {size : Int} (hsize : 0 < size)
    (hopen : c.unsafeRegion = some ⟨start, size⟩)
    (hlayout : d.layout = c.layout.setRange start (fun _ => .free) size.toNat)
    (hbindings : d.bindings = c.bindings) (hpointer : d.unsafePointer = none)
    (hregion : d.unsafeRegion = none)
    (ht : 0 ≤ d.pointer ∧ d.pointer < max 1 d.layout.highWater) : Sound d := by
  have hreserved (i : Nat) (hi : i < size.toNat) :
      c.layout.status (start + (i : Int)) = .reserved :=
    (h.reserved _).2 ⟨_, hopen, by simp only; omega, by simp only; omega⟩
  have hbounds := h.dense.bounds (show c.layout.status (start + ((0 : Nat) : Int)) ≠ .free by
    rw [hreserved 0 (by omega)]
    simp)
  refine ⟨⟨by rw [hlayout]; exact h.dense.setRange (by omega) (by omega) _, ?_⟩, ?_, ?_, ?_, ht⟩
  · intro name b hb i hi
    rw [hbindings] at hb
    have hs := h.bound hb i hi
    rcases Layout.inside_or_outside start (b.base + (i : Int)) size.toNat with ⟨j, hj, heq⟩ | hout
    · rw [heq, hreserved j hj] at hs
      cases hs
    · rw [hlayout, Layout.status_setRange_outside hout, hs]
  · intro x
    rw [hlayout, hregion]
    rcases Layout.inside_or_outside start x size.toNat with ⟨i, hi, rfl⟩ | hout
    · rw [Layout.status_setRange_inside hi]
      simp
    · rw [Layout.status_setRange_outside hout, h.reserved, hopen]
      constructor
      · rintro ⟨r, hr, hlow, hhigh⟩
        cases hr
        simp only at hlow hhigh
        omega
      · rintro ⟨r, hr, -⟩
        cases hr
  · intro p hp
    rw [hpointer] at hp
    cases hp
  · intro _
    exact hregion

theorem clearReused_eq (c : Compilation) (start count : Int) :
    c.clearReused start count =
      c.sweep start (fun _ layout => layout) (min (start + count) c.layout.highWater - start).toNat := by
  simp only [clearReused, clearAll, sweep, addresses, List.foldl_map]
  rfl

end Compilation

end TapeCompiler
