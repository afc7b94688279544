import TapeCompiler.Compile.Cells
import TapeCompiler.Proofs.Layout

namespace TapeCompiler

namespace Compilation

structure Coherent (c : Compilation) : Prop where
  dense : c.layout.Dense
  bound : ∀ {name : String} {b : Binding}, c.bindings.find? name = some b →
    ∀ i : Nat, i < b.length → c.layout.status (b.base + i) = .named name i b.type

structure Sound (c : Compilation) : Prop extends Coherent c where
  reserved : ∀ a, c.layout.status a = .reserved ↔
    ∃ r, c.unsafeRegion = some r ∧ r.start ≤ a ∧ a < r.start + r.size
  inside : ∀ {p : Int}, c.unsafePointer = some p →
    ∃ r, c.unsafeRegion = some r ∧ r.start ≤ p ∧ p < r.start + r.size
  outside : c.unsafePointer = none → c.unsafeRegion = none
  tracked : 0 ≤ c.pointer ∧ c.pointer < max 1 c.layout.highWater

structure Same (c c' : Compilation) : Prop where
  layout : c'.layout = c.layout
  bindings : c'.bindings = c.bindings
  functions : c'.functions = c.functions
  unsafePointer : c'.unsafePointer = c.unsafePointer
  unsafeRegion : c'.unsafeRegion = c.unsafeRegion

structure Extends (c c' : Compilation) : Prop where
  bindings : c'.bindings = c.bindings
  functions : c'.functions = c.functions
  unsafePointer : c'.unsafePointer = c.unsafePointer
  unsafeRegion : c'.unsafeRegion = c.unsafeRegion
  grows : c.layout.highWater ≤ c'.layout.highWater
  keeps : ∀ {x : Int}, c.layout.status x ≠ .free → c'.layout.status x = c.layout.status x
  takes : ∀ {x : Int}, c.layout.status x = .free →
    c'.layout.status x = .free ∨ c'.layout.status x = .temp

structure SameScope (c c' : Compilation) : Prop where
  bindings : c'.bindings = c.bindings
  functions : c'.functions = c.functions
  unsafeRegion : c'.unsafeRegion = c.unsafeRegion

namespace SameScope

variable {c d e : Compilation}

theorem trans (h : SameScope c d) (h' : SameScope d e) : SameScope c e :=
  ⟨h'.bindings.trans h.bindings, h'.functions.trans h.functions,
    h'.unsafeRegion.trans h.unsafeRegion⟩

theorem of_extends (h : Extends c d) : SameScope c d := ⟨h.bindings, h.functions, h.unsafeRegion⟩

theorem of_same (h : Same c d) : SameScope c d := ⟨h.bindings, h.functions, h.unsafeRegion⟩

end SameScope

namespace Same

variable {c d e : Compilation}

theorem refl (c : Compilation) : Same c c := ⟨rfl, rfl, rfl, rfl, rfl⟩

theorem trans (h : Same c d) (h' : Same d e) : Same c e :=
  ⟨h'.layout.trans h.layout, h'.bindings.trans h.bindings, h'.functions.trans h.functions,
    h'.unsafePointer.trans h.unsafePointer, h'.unsafeRegion.trans h.unsafeRegion⟩

theorem emit (c : Compilation) (text : String) : Same c (c.emit text) := ⟨rfl, rfl, rfl, rfl, rfl⟩

theorem moveTo (c : Compilation) (t : Int) : Same c (c.moveTo t) := by
  unfold Compilation.moveTo
  split <;> exact ⟨rfl, rfl, rfl, rfl, rfl⟩

theorem clear (c : Compilation) (t : Int) : Same c (c.clear t) := (moveTo c t).trans (emit _ _)

theorem countAt (c : Compilation) (value t : Int) : Same c (c.countAt value t) := by
  refine (moveTo c t).trans ?_
  unfold Compilation.countAt countHere
  dsimp only
  split
  · exact (emit _ _).trans (emit _ _)
  · exact (emit _ _).trans (emit _ _)

theorem drain (c : Compilation) (source target : Int) (sign : Sign) :
    Same c (c.drain source target sign) :=
  (((((moveTo _ _).trans (emit _ _)).trans (moveTo _ _)).trans (emit _ _)).trans
    (moveTo _ _)).trans (emit _ _)

end Same

namespace Extends

variable {c d e : Compilation}

theorem refl (c : Compilation) : Extends c c :=
  ⟨rfl, rfl, rfl, rfl, Int.le_refl _, fun _ => rfl, .inl⟩

theorem of_same (h : Same c d) : Extends c d := by
  refine ⟨h.bindings, h.functions, h.unsafePointer, h.unsafeRegion, ?_, ?_, ?_⟩
  · exact Int.le_of_eq (congrArg Layout.highWater h.layout.symm)
  · intro x _
    rw [h.layout]
  · intro x hx
    rw [h.layout]
    exact .inl hx

theorem trans (h : Extends c d) (h' : Extends d e) : Extends c e := by
  refine ⟨h'.bindings.trans h.bindings, h'.functions.trans h.functions,
    h'.unsafePointer.trans h.unsafePointer, h'.unsafeRegion.trans h.unsafeRegion,
    Int.le_trans h.grows h'.grows, ?_, ?_⟩
  · intro x hx
    have hd := h.keeps hx
    rw [h'.keeps (by rwa [hd]), hd]
  · intro x hx
    rcases h.takes hx with hd | hd
    · exact h'.takes hd
    · exact .inr ((h'.keeps (by simp [hd])).trans hd)

theorem live (h : Extends c d) {x : Int} (hx : c.layout.status x ≠ .free) :
    d.layout.status x ≠ .free := by
  rwa [h.keeps hx]

theorem free_of_free (h : Extends c d) {x : Int} (hx : d.layout.status x = .free) :
    c.layout.status x = .free := by
  by_contra hc
  exact h.live hc hx

theorem free (h : Extends c d) (hd : d.layout.Dense) {a : Int} (ha : c.layout.status a = .free)
    (hr : d.layout.status a ≠ .free) : Extends c (d.free a) := by
  have h0 := (hd.bounds hr).1
  refine ⟨h.bindings, h.functions, h.unsafePointer, h.unsafeRegion, ?_, ?_, ?_⟩
  · have := h.grows
    simp only [Compilation.free, Layout.free, Layout.highWater_set _ h0]
    omega
  · intro x hx
    have hne : x ≠ a := by
      rintro rfl
      exact hx ha
    simp only [Compilation.free, Layout.free, Layout.status_set_of_ne hne]
    exact h.keeps hx
  · intro x hx
    by_cases hxa : x = a
    · subst hxa
      simp [Compilation.free, Layout.free]
    · simp only [Compilation.free, Layout.free, Layout.status_set_of_ne hxa]
      exact h.takes hx

end Extends

namespace Sound

variable {c d : Compilation}

theorem initial : Sound initial := by
  refine ⟨⟨Layout.dense_empty, ?_⟩, ?_, ?_, ?_, ?_⟩
  · intro name b h
    simp [Compilation.initial] at h
  · intro a
    simp [Compilation.initial, Layout.empty, Layout.status, Layout.lookup]
  · intro p h
    simp [Compilation.initial] at h
  · intro _
    rfl
  · have hp : Compilation.initial.pointer = 0 := rfl
    omega

theorem tracked_of_live (h : Sound c) {x : Int} (hx : c.layout.status x ≠ .free) :
    0 ≤ c.pointer ∧ c.pointer < c.layout.highWater := by
  have := h.dense.bounds hx
  have := h.tracked
  omega

theorem extend (h : Sound c) (he : Extends c d) (hd : d.layout.Dense)
    (ht : 0 ≤ d.pointer ∧ d.pointer < max 1 d.layout.highWater) : Sound d := by
  refine ⟨⟨hd, ?_⟩, ?_, ?_, ?_, ht⟩
  · intro name b hb i hi
    rw [he.bindings] at hb
    have hs := h.bound hb i hi
    rw [he.keeps (by simp [hs]), hs]
  · intro a
    rw [he.unsafeRegion, ← h.reserved]
    constructor
    · intro ha
      by_cases hc : c.layout.status a = .free
      · rcases he.takes hc with hd | hd <;> simp [hd] at ha
      · rwa [← he.keeps hc]
    · intro ha
      rw [he.keeps (by simp [ha]), ha]
  · intro p hp
    rw [he.unsafePointer] at hp
    rw [he.unsafeRegion]
    exact h.inside hp
  · intro hp
    rw [he.unsafePointer] at hp
    rw [he.unsafeRegion]
    exact h.outside hp

theorem of_same (h : Sound c) (he : Same c d)
    (ht : 0 ≤ d.pointer ∧ d.pointer < max 1 d.layout.highWater) : Sound d :=
  h.extend (.of_same he) (he.layout ▸ h.dense) ht

theorem free (h : Sound c) {a : Int} (ha : c.layout.status a = .temp) : Sound (c.free a) := by
  have hb := h.dense.bounds (show c.layout.status a ≠ .free by simp [ha])
  have hwater : (c.free a).layout.highWater = c.layout.highWater := by
    simp only [Compilation.free, Layout.free, Layout.highWater_set _ hb.1]
    omega
  refine ⟨⟨h.dense.set _ hb.1 (by omega), ?_⟩, ?_, h.inside, h.outside, ?_⟩
  · intro name b hb i hi
    have hs := h.bound hb i hi
    have hne : b.base + i ≠ a := by
      rintro heq
      simp [heq, ha] at hs
    simp only [Compilation.free, Layout.free, Layout.status_set_of_ne hne, hs]
  · intro x
    by_cases hx : x = a
    · subst hx
      simp only [Compilation.free, Layout.free, Layout.status_set_self]
      constructor
      · simp
      · intro hr
        have := (h.reserved x).2 hr
        simp [ha] at this
    · simp only [Compilation.free, Layout.free, Layout.status_set_of_ne hx]
      exact h.reserved x
  · rw [hwater]
    exact h.tracked

theorem allocateTemp (h : Sound c) {a : Int} (hd : c.allocateTemp = (a, d)) :
    Extends c d ∧ Sound d ∧ c.layout.status a = .free ∧ d.layout.status a = .temp ∧
      d.code = c.code ∧ d.pointer = c.pointer := by
  cases hd
  obtain ⟨hfree, h0, hle, -⟩ := Layout.lowestFree_spec h.dense
  have hext : Extends c { c with layout := c.layout.markTemp c.layout.lowestFree } := by
    refine ⟨rfl, rfl, rfl, rfl, ?_, ?_, ?_⟩
    · simp only [Layout.markTemp, Layout.highWater_set _ h0]
      omega
    · intro x hx
      have hne : x ≠ c.layout.lowestFree := by
        rintro rfl
        exact hx hfree
      simp only [Layout.markTemp, Layout.status_set_of_ne hne]
    · intro x hx
      simp only [Layout.markTemp, Layout.status_set]
      split
      · exact .inr rfl
      · exact .inl hx
  refine ⟨hext, h.extend hext (h.dense.set _ h0 hle) ?_, hfree, ?_, rfl, rfl⟩
  · have := h.tracked
    have := hext.grows
    simp only at this ⊢
    omega
  · simp [Layout.markTemp]

end Sound

end Compilation

end TapeCompiler
