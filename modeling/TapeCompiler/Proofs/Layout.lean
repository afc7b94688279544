import TapeCompiler.Layout
import Mathlib.Tactic.ByContra

namespace TapeCompiler

namespace Layout

theorem lookup_setIn (address other : Int) (o : Occupancy) (cells : List (Int × Occupancy)) :
    lookup other (setIn address o cells) =
      if other = address then some o else lookup other cells := by
  induction cells with
  | nil => simp [setIn, lookup, eq_comm]
  | cons head rest ih =>
      obtain ⟨a, x⟩ := head
      by_cases h : other = address
      · subst h
        simp only [setIn]
        split
        · simp [lookup]
        · split
          · simp [lookup]
          · rename_i hne
            have hne : a ≠ other := fun h => hne h.symm
            simpa [lookup, hne] using ih
      · have h' : address ≠ other := Ne.symm h
        simp only [setIn]
        split
        · simp [lookup, h']
        · split
          · rename_i heq
            subst heq
            simp [lookup, h']
          · simp only [lookup, ih, h, if_false]

theorem lookup_isSome_iff (address : Int) (cells : List (Int × Occupancy)) :
    (lookup address cells).isSome ↔ ∃ o, (address, o) ∈ cells := by
  induction cells with
  | nil => simp [lookup]
  | cons head rest ih =>
      obtain ⟨a, x⟩ := head
      by_cases h : a = address
      · subst h
        simp [lookup]
      · simp [lookup, h, Ne.symm h, ih]

theorem lookup_of_mem {address : Int} {o : Occupancy} {cells : List (Int × Occupancy)}
    (hs : cells.Pairwise fun x y => x.1 < y.1) (hm : (address, o) ∈ cells) :
    lookup address cells = some o := by
  induction cells with
  | nil => simp at hm
  | cons head rest ih =>
      obtain ⟨a, x⟩ := head
      obtain ⟨hall, hrest⟩ := List.pairwise_cons.1 hs
      rcases List.mem_cons.1 hm with hm | hm
      · cases hm
        simp [lookup]
      · have hlt : a < address := hall _ hm
        have hne : a ≠ address := by omega
        simpa [lookup, hne] using ih hrest hm

def Recorded (layout : Layout) (address : Int) : Prop := ∃ o, (address, o) ∈ layout.cells

theorem recorded_of_status {layout : Layout} {address : Int}
    (h : layout.status address ≠ .free) : layout.Recorded address := by
  rw [Recorded, ← lookup_isSome_iff]
  cases hl : lookup address layout.cells with
  | none => simp [status, hl] at h
  | some o => rfl

theorem status_of_mem {layout : Layout} {address : Int} {o : Occupancy}
    (h : (address, o) ∈ layout.cells) : layout.status address = o := by
  simp [status, lookup_of_mem layout.sorted h]

theorem status_set (layout : Layout) (address other : Int) (o : Occupancy) :
    (layout.set address o).status other =
      if other = address then o else layout.status other := by
  simp only [status, set, lookup_setIn]
  split <;> rfl

@[simp] theorem status_set_self (layout : Layout) (address : Int) (o : Occupancy) :
    (layout.set address o).status address = o := by
  simp [status_set]

theorem status_set_of_ne {layout : Layout} {address other : Int} {o : Occupancy}
    (h : other ≠ address) : (layout.set address o).status other = layout.status other := by
  simp [status_set, h]

theorem isTemp_iff {layout : Layout} {address : Int} :
    layout.isTemp address = true ↔ layout.status address = .temp := decide_eq_true_iff

theorem recorded_set (layout : Layout) (address other : Int) (o : Occupancy) :
    (layout.set address o).Recorded other ↔ other = address ∨ layout.Recorded other := by
  simp only [Recorded, ← lookup_isSome_iff, set, lookup_setIn]
  by_cases h : other = address <;> simp [h]

theorem lt_highWater_of_mem {layout : Layout} {x : Int × Occupancy} (h : x ∈ layout.cells) :
    x.1 < layout.highWater := by
  have hs := layout.sorted
  cases hlast : layout.cells.getLast? with
  | none =>
      rw [List.getLast?_eq_none_iff.1 hlast] at h
      simp at h
  | some last =>
      obtain ⟨front, hfront⟩ := List.getLast?_eq_some_iff.1 hlast
      simp only [highWater, hlast]
      rw [hfront] at h hs
      rcases List.mem_append.1 h with h | h
      · have := (List.pairwise_append.1 hs).2.2 x h last (List.mem_singleton_self _)
        omega
      · rw [List.mem_singleton.1 h]
        omega

theorem Recorded.lt_highWater {layout : Layout} {address : Int} (h : layout.Recorded address) :
    address < layout.highWater := by
  obtain ⟨o, h⟩ := h
  exact lt_highWater_of_mem h

theorem recorded_last {layout : Layout} (h : layout.highWater ≠ 0) :
    layout.Recorded (layout.highWater - 1) := by
  simp only [highWater] at h ⊢
  split at h
  · exact absurd rfl h
  · rename_i address o hlast
    exact ⟨o, by simpa using List.mem_of_getLast? hlast⟩

theorem highWater_set {layout : Layout} {address : Int} (o : Occupancy) (h : 0 ≤ address) :
    (layout.set address o).highWater = max layout.highWater (address + 1) := by
  have hself : address < (layout.set address o).highWater :=
    Recorded.lt_highWater ((recorded_set ..).2 (.inl rfl))
  have hlast : (layout.set address o).Recorded _ := recorded_last (by omega)
  have hmark : layout.highWater ≤ max 0 (layout.set address o).highWater := by
    by_cases h0 : layout.highWater = 0
    · omega
    · have := ((recorded_set layout address _ o).2 (.inr (recorded_last h0))).lt_highWater
      omega
  rcases (recorded_set ..).1 hlast with heq | hold
  · omega
  · have := hold.lt_highWater
    omega

def Dense (layout : Layout) : Prop :=
  ∀ address, layout.Recorded address ↔ 0 ≤ address ∧ address < layout.highWater

theorem dense_empty : empty.Dense := by
  intro address
  simp only [Recorded, empty, highWater]
  simp

theorem Dense.highWater_nonneg {layout : Layout} (h : layout.Dense) : 0 ≤ layout.highWater := by
  by_cases h0 : layout.highWater = 0
  · omega
  · have := (h _).1 (recorded_last h0)
    omega

theorem Dense.set {layout : Layout} (h : layout.Dense) {address : Int} (o : Occupancy)
    (h0 : 0 ≤ address) (hle : address ≤ layout.highWater) : (layout.set address o).Dense := by
  intro other
  rw [recorded_set, highWater_set o h0, h other]
  omega

theorem Dense.bounds {layout : Layout} (h : layout.Dense) {address : Int}
    (hs : layout.status address ≠ .free) : 0 ≤ address ∧ address < layout.highWater :=
  (h address).1 (recorded_of_status hs)

theorem lowestFree_spec {layout : Layout} (h : layout.Dense) :
    layout.status layout.lowestFree = .free ∧ 0 ≤ layout.lowestFree ∧
      layout.lowestFree ≤ layout.highWater ∧
      ∀ address, 0 ≤ address → address < layout.lowestFree → layout.status address ≠ .free := by
  cases hf : layout.cells.find? (·.2 = .free) with
  | none =>
      have hnone := List.find?_eq_none.1 hf
      have hlow : layout.lowestFree = layout.highWater := by simp [lowestFree, hf]
      rw [hlow]
      refine ⟨?_, h.highWater_nonneg, Int.le_refl _, ?_⟩
      · by_contra hs
        exact absurd (h.bounds hs).2 (by omega)
      · intro address h0 hlt
        obtain ⟨o, ho⟩ := (h address).2 ⟨h0, hlt⟩
        rw [status_of_mem ho]
        simpa using hnone _ ho
  | some found =>
      obtain ⟨a, o⟩ := found
      obtain ⟨hfree, front, back, hcells, hfront⟩ := List.find?_eq_some_iff_append.1 hf
      simp only [decide_eq_true_eq] at hfree
      subst hfree
      have hlow : layout.lowestFree = a := by simp [lowestFree, hf]
      rw [hlow]
      have hmem : (a, .free) ∈ layout.cells := by simp [hcells]
      have hbounds := (h a).1 ⟨_, hmem⟩
      refine ⟨status_of_mem hmem, hbounds.1, by omega, ?_⟩
      intro address h0 hlt
      obtain ⟨o, ho⟩ := (h address).2 ⟨h0, by omega⟩
      rw [status_of_mem ho]
      have hs := layout.sorted
      rw [hcells] at ho hs
      rcases List.mem_append.1 ho with ho | ho
      · simpa using hfront _ ho
      · have hle : a ≤ address := by
          rcases List.mem_cons.1 ho with heq | ho
          · cases heq
            exact Int.le_refl _
          · have := (List.pairwise_cons.1 (List.pairwise_append.1 hs).2.1).1 _ ho
            exact Int.le_of_lt this
        omega

theorem fitFrom_spec (size start : Int) (taken : List Int) (hs : taken.Pairwise (· < ·)) :
    start ≤ fitFrom size start taken ∧
      (fitFrom size start taken = start ∨
        ∃ address ∈ taken, start ≤ address ∧ fitFrom size start taken = address + 1) ∧
      ∀ address ∈ taken,
        address < fitFrom size start taken ∨ fitFrom size start taken + size ≤ address := by
  induction taken generalizing start with
  | nil => simp [fitFrom]
  | cons head rest ih =>
      obtain ⟨hall, hrest⟩ := List.pairwise_cons.1 hs
      simp only [fitFrom]
      split
      · obtain ⟨hge, hat, hout⟩ := ih start hrest
        refine ⟨hge, ?_, ?_⟩
        · rcases hat with hat | ⟨address, hm, hle, heq⟩
          · exact .inl hat
          · exact .inr ⟨address, List.mem_cons_of_mem _ hm, hle, heq⟩
        · intro address hm
          rcases List.mem_cons.1 hm with rfl | hm
          · exact .inl (by omega)
          · exact hout address hm
      · split
        · refine ⟨Int.le_refl _, .inl rfl, ?_⟩
          intro address hm
          rcases List.mem_cons.1 hm with rfl | hm
          · exact .inr (by omega)
          · have := hall address hm
            exact .inr (by omega)
        · obtain ⟨hge, hat, hout⟩ := ih (head + 1) hrest
          refine ⟨by omega, .inr ?_, ?_⟩
          · rcases hat with hat | ⟨address, hm, hle, heq⟩
            · exact ⟨head, List.mem_cons_self, by omega, hat⟩
            · exact ⟨address, List.mem_cons_of_mem _ hm, by omega, heq⟩
          · intro address hm
            rcases List.mem_cons.1 hm with rfl | hm
            · exact .inl (by omega)
            · exact hout address hm

theorem firstFit_spec {layout : Layout} (h : layout.Dense) (size : Int) :
    0 ≤ layout.firstFit size ∧ layout.firstFit size ≤ layout.highWater ∧
      ∀ address, layout.firstFit size ≤ address → address < layout.firstFit size + size →
        layout.status address = .free := by
  have hs : ((layout.cells.filter (·.2 ≠ .free)).map (·.1)).Pairwise (· < ·) :=
    List.pairwise_map.2 (layout.sorted.filter _)
  obtain ⟨hge, hat, hout⟩ := fitFrom_spec size 0 _ hs
  have hwater := h.highWater_nonneg
  refine ⟨hge, ?_, ?_⟩
  · rcases hat with hat | ⟨address, hm, -, heq⟩
    · simp only [firstFit, hat]
      exact hwater
    · obtain ⟨x, hx, rfl⟩ := List.mem_map.1 hm
      have := lt_highWater_of_mem (List.mem_filter.1 hx).1
      simp only [firstFit, heq]
      omega
  · intro address hlo hhi
    by_contra hne
    obtain ⟨o, ho⟩ := recorded_of_status hne
    have hm : address ∈ (layout.cells.filter (·.2 ≠ .free)).map (·.1) := by
      refine List.mem_map.2 ⟨(address, o), List.mem_filter.2 ⟨ho, ?_⟩, rfl⟩
      rw [status_of_mem ho] at hne
      simpa using hne
    have := hout address hm
    simp only [firstFit] at hlo hhi
    omega

end Layout

end TapeCompiler
