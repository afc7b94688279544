import TapeCompiler.Proofs.Termination
import Mathlib.Order.Bounds.Basic

namespace TapeCompiler

namespace Layout

variable {layout : Layout} {size start other result : Int}

def Vacant (layout : Layout) (size start : Int) : Prop :=
  ∀ address, start ≤ address → address < start + size → layout.status address = .free

theorem vacant_of_offsets (h : ∀ i : Nat, i < size → layout.isFree (start + i) = true) :
    layout.Vacant size start := by
  intro address hlow hhigh
  have hoffset : start + ((address - start).toNat : Int) = address := by omega
  have hfree := h (address - start).toNat (by omega)
  rw [hoffset] at hfree
  exact of_decide_eq_true hfree

theorem vacant_of_highWater_le (h : layout.highWater ≤ start) : layout.Vacant size start := by
  intro address hlow _
  by_contra htaken
  have := (recorded_of_status htaken).lt_highWater
  omega

theorem Vacant.behind_taken (h : layout.Vacant size other) (hle : start ≤ other) {offset : Nat}
    (hoffset : offset < size) (htaken : layout.isFree (start + offset) = false) :
    start + offset + 1 ≤ other := by
  by_contra hfront
  -- A region that begins at the taken cell or in front of it reaches to it.
  have hfree := h (start + offset) (by omega) (by omega)
  exact of_decide_eq_false htaken hfree

namespace Searches

theorem start_le (h : layout.Searches size start result) : start ≤ result := by
  induction h with
  | found => exact Int.le_refl _
  | next offset _ _ _ _ ih => omega

theorem vacant (h : layout.Searches size start result) : layout.Vacant size result := by
  induction h with
  | found hfree => exact vacant_of_offsets hfree
  | next _ _ _ _ _ ih => exact ih

theorem le_of_vacant (h : layout.Searches size start result) (hle : start ≤ other)
    (hvacant : layout.Vacant size other) : result ≤ other := by
  induction h with
  | found => exact hle
  | next offset hoffset _ htaken _ ih => exact ih (hvacant.behind_taken hle hoffset htaken)

theorem isLeast (h : layout.Searches size start result) :
    IsLeast {other | start ≤ other ∧ layout.Vacant size other} result :=
  ⟨⟨h.start_le, h.vacant⟩, fun _ hother => h.le_of_vacant hother.1 hother.2⟩

end Searches

theorem first_fit_is_least (layout : Layout) (size : Int) :
    (∀ start, layout.Searches size 0 start ↔ start = layout.firstFit size) ∧
    IsLeast {start | 0 ≤ start ∧ layout.Vacant size start} (layout.firstFit size) ∧
    layout.firstFit size ≤ max 0 layout.highWater := by
  have hsearches := searches_firstFit layout size
  refine ⟨fun start => ⟨fun h => h.isLeast.unique hsearches.isLeast, ?_⟩, hsearches.isLeast, ?_⟩
  · rintro rfl
    exact hsearches
  · exact hsearches.le_of_vacant (Int.le_max_left _ _) (vacant_of_highWater_le (Int.le_max_right _ _))

example : ((((empty.markTemp 3).reserve 0).markTemp (-2)).firstFit 3,
    (((empty.markTemp 3).reserve 0).markTemp (-2)).firstFit 2) = (4, 1) := by decide

end Layout

end TapeCompiler
