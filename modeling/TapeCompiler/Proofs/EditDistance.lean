import TapeCompiler.Text.EditDistance
import Mathlib.Order.Bounds.Basic

namespace TapeCompiler.Text

inductive Edit : List Char → List Char → Prop where
  | insertion (front : List Char) (c : Char) (back : List Char) :
      Edit (front ++ back) (front ++ c :: back)
  | deletion (front : List Char) (c : Char) (back : List Char) :
      Edit (front ++ c :: back) (front ++ back)
  | replacement (front : List Char) (c d : Char) (back : List Char) :
      Edit (front ++ c :: back) (front ++ d :: back)

inductive Edits : Nat → List Char → List Char → Prop where
  | refl (a : List Char) : Edits 0 a a
  | step {n : Nat} {a b c : List Char} (first : Edit a b) (rest : Edits n b c) : Edits (n + 1) a c

/-- The two texts are gone through from left to right. A character of either is left alone at the cost
of one change, and a pair of them costs one unless they are equal. -/
inductive Aligned : List Char → List Char → Nat → Prop where
  | nil : Aligned [] [] 0
  | insertion {a b : List Char} {n : Nat} (c : Char) (h : Aligned a b n) : Aligned a (c :: b) (n + 1)
  | deletion {a b : List Char} {n : Nat} (c : Char) (h : Aligned a b n) : Aligned (c :: a) b (n + 1)
  | pair {a b : List Char} {n : Nat} (c d : Char) (h : Aligned a b n) :
      Aligned (c :: a) (d :: b) (n + if c = d then 0 else 1)

variable {a b front back p q u v : List Char} {m n : Nat} {x y : Char}

theorem Edit.cons (c : Char) (h : Edit a b) : Edit (c :: a) (c :: b) := by
  cases h with
  | insertion front d back => exact .insertion (c :: front) d back
  | deletion front d back => exact .deletion (c :: front) d back
  | replacement front d e back => exact .replacement (c :: front) d e back

theorem Edits.cons (c : Char) (h : Edits n a b) : Edits n (c :: a) (c :: b) := by
  induction h with
  | refl a => exact .refl (c :: a)
  | step first _ ih => exact .step (first.cons c) ih

namespace Aligned

theorem edits (h : Aligned a b n) : Edits n a b := by
  induction h with
  | nil => exact .refl []
  | @insertion a b n c _ ih => exact .step (.insertion [] c a) (ih.cons c)
  | @deletion a b n c _ ih => exact .step (.deletion [] c a) ih
  | @pair a b n c d _ ih =>
      by_cases hcd : c = d
      · subst hcd
        simpa using ih.cons c
      · simpa [hcd] using Edits.step (.replacement [] c d a) (ih.cons d)

theorem refl (a : List Char) : Aligned a a 0 := by
  induction a with
  | nil => exact .nil
  | cons c a ih => simpa using pair c c ih

theorem append (h : Aligned a b m) (k : Aligned p q n) : Aligned (a ++ p) (b ++ q) (m + n) := by
  induction h with
  | nil => simpa using k
  | insertion c _ ih =>
      rw [Nat.add_right_comm]
      exact ih.insertion c
  | deletion c _ ih =>
      rw [Nat.add_right_comm]
      exact ih.deletion c
  | pair c d _ ih =>
      rw [Nat.add_right_comm]
      exact ih.pair c d

theorem reverse (h : Aligned a b n) : Aligned a.reverse b.reverse n := by
  induction h with
  | nil => exact .nil
  | insertion c _ ih => simpa using ih.append (insertion c nil)
  | deletion c _ ih => simpa using ih.append (deletion c nil)
  | pair c d _ ih => simpa using ih.append (pair c d nil)

theorem length_le (h : Aligned a b n) : b.length ≤ a.length + n := by
  induction h with
  | nil => exact Nat.le_refl 0
  | insertion | deletion | pair =>
      simp only [List.length_cons]
      omega

theorem split (h : Aligned (front ++ back) b n) : ∃ b₁ b₂ n₁ n₂, b = b₁ ++ b₂ ∧ n = n₁ + n₂ ∧
    Aligned front b₁ n₁ ∧ Aligned back b₂ n₂ := by
  generalize ha : front ++ back = a at h
  induction h generalizing front with
  | nil =>
      obtain ⟨rfl, rfl⟩ := List.append_eq_nil_iff.1 ha
      exact ⟨[], [], 0, 0, rfl, rfl, nil, nil⟩
  | insertion c _ ih =>
      obtain ⟨b₁, b₂, n₁, n₂, rfl, rfl, h₁, h₂⟩ := ih ha
      exact ⟨c :: b₁, b₂, n₁ + 1, n₂, rfl, Nat.add_right_comm .., h₁.insertion c, h₂⟩
  | @deletion _ b n c h ih =>
      cases front with
      | nil =>
          rw [List.nil_append] at ha
          exact ⟨[], b, 0, n + 1, rfl, (Nat.zero_add _).symm, nil, ha ▸ h.deletion c⟩
      | cons d front =>
          obtain ⟨rfl, hrest⟩ := List.cons.inj ha
          obtain ⟨b₁, b₂, n₁, n₂, rfl, rfl, h₁, h₂⟩ := ih hrest
          exact ⟨b₁, b₂, n₁ + 1, n₂, rfl, Nat.add_right_comm .., h₁.deletion d, h₂⟩
  | @pair _ b n c d h ih =>
      cases front with
      | nil =>
          rw [List.nil_append] at ha
          exact ⟨[], d :: b, 0, _, rfl, (Nat.zero_add _).symm, nil, ha ▸ h.pair c d⟩
      | cons e front =>
          obtain ⟨rfl, hrest⟩ := List.cons.inj ha
          obtain ⟨b₁, b₂, n₁, n₂, rfl, rfl, h₁, h₂⟩ := ih hrest
          exact ⟨d :: b₁, b₂, _, n₂, rfl, Nat.add_right_comm .., h₁.pair e d, h₂⟩

theorem last (h : Aligned (p ++ [x]) (q ++ [y]) n) :
    (∃ m, n = m + 1 ∧ Aligned p (q ++ [y]) m) ∨ (∃ m, n = m + 1 ∧ Aligned (p ++ [x]) q m) ∨
      ∃ m, n = m + (if x = y then 0 else 1) ∧ Aligned p q m := by
  have hr := h.reverse
  simp only [List.reverse_append, List.reverse_singleton, List.singleton_append] at hr
  cases hr with
  | insertion _ hrest => exact .inr (.inl ⟨_, rfl, by simpa using hrest.reverse⟩)
  | deletion _ hrest => exact .inl ⟨_, rfl, by simpa using hrest.reverse⟩
  | pair _ _ hrest => exact .inr (.inr ⟨_, rfl, by simpa using hrest.reverse⟩)

end Aligned

theorem exists_aligned (a b : List Char) : ∃ m ≤ max a.length b.length, Aligned a b m := by
  induction a generalizing b with
  | nil =>
      induction b with
      | nil => exact ⟨0, Nat.le_refl 0, .nil⟩
      | cons d b ih =>
          obtain ⟨m, hm, h⟩ := ih
          refine ⟨m + 1, ?_, h.insertion d⟩
          simp only [List.length_cons, List.length_nil] at hm ⊢
          omega
  | cons c a ih =>
      cases b with
      | nil =>
          obtain ⟨m, hm, h⟩ := ih []
          refine ⟨m + 1, ?_, h.deletion c⟩
          simp only [List.length_cons, List.length_nil] at hm ⊢
          omega
      | cons d b =>
          obtain ⟨m, hm, h⟩ := ih b
          refine ⟨_, ?_, h.pair c d⟩
          simp only [List.length_cons]
          split <;> omega

theorem Aligned.exchange (hu : u.length ≤ 1) (hv : v.length ≤ 1)
    (h : Aligned (front ++ (u ++ back)) b n) :
    ∃ m ≤ n + 1, Aligned (front ++ (v ++ back)) b m := by
  obtain ⟨b₁, rest, n₁, n₂, rfl, rfl, hfront, hrest⟩ := h.split
  obtain ⟨b₂, b₃, n₂, n₃, rfl, rfl, hpiece, hback⟩ := hrest.split
  -- What the old piece was aligned with is at most one character longer than its cost.
  have hlength := hpiece.length_le
  obtain ⟨m, hm, hnew⟩ := exists_aligned v b₂
  exact ⟨n₁ + (m + n₃), by omega, hfront.append (hnew.append hback)⟩

theorem Aligned.of_edit {a' : List Char} (hedit : Edit a a') (h : Aligned a' b n) :
    ∃ m ≤ n + 1, Aligned a b m := by
  cases hedit with
  | insertion front c back => exact exchange (u := [c]) (v := []) (by simp) (by simp) h
  | deletion front c back => exact exchange (u := []) (v := [c]) (by simp) (by simp) h
  | replacement front c d back => exact exchange (u := [d]) (v := [c]) (by simp) (by simp) h

theorem Edits.aligned (h : Edits n a b) : ∃ m ≤ n, Aligned a b m := by
  induction h with
  | refl a => exact ⟨0, Nat.le_refl 0, .refl a⟩
  | step first _ ih =>
      obtain ⟨m, hm, haligned⟩ := ih
      obtain ⟨k, hk, h⟩ := haligned.of_edit first
      exact ⟨k, by omega, h⟩

def Cheapest (a b : List Char) (n : Nat) : Prop := IsLeast {m | Aligned a b m} n

theorem Cheapest.isLeast_edits (h : Cheapest a b n) : IsLeast {m | Edits m a b} n := by
  refine ⟨h.1.edits, fun m hm => ?_⟩
  obtain ⟨k, hk, haligned⟩ := Edits.aligned hm
  exact Nat.le_trans (h.2 haligned) hk

theorem cheapest_nil_left (b : List Char) : Cheapest [] b b.length := by
  obtain ⟨m, hm, h⟩ := exists_aligned [] b
  have hlength := h.length_le
  simp only [List.length_nil] at hm hlength
  obtain rfl : m = b.length := by omega
  exact ⟨h, fun k hk => by simpa using hk.length_le⟩

theorem Cheapest.snoc_nil (h : Cheapest p [] n) (x : Char) : Cheapest (p ++ [x]) [] (n + 1) := by
  refine ⟨h.1.append (.deletion x .nil), fun m hm => ?_⟩
  have hr := Aligned.reverse hm
  simp only [List.reverse_append, List.reverse_singleton, List.singleton_append] at hr
  cases hr with
  | deletion _ hr => exact Nat.succ_le_succ (h.2 (by simpa using hr.reverse))

theorem Cheapest.snoc {diagonal up left : Nat} (hdiagonal : Cheapest p q diagonal)
    (hup : Cheapest p (q ++ [y]) up) (hleft : Cheapest (p ++ [x]) q left) :
    Cheapest (p ++ [x]) (q ++ [y])
      (min (min (up + 1) (left + 1)) (diagonal + if x = y then 0 else 1)) := by
  have hfromUp : Aligned (p ++ [x]) (q ++ [y]) (up + 1) := by
    simpa using hup.1.append (.deletion x .nil)
  have hfromLeft : Aligned (p ++ [x]) (q ++ [y]) (left + 1) := by
    simpa using hleft.1.append (.insertion y .nil)
  have hfromDiagonal : Aligned (p ++ [x]) (q ++ [y]) (diagonal + if x = y then 0 else 1) := by
    simpa using hdiagonal.1.append (.pair x y .nil)
  refine ⟨?_, fun n hn => ?_⟩
  · change Aligned _ _ _
    rcases Nat.le_total (min (up + 1) (left + 1)) (diagonal + if x = y then 0 else 1) with h | h
    · rw [Nat.min_eq_left h]
      rcases Nat.le_total (up + 1) (left + 1) with h | h
      · rwa [Nat.min_eq_left h]
      · rwa [Nat.min_eq_right h]
    · rwa [Nat.min_eq_right h]
  · rcases Aligned.last hn with ⟨m, rfl, h⟩ | ⟨m, rfl, h⟩ | ⟨m, rfl, h⟩
    · have := hup.2 h
      omega
    · have := hleft.2 h
      omega
    · have := hdiagonal.2 h
      omega

inductive Row (p : List Char) : List Char → List Char → List Nat → Prop where
  | last {q : List Char} {n : Nat} (h : Cheapest p q n) : Row p q [] [n]
  | cons {q left : List Char} {c : Char} {n : Nat} {costs : List Nat} (h : Cheapest p q n)
      (rest : Row p (q ++ [c]) left costs) : Row p q (c :: left) (n :: costs)

namespace Row

variable {left : List Char} {costs : List Nat}

theorem head (h : Row p q left costs) : ∃ n rest, costs = n :: rest ∧ Cheapest p q n := by
  cases h with
  | last h => exact ⟨_, _, rfl, h⟩
  | cons h _ => exact ⟨_, _, rfl, h⟩

theorem getLastD (h : Row p q left costs) : Cheapest p (q ++ left) (costs.getLastD 0) := by
  induction h with
  | last h => simpa using h
  | cons _ rest ih =>
      obtain ⟨n, costs, rfl, -⟩ := rest.head
      simpa using ih

theorem range (q left : List Char) : Row [] q left (List.range' q.length (left.length + 1)) := by
  induction left generalizing q with
  | nil => exact .last (cheapest_nil_left q)
  | cons c left ih =>
      rw [List.length_cons, List.range'_succ]
      exact .cons (cheapest_nil_left q) (by simpa using ih (q ++ [c]))

theorem distanceCells (h : Row p q left costs) {n : Nat} (hn : Cheapest (p ++ [x]) q n) :
    Row (p ++ [x]) q left (n :: Text.distanceCells x left costs n) := by
  induction h generalizing n with
  | last => exact .last hn
  | cons h rest ih =>
      obtain ⟨up, above, rfl, hup⟩ := rest.head
      rw [Text.distanceCells]
      exact .cons hn (ih (h.snoc hup hn))

theorem distanceRow (h : Row p [] b costs) : Row (p ++ [x]) [] b (Text.distanceRow b costs x) := by
  obtain ⟨n, rest, rfl, hn⟩ := h.head
  exact h.distanceCells (hn.snoc_nil x)

theorem foldl (h : Row p [] b costs) : Row (p ++ a) [] b (a.foldl (Text.distanceRow b) costs) := by
  induction a generalizing p costs with
  | nil => simpa using h
  | cons c a ih => simpa using ih (h.distanceRow (x := c))

end Row

theorem editDistance_cheapest (a b : List Char) : Cheapest a b (editDistance a b) := by
  have h := (Row.range [] b).foldl (a := a)
  rw [List.length_nil, ← List.range_eq_range'] at h
  exact h.getLastD

theorem editDistance_isLeast (a b : List Char) : IsLeast {n | Edits n a b} (editDistance a b) :=
  (editDistance_cheapest a b).isLeast_edits

example : editDistance "kitten".toList "sitting".toList = 3 := by decide

end TapeCompiler.Text
