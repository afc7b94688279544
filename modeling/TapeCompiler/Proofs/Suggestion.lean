import TapeCompiler.Compile.Compilation
import TapeCompiler.Proofs.EditDistance

namespace TapeCompiler

namespace Text

def codePoints (s : String) : List Nat := s.toList.map Char.toNat

def Before (a b : String) : Prop := List.Lex (· < ·) (codePoints a) (codePoints b)

theorem before_of_le {a b : String} (hle : a ≤ b) (hne : b ≠ a) : Before a b := by
  have hlt : a < b := String.not_le.1 fun hge => hne (String.le_antisymm hge hle)
  exact List.map_lt (fun _ _ h => h) hlt

theorem Before.asymm {a b : String} (h : Before a b) : ¬ Before b a :=
  List.lex_asymm (fun h => Nat.lt_asymm h) h

/-- Of the names, `found` is one that the fewest changes lead to, `n` of them, and the first one of
these. Case does not count for the changes. -/
structure Nearest (names : List String) (name found : String) (n : Nat) : Prop where
  mem : found ∈ names
  edits : Edits n (lower name).toList (lower found).toList
  least : ∀ other ∈ names, ∀ m, Edits m (lower name).toList (lower other).toList → n ≤ m
  first : ∀ other ∈ names, other ≠ found → Edits n (lower name).toList (lower other).toList →
    Before found other

namespace Nearest

variable {names names' : List String} {name found found' : String} {n n' : Nat}

theorem unique (h : Nearest names name found n) (h' : Nearest names name found' n') :
    found = found' ∧ n = n' := by
  obtain rfl : n = n' :=
    Nat.le_antisymm (h.least found' h'.mem n' h'.edits) (h'.least found h.mem n h.edits)
  refine ⟨?_, rfl⟩
  by_contra hne
  exact (h.first found' h'.mem (Ne.symm hne) h'.edits).asymm (h'.first found h.mem hne h.edits)

theorem congr (hsame : ∀ other, other ∈ names ↔ other ∈ names') (h : Nearest names name found n) :
    Nearest names' name found n where
  mem := (hsame found).1 h.mem
  edits := h.edits
  least other hother := h.least other ((hsame other).2 hother)
  first other hother := h.first other ((hsame other).2 hother)

end Nearest

def nameDistance (name other : String) : Nat :=
  editDistance (lower name).toList (lower other).toList

def closer (distance : String → Nat) (best : Option (String × Nat)) (candidate : String) :
    Option (String × Nat) :=
  best.elim (some (candidate, distance candidate)) fun best =>
    if distance candidate < best.2 then some (candidate, distance candidate) else some best

theorem foldl_eq_closer (distance : String → Nat) (names : List String)
    {nearer : Option (String × Nat) → String → Option (String × Nat)}
    (hnone : ∀ candidate, nearer none candidate = some (candidate, distance candidate))
    (hsome : ∀ best candidate, nearer (some best) candidate =
      if distance candidate < best.2 then some (candidate, distance candidate) else some best) :
    names.foldl nearer none = names.foldl (closer distance) none := by
  congr 1
  funext best candidate
  cases best with
  | none => exact hnone candidate
  | some best => exact hsome best candidate

structure Leads (distance : String → Nat) (seen : List String) (best : String × Nat) : Prop where
  mem : best.1 ∈ seen
  reached : best.2 = distance best.1
  least : ∀ other ∈ seen, best.2 ≤ distance other
  first : ∀ other ∈ seen, distance other = best.2 → best.1 ≤ other

namespace Leads

variable {distance : String → Nat} {seen rest : List String} {best : String × Nat} {name : String}

theorem singleton (distance : String → Nat) (candidate : String) :
    Leads distance [candidate] (candidate, distance candidate) := by
  constructor <;> simp

theorem step (h : Leads distance seen best) (candidate : String)
    (hafter : ∀ other ∈ seen, other ≤ candidate) :
    ∃ next, closer distance (some best) candidate = some next ∧
      Leads distance (seen ++ [candidate]) next := by
  have hsplit {P : String → Prop} (hseen : ∀ other ∈ seen, P other) (hcandidate : P candidate) :
      ∀ other ∈ seen ++ [candidate], P other :=
    List.forall_mem_append.2 ⟨hseen, List.forall_mem_singleton.2 hcandidate⟩
  simp only [closer, Option.elim_some]
  split
  · rename_i hnearer
    refine ⟨_, rfl, by simp, rfl, hsplit (fun other hother => ?_) (Nat.le_refl _),
      hsplit (fun other hother heq => ?_) fun _ => String.le_refl _⟩
    · exact Nat.le_trans (Nat.le_of_lt hnearer) (h.least other hother)
    · have := h.least other hother
      omega
  · rename_i hfar
    exact ⟨best, rfl, List.mem_append_left _ h.mem, h.reached, hsplit h.least (Nat.not_lt.1 hfar),
      hsplit h.first fun _ => hafter _ h.mem⟩

theorem foldl (h : Leads distance seen best) (hsorted : (seen ++ rest).Pairwise (· ≤ ·)) :
    ∃ last, rest.foldl (closer distance) (some best) = some last ∧
      Leads distance (seen ++ rest) last := by
  induction rest generalizing seen best with
  | nil => exact ⟨best, rfl, by simpa using h⟩
  | cons candidate rest ih =>
      have hafter (other : String) (hother : other ∈ seen) : other ≤ candidate :=
        (List.pairwise_append.1 hsorted).2.2 other hother candidate List.mem_cons_self
      obtain ⟨next, hnext, hleads⟩ := h.step candidate hafter
      rw [List.append_cons] at hsorted ⊢
      rw [List.foldl_cons, hnext]
      exact ih hleads hsorted

theorem nearest {names : List String} (h : Leads (nameDistance name) seen best)
    (hsame : ∀ other, other ∈ seen ↔ other ∈ names) : Nearest names name best.1 best.2 := by
  have hleast (other : String) {m : Nat}
      (hm : Edits m (lower name).toList (lower other).toList) : nameDistance name other ≤ m :=
    (editDistance_isLeast _ _).2 hm
  refine .congr hsame ⟨h.mem, ?_, fun other hother m hm => ?_, fun other hother hne hn => ?_⟩
  · rw [h.reached]
    exact (editDistance_isLeast _ _).1
  · exact Nat.le_trans (h.least other hother) (hleast other hm)
  · have hsame := Nat.le_antisymm (hleast other hn) (h.least other hother)
    exact before_of_le (h.first other hother hsame) hne

end Leads

end Text

namespace Compilation

open Text

variable {c : Compilation} {name found : String}

def sortedNames (c : Compilation) : List String :=
  c.bindings.names.mergeSort fun a b => decide (a ≤ b)

theorem suggestion_eq (c : Compilation) (name : String) :
    c.suggestion name = (c.sortedNames.foldl (closer (nameDistance name)) none).elim none
      fun best => if best.2 ≤ 2 then some best.1 else none := by
  unfold suggestion sortedNames
  dsimp only
  rw [foldl_eq_closer (nameDistance name) _ (fun _ => rfl) fun _ _ => rfl]
  cases List.foldl (closer (nameDistance name)) none _ with
  | none => rfl
  | some best => rfl

theorem mem_sortedNames (c : Compilation) (other : String) :
    other ∈ c.sortedNames ↔ other ∈ c.bindings.names := List.mem_mergeSort

theorem sortedNames_pairwise (c : Compilation) : c.sortedNames.Pairwise (· ≤ ·) := by
  have htrans (a b c : String) :
      decide (a ≤ b) = true → decide (b ≤ c) = true → decide (a ≤ c) = true := by
    simpa only [decide_eq_true_eq] using String.le_trans
  have htotal (a b : String) : (decide (a ≤ b) || decide (b ≤ a)) = true := by
    simpa using String.le_total a b
  exact (List.pairwise_mergeSort htrans htotal c.bindings.names).imp of_decide_eq_true

theorem suggestion_cases (c : Compilation) (name : String) :
    c.bindings.names = [] ∧ c.suggestion name = none ∨
      ∃ found n, Nearest c.bindings.names name found n ∧
        c.suggestion name = if n ≤ 2 then some found else none := by
  have hmem := c.mem_sortedNames
  have hsorted := c.sortedNames_pairwise
  rw [suggestion_eq]
  cases hnames : c.sortedNames with
  | nil =>
      refine .inl ⟨List.eq_nil_iff_forall_not_mem.2 fun other hother => ?_, rfl⟩
      have := (hmem other).2 hother
      simp [hnames] at this
  | cons first rest =>
      rw [hnames] at hmem hsorted
      obtain ⟨best, hbest, hleads⟩ := (Leads.singleton (nameDistance name) first).foldl hsorted
      refine .inr ⟨best.1, best.2, hleads.nearest hmem, ?_⟩
      rw [List.foldl_cons]
      exact congrArg (Option.elim · none _) hbest

theorem suggestion_eq_some_iff :
    c.suggestion name = some found ↔ ∃ n ≤ 2, Nearest c.bindings.names name found n := by
  constructor
  · intro hsome
    rcases c.suggestion_cases name with ⟨-, hnone⟩ | ⟨other, n, hnearest, hother⟩
    · rw [hnone] at hsome
      cases hsome
    · rw [hother] at hsome
      split at hsome
      · rename_i hn
        cases hsome
        exact ⟨n, hn, hnearest⟩
      · cases hsome
  · rintro ⟨n, hn, hnearest⟩
    rcases c.suggestion_cases name with ⟨hnil, -⟩ | ⟨other, m, hother, hsome⟩
    · have := hnearest.mem
      simp [hnil] at this
    · obtain ⟨rfl, rfl⟩ := hnearest.unique hother
      rw [hsome, if_pos hn]

theorem suggestion_eq_none_iff : c.suggestion name = none ↔ ∀ other ∈ c.bindings.names,
    ∀ n, Edits n (lower name).toList (lower other).toList → 2 < n := by
  rcases c.suggestion_cases name with ⟨hnil, hnone⟩ | ⟨found, n, hnearest, hfound⟩
  · simp [hnil, hnone]
  · rw [hfound]
    constructor
    · intro hnone other hother m hm
      have hle := hnearest.least other hother m hm
      split at hnone
      · cases hnone
      · omega
    · intro hfar
      rw [if_neg (Nat.not_le.2 (hfar found hnearest.mem n hnearest.edits))]

end Compilation

open Text in
theorem nearest_name_suggested :
    (∀ a b : List Char, IsLeast {n | Edits n a b} (editDistance a b)) ∧
    ∀ (c : Compilation) (name : String),
      (∀ found, c.suggestion name = some found ↔ ∃ n ≤ 2, Nearest c.bindings.names name found n) ∧
      (c.suggestion name = none ↔ ∀ other ∈ c.bindings.names,
        ∀ n, Edits n (lower name).toList (lower other).toList → 2 < n) ∧
      ∀ d : Compilation, (∀ other, other ∈ c.bindings.names ↔ other ∈ d.bindings.names) →
        c.suggestion name = d.suggestion name := by
  refine ⟨editDistance_isLeast, fun c name => ⟨fun found => Compilation.suggestion_eq_some_iff,
    Compilation.suggestion_eq_none_iff, fun d hsame => Option.ext fun found => ?_⟩⟩
  rw [Compilation.suggestion_eq_some_iff, Compilation.suggestion_eq_some_iff]
  constructor
  · rintro ⟨n, hn, hnearest⟩
    exact ⟨n, hn, hnearest.congr hsame⟩
  · rintro ⟨n, hn, hnearest⟩
    exact ⟨n, hn, hnearest.congr fun other => (hsame other).symm⟩

theorem nearest_name_suggested_tied :
    let counts : String × Binding := ("counts", ⟨0, 1, .number⟩)
    let counter : String × Binding := ("Counter", ⟨1, 1, .number⟩)
    let c : Compilation := { Compilation.initial with bindings := ⟨[counts, counter]⟩ }
    let d : Compilation := { Compilation.initial with bindings := ⟨[counter, counts]⟩ }
    (∀ other, other ∈ c.bindings.names ↔ other ∈ d.bindings.names) ∧
      c.suggestion "countr" = d.suggestion "countr" ∧ d.suggestion "countr" = some "Counter" := by
  intro counts counter c d
  have hsame (other : String) : other ∈ c.bindings.names ↔ other ∈ d.bindings.names := by
    simp [c, d, Table.names, or_comm]
  have hsorted : d.sortedNames = ["Counter", "counts"] := List.mergeSort_of_pairwise (by decide)
  refine ⟨hsame, (nearest_name_suggested.2 c "countr").2.2 d hsame, ?_⟩
  rw [Compilation.suggestion_eq, hsorted]
  decide +kernel

end TapeCompiler
