namespace TapeCompiler

inductive CodePoint where
  | char (c : Char)
  | surrogate (n : Fin 2048)
  deriving DecidableEq, Repr

namespace CodePoint

instance : Coe Char CodePoint := ⟨char⟩

def toNat : CodePoint → Nat
  | char c => c.toNat
  | surrogate n => 0xd800 + n

def ofNat (n : Nat) : CodePoint :=
  if h : 0xd800 ≤ n ∧ n < 0xe000 then surrogate ⟨n - 0xd800, by omega⟩ else char (Char.ofNat n)

def char? : CodePoint → Option Char
  | char c => some c
  | surrogate _ => none

def is (p : Char → Bool) : CodePoint → Bool
  | char c => p c
  | surrogate _ => false

theorem eq_char_of_is {p : Char → Bool} {c : CodePoint} (h : c.is p = true) :
    ∃ d, c = char d ∧ p d = true := by
  cases c with
  | char c => exact ⟨c, rfl, h⟩
  | surrogate n => cases h

theorem isSome_char?_of_is {p : Char → Bool} {c : CodePoint} (h : c.is p = true) :
    c.char?.isSome := by
  obtain ⟨d, rfl, -⟩ := eq_char_of_is h
  rfl

@[simp] theorem is_char (p : Char → Bool) (c : Char) : (char c).is p = p c := rfl

theorem toNat_ofNat {n : Nat} (h : n ≤ 0x10ffff) : (ofNat n).toNat = n := by
  unfold ofNat
  split
  · simp only [toNat]
    omega
  · rename_i hchar
    have hvalid : n.isValidChar := by
      unfold Nat.isValidChar
      omega
    change (Char.ofNat n).toNat = n
    rw [Char.ofNat, dif_pos hvalid]
    rfl

end CodePoint

namespace Text

def ofString (s : String) : List CodePoint := s.toList.map .char

instance : Coe String (List CodePoint) := ⟨ofString⟩

def characters (cs : List CodePoint) : String := String.ofList (cs.filterMap CodePoint.char?)

theorem characters_ofString (s : String) : characters (ofString s) = s := by
  rw [characters, ofString, List.filterMap_map]
  change String.ofList (s.toList.filterMap some) = s
  rw [List.filterMap_some, String.ofList_toList]

theorem ofString_characters {cs : List CodePoint} (h : ∀ c ∈ cs, c.char?.isSome) :
    ofString (characters cs) = cs := by
  rw [ofString, characters, String.toList_ofList]
  induction cs with
  | nil => rfl
  | cons c cs ih =>
      obtain ⟨hc, hcs⟩ := List.forall_mem_cons.1 h
      cases c with
      | char c => exact congrArg _ (ih hcs)
      | surrogate n => cases hc

end Text

end TapeCompiler
