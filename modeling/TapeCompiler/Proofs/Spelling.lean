import TapeCompiler.Language.Token

namespace TapeCompiler

namespace Text

theorem letters_ascii : ∀ n < 128, CharClass.covers letters.boundaries n =
    (decide (65 ≤ n ∧ n < 91) || decide (97 ≤ n ∧ n < 123)) := by
  decide +kernel

theorem numerics_ascii : ∀ n < 128,
    CharClass.covers numerics.boundaries n = decide (48 ≤ n ∧ n < 58) := by
  decide +kernel

theorem digits_ascii : ∀ n < 128,
    CharClass.covers digits.boundaries n = decide (48 ≤ n ∧ n < 58) := by
  decide +kernel

theorem blanks_ascii : ∀ n < 128, 33 ≤ n → CharClass.covers blanks.boundaries n = false := by
  decide +kernel

variable {c : Char}

theorem toNat_of_isAlpha (h : c.isAlpha) :
    65 ≤ c.toNat ∧ c.toNat < 91 ∨ 97 ≤ c.toNat ∧ c.toNat < 123 := by
  rcases Bool.or_eq_true_iff.1 h with h | h
  · obtain ⟨hlow, hhigh⟩ := of_decide_eq_true h
    exact .inl ⟨hlow, Nat.lt_succ_of_le hhigh⟩
  · obtain ⟨hlow, hhigh⟩ := Bool.and_eq_true_iff.1 h
    exact .inr ⟨of_decide_eq_true hlow, Nat.lt_succ_of_le (of_decide_eq_true hhigh)⟩

theorem toNat_of_isDigit (h : c.isDigit) : 48 ≤ c.toNat ∧ c.toNat < 58 := by
  obtain ⟨hlow, hhigh⟩ := Char.isDigit_iff_toNat.1 h
  exact ⟨hlow, Nat.lt_succ_of_le hhigh⟩

theorem isLetter_of_isAlpha (h : c.isAlpha) : isLetter c = true := by
  have hc := toNat_of_isAlpha h
  rw [isLetter, CharClass.contains, letters_ascii _ (by omega)]
  simpa using hc

theorem isDigit_of_isDigit (h : c.isDigit) : isDigit c = true := by
  have hc := toNat_of_isDigit h
  rw [isDigit, CharClass.contains, digits_ascii _ (by omega)]
  simpa using hc

theorem isNumeric_of_isDigit (h : c.isDigit) : isNumeric c = true := by
  have hc := toNat_of_isDigit h
  rw [isNumeric, CharClass.contains, numerics_ascii _ (by omega)]
  simpa using hc

theorem isLetter_of_isDigit (h : c.isDigit) : isLetter c = false := by
  have hc := toNat_of_isDigit h
  rw [isLetter, CharClass.contains, letters_ascii _ (by omega)]
  simp only [Bool.or_eq_false_iff, decide_eq_false_iff_not]
  omega

theorem decimalValue?_of_isDigit (h : c.isDigit) : decimalValue? c = some (c.toNat - 48) := by
  have hc := toNat_of_isDigit h
  have hfind : zeros.find? (fun z => z ≤ c.toNat && c.toNat < z + 10) = some 48 :=
    List.find?_cons_of_pos (by simpa using hc)
  rw [decimalValue?, hfind]
  rfl

theorem digitRun_of_isDigit {cs : List Char} (joins : Bool) (h : ∀ c ∈ cs, c.isDigit) :
    digitRun joins cs = (cs.map fun c => c.toNat - 48, []) := by
  induction cs generalizing joins with
  | nil => rfl
  | cons c cs ih =>
      obtain ⟨hc, hcs⟩ := List.forall_mem_cons.1 h
      simp only [digitRun, decimalValue?_of_isDigit hc, ih true hcs, List.map_cons]

theorem digitRun_toDigits (n : Nat) : ∃ ds, digitRun false (Nat.toDigits 10 n) = (ds, []) ∧
    ds.length = (Nat.toDigits 10 n).length ∧ ofDigits ds = n := by
  refine ⟨_, digitRun_of_isDigit false fun c hc =>
    Nat.isDigit_of_mem_toDigits (by decide) (by decide) hc, List.length_map .., ?_⟩
  rw [ofDigits, List.foldl_map]
  exact Nat.ofDigitChars_ten_toDigits

theorem isBlank_ascii (hlow : 33 ≤ c.toNat) (hhigh : c.toNat < 128) : isBlank c = false := by
  rw [isBlank, CharClass.contains, blanks_ascii _ hhigh hlow]

theorem isNumeralPadding_ascii (hlow : 33 ≤ c.toNat) (hhigh : c.toNat < 128) :
    isNumeralPadding c = false := by
  have hne : c ≠ ' ' := by
    rintro rfl
    exact absurd hlow (by decide)
  rw [isNumeralPadding, if_pos (by omega)]
  simp only [hne, decide_false, Bool.false_or, Bool.and_eq_false_iff, decide_eq_false_iff_not]
  omega

theorem toList_toString (n : Int) : (toString n).toList =
    if 0 ≤ n then Nat.toDigits 10 n.natAbs else '-' :: Nat.toDigits 10 n.natAbs := by
  rw [Int.toString_eq_repr, Int.repr_eq_if]
  split
  · rw [Nat.toList_repr]
    congr 1
    omega
  · rw [String.toList_append, Nat.toList_repr, show (-n).toNat = n.natAbs by omega]
    rfl

theorem readNumeral_toString {n : Int} (h : (Nat.toDigits 10 n.natAbs).length ≤ 4300) :
    readNumeral (toString n) = .ok n := by
  obtain ⟨ds, hrun, hlength, hvalue⟩ := digitRun_toDigits n.natAbs
  have hsplit : splitSign ((toString n).toList.dropWhile isNumeralPadding) =
      (if 0 ≤ n then 1 else -1, Nat.toDigits 10 n.natAbs) := by
    rw [toList_toString]
    split
    · obtain ⟨d, rest, hd⟩ := List.exists_cons_of_ne_nil
        (Nat.toDigits_ne_nil (b := 10) (n := n.natAbs))
      have hc := toNat_of_isDigit (Nat.isDigit_of_mem_toDigits (by decide) (by decide)
        (hd ▸ List.mem_cons_self : d ∈ Nat.toDigits 10 n.natAbs))
      have hpadding := isNumeralPadding_ascii (c := d) (by omega) (by omega)
      rw [hd, List.dropWhile_cons_of_neg (by simp [hpadding])]
      unfold splitSign
      split
      · rename_i heq
        cases heq
        exact absurd hc (by decide)
      · rename_i heq
        cases heq
        exact absurd hc (by decide)
      · rfl
    · rfl
  have hshort : ¬maxDigits < ds.length := by
    rw [hlength]
    exact Nat.not_lt.2 h
  have hsome : ds.isEmpty = false := by
    rw [List.isEmpty_eq_false_iff, ← List.length_pos_iff, hlength]
    exact Nat.length_toDigits_pos
  have hread : readNumeral (toString n) = .ok ((if 0 ≤ n then 1 else -1) * (n.natAbs : Int)) := by
    simp only [readNumeral, hsplit, hrun, if_neg hshort, hsome, hvalue]
    rfl
  rw [hread]
  congr
  split
  · omega
  · omega

end Text

namespace Lexeme

def spelled : Lexeme → List CodePoint
  | character c => ['\'', c, '\'']
  | lexeme => lexeme.text

def isSpelled : Lexeme → Bool
  | number text =>
      match Text.ofString text with
      | [] => false
      | c :: rest => !c.is Text.isBlank && !c.is Scan.isWordStart &&
          Scan.startsNumber false c rest && rest.all (CodePoint.is Text.isDigit)
  | word text =>
      match Text.ofString text with
      | [] => false
      | c :: rest => !c.is Text.isBlank && c.is Scan.isWordStart &&
          rest.all (CodePoint.is Scan.isWordPart)
  | _ => true

end Lexeme

def spaced (lexemes : List Lexeme) : List CodePoint :=
  List.intercalate " " (lexemes.map Lexeme.spelled)

namespace Scan

def Parted (rest : List CodePoint) : Prop := ∀ c ∈ rest.head?, c = ' '

variable {glued value : Bool} {line : Nat} {c : CodePoint} {rest after : List CodePoint}
  {l : Lexeme}

theorem Parted.eq (h : Parted rest) : rest = [] ∨ ∃ more, rest = .char ' ' :: more := by
  cases rest with
  | nil => exact .inl rfl
  | cons c more => exact .inr ⟨more, by rw [h c rfl]⟩

theorem Parted.takeWhile {p : CodePoint → Bool} (h : Parted rest) (hp : p ' ' = false)
    {cs : List CodePoint} (hcs : cs.all p) : (cs ++ rest).takeWhile p = cs := by
  rw [List.takeWhile_append_of_pos (List.all_eq_true.1 hcs)]
  obtain rfl | ⟨more, rfl⟩ := h.eq
  · simp
  · simp [hp]

theorem Parted.dropWhile {p : CodePoint → Bool} (h : Parted rest) (hp : p ' ' = false)
    {cs : List CodePoint} (hcs : cs.all p) : (cs ++ rest).dropWhile p = rest := by
  rw [List.dropWhile_append_of_pos (List.all_eq_true.1 hcs)]
  obtain rfl | ⟨more, rfl⟩ := h.eq
  · rfl
  · simp [hp]

theorem readFrom_blank :
    readFrom glued value line (.char ' ' :: rest) = readFrom false value line rest := by
  rw [readFrom]
  rfl

theorem readFrom_lexeme (hblank : c.is Text.isBlank = false)
    (hcomment : c = '/' → rest.head? ≠ some (.char '/') ∧ rest.head? ≠ some (.char '*'))
    (hlexeme : lexeme (glued && value) c rest = .ok (l, after)) :
    readFrom glued value line (c :: rest) =
      (readFrom true l.endsValue line after).map (push ⟨l, line⟩) := by
  have hnewline : c ≠ '\n' := by
    rintro rfl
    cases hblank
  rw [readFrom, if_neg hnewline, hblank, if_neg (by simp), if_neg fun h => (hcomment h.1).1 h.2,
    if_neg fun h => (hcomment h.1).2 h.2]
  split
  · rename_i herror
    cases hlexeme.symm.trans herror
  · rename_i hok
    cases hlexeme.symm.trans hok
    rfl

theorem lexeme_symbol (s : Symbol) (h : Parted rest) : ∃ c cs, Text.ofString s.text = c :: cs ∧
    c.is Text.isBlank = false ∧ (c = '/' → cs = []) ∧
    lexeme false c (cs ++ rest) = .ok (.symbol s, rest) := by
  obtain rfl | ⟨more, rfl⟩ := h.eq
  · cases s <;> exact ⟨_, _, rfl, rfl, by decide, rfl⟩
  · cases s <;> exact ⟨_, _, rfl, rfl, by decide, rfl⟩

theorem startsNumber_append {cs : List CodePoint} (h : startsNumber false c cs = true) :
    startsNumber false c (cs ++ rest) = true := by
  cases cs with
  | nil =>
      simp only [startsNumber, List.head?_nil, Option.map_none, Option.getD_none, Bool.and_false,
        Bool.or_false] at h
      simp [startsNumber, h]
  | cons d cs => exact h

theorem lexeme_number {text : String} (hl : (Lexeme.number text).isSpelled) (h : Parted rest) :
    ∃ c cs, Text.ofString text = c :: cs ∧ c.is Text.isBlank = false ∧ (c = '/' → cs = []) ∧
      lexeme false c (cs ++ rest) = .ok (.number text, rest) := by
  simp only [Lexeme.isSpelled] at hl
  split at hl
  · cases hl
  · rename_i c cs htext
    simp only [Bool.and_eq_true, Bool.not_eq_true'] at hl
    obtain ⟨⟨⟨hblank, hword⟩, hnumber⟩, hdigits⟩ := hl
    refine ⟨c, cs, htext, hblank, ?_, ?_⟩
    · rintro rfl
      cases hnumber
    · unfold lexeme
      rw [hword, if_neg (by simp), if_pos (startsNumber_append hnumber),
        h.takeWhile (by decide) hdigits, h.dropWhile (by decide) hdigits, ← htext,
        Text.characters_ofString]

theorem lexeme_word {text : String} (hl : (Lexeme.word text).isSpelled) (h : Parted rest) :
    ∃ c cs, Text.ofString text = c :: cs ∧ c.is Text.isBlank = false ∧ (c = '/' → cs = []) ∧
      lexeme false c (cs ++ rest) = .ok (.word text, rest) := by
  simp only [Lexeme.isSpelled] at hl
  split at hl
  · cases hl
  · rename_i c cs htext
    simp only [Bool.and_eq_true, Bool.not_eq_true'] at hl
    obtain ⟨⟨hblank, hword⟩, hparts⟩ := hl
    refine ⟨c, cs, htext, hblank, ?_, ?_⟩
    · rintro rfl
      cases hword
    · unfold lexeme
      rw [if_pos hword, h.takeWhile (by decide) hparts, h.dropWhile (by decide) hparts,
        ← htext, Text.characters_ofString]

theorem lexeme_spelled (hl : l.isSpelled) (h : Parted rest) : ∃ c cs, l.spelled = c :: cs ∧
    c.is Text.isBlank = false ∧ (c = '/' → cs = []) ∧
      lexeme false c (cs ++ rest) = .ok (l, rest) := by
  cases l with
  | number text => exact lexeme_number hl h
  | word text => exact lexeme_word hl h
  | character c => exact ⟨'\'', [c, '\''], rfl, rfl, (fun hc => by cases hc), rfl⟩
  | symbol s => exact lexeme_symbol s h

theorem readFrom_spelled (hl : l.isSpelled) (h : Parted rest) :
    readFrom false value line (l.spelled ++ rest) =
      (readFrom true l.endsValue line rest).map (push ⟨l, line⟩) := by
  obtain ⟨c, cs, htext, hblank, hslash, hlexeme⟩ := lexeme_spelled hl h
  rw [htext, List.cons_append]
  refine readFrom_lexeme hblank (fun hc => ?_) hlexeme
  rw [hslash hc, List.nil_append]
  obtain rfl | ⟨more, rfl⟩ := h.eq
  · simp
  · simp

theorem readFrom_spaced (lexemes : List Lexeme) (h : ∀ l ∈ lexemes, l.isSpelled) (value : Bool)
    (line : Nat) : readFrom false value line (spaced lexemes) =
      .ok ⟨lexemes.map (Token.mk · line), line⟩ := by
  rw [spaced]
  induction lexemes generalizing value with
  | nil =>
      rw [List.map_nil, List.map_nil, List.intercalate_nil, readFrom]
  | cons l lexemes ih =>
      obtain ⟨hl, hrest⟩ := List.forall_mem_cons.1 h
      cases lexemes with
      | nil =>
          simp only [List.map_cons, List.map_nil, List.intercalate_singleton]
          rw [← List.append_nil l.spelled, readFrom_spelled hl (fun c hc => by cases hc),
            readFrom]
          rfl
      | cons l' lexemes =>
          have hread := ih hrest l.endsValue
          simp only [List.map_cons] at hread ⊢
          rw [List.intercalate_cons_cons, List.append_assoc,
            readFrom_spelled hl (by rintro c ⟨⟩; rfl)]
          change (readFrom true l.endsValue line (.char ' ' :: List.intercalate " " _)).map _ = _
          rw [readFrom_blank, hread]
          rfl

end Scan

theorem scan_spaced {lexemes : List Lexeme} (h : ∀ l ∈ lexemes, l.isSpelled) :
    scan (spaced lexemes) = .ok ⟨lexemes.map (Token.mk · 1), 1⟩ :=
  Scan.readFrom_spaced lexemes h false 1

end TapeCompiler
