import TapeCompiler.Proofs.Spelling
import Mathlib.Data.List.Basic

namespace TapeCompiler

namespace Scan

inductive Lexed (subtracts : Bool) (c : CodePoint) :
    List CodePoint → Lexeme → List CodePoint → Prop where
  | word {rest : List CodePoint} (hstart : c.is isWordStart = true) :
      Lexed subtracts c rest
        (.word (Text.characters (c :: rest.takeWhile (CodePoint.is isWordPart))))
        (rest.dropWhile (CodePoint.is isWordPart))
  | number {rest : List CodePoint} (hstart : c.is isWordStart = false)
      (hnumber : startsNumber subtracts c rest = true) :
      Lexed subtracts c rest
        (.number (Text.characters (c :: rest.takeWhile (CodePoint.is Text.isDigit))))
        (rest.dropWhile (CodePoint.is Text.isDigit))
  | character {quoted : CodePoint} {after : List CodePoint} (hquote : c = '\'') :
      Lexed subtracts c (quoted :: .char '\'' :: after) (.character quoted) after
  | pair {d : CodePoint} {after : List CodePoint} {s : Symbol}
      (hsymbol : Symbol.ofPair? c d = some s) :
      Lexed subtracts c (d :: after) (.symbol s) after
  | single {rest : List CodePoint} {s : Symbol} (hnumber : startsNumber subtracts c rest = false)
      (hpair : rest.head?.bind (Symbol.ofPair? c) = none)
      (hsymbol : Symbol.ofCodePoint? c = some s) :
      Lexed subtracts c rest (.symbol s) rest

section

variable {subtracts : Bool} {c : CodePoint} {rest after : List CodePoint} {l : Lexeme}

theorem ofString_word (hstart : c.is isWordStart = true) :
    Text.ofString (Text.characters (c :: rest.takeWhile (CodePoint.is isWordPart))) =
      c :: rest.takeWhile (CodePoint.is isWordPart) := by
  exact Text.ofString_characters (List.forall_mem_cons.2 ⟨CodePoint.isSome_char?_of_is hstart,
    fun d hd => CodePoint.isSome_char?_of_is (List.all_eq_true.1 List.all_takeWhile d hd)⟩)

theorem ofString_number (hnumber : startsNumber subtracts c rest = true) :
    Text.ofString (Text.characters (c :: rest.takeWhile (CodePoint.is Text.isDigit))) =
      c :: rest.takeWhile (CodePoint.is Text.isDigit) := by
  have hc : c.char?.isSome := by
    simp only [startsNumber, Bool.or_eq_true, Bool.and_eq_true, decide_eq_true_eq] at hnumber
    rcases hnumber with hdigit | ⟨⟨rfl, -⟩, -⟩
    · exact CodePoint.isSome_char?_of_is hdigit
    · rfl
  exact Text.ofString_characters (List.forall_mem_cons.2 ⟨hc,
    fun d hd => CodePoint.isSome_char?_of_is (List.all_eq_true.1 List.all_takeWhile d hd)⟩)

theorem Lexed.of_lexeme (h : lexeme subtracts c rest = .ok (l, after)) :
    Lexed subtracts c rest l after := by
  unfold lexeme at h
  split at h
  · rename_i hstart
    cases h
    exact .word hstart
  · rename_i hstart
    rw [Bool.not_eq_true] at hstart
    split at h
    · rename_i hnumber
      cases h
      exact .number hstart hnumber
    · rename_i hnumber
      rw [Bool.not_eq_true] at hnumber
      split at h
      · rename_i hquote
        split at h
        · cases h
          exact .character hquote
        · cases h
      · split at h
        · rename_i hpair
          cases h
          obtain ⟨d, hd, hsymbol⟩ := Option.bind_eq_some_iff.1 hpair
          obtain ⟨after, rfl⟩ := List.head?_eq_some_iff.1 hd
          exact .pair hsymbol
        · rename_i hpair
          split at h
          · rename_i hsymbol
            cases h
            exact .single hnumber hpair hsymbol
          · cases h

theorem Lexed.lexeme (h : Lexed subtracts c rest l after) :
    lexeme subtracts c rest = .ok (l, after) := by
  cases h with
  | word hstart =>
      unfold Scan.lexeme
      rw [if_pos hstart]
  | number hstart hnumber =>
      unfold Scan.lexeme
      rw [if_neg (by simp [hstart]), if_pos hnumber]
  | character hquote =>
      subst hquote
      rfl
  | pair hsymbol =>
      unfold Symbol.ofPair? at hsymbol
      split at hsymbol <;> cases hsymbol <;> rfl
  | single hnumber hpair hsymbol =>
      -- None of the symbols starts a word or is a quote, so the cases before are passed.
      have hstart : c.is isWordStart = false ∧ c ≠ '\'' := by
        unfold Symbol.ofCodePoint? at hsymbol
        split at hsymbol <;> first | exact ⟨rfl, by decide⟩ | cases hsymbol
      unfold Scan.lexeme
      rw [if_neg (by simp [hstart.1]), if_neg (by simp [hnumber]), if_neg hstart.2]
      simp only [hpair, hsymbol]

theorem Lexed.text (h : Lexed subtracts c rest l after) :
    c :: rest = l.spelled ++ after := by
  cases h with
  | word hstart =>
      simp [Lexeme.spelled, Lexeme.text, ofString_word hstart]
  | number hstart hnumber =>
      simp [Lexeme.spelled, Lexeme.text, ofString_number hnumber]
  | character hquote =>
      subst hquote
      simp [Lexeme.spelled]
  | pair hsymbol =>
      unfold Symbol.ofPair? at hsymbol
      split at hsymbol <;> cases hsymbol <;> rfl
  | single hnumber hpair hsymbol =>
      unfold Symbol.ofCodePoint? at hsymbol
      split at hsymbol <;> cases hsymbol <;> rfl

theorem startsNumber_alone (h : startsNumber subtracts c rest = true) :
    startsNumber false c (rest.takeWhile (CodePoint.is Text.isDigit)) = true := by
  simp only [startsNumber, Bool.or_eq_true, Bool.and_eq_true] at h ⊢
  rcases h with hc | ⟨⟨hsign, -⟩, hdigit⟩
  · exact .inl hc
  · refine .inr ⟨⟨hsign, rfl⟩, ?_⟩
    cases rest with
    | nil => cases hdigit
    | cons d rest =>
        have hd : d.is Text.isDigit = true := hdigit
        simp [hd]

theorem Lexed.isSpelled (h : Lexed subtracts c rest l after) (hblank : c.is Text.isBlank = false) :
    l.isSpelled = true := by
  cases h with
  | word hstart => simp [Lexeme.isSpelled, ofString_word hstart, hblank, hstart]
  | number hstart hnumber =>
      simp [Lexeme.isSpelled, ofString_number hnumber, hblank, hstart,
        startsNumber_alone hnumber]
  | character => rfl
  | pair => rfl
  | single => rfl

end

structure Cursor where
  glued : Bool
  value : Bool
  line : Nat
  text : List CodePoint

namespace Cursor

def start (source : List CodePoint) : Cursor := ⟨false, false, 1, source⟩

def read (p : Cursor) : Except SourceError Scan := readFrom p.glued p.value p.line p.text

end Cursor

inductive Step : Cursor → Option Token → Cursor → Prop where
  | lineEnd {glued value : Bool} {line : Nat} {rest : List CodePoint} :
      Step ⟨glued, value, line, .char '\n' :: rest⟩ none ⟨false, value, line + 1, rest⟩
  | blank {glued value : Bool} {line : Nat} {c : CodePoint} {rest : List CodePoint}
      (hblank : c.is Text.isBlank = true) (hc : c ≠ '\n') :
      Step ⟨glued, value, line, c :: rest⟩ none ⟨false, value, line, rest⟩
  | lineComment {glued value : Bool} {line : Nat} {rest : List CodePoint} :
      Step ⟨glued, value, line, '/' :: '/' :: rest⟩ none
        ⟨true, value, line, rest.dropWhile (· != '\n')⟩
  | blockComment {glued value : Bool} {line ends : Nat} {rest after : List CodePoint}
      (hclose : closeComment rest = some (ends, after)) :
      Step ⟨glued, value, line, '/' :: '*' :: rest⟩ none ⟨true, value, line + ends, after⟩
  | lexeme {glued value : Bool} {line : Nat} {c : CodePoint} {rest after : List CodePoint}
      {l : Lexeme}
      (hblank : c.is Text.isBlank = false)
      (hcomment : c = '/' → rest.head? ≠ some (.char '/') ∧ rest.head? ≠ some (.char '*'))
      (hlexeme : lexeme (glued && value) c rest = .ok (l, after)) :
      Step ⟨glued, value, line, c :: rest⟩ (some ⟨l, line⟩) ⟨true, l.endsValue, line, after⟩

inductive Run : Cursor → List Token → Cursor → Prop where
  | refl {p : Cursor} : Run p [] p
  | step {p q r : Cursor} {token : Option Token} {tokens : List Token} (hstep : Step p token q)
      (hrun : Run q tokens r) : Run p (token.toList ++ tokens) r

variable {p q r : Cursor} {token : Option Token} {tokens : List Token} {scanned : Scan}

theorem Step.read (h : Step p token q) : p.read = q.read.map fun scanned =>
    { scanned with tokens := token.toList ++ scanned.tokens } := by
  have hskip (x : Except SourceError Scan) : x = x.map fun scanned =>
      { scanned with tokens := (none : Option Token).toList ++ scanned.tokens } := by
    cases x <;> rfl
  cases h with
  | lineEnd =>
      refine .trans ?_ (hskip _)
      rw [Cursor.read, readFrom, if_pos rfl]
      rfl
  | blank hblank hc =>
      refine .trans ?_ (hskip _)
      rw [Cursor.read, readFrom, if_neg hc, if_pos hblank]
      rfl
  | lineComment =>
      refine .trans ?_ (hskip _)
      rw [Cursor.read, readFrom]
      rfl
  | blockComment hclose =>
      refine .trans ?_ (hskip _)
      rw [Cursor.read, readFrom, if_neg (by decide), if_neg (by decide), if_neg (by simp),
        if_pos ⟨rfl, rfl⟩]
      split
      · rename_i hnone
        cases hclose.symm.trans hnone
      · rename_i hsome
        cases hclose.symm.trans hsome
        rfl
  | lexeme hblank hcomment hlexeme => exact readFrom_lexeme hblank hcomment hlexeme

theorem Run.read (h : Run p tokens q) (hq : q.text = []) : p.read = .ok ⟨tokens, q.line⟩ := by
  induction h with
  | refl => rw [Cursor.read, hq, readFrom]
  | step hstep _ ih =>
      rw [hstep.read, ih hq]
      rfl

theorem read_eq_ok_iff : p.read = .ok scanned ↔
    ∃ q, Run p scanned.tokens q ∧ q.text = [] ∧ q.line = scanned.lastLine := by
  constructor
  · intro h
    obtain ⟨glued, value, line, cs⟩ := p
    change readFrom glued value line cs = .ok scanned at h
    fun_induction readFrom glued value line cs generalizing scanned with
    | case1 glued value line =>
        cases h
        exact ⟨_, .refl, rfl, rfl⟩
    | case2 glued value line rest ih =>
        obtain ⟨q, hrun, hq⟩ := ih h
        exact ⟨q, .step .lineEnd hrun, hq⟩
    | case3 glued value line c rest hc hblank ih =>
        obtain ⟨q, hrun, hq⟩ := ih h
        exact ⟨q, .step (.blank hblank hc) hrun, hq⟩
    | case4 glued value line c rest _ _ hcomment ih =>
        obtain ⟨rfl, hslash⟩ := hcomment
        obtain ⟨rest, rfl⟩ := List.head?_eq_some_iff.1 hslash
        obtain ⟨q, hrun, hq⟩ := ih h
        exact ⟨q, .step .lineComment hrun, hq⟩
    | case5 => cases h
    | case6 glued value line c rest _ _ _ hcomment ends after hclose ih =>
        obtain ⟨rfl, hstar⟩ := hcomment
        obtain ⟨rest, rfl⟩ := List.head?_eq_some_iff.1 hstar
        obtain ⟨q, hrun, hq⟩ := ih h
        exact ⟨q, .step (.blockComment hclose) hrun, hq⟩
    | case7 => cases h
    | case8 glued value line c rest _ hblank hline hblock l after hlexeme ih =>
        cases hafter : readFrom true l.endsValue line after with
        | error error =>
            rw [hafter] at h
            cases h
        | ok found =>
            rw [hafter] at h
            cases h
            obtain ⟨q, hrun, hq⟩ := ih hafter
            refine ⟨q, .step (.lexeme (by simpa using hblank) (fun hc => ?_) hlexeme) hrun, hq⟩
            exact ⟨fun hslash => hline ⟨hc, hslash⟩, fun hstar => hblock ⟨hc, hstar⟩⟩
  · rintro ⟨q, hrun, hq, hline⟩
    rw [hrun.read hq, hline]

theorem scan_eq_ok_iff {source : List CodePoint} : scan source = .ok scanned ↔
    ∃ q, Run (.start source) scanned.tokens q ∧ q.text = [] ∧ q.line = scanned.lastLine :=
  read_eq_ok_iff (p := .start source)

def quotedEnds (tokens : List Token) : Nat := tokens.countP (·.lexeme = .character '\n')

theorem count_of_all {cs : List CodePoint} {p : CodePoint → Bool} (h : cs.all p = true)
    (hp : p (.char '\n') = false) : cs.count (.char '\n') = 0 := by
  refine List.count_eq_zero.2 fun hmem => ?_
  rw [List.all_eq_true.1 h _ hmem] at hp
  cases hp

theorem count_spelled {l : Lexeme} (h : l.isSpelled = true) :
    l.spelled.count (.char '\n') = if l = .character '\n' then 1 else 0 := by
  have hstart {c : CodePoint} (hc : c.is Text.isBlank = false) : c ≠ '\n' := by
    rintro rfl
    cases hc
  cases l with
  | number text =>
      simp only [Lexeme.isSpelled] at h
      split at h
      · cases h
      · rename_i c rest htext
        simp only [Bool.and_eq_true, Bool.not_eq_true'] at h
        simp [Lexeme.spelled, Lexeme.text, htext, hstart h.1.1.1, count_of_all h.2 (by decide)]
  | word text =>
      simp only [Lexeme.isSpelled] at h
      split at h
      · cases h
      · rename_i c rest htext
        simp only [Bool.and_eq_true, Bool.not_eq_true'] at h
        simp [Lexeme.spelled, Lexeme.text, htext, hstart h.1.1, count_of_all h.2 (by decide)]
  | character c => simp [Lexeme.spelled, List.count_cons]
  | symbol s => cases s <;> rfl

theorem closeComment_text {cs after : List CodePoint} {ends : Nat}
    (h : closeComment cs = some (ends, after)) :
    ∃ inside, cs = inside ++ after ∧ inside.count (.char '\n') = ends := by
  fun_induction closeComment cs generalizing ends after with
  | case1 => cases h
  | case2 rest =>
      cases h
      exact ⟨['*', '/'], rfl, rfl⟩
  | case3 c rest _ ih =>
      obtain ⟨⟨n, r⟩, hr, h⟩ := Option.map_eq_some_iff.1 h
      cases h
      obtain ⟨inside, rfl, rfl⟩ := ih hr
      refine ⟨c :: inside, rfl, ?_⟩
      rw [List.count_cons]
      split <;> simp_all

theorem Step.passes (h : Step p token q) : ∃ passed, p.text = passed ++ q.text ∧
    (∀ t ∈ token, t.line = p.line ∧ t.lexeme.isSpelled = true ∧
      passed = t.lexeme.spelled) ∧
    q.line + quotedEnds token.toList = p.line + passed.count (.char '\n') := by
  cases h with
  | lineEnd => exact ⟨['\n'], rfl, by simp, rfl⟩
  | @blank glued value line c rest hblank hc =>
      exact ⟨[c], rfl, by simp, by simp [quotedEnds, hc]⟩
  | @lineComment glued value line rest =>
      have hstays : (rest.takeWhile (· != .char '\n')).count (.char '\n') = 0 :=
        count_of_all (p := (· != .char '\n')) (by simp) rfl
      exact ⟨'/' :: '/' :: rest.takeWhile (· != .char '\n'), by simp, by simp,
        by simp [quotedEnds, hstays]⟩
  | blockComment hclose =>
      obtain ⟨inside, rfl, rfl⟩ := closeComment_text hclose
      exact ⟨'/' :: '*' :: inside, rfl, by simp, by simp [quotedEnds]⟩
  | lexeme hblank hcomment hlexeme =>
      have hlexed := Lexed.of_lexeme hlexeme
      have hspelled := hlexed.isSpelled hblank
      refine ⟨_, hlexed.text, ?_, ?_⟩
      · simpa using hspelled
      · rw [count_spelled hspelled]
        simp [quotedEnds, List.countP_cons]

theorem Run.passes (h : Run p tokens q) : ∃ passed, p.text = passed ++ q.text ∧
    q.line + quotedEnds tokens = p.line + passed.count (.char '\n') := by
  induction h with
  | refl => exact ⟨[], rfl, rfl⟩
  | step hstep _ ih =>
      obtain ⟨first, htext, -, hline⟩ := hstep.passes
      obtain ⟨more, htext', hline'⟩ := ih
      refine ⟨first ++ more, by rw [htext, htext', List.append_assoc], ?_⟩
      simp only [quotedEnds, List.countP_append, List.count_append] at hline hline' ⊢
      omega

theorem Run.isSpelled (h : Run p tokens q) : ∀ t ∈ tokens, t.lexeme.isSpelled = true := by
  induction h with
  | refl => simp
  | step hstep _ ih =>
      obtain ⟨_, -, hspelled, -⟩ := hstep.passes
      intro t ht
      rcases List.mem_append.1 ht with ht | ht
      · exact (hspelled t (Option.mem_toList.1 ht)).2.1
      · exact ih t ht

theorem Run.split {earlier later : List Token} {t : Token} (h : Run p tokens r)
    (htokens : tokens = earlier ++ t :: later) :
    ∃ q q', Run p earlier q ∧ Step q (some t) q' ∧ Run q' later r := by
  induction h generalizing earlier with
  | refl => simp at htokens
  | @step p q r token tokens hstep hrun ih =>
      cases token with
      | none =>
          obtain ⟨q, q', hearlier, hfound, hlater⟩ := ih htokens
          exact ⟨q, q', .step hstep hearlier, hfound, hlater⟩
      | some first =>
          cases earlier with
          | nil =>
              cases htokens
              exact ⟨p, q, .refl, hstep, hrun⟩
          | cons head earlier =>
              simp only [Option.toList_some, List.cons_append, List.nil_append,
                List.cons.injEq] at htokens
              obtain ⟨rfl, htokens⟩ := htokens
              obtain ⟨q, q', hearlier, hfound, hlater⟩ := ih htokens
              exact ⟨q, q', .step hstep hearlier, hfound, hlater⟩

/-- The scan of a source text has found the tokens in `earlier` when it comes to `token`, which has
the text `before` in front of its first character. -/
def Stands (source : List CodePoint) (earlier : List Token) (token : Token)
    (before : List CodePoint) : Prop :=
  ∃ p q, Run (.start source) earlier p ∧ Step p (some token) q ∧ source = before ++ p.text

theorem Stands.line {source : List CodePoint} {earlier : List Token} {token : Token}
    {before : List CodePoint} (h : Stands source earlier token before) :
    (∃ after, source = before ++ token.lexeme.spelled ++ after) ∧
      token.line + quotedEnds earlier = 1 + before.count (.char '\n') := by
  obtain ⟨p, q, hrun, hstep, hsource⟩ := h
  obtain ⟨passed, htext, hline⟩ := hrun.passes
  obtain ⟨front, hfront, hfound, -⟩ := hstep.passes
  obtain ⟨htoken, -, rfl⟩ := hfound token rfl
  have hbefore : before = passed := List.append_cancel_right (hsource.symm.trans htext)
  refine ⟨⟨q.text, by rw [hsource, hfront, List.append_assoc]⟩, ?_⟩
  rw [htoken, hbefore]
  exact hline

end Scan

theorem scan_respaced {source : List CodePoint} {scanned : Scan} (h : scan source = .ok scanned) :
    ∃ again, scan (spaced (scanned.tokens.map Token.lexeme)) = .ok again ∧
      again.tokens.map Token.lexeme = scanned.tokens.map Token.lexeme := by
  obtain ⟨q, hrun, -⟩ := Scan.scan_eq_ok_iff.1 h
  refine ⟨_, scan_spaced fun l hl => ?_, ?_⟩
  · obtain ⟨t, ht, rfl⟩ := List.mem_map.1 hl
    exact hrun.isSpelled t ht
  · simp

theorem scan_respaced_signs : ∃ scanned again,
    scan "(x -1)--2/**/-'''" = .ok scanned ∧
    spaced (scanned.tokens.map Token.lexeme) = "( x -1 ) - -2 - '''" ∧
    scan (spaced (scanned.tokens.map Token.lexeme)) = .ok again ∧
    again.tokens.map Token.lexeme = scanned.tokens.map Token.lexeme := by
  have hscan : scan "(x -1)--2/**/-'''" = .ok ⟨[⟨.symbol .parenOpen, 1⟩, ⟨.word "x", 1⟩,
      ⟨.number "-1", 1⟩, ⟨.symbol .parenClose, 1⟩, ⟨.symbol .minus, 1⟩, ⟨.number "-2", 1⟩,
      ⟨.symbol .minus, 1⟩, ⟨.character '\'', 1⟩], 1⟩ := by
    cbv
  obtain ⟨again, hagain, hsame⟩ := scan_respaced hscan
  exact ⟨_, again, hscan, by decide +kernel, hagain, hsame⟩

open Scan in
theorem token_lines {source : List CodePoint} {scanned : Scan} (h : scan source = .ok scanned) :
    (∀ earlier token later, scanned.tokens = earlier ++ token :: later →
      (∃ before, Stands source earlier token before) ∧
      ∀ before, Stands source earlier token before →
        (∃ after, source = before ++ token.lexeme.spelled ++ after) ∧
        token.line + quotedEnds earlier = 1 + before.count (.char '\n')) ∧
    scanned.lastLine + quotedEnds scanned.tokens = 1 + source.count (.char '\n') := by
  obtain ⟨q, hrun, hq, hline⟩ := scan_eq_ok_iff.1 h
  refine ⟨fun earlier token later htokens => ⟨?_, fun before hstands => hstands.line⟩, ?_⟩
  · obtain ⟨p, p', hearlier, hfound, -⟩ := hrun.split htokens
    obtain ⟨before, htext, -⟩ := hearlier.passes
    exact ⟨before, p, p', hearlier, hfound, htext⟩
  · obtain ⟨passed, htext, hcount⟩ := hrun.passes
    rw [hq, List.append_nil] at htext
    rw [← hline, hcount, ← htext]
    rfl

open Scan in
theorem token_lines_mixed :
    scan "a /*\n*/ '\n' // -\n b" =
      .ok ⟨[⟨.word "a", 1⟩, ⟨.character '\n', 2⟩, ⟨.word "b", 3⟩], 3⟩ ∧
    (∃ before, Stands "a /*\n*/ '\n' // -\n b" [⟨.word "a", 1⟩, ⟨.character '\n', 2⟩]
      ⟨.word "b", 3⟩ before ∧ 3 + 1 = 1 + before.count (.char '\n')) ∧
    3 + 1 = 1 + (Text.ofString "a /*\n*/ '\n' // -\n b").count (.char '\n') := by
  have hscan : scan "a /*\n*/ '\n' // -\n b" =
      .ok ⟨[⟨.word "a", 1⟩, ⟨.character '\n', 2⟩, ⟨.word "b", 3⟩], 3⟩ := by
    cbv
  obtain ⟨htokens, hend⟩ := token_lines hscan
  obtain ⟨⟨before, hstands⟩, hline⟩ := htokens [⟨.word "a", 1⟩, ⟨.character '\n', 2⟩] _ [] rfl
  exact ⟨hscan, ⟨before, hstands, (hline before hstands).2⟩, hend⟩

open Scan in
theorem token_line_short :
    scan "'\n' x" = .ok ⟨[⟨.character '\n', 1⟩, ⟨.word "x", 1⟩], 1⟩ ∧
    Stands "'\n' x" [⟨.character '\n', 1⟩] ⟨.word "x", 1⟩ "'\n' " ∧
    1 + (Text.ofString "'\n' ").count (.char '\n') = 2 ∧
    1 + (Text.ofString "'\n' x").count (.char '\n') = 2 := by
  have hquoted : Step (.start "'\n' x") (some ⟨.character '\n', 1⟩)
      ⟨true, true, 1, " x"⟩ := .lexeme rfl (by decide) rfl
  have hblank : Step ⟨true, true, 1, " x"⟩ none ⟨false, true, 1, "x"⟩ :=
    .blank rfl (by decide)
  have hword : Step ⟨false, true, 1, "x"⟩ (some ⟨.word "x", 1⟩) ⟨true, true, 1, []⟩ :=
    .lexeme rfl (by decide) rfl
  exact ⟨by cbv, ⟨_, _, .step hquoted (.step hblank .refl), hword, by decide⟩, by decide,
    by decide⟩

end TapeCompiler
