import TapeCompiler.Proofs.Continuation
import TapeCompiler.Proofs.Scanning

set_option maxRecDepth 2000

namespace TapeCompiler

namespace Scan

variable {subtracts glued value : Bool} {line ends lines : Nat} {c : CodePoint} {l : Lexeme}
  {cs rest after : List CodePoint} (more : List CodePoint)

section

variable {p : CodePoint → Bool}

theorem takeWhile_join (hp : p '\n' = false) (cs : List CodePoint) :
    (cs ++ .char '\n' :: more).takeWhile p = cs.takeWhile p := by
  induction cs with
  | nil => simp [hp]
  | cons c cs ih => cases hc : p c <;> simp [hc, ih]

theorem dropWhile_join (hp : p '\n' = false) (cs : List CodePoint) :
    (cs ++ .char '\n' :: more).dropWhile p = cs.dropWhile p ++ .char '\n' :: more := by
  induction cs with
  | nil => simp [hp]
  | cons c cs ih => cases hc : p c <;> simp [hc, ih]

end

theorem closeComment_append (h : closeComment cs = some (ends, after)) (tail : List CodePoint) :
    closeComment (cs ++ tail) = some (ends, after ++ tail) := by
  fun_induction closeComment cs generalizing ends after with
  | case1 => cases h
  | case2 rest =>
      cases h
      rfl
  | case3 c rest hother ih =>
      obtain ⟨⟨n, r⟩, hr, h⟩ := Option.map_eq_some_iff.1 h
      cases h
      rw [List.cons_append, closeComment, ih hr]
      · rfl
      · intro rest' hc hrest
        cases rest with
        | nil => cases hr
        | cons d rest =>
            cases hrest
            exact hother rest hc rfl

theorem startsNumber_join (subtracts : Bool) (c : CodePoint) (rest : List CodePoint) :
    startsNumber subtracts c (rest ++ .char '\n' :: more) = startsNumber subtracts c rest := by
  cases rest with
  | nil =>
      have hdigit : Text.isDigit '\n' = false := rfl
      simp [startsNumber, hdigit]
  | cons d rest => rfl

theorem ofPair?_join (h : rest.head?.bind (Symbol.ofPair? c) = none) :
    (rest ++ .char '\n' :: more).head?.bind (Symbol.ofPair? c) = none := by
  cases rest with
  | nil =>
      change Symbol.ofPair? c (.char '\n') = none
      unfold Symbol.ofPair?
      split <;> first | rfl | contradiction
  | cons d rest => exact h

theorem Lexed.join (h : Lexed subtracts c rest l after) :
    Lexed subtracts c (rest ++ .char '\n' :: more) l (after ++ .char '\n' :: more) := by
  cases h with
  | word hstart =>
      rw [← takeWhile_join more rfl, ← dropWhile_join more rfl]
      exact .word hstart
  | number hstart hnumber =>
      rw [← takeWhile_join more rfl, ← dropWhile_join more rfl]
      exact .number hstart ((startsNumber_join more subtracts c rest).trans hnumber)
  | character hquote => exact .character hquote
  | pair hsymbol => exact .pair hsymbol
  | single hnumber hpair hsymbol =>
      exact .single ((startsNumber_join more subtracts c rest).trans hnumber)
        (ofPair?_join more hpair) hsymbol

theorem startsNumber_anywhere (h : startsNumber false c rest = false) :
    startsNumber subtracts c rest = false := by
  cases subtracts with
  | false => exact h
  | true =>
      simp only [startsNumber, Bool.or_eq_false_iff] at h
      simp [startsNumber, h.1]

theorem Lexed.anywhere (h : Lexed false c rest l after) (hl : ∀ text, l ≠ .number text) :
    Lexed subtracts c rest l after := by
  cases h with
  | word hstart => exact .word hstart
  | number hstart hnumber => exact absurd rfl (hl _)
  | character hquote => exact .character hquote
  | pair hsymbol => exact .pair hsymbol
  | single hnumber hpair hsymbol => exact .single (startsNumber_anywhere hnumber) hpair hsymbol

namespace Cursor

def joined (more : List CodePoint) (p : Cursor) : Cursor :=
  { p with text := p.text ++ .char '\n' :: more }

def lowered (lines : Nat) (p : Cursor) : Cursor := { p with line := p.line + lines }

end Cursor

variable {p q : Cursor} {token : Option Token} {tokens : List Token}

theorem Step.join (h : Step p token q) : Step (p.joined more) token (q.joined more) := by
  cases h with
  | lineEnd => exact .lineEnd
  | blank hblank hc => exact .blank hblank hc
  | @lineComment glued value line rest =>
      have hrest := dropWhile_join (p := (· != .char '\n')) more rfl rest
      unfold Cursor.joined
      rw [← hrest]
      exact .lineComment
  | blockComment hclose => exact .blockComment (closeComment_append hclose _)
  | @lexeme glued value line c rest after l hblank hcomment hlexeme =>
      refine .lexeme hblank (fun hc => ?_) ((Lexed.of_lexeme hlexeme).join more).lexeme
      cases rest with
      | nil => exact ⟨by simp, by simp⟩
      | cons d rest => exact hcomment hc

theorem Run.join (h : Run p tokens q) : Run (p.joined more) tokens (q.joined more) := by
  induction h with
  | refl => exact .refl
  | step hstep _ ih => exact .step (hstep.join more) ih

theorem Step.lowered (h : Step p token q) (lines : Nat) :
    Step (p.lowered lines) (token.map (Token.relined (· + lines))) (q.lowered lines) := by
  cases h with
  | lineEnd =>
      unfold Cursor.lowered
      rw [Nat.add_right_comm]
      exact .lineEnd
  | blank hblank hc => exact .blank hblank hc
  | lineComment => exact .lineComment
  | blockComment hclose =>
      unfold Cursor.lowered
      rw [Nat.add_right_comm]
      exact .blockComment hclose
  | lexeme hblank hcomment hlexeme => exact .lexeme hblank hcomment hlexeme

theorem Run.lowered (h : Run p tokens q) (lines : Nat) :
    Run (p.lowered lines) (tokens.map (Token.relined (· + lines))) (q.lowered lines) := by
  induction h with
  | refl => exact .refl
  | step hstep _ ih =>
      rw [List.map_append, ← Option.toList_map]
      exact .step (hstep.lowered lines) ih

theorem Step.skip (h : Step p none q) (value : Bool) :
    Step { p with value } none { q with value } ∧ q.value = p.value := by
  cases h with
  | lineEnd => exact ⟨.lineEnd, rfl⟩
  | blank hblank hc => exact ⟨.blank hblank hc, rfl⟩
  | lineComment => exact ⟨.lineComment, rfl⟩
  | blockComment hclose => exact ⟨.blockComment hclose, rfl⟩

theorem Step.anywhere {t : Token} (h : Step p (some t) q) (hvalue : p.value = false)
    (ht : ∀ text, t.lexeme ≠ .number text) (value : Bool) :
    Step { p with value } (some t) q := by
  cases h with
  | lexeme hblank hcomment hlexeme =>
      dsimp only at hvalue
      rw [hvalue, Bool.and_false] at hlexeme
      exact .lexeme hblank hcomment ((Lexed.of_lexeme hlexeme).anywhere ht).lexeme

theorem Run.anywhere (h : Run p tokens q) (hvalue : p.value = false)
    (hfirst : ∀ t ∈ tokens.head?, ∀ text, t.lexeme ≠ .number text) (value : Bool) :
    ∃ r, Run { p with value } tokens r ∧ r.text = q.text ∧ r.line = q.line := by
  induction h with
  | refl => exact ⟨_, .refl, rfl, rfl⟩
  | @step p q r token tokens hstep hrun ih =>
      cases token with
      | none =>
          obtain ⟨hskip, hsame⟩ := hstep.skip value
          obtain ⟨r', hrun', hr'⟩ := ih (hsame.trans hvalue) hfirst
          exact ⟨r', .step hskip hrun', hr'⟩
      | some t => exact ⟨r, .step (hstep.anywhere hvalue (hfirst t rfl) value) hrun, rfl, rfl⟩

theorem Run.trans {r : Cursor} {tokens' : List Token} (h : Run p tokens q) (h' : Run q tokens' r) :
    Run p (tokens ++ tokens') r := by
  induction h with
  | refl => exact h'
  | step hstep _ ih =>
      rw [List.append_assoc]
      exact .step hstep (ih h')

theorem scan_join {s t : List CodePoint} {first second : Scan} (hs : scan s = .ok first)
    (ht : scan t = .ok second)
    (hstart : ∀ token ∈ second.tokens.head?, ∀ text, token.lexeme ≠ .number text) :
    scan (s ++ "\n" ++ t) = .ok
      ⟨first.tokens ++ second.tokens.map (Token.relined (· + first.lastLine)),
        second.lastLine + first.lastLine⟩ := by
  obtain ⟨p, hfirst, hp, hline⟩ := scan_eq_ok_iff.1 hs
  obtain ⟨q, hsecond, hq, hline'⟩ := scan_eq_ok_iff.1 ht
  obtain ⟨r, hthere, hr, hrline⟩ := hsecond.anywhere rfl hstart p.value
  have hseam : Step (p.joined t) none
      (Cursor.lowered first.lastLine { Cursor.start t with value := p.value }) := by
    unfold Cursor.joined Cursor.lowered
    rw [hp, ← hline, Nat.add_comm]
    exact .lineEnd
  refine scan_eq_ok_iff.2 ⟨r.lowered first.lastLine, ?_, ?_, ?_⟩
  · have hjoined : (Cursor.start s).joined t = .start (s ++ "\n" ++ t) := by
      simp only [Cursor.joined, Cursor.start, List.append_assoc]
      rfl
    rw [← hjoined]
    exact (hfirst.join t).trans (.step hseam (hthere.lowered first.lastLine))
  · exact hr.trans hq
  · exact congrArg (· + first.lastLine) (hrline.trans hline')

end Scan

theorem parse_ok {source : List CodePoint} {nodes : List Node} (h : parse source = .ok nodes) :
    ∃ scanned, scan source = .ok scanned ∧
      Parser.program scanned.lastLine scanned.tokens = .ok nodes := by
  unfold parse at h
  cases hscan : scan source with
  | error e =>
      rw [hscan] at h
      cases h
  | ok scanned =>
      rw [hscan] at h
      exact ⟨scanned, rfl, h⟩

theorem parse_join {s t : List CodePoint} {first second : List Node} (hs : parse s = .ok first)
    (ht : parse t = .ok second) : ∃ scanned, scan s = .ok scanned ∧
      parse (s ++ "\n" ++ t) = .ok (first ++ Node.relinedIn (· + scanned.lastLine) second) := by
  obtain ⟨scanned, hscan, hprogram⟩ := parse_ok hs
  obtain ⟨scanned', hscan', hprogram'⟩ := parse_ok ht
  have hfresh := Parser.fresh_of_program hprogram'
  have hjoined := Scan.scan_join hscan hscan' fun token htoken text heq => by
    have hstarts := hfresh token htoken
    rw [heq] at hstarts
    cases hstarts
  refine ⟨scanned, hscan, ?_⟩
  rw [parse, hjoined]
  exact Parser.program_append hprogram
    (Parser.program_relined _ (fun n => (Int.natCast_add n scanned.lastLine).symm) hprogram')

theorem parse_join_declaration :
    parse "show '\n'\n define x // 7" =
      .ok [.display 1 (.literal 10 true), .declare 2 "x" .number none] ∧
    parse "/**/$f\n unsafe 1 \x7b goto -1 \x7d" =
      .ok [.call 1 "f", .unsafeBlock 2 1 [.unsafeGoto 2 (-1)]] ∧
    parse (("show '\n'\n define x // 7" : List CodePoint) ++ "\n" ++
        "/**/$f\n unsafe 1 \x7b goto -1 \x7d") =
      .ok [.display 1 (.literal 10 true), .declare 2 "x" .number none, .call 3 "f",
        .unsafeBlock 4 1 [.unsafeGoto 4 (-1)]] := by
  have hs : parse "show '\n'\n define x // 7" =
      .ok [.display 1 (.literal 10 true), .declare 2 "x" .number none] := by cbv
  have ht : parse "/**/$f\n unsafe 1 \x7b goto -1 \x7d" =
      .ok [.call 1 "f", .unsafeBlock 2 1 [.unsafeGoto 2 (-1)]] := by cbv
  obtain ⟨scanned, hscan, hjoined⟩ := parse_join hs ht
  have hline : scan "show '\n'\n define x // 7" = .ok ⟨[⟨.word "show", 1⟩, ⟨.character '\n', 1⟩,
      ⟨.word "define", 2⟩, ⟨.word "x", 2⟩], 2⟩ := by cbv
  cases hscan.symm.trans hline
  exact ⟨hs, ht, hjoined⟩

end TapeCompiler
