import TapeCompiler.Proofs.Code
import TapeCompiler.Proofs.Execution

namespace TapeCompiler

variable {s : Setting}

def Fits (Q : World s.bits → State s.bits → Prop) : Ending s.bits → Outcome s.bits → Prop
  | .done w, .done σ => Q w σ
  | .failed f w, .failed g σ => f = g ∧ w.printed = σ.printed
  | _, _ => False

namespace Fits

variable {Q R : World s.bits → State s.bits → Prop} {w : World s.bits} {e : Ending s.bits}
  {o : Outcome s.bits}

theorem done_left (h : Fits Q (.done w) o) : ∃ σ, o = .done σ ∧ Q w σ := by
  cases o with
  | done σ => exact ⟨σ, rfl, h⟩
  | failed f σ => cases h
  | unbound => cases h

theorem done_right {σ : State s.bits} (h : Fits Q e (.done σ)) : ∃ w, e = .done w ∧ Q w σ := by
  cases e with
  | done w => exact ⟨w, rfl, h⟩
  | failed f w => cases h

theorem failed_left {f : MachineFault} (h : Fits Q (.failed f w) o) : o.Stops ∧ Fits R (.failed f w) o := by
  cases o with
  | done σ => cases h
  | failed f σ => exact ⟨Outcome.stops_failed f σ, h⟩
  | unbound => cases h

theorem stops (h : Fits Q e o) (ho : o.Stops) : ∃ f w, e = .failed f w ∧ Fits R (.failed f w) o := by
  cases e with
  | done w =>
      obtain ⟨σ, rfl, -⟩ := h.done_left
      exact absurd ho Outcome.not_stops
  | failed f w => exact ⟨f, w, rfl, h.failed_left.2⟩

theorem mono (h : Fits Q e o) (hQ : ∀ {w σ}, Q w σ → R w σ) : Fits R e o := by
  cases e with
  | done w =>
      obtain ⟨σ, rfl, hw⟩ := h.done_left
      exact hQ hw
  | failed f w => exact h.failed_left.2

end Fits

structure Agree (k : Code) (nodes : List Node) (w : World s.bits) (σ : State s.bits)
    (Q : World s.bits → State s.bits → Prop) : Prop where
  runs : ∀ {e}, Runs s k w e → ∃ o, Exec s nodes σ o ∧ Fits Q e o
  exec : ∀ {o}, Exec s nodes σ o → ∃ e, Runs s k w e ∧ Fits Q e o

namespace Agree

variable {k l : Code} {node test : Node} {nodes rest body : List Node} {w w' : World s.bits}
  {σ : State s.bits} {Q R : World s.bits → State s.bits → Prop} {line : Int}

theorem of_runs {e : Ending s.bits} {o : Outcome s.bits} (h : Runs s k w e)
    (h' : Exec s nodes σ o) (hfits : Fits Q e o) : Agree k nodes w σ Q := by
  refine ⟨fun hrun => ⟨o, h', ?_⟩, fun hexec => ⟨e, h, ?_⟩⟩
  · rwa [← h.deterministic hrun]
  · rwa [← h'.deterministic hexec]

theorem mono (h : Agree k nodes w σ Q) (hQ : ∀ {w σ}, Q w σ → R w σ) : Agree k nodes w σ R := by
  refine ⟨fun hrun => ?_, fun hexec => ?_⟩
  · obtain ⟨o, ho, hfits⟩ := h.runs hrun
    exact ⟨o, ho, hfits.mono hQ⟩
  · obtain ⟨e, he, hfits⟩ := h.exec hexec
    exact ⟨e, he, hfits.mono hQ⟩

theorem congr {nodes' : List Node} (hiff : ∀ {o}, Exec s nodes' σ o ↔ Exec s nodes σ o)
    (h : Agree k nodes w σ Q) : Agree k nodes' w σ Q := by
  refine ⟨fun hrun => ?_, fun hexec => h.exec (hiff.1 hexec)⟩
  obtain ⟨o, ho, hfits⟩ := h.runs hrun
  exact ⟨o, hiff.2 ho, hfits⟩

theorem tell (h : Agree k nodes w σ Q) :
    Agree k nodes w σ fun w' σ' => Runs s k w (.done w') ∧ Q w' σ' := by
  have hfits {e : Ending s.bits} {o : Outcome s.bits} (he : Runs s k w e) (h : Fits Q e o) :
      Fits (fun w' σ' => Runs s k w (.done w') ∧ Q w' σ') e o := by
    cases e with
    | done w' =>
        obtain ⟨σ', rfl, hQ⟩ := h.done_left
        exact ⟨he, hQ⟩
    | failed f w' => exact h.failed_left.2
  refine ⟨fun hrun => ?_, fun hexec => ?_⟩
  · obtain ⟨o, ho, h⟩ := h.runs hrun
    exact ⟨o, ho, hfits hrun h⟩
  · obtain ⟨e, he, h⟩ := h.exec hexec
    exact ⟨e, he, hfits he h⟩

theorem before (hk : Runs s k w (.done w')) (h : Agree l nodes w' σ Q) :
    Agree (k ++ l) nodes w σ Q := by
  refine ⟨fun hrun => ?_, fun hexec => ?_⟩
  · rcases Runs.append_iff.1 hrun with ⟨v, hv, hl⟩ | ⟨f, v, rfl, hv⟩
    · cases hk.deterministic hv
      exact h.runs hl
    · cases hk.deterministic hv
  · obtain ⟨e, he, hfits⟩ := h.exec hexec
    exact ⟨e, hk.append he, hfits⟩

theorem after (h : Agree k nodes w σ Q)
    (hl : ∀ {w' σ'}, Q w' σ' → ∃ w'', Runs s l w' (.done w'') ∧ R w'' σ') :
    Agree (k ++ l) nodes w σ R := by
  refine ⟨fun hrun => ?_, fun hexec => ?_⟩
  · rcases Runs.append_iff.1 hrun with ⟨v, hv, hrest⟩ | ⟨f, v, rfl, hv⟩
    · obtain ⟨o, ho, hfits⟩ := h.runs hv
      obtain ⟨σ', rfl, hQ⟩ := hfits.done_left
      obtain ⟨w'', hw'', hR⟩ := hl hQ
      cases hw''.deterministic hrest
      exact ⟨_, ho, hR⟩
    · obtain ⟨o, ho, hfits⟩ := h.runs hv
      exact ⟨o, ho, hfits.failed_left.2⟩
  · obtain ⟨e, he, hfits⟩ := h.exec hexec
    cases e with
    | done w' =>
        obtain ⟨σ', rfl, hQ⟩ := hfits.done_left
        obtain ⟨w'', hw'', hR⟩ := hl hQ
        exact ⟨_, he.append hw'', hR⟩
    | failed f w' => exact ⟨_, he.append_failed l, hfits.failed_left.2⟩

theorem cons (h : Agree k [node] w σ Q)
    (hrest : ∀ {w' σ'}, Q w' σ' → Agree l rest w' σ' R) : Agree (k ++ l) (node :: rest) w σ R := by
  refine ⟨fun hrun => ?_, fun hexec => ?_⟩
  · rcases Runs.append_iff.1 hrun with ⟨v, hv, hl⟩ | ⟨f, v, rfl, hv⟩
    · obtain ⟨o, ho, hfits⟩ := h.runs hv
      obtain ⟨σ', rfl, hQ⟩ := hfits.done_left
      obtain ⟨o, ho', hfits'⟩ := (hrest hQ).runs hl
      exact ⟨o, ho.append ho', hfits'⟩
    · obtain ⟨o, ho, hfits⟩ := h.runs hv
      obtain ⟨hstops, hfits⟩ := hfits.failed_left
      exact ⟨o, ho.append_stops rest hstops, hfits⟩
  · rcases hexec.cons_inv with ⟨σ', hnode, hexec⟩ | ⟨hnode, ho⟩
    · obtain ⟨e, he, hfits⟩ := h.exec hnode
      obtain ⟨w', rfl, hQ⟩ := hfits.done_right
      obtain ⟨e, he', hfits'⟩ := (hrest hQ).exec hexec
      exact ⟨e, he.append he', hfits'⟩
    · obtain ⟨e, he, hfits⟩ := h.exec hnode
      obtain ⟨f, w', rfl, hfits⟩ := hfits.stops ho
      exact ⟨_, he.append_failed l, hfits⟩

theorem conditional (hv : σ.env.value test = some w.read) (hzero : w.read = 0 → R w σ)
    (hbody : w.read ≠ 0 → Agree k body w σ Q)
    (hclose : ∀ {w' σ'}, Q w' σ' → w'.read = 0 ∧ ∃ σ'', σ'.close test = .done σ'' ∧ R w' σ'') :
    Agree (.loop k .done) [.conditional line test body] w σ R := by
  by_cases h0 : w.read = 0
  · exact of_runs (.loop_end h0 .done) (.if_zero (by rw [hv, h0]) .nil) (hzero h0)
  · refine ⟨fun hrun => ?_, fun hexec => ?_⟩
    · cases hrun with
      | loop_end h0' => exact absurd h0' h0
      | loop_step _ hb hrest =>
          obtain ⟨o, ho, hfits⟩ := (hbody h0).runs hb
          obtain ⟨σ', rfl, hQ⟩ := hfits.done_left
          obtain ⟨hread, σ'', hσ, hR⟩ := hclose hQ
          cases hrest.deterministic (.loop_end hread .done)
          exact ⟨_, .if_run hv h0 ho hσ .nil, hR⟩
      | loop_failed _ hb =>
          obtain ⟨o, ho, hfits⟩ := (hbody h0).runs hb
          obtain ⟨hstops, hfits⟩ := hfits.failed_left
          exact ⟨o, .if_stops hv h0 ho hstops, hfits⟩
    · rcases hexec.if_inv hv h0 with ⟨σ₁, hb, hend⟩ | ⟨hb, ho⟩
      · obtain ⟨e, he, hfits⟩ := (hbody h0).exec hb
        obtain ⟨w', rfl, hQ⟩ := hfits.done_right
        obtain ⟨hread, σ'', hσ, hR⟩ := hclose hQ
        refine ⟨_, .loop_step h0 he (.loop_end hread .done), ?_⟩
        rcases hend with ⟨σ₂, hσ', hnil⟩ | ⟨hσ', ho⟩
        · cases hσ.symm.trans hσ'
          cases hnil
          exact hR
        · exact absurd (hσ'.symm.trans hσ) (ho _)
      · obtain ⟨e, he, hfits⟩ := (hbody h0).exec hb
        obtain ⟨f, w', rfl, hfits⟩ := hfits.stops ho
        exact ⟨_, .loop_failed h0 he, hfits⟩

theorem loop (hv : ∀ {w σ}, Q w σ → σ.env.value test = some w.read ∧ test.settled w.read = test)
    (hbody : ∀ {w σ}, Q w σ → w.read ≠ 0 → Agree k body w σ Q) (h : Q w σ) :
    Agree (.loop k .done) [.loop line test body] w σ Q := by
  constructor
  · intro e hrun
    induction hrun using Runs.loop_rounds generalizing σ with
    | stop h0 => exact ⟨_, .loop_zero (by rw [(hv h).1, h0]) .nil, h⟩
    | round h0 hb _ ih =>
        obtain ⟨o, ho, hfits⟩ := (hbody h h0).runs hb
        obtain ⟨σ', rfl, hQ⟩ := hfits.done_left
        obtain ⟨o, ho', hfits'⟩ := ih hQ
        exact ⟨o, .loop_run (hv h).1 h0 ho (by rwa [(hv h).2]), hfits'⟩
    | failed h0 hb =>
        obtain ⟨o, ho, hfits⟩ := (hbody h h0).runs hb
        obtain ⟨hstops, hfits⟩ := hfits.failed_left
        exact ⟨o, .loop_stops (hv h).1 h0 ho hstops, hfits⟩
  · intro o hexec
    generalize hnodes : [Node.loop line test body] = nodes at hexec
    induction hexec generalizing w with
    | nil => cases hnodes
    | simple hnode =>
        cases hnodes
        cases hnode
    | simple_stops hnode =>
        cases hnodes
        cases hnode
    | if_zero => cases hnodes
    | if_run => cases hnodes
    | if_stops => cases hnodes
    | if_close => cases hnodes
    | if_unbound => cases hnodes
    | loop_zero hzero hrest =>
        cases hnodes
        cases hrest
        have h0 : w.read = 0 := Option.some.inj ((hv h).1.symm.trans hzero)
        exact ⟨_, .loop_end h0 .done, h⟩
    | loop_run hvalue hne hb _ _ ih =>
        cases hnodes
        cases (hv h).1.symm.trans hvalue
        obtain ⟨e, he, hfits⟩ := (hbody h hne).exec hb
        obtain ⟨w', rfl, hQ⟩ := hfits.done_right
        obtain ⟨e, he', hfits'⟩ := ih hQ (by rw [(hv h).2])
        exact ⟨e, .loop_step hne he he', hfits'⟩
    | loop_stops hvalue hne hb ho =>
        cases hnodes
        cases (hv h).1.symm.trans hvalue
        obtain ⟨e, he, hfits⟩ := (hbody h hne).exec hb
        obtain ⟨f, w', rfl, hfits⟩ := hfits.stops ho
        exact ⟨_, .loop_failed hne he, hfits⟩
    | loop_unbound hvalue =>
        cases hnodes
        cases (hv h).1.symm.trans hvalue

end Agree

end TapeCompiler
