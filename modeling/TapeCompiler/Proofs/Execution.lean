import TapeCompiler.Proofs.Reference

namespace TapeCompiler

theorem Outcome.not_stops {bits : Nat} {σ : State bits} : ¬(Outcome.done σ).Stops :=
  fun h => h σ rfl

@[simp] theorem Outcome.stops_failed {bits : Nat} (f : MachineFault) (σ : State bits) :
    (Outcome.failed f σ).Stops := by
  intro σ' h
  cases h

@[simp] theorem Outcome.stops_unbound {bits : Nat} : (Outcome.unbound : Outcome bits).Stops := by
  intro σ' h
  cases h

namespace Exec

variable {s : Setting} {node test : Node} {body rest : List Node} {σ : State s.bits}
  {o : Outcome s.bits} {line : Int} {v : BitVec s.bits}

theorem simple_inv (h : Exec s (node :: rest) σ o) (hnode : node.isCompound = false) :
    (∃ σ', σ.perform s node = .done σ' ∧ Exec s rest σ' o) ∨ σ.perform s node = o ∧ o.Stops := by
  cases h with
  | simple _ hp h => exact .inl ⟨_, hp, h⟩
  | simple_stops _ hp ho => exact .inr ⟨hp, ho⟩
  | if_zero => cases hnode
  | if_run => cases hnode
  | if_stops => cases hnode
  | if_close => cases hnode
  | if_unbound => cases hnode
  | loop_zero => cases hnode
  | loop_run => cases hnode
  | loop_stops => cases hnode
  | loop_unbound => cases hnode

theorem if_zero_inv (h : Exec s (.conditional line test body :: rest) σ o)
    (hv : σ.env.value test = some 0) : Exec s rest σ o := by
  cases h with
  | simple hnode => cases hnode
  | simple_stops hnode => cases hnode
  | if_zero _ h => exact h
  | if_run hv' hne => exact absurd (Option.some.inj (hv'.symm.trans hv)) hne
  | if_stops hv' hne => exact absurd (Option.some.inj (hv'.symm.trans hv)) hne
  | if_close hv' hne => exact absurd (Option.some.inj (hv'.symm.trans hv)) hne
  | if_unbound hv' => cases hv'.symm.trans hv

theorem if_inv (h : Exec s (.conditional line test body :: rest) σ o)
    (hv : σ.env.value test = some v) (hne : v ≠ 0) :
    (∃ σ₁, Exec s body σ (.done σ₁) ∧ ((∃ σ₂, σ₁.close test = .done σ₂ ∧ Exec s rest σ₂ o) ∨
      σ₁.close test = o ∧ o.Stops)) ∨ Exec s body σ o ∧ o.Stops := by
  cases h with
  | simple hnode => cases hnode
  | simple_stops hnode => cases hnode
  | if_zero hv' => exact absurd (Option.some.inj (hv.symm.trans hv')) hne
  | if_run _ _ hbody hclose h => exact .inl ⟨_, hbody, .inl ⟨_, hclose, h⟩⟩
  | if_stops _ _ hbody ho => exact .inr ⟨hbody, ho⟩
  | if_close _ _ hbody hclose ho => exact .inl ⟨_, hbody, .inr ⟨hclose, ho⟩⟩
  | if_unbound hv' => cases hv'.symm.trans hv

theorem if_unbound_inv (h : Exec s (.conditional line test body :: rest) σ o)
    (hv : σ.env.value test = none) : o = .unbound := by
  cases h with
  | simple hnode => cases hnode
  | simple_stops hnode => cases hnode
  | if_zero hv' => cases hv'.symm.trans hv
  | if_run hv' => cases hv'.symm.trans hv
  | if_stops hv' => cases hv'.symm.trans hv
  | if_close hv' => cases hv'.symm.trans hv
  | if_unbound => rfl

theorem loop_zero_inv (h : Exec s (.loop line test body :: rest) σ o)
    (hv : σ.env.value test = some 0) : Exec s rest σ o := by
  cases h with
  | simple hnode => cases hnode
  | simple_stops hnode => cases hnode
  | loop_zero _ h => exact h
  | loop_run hv' hne => exact absurd (Option.some.inj (hv'.symm.trans hv)) hne
  | loop_stops hv' hne => exact absurd (Option.some.inj (hv'.symm.trans hv)) hne
  | loop_unbound hv' => cases hv'.symm.trans hv

theorem loop_inv (h : Exec s (.loop line test body :: rest) σ o)
    (hv : σ.env.value test = some v) (hne : v ≠ 0) :
    (∃ σ', Exec s body σ (.done σ') ∧ Exec s (.loop line (test.settled v) body :: rest) σ' o) ∨
      Exec s body σ o ∧ o.Stops := by
  cases h with
  | simple hnode => cases hnode
  | simple_stops hnode => cases hnode
  | loop_zero hv' => exact absurd (Option.some.inj (hv.symm.trans hv')) hne
  | loop_run hv' _ hbody h =>
      cases hv.symm.trans hv'
      exact .inl ⟨_, hbody, h⟩
  | loop_stops _ _ hbody ho => exact .inr ⟨hbody, ho⟩
  | loop_unbound hv' => cases hv'.symm.trans hv

theorem loop_unbound_inv (h : Exec s (.loop line test body :: rest) σ o)
    (hv : σ.env.value test = none) : o = .unbound := by
  cases h with
  | simple hnode => cases hnode
  | simple_stops hnode => cases hnode
  | loop_zero hv' => cases hv'.symm.trans hv
  | loop_run hv' => cases hv'.symm.trans hv
  | loop_stops hv' => cases hv'.symm.trans hv
  | loop_unbound => rfl

theorem deterministic {nodes : List Node} {o' : Outcome s.bits} (h : Exec s nodes σ o)
    (h' : Exec s nodes σ o') : o = o' := by
  induction h generalizing o' with
  | nil =>
      cases h'
      rfl
  | simple hnode hp _ ih =>
      rcases h'.simple_inv hnode with ⟨σ', hp', h'⟩ | ⟨hp', ho⟩
      · cases hp.symm.trans hp'
        exact ih h'
      · exact absurd (hp'.symm.trans hp) (ho _)
  | simple_stops hnode hp ho =>
      rcases h'.simple_inv hnode with ⟨σ', hp', h'⟩ | ⟨hp', -⟩
      · exact absurd (hp.symm.trans hp') (ho _)
      · exact hp.symm.trans hp'
  | if_zero hv _ ih => exact ih (h'.if_zero_inv hv)
  | if_run hv hne _ hclose _ ihbody ih =>
      rcases h'.if_inv hv hne with ⟨σ₁, hbody', ⟨σ₂, hclose', h'⟩ | ⟨hclose', ho⟩⟩ | ⟨hbody', ho⟩
      · cases ihbody hbody'
        cases hclose.symm.trans hclose'
        exact ih h'
      · cases ihbody hbody'
        exact absurd (hclose'.symm.trans hclose) (ho _)
      · exact absurd (ihbody hbody').symm (ho _)
  | if_stops hv hne _ ho ihbody =>
      rcases h'.if_inv hv hne with ⟨σ₁, hbody', -⟩ | ⟨hbody', -⟩
      · exact absurd (ihbody hbody') (ho _)
      · exact ihbody hbody'
  | if_close hv hne _ hclose ho ihbody =>
      rcases h'.if_inv hv hne with ⟨σ₁, hbody', ⟨σ₂, hclose', -⟩ | ⟨hclose', -⟩⟩ | ⟨hbody', ho'⟩
      · cases ihbody hbody'
        exact absurd (hclose.symm.trans hclose') (ho _)
      · cases ihbody hbody'
        exact hclose.symm.trans hclose'
      · exact absurd (ihbody hbody').symm (ho' _)
  | if_unbound hv => exact (h'.if_unbound_inv hv).symm
  | loop_zero hv _ ih => exact ih (h'.loop_zero_inv hv)
  | loop_run hv hne _ _ ihbody ih =>
      rcases h'.loop_inv hv hne with ⟨σ', hbody', h'⟩ | ⟨hbody', ho⟩
      · cases ihbody hbody'
        exact ih h'
      · exact absurd (ihbody hbody').symm (ho _)
  | loop_stops hv hne _ ho ihbody =>
      rcases h'.loop_inv hv hne with ⟨σ', hbody', -⟩ | ⟨hbody', -⟩
      · exact absurd (ihbody hbody') (ho _)
      · exact ihbody hbody'
  | loop_unbound hv => exact (h'.loop_unbound_inv hv).symm

theorem append {nodes : List Node} {σ' : State s.bits} (h : Exec s nodes σ (.done σ'))
    (h' : Exec s rest σ' o) : Exec s (nodes ++ rest) σ o := by
  generalize hd : Outcome.done σ' = d at h
  induction h with
  | nil =>
      cases hd
      exact h'
  | simple hnode hp _ ih => exact .simple hnode hp (ih hd)
  | simple_stops _ _ ho => exact absurd hd.symm (ho _)
  | if_zero hv _ ih => exact .if_zero hv (ih hd)
  | if_run hv hne hbody hclose _ _ ih => exact .if_run hv hne hbody hclose (ih hd)
  | if_stops _ _ _ ho => exact absurd hd.symm (ho _)
  | if_close _ _ _ _ ho => exact absurd hd.symm (ho _)
  | if_unbound => cases hd
  | loop_zero hv _ ih => exact .loop_zero hv (ih hd)
  | loop_run hv hne hbody _ _ ih => exact .loop_run hv hne hbody (ih hd)
  | loop_stops _ _ _ ho => exact absurd hd.symm (ho _)
  | loop_unbound => cases hd

theorem append_stops {nodes : List Node} (rest : List Node) (h : Exec s nodes σ o)
    (ho : o.Stops) : Exec s (nodes ++ rest) σ o := by
  induction h with
  | nil => exact absurd ho Outcome.not_stops
  | simple hnode hp _ ih => exact .simple hnode hp (ih ho)
  | simple_stops hnode hp _ => exact .simple_stops hnode hp ho
  | if_zero hv _ ih => exact .if_zero hv (ih ho)
  | if_run hv hne hbody hclose _ _ ih => exact .if_run hv hne hbody hclose (ih ho)
  | if_stops hv hne hbody _ => exact .if_stops hv hne hbody ho
  | if_close hv hne hbody hclose _ => exact .if_close hv hne hbody hclose ho
  | if_unbound hv => exact .if_unbound hv
  | loop_zero hv _ ih => exact .loop_zero hv (ih ho)
  | loop_run hv hne hbody _ _ ih => exact .loop_run hv hne hbody (ih ho)
  | loop_stops hv hne hbody _ => exact .loop_stops hv hne hbody ho
  | loop_unbound hv => exact .loop_unbound hv

theorem cons_inv (h : Exec s (node :: rest) σ o) :
    (∃ σ', Exec s [node] σ (.done σ') ∧ Exec s rest σ' o) ∨ Exec s [node] σ o ∧ o.Stops := by
  generalize hall : node :: rest = all at h
  induction h generalizing node with
  | nil => cases hall
  | simple hnode hp h =>
      cases hall
      exact .inl ⟨_, .simple hnode hp .nil, h⟩
  | simple_stops hnode hp ho =>
      cases hall
      exact .inr ⟨.simple_stops hnode hp ho, ho⟩
  | if_zero hv h =>
      cases hall
      exact .inl ⟨_, .if_zero hv .nil, h⟩
  | if_run hv hne hbody hclose h =>
      cases hall
      exact .inl ⟨_, .if_run hv hne hbody hclose .nil, h⟩
  | if_stops hv hne hbody ho =>
      cases hall
      exact .inr ⟨.if_stops hv hne hbody ho, ho⟩
  | if_close hv hne hbody hclose ho =>
      cases hall
      exact .inr ⟨.if_close hv hne hbody hclose ho, ho⟩
  | if_unbound hv =>
      cases hall
      exact .inr ⟨.if_unbound hv, Outcome.stops_unbound⟩
  | loop_zero hv h =>
      cases hall
      exact .inl ⟨_, .loop_zero hv .nil, h⟩
  | loop_run hv hne hbody _ _ ih =>
      cases hall
      rcases ih rfl with ⟨σ', hloop, h⟩ | ⟨hloop, ho⟩
      · exact .inl ⟨σ', .loop_run hv hne hbody hloop, h⟩
      · exact .inr ⟨.loop_run hv hne hbody hloop, ho⟩
  | loop_stops hv hne hbody ho =>
      cases hall
      exact .inr ⟨.loop_stops hv hne hbody ho, ho⟩
  | loop_unbound hv =>
      cases hall
      exact .inr ⟨.loop_unbound hv, Outcome.stops_unbound⟩

end Exec

theorem Node.settled_settled {bits : Nat} (test : Node) (v : BitVec bits) :
    (test.settled v).settled v = test.settled v := by
  unfold settled
  cases h : test.place? with
  | none => rfl
  | some place => simp only [h]

theorem Env.value_settled {bits : Nat} {env : Env bits} {test : Node} {v : BitVec bits}
    (h : env.value test = some v) : env.value (test.settled v) = some v := by
  unfold Node.settled
  cases test.place? with
  | none => simp [Env.value]
  | some place => exact h

theorem Exec.loop_settled_iff {s : Setting} {test : Node} {body rest : List Node}
    {σ : State s.bits} {o : Outcome s.bits} {line : Int} {v : BitVec s.bits}
    (hv : σ.env.value test = some v) :
    Exec s (.loop line test body :: rest) σ o ↔
      Exec s (.loop line (test.settled v) body :: rest) σ o := by
  have hsettled := Env.value_settled hv
  by_cases hne : v = 0
  · subst hne
    exact ⟨fun h => .loop_zero hsettled (h.loop_zero_inv hv),
      fun h => .loop_zero hv (h.loop_zero_inv hsettled)⟩
  · constructor
    · intro h
      rcases h.loop_inv hv hne with ⟨σ', hbody, h⟩ | ⟨hbody, ho⟩
      · exact .loop_run hsettled hne hbody (by rwa [Node.settled_settled])
      · exact .loop_stops hsettled hne hbody ho
    · intro h
      rcases h.loop_inv hsettled hne with ⟨σ', hbody, h⟩ | ⟨hbody, ho⟩
      · exact .loop_run hv hne hbody (by rwa [Node.settled_settled] at h)
      · exact .loop_stops hv hne hbody ho

end TapeCompiler
