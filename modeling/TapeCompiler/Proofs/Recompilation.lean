import TapeCompiler.Proofs.Lockstep

namespace TapeCompiler

open Compile Compilation

namespace Machine

def Halts (m : Machine) (code : String) (input : List CodePoint) (outcome : Outcome)
    (printed : Array Printed) : Prop :=
  outcome ≠ .unfinished ∧
    ∃ rounds m', m.run rounds code input = (m', outcome) ∧ m'.printed = printed

theorem resume_unique {chunk rounds rounds' : Nat} {input : List CodePoint} {m m₁ m₂ : Machine}
    {outcome outcome' : Outcome} (h : resume chunk rounds input m = (m₁, outcome))
    (h' : resume chunk rounds' input m = (m₂, outcome')) (houtcome : outcome ≠ .unfinished)
    (houtcome' : outcome' ≠ .unfinished) : m₁ = m₂ ∧ outcome = outcome' := by
  induction rounds generalizing rounds' input m with
  | zero =>
      cases h
      exact absurd rfl houtcome
  | succ rounds ih =>
      cases rounds' with
      | zero =>
          cases h'
          exact absurd rfl houtcome'
      | succ rounds' =>
          rw [resume] at h h'
          split at h <;> rename_i hround <;> simp only [hround] at h'
          · exact ih h h'
          · cases h
            cases h'
            exact ⟨rfl, rfl⟩
          · cases h
            cases h'
            exact ⟨rfl, rfl⟩

theorem run_unique {m m₁ m₂ : Machine} {code : String} {input : List CodePoint}
    {rounds rounds' : Nat}
    {outcome outcome' : Outcome} (h : m.run rounds code input = (m₁, outcome))
    (h' : m.run rounds' code input = (m₂, outcome')) (houtcome : outcome ≠ .unfinished)
    (houtcome' : outcome' ≠ .unfinished) : m₁ = m₂ ∧ outcome = outcome' := by
  unfold run at h h'
  split at h <;> rename_i hload <;> simp only [hload] at h'
  · cases h
    cases h'
    exact ⟨rfl, rfl⟩
  · exact resume_unique h h' houtcome houtcome'

theorem Halts.unique {m : Machine} {code : String} {input : List CodePoint}
    {outcome outcome' : Outcome}
    {printed printed' : Array Printed} (h : m.Halts code input outcome printed)
    (h' : m.Halts code input outcome' printed') : outcome = outcome' ∧ printed = printed' := by
  obtain ⟨houtcome, rounds, m₁, hrun, rfl⟩ := h
  obtain ⟨houtcome', rounds', m₂, hrun', rfl⟩ := h'
  obtain ⟨rfl, rfl⟩ := run_unique hrun hrun' houtcome houtcome'
  exact ⟨rfl, rfl⟩

theorem unfinished_iff {m : Machine} {code : String} {input : List CodePoint} :
    (∀ rounds, (m.run rounds code input).2 = .unfinished) ↔
      ∀ outcome printed, ¬m.Halts code input outcome printed := by
  constructor
  · rintro hforever outcome printed ⟨houtcome, rounds, m', hrun, -⟩
    have hunfinished := hforever rounds
    rw [hrun] at hunfinished
    exact houtcome hunfinished
  · intro hnever rounds
    by_contra houtcome
    exact hnever _ _ ⟨houtcome, rounds, _, rfl, rfl⟩

end Machine

section

variable {options options' : CompileOptions} {nodes : List Node} {c c' d d' : Compilation}

theorem program_mirrors (hd : Compile.program options nodes c = .ok () d)
    (hd' : Compile.program options' nodes c' = .ok () d') (hcodes : Node.verbatimsIn nodes = [])
    (hown : ∀ flat bodies, Expands Functions.initial.bodies nodes flat bodies →
      (Node.ownIn? false [] [] flat).isSome = true) :
    Mirrors (fun _ => False) (fun _ => False) Compilation.initial Compilation.initial d d' := by
  obtain ⟨flat, hexpands, hlowered⟩ := program_lowered hd
  obtain ⟨flat', hexpands', hlowered'⟩ := program_lowered hd'
  obtain ⟨rfl, -⟩ := hexpands.unique hexpands'
  obtain ⟨own, hflat⟩ := Option.isSome_iff_exists.1 (hown flat _ hexpands)
  have hdumps : ∀ code ∈ Node.verbatimsIn flat, code = "&" :=
    Gathers.verbatims.expands_initial hexpands (by simp [Node.verbatimsIn, Node.verbatims])
      (by simp [hcodes])
  have hstart : Inside (fun _ => False) false [] [] Compilation.initial Compilation.initial :=
    ⟨Sound.initial, rfl, .refl (fun h => by cases h), fun _ hx => hx.elim⟩
  exact hlowered.mirrors hlowered' hstart hstart hdumps hflat

theorem Mirrors.halts {m : Machine} {input : List CodePoint} {outcome : Machine.Outcome}
    {printed : Array Printed}
    (h : Mirrors (fun _ => False) (fun _ => False) Compilation.initial Compilation.initial d d')
    (hlimit : m.setting.stepLimit = none) (hsize : d.layout.highWater ≤ m.setting.size)
    (hsize' : d'.layout.highWater ≤ m.setting.size)
    (hhalts : m.Halts d.code input outcome printed) :
    m.Halts d'.code input outcome printed := by
  obtain ⟨houtcome, rounds, m₁, hrun, rfl⟩ := hhalts
  obtain ⟨k, k', hk, hk', hshadows⟩ := h.code
  have hstart : Twin (fun _ => False) (fun _ => False) Compilation.initial Compilation.initial
      (World.initial m.setting.bits input) (World.initial m.setting.bits input) :=
    ⟨rfl, rfl, rfl, rfl, rfl, fun _ _ _ => rfl, fun _ _ _ => rfl⟩
  have hchunk : 0 < Machine.sliceSteps := by decide
  obtain ⟨-, hended⟩ := resume_ended hsize hlimit hchunk (m.load_shows d.code input)
    hk.leads (m.load_holds hk.whole).2
  obtain ⟨hruns, -⟩ := resume_ended hsize' hlimit hchunk (m.load_shows d'.code input)
    hk'.leads (m.load_holds hk'.whole).2
  rw [Machine.run_eq m hk.whole] at hrun
  obtain ⟨e, he, rfl, hshows⟩ := hended hrun houtcome
  obtain ⟨e', he', hsame⟩ := hshadows hstart e he
  obtain ⟨rounds', m₂, hrun', hshows'⟩ := hruns he'
  obtain ⟨hprogress, hprinted⟩ := hsame.seen Twin.printed
  refine ⟨houtcome, rounds', m₂, ?_, ?_⟩
  · rw [Machine.run_eq m hk'.whole, hprogress]
    exact hrun'
  · rw [← Array.toList_inj, hshows'.printed, ← hprinted, hshows.printed]

theorem output_independent_of_options (hd : Compile.program options nodes c = .ok () d)
    (hd' : Compile.program options' nodes c' = .ok () d') (hcodes : Node.verbatimsIn nodes = [])
    (hown : ∀ flat bodies, Expands Functions.initial.bodies nodes flat bodies →
      (Node.ownIn? false [] [] flat).isSome = true)
    (m : Machine) (hlimit : m.setting.stepLimit = none)
    (hsize : d.layout.highWater ≤ m.setting.size) (hsize' : d'.layout.highWater ≤ m.setting.size)
    (input : List CodePoint) :
    (∀ outcome printed,
      m.Halts d.code input outcome printed ↔ m.Halts d'.code input outcome printed) ∧
    ((∀ rounds, (m.run rounds d.code input).2 = .unfinished) ↔
      ∀ rounds, (m.run rounds d'.code input).2 = .unfinished) := by
  have hsame (outcome : Machine.Outcome) (printed : Array Printed) :
      m.Halts d.code input outcome printed ↔ m.Halts d'.code input outcome printed :=
    ⟨(program_mirrors hd hd' hcodes hown).halts hlimit hsize hsize',
      (program_mirrors hd' hd hcodes hown).halts hlimit hsize' hsize⟩
  refine ⟨hsame, ?_⟩
  simp only [Machine.unfinished_iff, hsame]

end

def Node.lower : List Node :=
  [.declare 4 "y" .number none,
    .assign 5 "y" none (.math .minus (.var "c" none) (.literal 1 false)),
    .assign 6 "c" none (.var "y" none), .remove 7 "y"]

def Node.errands : List Node :=
  [.declare 1 "c" .number none, .input 2 "c",
    .function 3 "lower" lower,
    .loop 8 (.var "c" none) [
      .call 9 "lower",
      .unsafeBlock 10 2 [.unsafeGoto 11 1, .unsafeAdd 12 (.var "c" none), .unsafeShow 13]],
    .conditional 14 (.math .minus (.var "c" none) (.var "c" none)) [
      .declare 15 "x" .number none, .assign 16 "x" none (.literal 5 false)],
    .display 17 (.var "x" none)]

theorem ownIn?_errands {flat : List Node} {bodies : Table (List Node)}
    (h : Expands Functions.initial.bodies Node.errands flat bodies) :
    (Node.ownIn? false [] [] flat).isSome = true := by
  have hlower : (Functions.initial.bodies.insert "lower" Node.lower).find? "lower" =
      some Node.lower := by
    simp [Table.find?_insert]
  have hexpands : Expands Functions.initial.bodies Node.errands
      [.declare 1 "c" .number none, .input 2 "c",
        .loop 8 (.var "c" none) [
          .declare 4 "y" .number none,
          .assign 5 "y" none (.math .minus (.var "c" none) (.literal 1 false)),
          .assign 6 "c" none (.var "y" none), .remove 7 "y",
          .unsafeBlock 10 2 [.unsafeGoto 11 1, .unsafeAdd 12 (.var "c" none), .unsafeShow 13]],
        .conditional 14 (.math .minus (.var "c" none) (.var "c" none)) [
          .declare 15 "x" .number none, .assign 16 "x" none (.literal 5 false)],
        .display 17 (.var "x" none)] _ :=
    .plain rfl <| .plain rfl <| .function <|
      .loop (.call hlower (.plain rfl (.plain rfl (.plain rfl (.plain rfl .nil))))
        (.plain rfl .nil)) <|
      .conditional (.plain rfl (.plain rfl .nil)) (.plain rfl .nil)
  obtain ⟨rfl, -⟩ := h.unique hexpands
  rfl

theorem output_independent_of_options_errands :
    ∃ d d', Compile.program {} Node.errands Compilation.initial = .ok () d ∧
      Compile.program { freeSubtractionCopies := true } Node.errands Compilation.initial =
        .ok () d' ∧
      Node.verbatimsIn Node.errands = [] ∧
      d.layout.highWater ≤ ((Machine.small none).setting.size : Int) ∧
      d'.layout.highWater ≤ ((Machine.small none).setting.size : Int) ∧
      ∀ outcome printed, (Machine.small none).Halts d.code "3" outcome printed ↔
        (Machine.small none).Halts d'.code "3" outcome printed := by
  obtain ⟨d, hd, hsize⟩ := Compile.exists_of_fits
    (show Compile.fits {} Node.errands 20 = true by decide +kernel)
  obtain ⟨d', hd', hsize'⟩ := Compile.exists_of_fits
    (show Compile.fits { freeSubtractionCopies := true } Node.errands 20 = true by decide +kernel)
  have hsize := (le_max_right ..).trans hsize
  have hsize' := (le_max_right ..).trans hsize'
  exact ⟨d, d', hd, hd', rfl, hsize, hsize', (output_independent_of_options hd hd' rfl
    (fun _ _ h => ownIn?_errands h) (Machine.small none) rfl hsize hsize' "3").1⟩

def Compile.prints (options : CompileOptions) (nodes : List Node) (m : Machine) (rounds : Nat)
    (input : List CodePoint) (printed : Array Printed) : Bool :=
  match program options nodes Compilation.initial with
  | .ok _ d =>
      d.layout.highWater ≤ m.setting.size ∧ (m.run rounds d.code input).2 = .finished ∧
        (m.run rounds d.code input).1.printed = printed
  | .error _ _ => false

theorem Compile.exists_of_prints {options : CompileOptions} {nodes : List Node} {m : Machine}
    {rounds : Nat} {input : List CodePoint} {printed : Array Printed}
    (h : prints options nodes m rounds input printed = true) :
    ∃ d, program options nodes Compilation.initial = .ok () d ∧
      d.layout.highWater ≤ m.setting.size ∧ m.Halts d.code input .finished printed := by
  unfold prints at h
  split at h
  · rename_i d hd
    obtain ⟨hsize, hfinished, hprinted⟩ := of_decide_eq_true h
    exact ⟨d, hd, hsize, Machine.Outcome.noConfusion, rounds, _, Prod.ext rfl hfinished, hprinted⟩
  · cases h

def Node.relapse : List Node :=
  [.declare 1 "c" .number none, .assign 2 "c" none (.literal 1 false),
    .display 3 (.math .minus (.var "c" none) (.var "c" none)), .declare 4 "z" .number none,
    .loop 5 (.var "c" none) [
      .declare 6 "y" .number none, .display 7 (.var "y" none),
      .assign 8 "y" none (.literal 1 false), .input 9 "c"]]

theorem output_depends_on_options :
    ∃ d d', Compile.program {} Node.relapse Compilation.initial = .ok () d ∧
      Compile.program { freeSubtractionCopies := true } Node.relapse Compilation.initial =
        .ok () d' ∧
      Node.verbatimsIn Node.relapse = [] ∧
      d.layout.highWater ≤ ((Machine.small none).setting.size : Int) ∧
      d'.layout.highWater ≤ ((Machine.small none).setting.size : Int) ∧
      (Machine.small none).Halts d.code "a" .finished #[.number 0, .number 0, .number 1] ∧
      (Machine.small none).Halts d'.code "a" .finished #[.number 0, .number 0, .number 0] ∧
      ¬(Machine.small none).Halts d'.code "a" .finished #[.number 0, .number 0, .number 1] := by
  obtain ⟨d, hd, hsize, hhalts⟩ := Compile.exists_of_prints (show Compile.prints {} Node.relapse
    (Machine.small none) 9 "a" #[.number 0, .number 0, .number 1] = true by decide +kernel)
  obtain ⟨d', hd', hsize', hhalts'⟩ := Compile.exists_of_prints (show Compile.prints
    { freeSubtractionCopies := true } Node.relapse (Machine.small none) 9 "a"
    #[.number 0, .number 0, .number 0] = true by decide +kernel)
  refine ⟨d, d', hd, hd', rfl, hsize, hsize', hhalts, hhalts', fun h => ?_⟩
  have hprinted := (h.unique hhalts').2
  revert hprinted
  decide

end TapeCompiler
