import TapeCompiler.Proofs.Allocation
import TapeCompiler.Proofs.Running

namespace TapeCompiler

open Compile Compilation

def World.ofTape (bits : Nat) (tape : Tape) (input : List CodePoint) : World bits where
  cells x := BitVec.ofInt bits (tape.cells.getD x.toNat 0)
  pointer := tape.pointer
  input
  printed := []

theorem Machine.load_shows_tape (m : Machine) (text : String) {tape : Tape}
    (hsize : tape.cells.size = m.setting.size) (hpointer : tape.pointer < m.setting.size)
    (hvalues : ∀ value ∈ tape.cells, 0 ≤ value ∧ value < m.setting.modulus)
    (input : List CodePoint) :
    Shows m.setting { (m.load text).1 with tape } (World.ofTape m.setting.bits tape input) := by
  refine ⟨rfl, hsize, rfl, hpointer, fun i hi => ?_, rfl⟩
  have hi : i < tape.cells.size := by omega
  obtain ⟨hlow, hhigh⟩ := hvalues _ (Array.getElem_mem hi)
  simp only [World.ofTape, Int.toNat_natCast, Array.getD_eq_getD_getElem?,
    Array.getElem?_eq_getElem hi, Option.getD_some, Setting.toNat_ofInt]
  rw [Int.emod_eq_of_lt hlow hhigh]

theorem Machine.Holds.replace {m : Machine} {k : Code} (h : m.Holds k) (tape : Tape) :
    { m with tape }.Holds k :=
  ⟨h.program, h.placed, h.pc⟩

theorem statement_framed {options : CompileOptions} {program : List Node}
    {start c d : Compilation} {node : Node}
    (hc : c ∈ (Watch.program options program).passed start) (houtside : c.unsafePointer = none)
    (hd : Compile.statements options [node] c = .ok () d) :
    ∃ flat, Expands c.functions.bodies [node] flat d.functions.bodies ∧
      ((∀ code ∈ Node.verbatimsIn flat, code = "&") →
        ∃ added, d.code = c.code ++ added ∧
        ∀ (m : Machine) (tape : Tape), d.layout.highWater ≤ m.setting.size →
          tape.cells.size = m.setting.size → (tape.pointer : Int) = c.pointer →
          (∀ value ∈ tape.cells, 0 ≤ value ∧ value < m.setting.modulus) →
          (m.load added).2 = none ∧
          ∀ chunk rounds input m',
            Machine.resume chunk rounds input { (m.load added).1 with tape } = (m', .finished) →
            ∀ x : Nat, (c.layout.status x = .temp ∨
              ∃ name i type, c.layout.status x = .named name i type ∧
                name ∉ Node.touchedIn flat) →
              m'.tape.cells[x]? = tape.cells[x]?) := by
  have h := (Watch.program_safe options program start).passed c hc
  obtain ⟨flat, hexpands, hlowered⟩ := statements_lowered h.sound houtside h.nodup h.known hd
  obtain ⟨hkeeps, -⟩ := hlowered.keeps h.sound houtside
  refine ⟨flat, hexpands, fun hcodes => ?_⟩
  obtain ⟨k, hk, hkeep⟩ := hkeeps.code fun code hmem => hcodes code hmem ▸ moveless_dump
  obtain ⟨added, hadded, htext⟩ := hk.text
  refine ⟨added, hadded, fun m tape hroom hsize hpointer hvalues => ?_⟩
  obtain ⟨hload, hholds⟩ := m.load_holds htext
  refine ⟨hload, fun chunk rounds input m' hrun x hx => ?_⟩
  have hgrows := hkeeps.grows
  have hinside : tape.pointer < m.setting.size := by
    have := h.sound.tracked
    have := m.setting.size_pos
    omega
  have hshows := m.load_shows_tape added hsize hinside hvalues input
  obtain ⟨w', hdone, hshows'⟩ := Machine.runs_of_finished (w := .ofTape m.setting.bits tape input)
    hrun hroom hshows (hpointer ▸ hk.leads) (hholds.replace tape)
  have hbounds := h.sound.dense.bounds (Protected.live hx)
  rw [hshows'.cells x (by omega), hkeep hcodes hpointer hdone hx, ← hshows.cells x (by omega)]

def Node.shelf : List Node :=
  [.declare 1 "x" .number none, .declare 2 "a" .number (some 2), .declare 3 "b" .number none]

def Node.stow : Node :=
  .conditional 4 (.var "x" none)
    [.assign 5 "a" (some (.var "x" none)) (.math .minus (.var "b" none) (.var "x" none)),
      .declare 6 "t" .char none, .unsafeBlock 7 2 [.verbatim 8 "&"], .remove 9 "t"]

def Compile.fitsFrom (options : CompileOptions) (node : Node) (c : Compilation) (size : Int) : Bool :=
  match statements options [node] c with
  | .ok _ d => d.layout.highWater ≤ size
  | .error _ _ => false

theorem statement_framed_shelf :
    ∃ c ∈ (Watch.program {} Node.shelf).passed Compilation.initial, ∃ d,
      c.unsafePointer = none ∧ Compile.statements {} [Node.stow] c = .ok () d ∧
      c.layout.status 3 = .named "b" 0 .number ∧
      ∃ added, d.code = c.code ++ added ∧
        ∀ tape : Tape, tape.cells.size = 20 → (tape.pointer : Int) = c.pointer →
          (∀ value ∈ tape.cells, 0 ≤ value ∧ value < 256) →
          ∀ rounds input m', Machine.resume Machine.sliceSteps rounds input
            { ((Machine.small none).load added).1 with tape } = (m', .finished) →
          m'.tape.cells[3]? = tape.cells[3]? := by
  have hany : ((Watch.program {} Node.shelf).passed Compilation.initial).any (fun c =>
      (c.unsafePointer = none ∧ c.layout.status 3 = .named "b" 0 .number) &&
      Compile.fitsFrom {} Node.stow c 20) = true := by
    decide +kernel
  obtain ⟨c, hc, hstate⟩ := List.any_eq_true.1 hany
  obtain ⟨hstate, hcompiles⟩ := Bool.and_eq_true_iff.1 hstate
  obtain ⟨houtside, hnamed⟩ := of_decide_eq_true hstate
  unfold Compile.fitsFrom at hcompiles
  cases hd : Compile.statements {} [Node.stow] c with
  | error error d =>
      rw [hd] at hcompiles
      cases hcompiles
  | ok u d =>
      rw [hd] at hcompiles
      obtain ⟨flat, hexpands, hframed⟩ := statement_framed hc houtside hd
      obtain ⟨rfl, -⟩ := hexpands.unique (show Expands c.functions.bodies [Node.stow] [Node.stow]
        c.functions.bodies from
        .conditional (.plain rfl (.plain rfl (.plain rfl (.plain rfl .nil)))) .nil)
      obtain ⟨added, hadded, hframed⟩ := hframed (by decide)
      refine ⟨c, hc, d, houtside, hd, hnamed, added, hadded, ?_⟩
      intro tape hsize hpointer hvalues rounds input m' hrun
      exact (hframed (Machine.small none) tape (of_decide_eq_true hcompiles) hsize hpointer
        hvalues).2 _ rounds input m' hrun 3 (.inr ⟨"b", 0, .number, hnamed, by decide⟩)

end TapeCompiler
