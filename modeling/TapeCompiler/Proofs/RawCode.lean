import TapeCompiler.Proofs.Landmarks
import TapeCompiler.Proofs.PrivateArray
import TapeCompiler.Proofs.Recompilation
import TapeCompiler.Proofs.Tracking

namespace TapeCompiler

open Compile Compilation

theorem offset_replicate (i : Instruction) (n : Nat) :
    offset (List.replicate n i) = n * i.shift := by
  induction n with
  | zero => simp
  | succ n ih =>
      rw [List.replicate_succ, offset_cons, ih]
      push_cast
      ring

namespace Compilation

variable {c d e : Compilation} {a bound : Int} {k : Code}

def Follows (c d : Compilation) : Prop :=
  ∃ added, d.code = c.code ++ added ∧ offset (Instruction.ofText added) = d.pointer - c.pointer

namespace Follows

theorem refl (c : Compilation) : Follows c c :=
  ⟨"", String.append_empty.symm, (Int.sub_self _).symm⟩

theorem trans (h : Follows c d) (h' : Follows d e) : Follows c e := by
  obtain ⟨added, hadded, hoffset⟩ := h
  obtain ⟨more, hmore, hoffset'⟩ := h'
  refine ⟨added ++ more, by rw [hmore, hadded, String.append_assoc], ?_⟩
  rw [ofText_append, offset_append, hoffset, hoffset']
  omega

theorem of_emits (h : Emits bound c d k) : Follows c d := by
  obtain ⟨added, hadded, hk⟩ := h.text
  exact ⟨added, hadded, by rw [hk, h.leads.offset]⟩

theorem of_keeps {codes : List String} {S : Int → Prop} (h : Keeps codes S c d)
    (hcodes : ∀ code ∈ codes, Moveless code) : Follows c d := by
  obtain ⟨k, hk, -⟩ := h.code hcodes
  exact .of_emits hk

theorem of_eq (hcode : d.code = c.code) (hpointer : d.pointer = c.pointer) : Follows c d :=
  ⟨"", by rw [hcode, String.append_empty], by rw [hpointer, Int.sub_self]; rfl⟩

theorem moveTo (c : Compilation) (t : Int) : Follows c (c.moveTo t) := by
  rw [moveTo_eq]
  refine ⟨_, rfl, ?_⟩
  dsimp only
  split
  · rw [show '>' = Instruction.right.toChar from rfl, ofText_repeated, offset_replicate,
      Instruction.shift]
    omega
  · rw [show '<' = Instruction.left.toChar from rfl, ofText_repeated, offset_replicate,
      Instruction.shift]
    omega

theorem emit (c : Compilation) {text : String} (h : offset (Instruction.ofText text) = 0) :
    Follows c (c.emit text) :=
  ⟨text, rfl, by rw [h, pointer_emit, Int.sub_self]⟩

theorem freeCondition (c : Compilation) (a : Int) : Follows c (c.freeCondition a) :=
  .of_eq (code_freeCondition c a) (pointer_freeCondition c a)

theorem opened {options : CompileOptions} {test : Node} (h : Sound c)
    (hopen : openLoop options test c = .ok a d) : Follows c d := by
  obtain ⟨e, rfl, hkeeps, -⟩ := Lowered.opened [] (S := fun _ => False) h (fun hx => hx.elim) hopen
  exact (of_keeps hkeeps fun code hcode => by cases hcode).trans (.emit _ rfl)

theorem closeConditional (hclose : closeConditional a c = .ok () d) : Follows c d := by
  rw [Compile.closeConditional, modify_ok] at hclose
  subst hclose
  exact (((moveTo c a).trans (.emit _ rfl)).trans (.emit _ rfl)).trans (.freeCondition _ a)

theorem closeLoop (hclose : closeLoop a c = .ok () d) : Follows c d := by
  rw [Compile.closeLoop, modify_ok] at hclose
  subst hclose
  exact ((moveTo c a).trans (.emit _ rfl)).trans (.freeCondition _ a)

end Follows

end Compilation

theorem Lowered.follows {options : CompileOptions} {flat : List Node} {c d : Compilation}
    (h : Lowered options flat c d) (hc : Sound c) (hu : c.unsafePointer = none)
    (hcodes : ∀ code ∈ Node.verbatimsIn flat, Moveless code) : Follows c d :=
  .of_keeps (h.keeps hc hu).1 hcodes

theorem Passes.follows {options : CompileOptions} {flag around : Option (Compilation × Node)}
    {node : Node} {p q c d : Compilation} {flat : List Node}
    (h : Passes options flag (.statement node p q around) flat c d) (hc : Sound c)
    (hu : c.unsafePointer = none) (hcodes : ∀ code ∈ Node.verbatimsIn flat, Moveless code) :
    Sound p ∧ p.unsafePointer = none ∧ (∀ code ∈ node.verbatims, Moveless code) ∧
      node.isPlain = true ∧ (∃ call, form options call node p = .ok () q) ∧
      Follows c p ∧ Follows q d := by
  generalize hmark : Landmark.statement node p q around = mark at h
  induction h with
  | statement hplain hform =>
      cases hmark
      exact ⟨hc, hu, by simpa [Node.verbatimsIn] using hcodes, hplain, ⟨_, hform⟩, .refl _, .refl _⟩
  | endConditional => cases hmark
  | endLoop => cases hmark
  | conditional hopen _ hclose ih =>
      rw [Gathers.verbatims.conditional] at hcodes
      obtain ⟨hsound, hpoint⟩ := opened_sound hc hopen
      obtain ⟨hp, hnone, hnode, hplain, hform, hbefore, hafter⟩ :=
        ih hsound (hpoint.trans hu) hcodes hmark
      exact ⟨hp, hnone, hnode, hplain, hform, (Follows.opened hc hopen).trans hbefore,
        hafter.trans (.closeConditional hclose)⟩
  | loop hopen _ _ hclose ih =>
      rw [Gathers.verbatims.loop] at hcodes
      obtain ⟨hsound, hpoint⟩ := opened_sound hc hopen
      obtain ⟨hp, hnone, hnode, hplain, hform, hbefore, hafter⟩ :=
        ih hsound (hpoint.trans hu) hcodes hmark
      exact ⟨hp, hnone, hnode, hplain, hform, (Follows.opened hc hopen).trans hbefore,
        hafter.trans (.closeLoop hclose)⟩
  | before hfirst hrest ih =>
      rw [Gathers.verbatims.append, List.forall_mem_append] at hcodes
      obtain ⟨hkeeps, hnone'⟩ := hfirst.lowered.keeps hc hu
      obtain ⟨hp, hnone, hnode, hplain, hform, hbefore, hafter⟩ := ih hc hu hcodes.1 hmark
      exact ⟨hp, hnone, hnode, hplain, hform, hbefore,
        hafter.trans (hrest.follows hkeeps.sound hnone' hcodes.2)⟩
  | after hfirst _ ih =>
      rw [Gathers.verbatims.append, List.forall_mem_append] at hcodes
      obtain ⟨hkeeps, hnone'⟩ := hfirst.keeps hc hu
      obtain ⟨hp, hnone, hnode, hplain, hform, hbefore, hafter⟩ :=
        ih hkeeps.sound hnone' hcodes.2 hmark
      exact ⟨hp, hnone, hnode, hplain, hform, (hfirst.follows hc hu hcodes.1).trans hbefore, hafter⟩

namespace Node

def steps : Node → Int
  | unsafeGoto _ steps => steps
  | _ => 0

def staysHome (home : Bool) : Node → Bool
  | unsafeAdd .. | unsafeReduce .. => false
  | verbatim .. => home
  | _ => true

theorem travel?_eq_some {size place place' : Int} {node : Node}
    (h : node.travel? size place = some place') : place' = place + node.steps := by
  cases node
  case unsafeGoto line steps =>
    rw [travel?] at h
    split at h
    · exact (Option.some.inj h).symm
    · cases h
  case unsafeLoop line body =>
    obtain ⟨_, -, rfl⟩ := Option.map_eq_some_iff.1 h
    exact (Int.add_zero _).symm
  all_goals
    cases h
    exact (Int.add_zero _).symm

end Node

/-- Machine code in an unsafe block: the text, the state from which it is compiled, the start of the
block and where gotos have led from there, and whether the tape pointer is there too. -/
structure RawCode where
  text : String
  before : Compilation
  start : Int
  place : Int
  home : Bool

namespace Compile

mutual

def rawCode (options : CompileOptions) (start : Int) :
    Node → Int → Bool → Compilation → List RawCode
  | .verbatim _ text, place, home, c => [⟨text, c, start, place, home⟩]
  | .unsafeLoop _ body, place, _, c =>
      rawCodeIn options start body place true ((c.moveTo (start + place)).emit "[")
  | _, _, _, _ => []

def rawCodeIn (options : CompileOptions) (start : Int) :
    List Node → Int → Bool → Compilation → List RawCode
  | [], _, _, _ => []
  | node :: rest, place, home, c =>
      rawCode options start node place home c ++
        match operation options node c with
        | .error _ _ => []
        | .ok _ d => rawCodeIn options start rest (place + node.steps) (node.staysHome home) d

end

end Compile

def Landmark.rawCode (options : CompileOptions) : Landmark → List RawCode
  | .statement (.unsafeBlock _ size body) before _ _ =>
      rawCodeIn options (before.layout.firstFit size) body 0 true (before.startBlock size)
  | _ => []

def Compile.programRawCode (options : CompileOptions) (nodes : List Node) : List RawCode :=
  (programLandmarks options nodes).flatMap (Landmark.rawCode options)

namespace Compilation

structure Poised (start size place : Int) (home : Bool) (c : Compilation) : Prop where
  sound : Sound c
  region : c.unsafeRegion = some ⟨start, size⟩
  spot : c.unsafePointer = some (start + place)
  on : home = true → c.pointer = start + place
  off : home = false → c.layout.status c.pointer = .free

variable {c d : Compilation} {start size place : Int} {home : Bool}

theorem Poised.pointer_eq_iff (h : Poised start size place home c) :
    c.pointer = start + place ↔ home = true := by
  refine ⟨fun hp => ?_, h.on⟩
  by_contra hoff
  have hfree := h.off (by simpa using hoff)
  rw [hp, h.sound.reserved_of_unsafePointer h.spot] at hfree
  cases hfree

theorem Poised.opened (h : Poised start size place home c) :
    Poised start size place true ((c.moveTo (start + place)).emit "[") := by
  have hsame := (Same.moveTo c (start + place)).trans (.emit _ "[")
  exact ⟨loopStart_sound h.sound h.spot, hsame.unsafeRegion.trans h.region,
    hsame.unsafePointer.trans h.spot, fun _ => rfl, fun hhome => by cases hhome⟩

end Compilation

namespace Compile

variable {options : CompileOptions} {start size place : Int} {home : Bool} {raw : RawCode}

theorem drainAmount_off {amount : Node} {sign : Sign} {c d : Compilation}
    (hd : drainAmount options amount sign c = .ok () d) : d.layout.status d.pointer = .free := by
  obtain ⟨p, a, c₁, -, -, rfl⟩ := drainAmount_ok hd
  obtain ⟨⟨k, e⟩, he⟩ : ∃ x, c₁.copy a = x := ⟨_, rfl⟩
  have hadd : c₁.addCopy a p sign = (e.drain k p sign).free k := by
    simp only [addCopy, he]
  rw [hadd]
  unfold Compilation.release
  split
  · simp [Compilation.free, Layout.free]
  · have hpointer : ((e.drain k p sign).free k).pointer = k := pointer_drain e k p sign
    rw [hpointer]
    simp [Compilation.free, Layout.free]

theorem operation_poised (node : Node) {c d : Compilation} (h : Poised start size place home c)
    (hd : operation options node c = .ok () d) :
    Poised start size (place + node.steps) (node.staysHome home) d := by
  obtain ⟨hkeeps, hscope⟩ := operation_sound node h.sound hd
  obtain ⟨place', htravel, hspot⟩ := operation_travels node h.sound h.region h.spot hd
  cases Node.travel?_eq_some htravel
  suffices hpointer : (node.staysHome home = true → d.pointer = start + (place + node.steps)) ∧
      (node.staysHome home = false → d.layout.status d.pointer = .free) from
    ⟨hkeeps.sound, hscope.unsafeRegion.trans h.region, hspot, hpointer.1, hpointer.2⟩
  cases node
  case unsafeGoto line steps =>
    obtain ⟨p, r, hp, -, -, rfl⟩ := goto_ok hd
    exact ⟨fun _ => Option.some.inj hspot, fun hoff => by cases hoff⟩
  case unsafeAdd line amount => exact ⟨fun hon => (by cases hon), fun _ => drainAmount_off hd⟩
  case unsafeReduce line amount => exact ⟨fun hon => (by cases hon), fun _ => drainAmount_off hd⟩
  case unsafeShow line =>
    obtain ⟨p, hp, rfl⟩ := unsafeShow_ok hd
    rw [((Same.moveTo c p).trans (.emit _ ".")).unsafePointer, hp] at hspot
    exact ⟨fun _ => Option.some.inj hspot, fun hoff => by cases hoff⟩
  case unsafeLoop line body =>
    obtain ⟨p, e, hp, hbody, rfl⟩ := unsafeLoop_ok hd
    exact ⟨fun _ => Option.some.inj hspot, fun hoff => by cases hoff⟩
  case verbatim line code =>
    obtain ⟨p, hp, rfl⟩ := verbatim_ok hd
    exact ⟨fun hon => (h.on hon).trans (Option.some.inj (h.spot.symm.trans hspot)), h.off⟩
  all_goals exact absurd hd fail_ok

mutual

theorem rawCode_follows (node : Node) {c d : Compilation} {place : Int} {home : Bool}
    (hcodes : ∀ code ∈ node.verbatims, Moveless code) (h : Poised start size place home c)
    (hd : operation options node c = .ok () d)
    (hraw : raw ∈ rawCode options start node place home c) :
    Follows c raw.before ∧ Follows (raw.before.emit raw.text) d ∧ raw.start = start ∧
      Poised start size raw.place raw.home raw.before := by
  cases node
  case verbatim line text =>
    obtain ⟨p, hp, rfl⟩ := verbatim_ok hd
    cases List.mem_singleton.1 hraw
    exact ⟨.refl c, .refl _, rfl, h⟩
  case unsafeLoop line body =>
    obtain ⟨p, e, hp, hbody, rfl⟩ := unsafeLoop_ok hd
    cases h.spot.symm.trans hp
    obtain ⟨hbefore, hafter, hstart, hraw⟩ := rawCodeIn_follows body hcodes h.opened hbody hraw
    have hclose : Follows e { (e.moveTo (start + place)).emit "]" with
        unsafePointer := some (start + place) } :=
      ((Follows.moveTo e (start + place)).trans (.emit _ rfl)).trans (.of_eq rfl rfl)
    exact ⟨((Follows.moveTo c (start + place)).trans (.emit _ rfl)).trans hbefore,
      hafter.trans hclose, hstart, hraw⟩
  all_goals cases hraw

theorem rawCodeIn_follows (nodes : List Node) {c d : Compilation} {place : Int} {home : Bool}
    (hcodes : ∀ code ∈ Node.verbatimsIn nodes, Moveless code)
    (h : Poised start size place home c) (hd : operations options nodes c = .ok () d)
    (hraw : raw ∈ rawCodeIn options start nodes place home c) :
    Follows c raw.before ∧ Follows (raw.before.emit raw.text) d ∧ raw.start = start ∧
      Poised start size raw.place raw.home raw.before := by
  match nodes with
  | [] => cases hraw
  | node :: rest =>
      simp only [operations, bind_ok] at hd
      obtain ⟨_, e, hnode, hrest⟩ := hd
      rw [Node.verbatimsIn, List.forall_mem_append] at hcodes
      have he := operation_poised node h hnode
      simp only [rawCodeIn, hnode, List.mem_append] at hraw
      rcases hraw with hraw | hraw
      · obtain ⟨hbefore, hafter, hpoised⟩ := rawCode_follows node hcodes.1 h hnode hraw
        obtain ⟨hkeeps, -⟩ := operations_sound rest he.sound hrest
        exact ⟨hbefore, hafter.trans (.of_keeps hkeeps hcodes.2), hpoised⟩
      · obtain ⟨hbefore, hafter, hpoised⟩ := rawCodeIn_follows rest hcodes.2 he hrest hraw
        obtain ⟨hkeeps, -⟩ := operation_sound node h.sound hnode
        exact ⟨(Follows.of_keeps hkeeps hcodes.1).trans hbefore, hafter, hpoised⟩

end

mutual

theorem rawCode_texts (node : Node) {c d : Compilation} {place : Int} {home : Bool}
    (h : Poised start size place home c) (hd : operation options node c = .ok () d) :
    (rawCode options start node place home c).map RawCode.text = node.verbatims := by
  cases node
  case unsafeLoop line body =>
    obtain ⟨p, e, hp, hbody, rfl⟩ := unsafeLoop_ok hd
    cases h.spot.symm.trans hp
    exact rawCodeIn_texts body h.opened hbody
  case unsafeGoto => rfl
  case unsafeAdd => rfl
  case unsafeReduce => rfl
  case unsafeShow => rfl
  case verbatim => rfl
  all_goals exact absurd hd fail_ok

theorem rawCodeIn_texts (nodes : List Node) {c d : Compilation} {place : Int} {home : Bool}
    (h : Poised start size place home c) (hd : operations options nodes c = .ok () d) :
    (rawCodeIn options start nodes place home c).map RawCode.text = Node.verbatimsIn nodes := by
  match nodes with
  | [] => rfl
  | node :: rest =>
      simp only [operations, bind_ok] at hd
      obtain ⟨_, e, hnode, hrest⟩ := hd
      simp only [rawCodeIn, hnode, List.map_append, rawCode_texts node h hnode,
        rawCodeIn_texts rest (operation_poised node h hnode) hrest, Node.verbatimsIn]

end

theorem startBlock_poised {body : List Node} {c d : Compilation} (h : Sound c)
    (hd : unsafeBlock options size body c = .ok () d) :
    Poised (c.layout.firstFit size) size 0 true (c.startBlock size) := by
  have hstart := startBlock_sound h hd
  have hsame := Same.moveTo (c.enterBlock size) (c.layout.firstFit size)
  refine ⟨hstart.sound, hsame.unsafeRegion, ?_, fun _ => ?_, fun hoff => by cases hoff⟩
  · rw [Int.add_zero]
    exact hsame.unsafePointer
  · rw [Int.add_zero]
    rfl

theorem unsafeBlock_follows {body : List Node} {c d : Compilation} (h : Sound c)
    (hcodes : ∀ code ∈ Node.verbatimsIn body, Moveless code)
    (hd : unsafeBlock options size body c = .ok () d)
    (hraw : raw ∈ rawCodeIn options (c.layout.firstFit size) body 0 true (c.startBlock size)) :
    Follows c raw.before ∧ Follows (raw.before.emit raw.text) d ∧
      Poised raw.start size raw.place raw.home raw.before := by
  have hpoised := startBlock_poised h hd
  have hstart := startBlock_sound h hd
  obtain ⟨hsize, hnone, e, hbody, rfl⟩ := unsafeBlock_ok hd
  obtain ⟨hkeeps, hscope⟩ := operations_sound body hstart.sound hbody
  have hleave : Keeps [] (fun _ => False) e
      (e.clearAndFree (addresses (c.layout.firstFit size) size.toNat)).leaveBlock :=
    leaveBlock_keeps hkeeps.sound hsize (hscope.unsafeRegion.trans hpoised.region)
      fun hx => hx.elim
  obtain ⟨hbefore, hafter, hfirst, hraw⟩ := rawCodeIn_follows body hcodes hpoised hbody hraw
  exact ⟨(Follows.of_keeps hstart hcodes).trans hbefore,
    hafter.trans (.of_keeps hleave fun code hcode => by cases hcode), hfirst ▸ hraw⟩

end Compile

namespace Node

mutual

theorem verbatims_stops (node : Node) : node.stops.flatMap verbatims = node.verbatims := by
  cases node
  case conditional line test body =>
    simp [stops, verbatims, verbatims_stopsIn body, verbatimsIn]
  case loop line test body =>
    simp [stops, verbatims, verbatims_stopsIn body, verbatimsIn]
  all_goals exact List.append_nil _

theorem verbatims_stopsIn (nodes : List Node) :
    (stopsIn nodes).flatMap verbatims = verbatimsIn nodes := by
  match nodes with
  | [] => rfl
  | node :: rest =>
      rw [stopsIn, List.flatMap_append, verbatims_stops node, verbatims_stopsIn rest, verbatimsIn]

end

end Node

namespace Passes

variable {options : CompileOptions} {around : Option (Compilation × Node)} {mark : Landmark}
  {flat : List Node} {c d : Compilation}

theorem closing_verbatims {node : Node} {a : Int} {p q : Compilation}
    (h : Passes options around (.closing node a p q) flat c d) :
    (Landmark.closing node a p q).stop.verbatims = [] := by
  generalize hmark : Landmark.closing node a p q = mark at h ⊢
  induction h with
  | statement => cases hmark
  | endConditional => rfl
  | endLoop => rfl
  | conditional _ _ _ ih => exact ih hmark
  | loop _ _ _ _ ih => exact ih hmark
  | before _ _ ih => exact ih hmark
  | after _ _ ih => exact ih hmark

theorem rawCode_texts (h : Passes options around mark flat c d) (hc : Sound c)
    (hu : c.unsafePointer = none) (hcodes : ∀ code ∈ Node.verbatimsIn flat, Moveless code) :
    (mark.rawCode options).map RawCode.text = mark.stop.verbatims := by
  cases mark with
  | closing node a p q => exact h.closing_verbatims.symm
  | statement node p q flag =>
      obtain ⟨hp, hnone, -, hplain, ⟨call, hform⟩, -⟩ := h.follows hc hu hcodes
      cases node
      case unsafeBlock line size body =>
        obtain ⟨-, -, e, hbody, -⟩ := unsafeBlock_ok hform
        exact rawCodeIn_texts body (startBlock_poised hp hform) hbody
      case unsafeLoop line body =>
        simp only [form] at hform
        obtain ⟨_, _, hp, -⟩ := unsafeLoop_ok hform
        cases hnone.symm.trans hp
      case verbatim line text =>
        simp only [form] at hform
        obtain ⟨_, hp, -⟩ := verbatim_ok hform
        cases hnone.symm.trans hp
      case conditional => cases hplain
      case loop => cases hplain
      case function => cases hplain
      all_goals rfl

theorem rawCode_follows {raw : RawCode} (h : Passes options around mark flat c d) (hc : Sound c)
    (hu : c.unsafePointer = none) (hcodes : ∀ code ∈ Node.verbatimsIn flat, Moveless code)
    (hraw : raw ∈ mark.rawCode options) :
    Follows c raw.before ∧ Follows (raw.before.emit raw.text) d ∧
      ∃ size, Poised raw.start size raw.place raw.home raw.before := by
  unfold Landmark.rawCode at hraw
  split at hraw
  · rename_i line size body p q flag
    obtain ⟨hp, hnone, hnode, -, ⟨call, hform⟩, hbefore, hafter⟩ := h.follows hc hu hcodes
    obtain ⟨hstart, hend, hpoised⟩ := unsafeBlock_follows hp hnode hform hraw
    exact ⟨hbefore.trans hstart, hend.trans hafter, size, hpoised⟩
  · cases hraw

end Passes

namespace Compile

variable {options : CompileOptions} {nodes : List Node} {c d : Compilation}

theorem programRawCode_texts {flat : List Node} {bodies : Table (List Node)}
    (hd : program options nodes c = .ok () d)
    (hcodes : ∀ code ∈ Node.verbatimsIn nodes, Moveless code)
    (hflat : Expands Functions.initial.bodies nodes flat bodies) :
    (programRawCode options nodes).map RawCode.text = Node.verbatimsIn flat := by
  have htexts : ∀ mark ∈ programLandmarks options nodes,
      (mark.rawCode options).map RawCode.text = mark.stop.verbatims := by
    intro mark hmark
    obtain ⟨flat', hexpands, hpasses⟩ := program_passed hd hmark
    exact hpasses.rawCode_texts Sound.initial rfl (expanded_moveless hexpands hcodes)
  calc (programRawCode options nodes).map RawCode.text
      = (programLandmarks options nodes).flatMap fun mark => mark.stop.verbatims := by
        rw [programRawCode, List.map_flatMap]
        exact List.flatMap_congr htexts
    _ = ((programLandmarks options nodes).map Landmark.stop).flatMap Node.verbatims := by
        rw [List.flatMap_map]
    _ = Node.verbatimsIn flat := by
        rw [programLandmarks_stops hd hflat, Node.verbatims_stopsIn]

theorem programRawCode_follows {raw : RawCode} (hd : program options nodes c = .ok () d)
    (hcodes : ∀ code ∈ Node.verbatimsIn nodes, Moveless code)
    (hraw : raw ∈ programRawCode options nodes) :
    Follows Compilation.initial raw.before ∧ Follows (raw.before.emit raw.text) d ∧
      ∃ size, Poised raw.start size raw.place raw.home raw.before := by
  obtain ⟨mark, hmark, hraw⟩ := List.mem_flatMap.1 hraw
  obtain ⟨flat, hexpands, hpasses⟩ := program_passed hd hmark
  exact hpasses.rawCode_follows Sound.initial rfl (expanded_moveless hexpands hcodes) hraw

end Compile

theorem Machine.pointer_moment {options : CompileOptions} {nodes : List Node} {c d e : Compilation}
    (m : Machine) (hd : Compile.program options nodes c = .ok () d)
    (hcodes : ∀ code ∈ Node.verbatimsIn nodes, Moveless code)
    (hsize : max 1 d.layout.highWater ≤ m.setting.size) (he : Compilation.initial.Follows e)
    (hrest : ∃ rest, d.code = e.code ++ rest) {rounds count : Nat} {input : List CodePoint}
    (hpc : (m.moment rounds count d.code input).pc = (Instruction.ofText e.code).length) :
    ((m.moment rounds count d.code input).tape.pointer : Int) = e.pointer := by
  obtain ⟨k, hk, hleads⟩ := Compile.program_emits hd hcodes
  have hleads := hleads.mono (Int.le_max_right 1 d.layout.highWater)
  have hpos : 0 < max 1 d.layout.highWater := by omega
  have hmoment : Tracked k (m.moment rounds count d.code input) :=
    (Tracked.run m hk hleads hpos hsize rounds input).slice hleads hpos
      (by rw [Machine.run_eq m hk, Machine.setting_resume]; exact hsize) count
  obtain ⟨rest, hrest⟩ := hrest
  obtain ⟨added, hadded, hoffset⟩ := he
  have hadded : e.code = added := hadded.trans String.empty_append
  rw [hmoment.pointer, hpc, ← hk, hrest, ofText_append, List.take_left, hadded, hoffset]
  exact Int.sub_zero _

theorem raw_code_cell {options : CompileOptions} {nodes : List Node} {c d : Compilation}
    (hd : Compile.program options nodes c = .ok () d)
    (hcodes : ∀ code ∈ Node.verbatimsIn nodes, Moveless code) (m : Machine)
    (hsize : max 1 d.layout.highWater ≤ m.setting.size) :
    (∀ flat bodies, Expands Functions.initial.bodies nodes flat bodies →
      (programRawCode options nodes).map RawCode.text = Node.verbatimsIn flat) ∧
    ∀ raw ∈ programRawCode options nodes,
      (∃ rest, d.code = raw.before.code ++ raw.text ++ rest) ∧
      (∃ size, raw.before.unsafeRegion = some ⟨raw.start, size⟩) ∧
      raw.before.unsafePointer = some (raw.start + raw.place) ∧
      ∀ (rounds count : Nat) (input : List CodePoint),
        (m.moment rounds count d.code input).pc =
          (Instruction.ofText raw.before.code).length →
        (((m.moment rounds count d.code input).tape.pointer : Int) = raw.start + raw.place ↔
          raw.home = true) ∧
        (raw.home = false → raw.before.layout.status
          (m.moment rounds count d.code input).tape.pointer = .free) := by
  refine ⟨fun flat bodies hflat => Compile.programRawCode_texts hd hcodes hflat,
    fun raw hraw => ?_⟩
  obtain ⟨hbefore, ⟨rest, hrest, -⟩, size, hpoised⟩ :=
    Compile.programRawCode_follows hd hcodes hraw
  refine ⟨⟨rest, hrest⟩, ⟨size, hpoised.region⟩, hpoised.spot, fun rounds count input hpc => ?_⟩
  rw [m.pointer_moment hd hcodes hsize hbefore
    ⟨raw.text ++ rest, hrest.trans (String.append_assoc ..)⟩ hpc]
  exact ⟨hpoised.pointer_eq_iff, hpoised.off⟩

def RawCode.reached (m : Machine) (rounds count : Nat) (input : List CodePoint) (spot : Int)
    (cell : Nat) (d : Compilation) (raw : RawCode) : Bool :=
  max 1 d.layout.highWater ≤ m.setting.size ∧ raw.before.unsafePointer = some spot ∧
    (m.moment rounds count d.code input).pc = (Instruction.ofText raw.before.code).length ∧
    (m.moment rounds count d.code input).tape.pointer = cell

def Node.drained : List Node :=
  [.unsafeBlock 1 2 [
    .unsafeGoto 2 1, .unsafeAdd 3 (.literal 2 false),
    .unsafeLoop 4 [.verbatim 5 ".-", .unsafeAdd 6 (.literal 0 false)]]]

theorem raw_code_cell_drained :
    ∃ d raw, Compile.program {} Node.drained Compilation.initial = .ok () d ∧
      (∀ code ∈ Node.verbatimsIn Node.drained, Moveless code) ∧
      max 1 d.layout.highWater ≤ ((Machine.small none).setting.size : Int) ∧
      raw ∈ programRawCode {} Node.drained ∧ raw.home = true ∧
      raw.before.unsafePointer = some 1 ∧
      ((Machine.small none).moment 1 19 d.code "").pc =
        (Instruction.ofText raw.before.code).length ∧
      (((Machine.small none).moment 1 19 d.code "").tape.pointer : Int) =
        raw.start + raw.place := by
  obtain ⟨d, hd, mark, hmark, hcheck⟩ := exists_of_comesTo (show comesTo {} Node.drained
    (fun d mark => (mark.rawCode {}).any fun raw =>
      raw.reached (Machine.small none) 1 19 "" 1 1 d && raw.home) = true by decide +kernel)
  obtain ⟨raw, hraw, hcheck⟩ := List.any_eq_true.1 hcheck
  obtain ⟨hreached, hhome⟩ := Bool.and_eq_true_iff.1 hcheck
  obtain ⟨hsize, hspot, hpc, -⟩ := of_decide_eq_true hreached
  have hcodes : ∀ code ∈ Node.verbatimsIn Node.drained, Moveless code := by
    simp [Node.drained, Node.verbatimsIn, Node.verbatims, Moveless]
  have hraw : raw ∈ programRawCode {} Node.drained := List.mem_flatMap.2 ⟨mark, hmark, hraw⟩
  obtain ⟨-, -, -, hcell⟩ := (raw_code_cell hd hcodes (Machine.small none) hsize).2 raw hraw
  exact ⟨d, raw, hd, hcodes, hsize, hraw, hhome, hspot, hpc, (hcell 1 19 "" hpc).1.2 hhome⟩

def Node.hastyShow : List Node :=
  [.unsafeBlock 1 1 [.unsafeAdd 2 (.literal 3 false), .verbatim 3 "."]]

theorem raw_code_off_cell :
    ∃ d raw, Compile.program {} Node.hastyShow Compilation.initial = .ok () d ∧
      (∀ code ∈ Node.verbatimsIn Node.hastyShow, Moveless code) ∧
      max 1 d.layout.highWater ≤ ((Machine.small none).setting.size : Int) ∧
      raw ∈ programRawCode {} Node.hastyShow ∧ raw.before.unsafePointer = some 0 ∧
      ((Machine.small none).moment 0 100 d.code "").pc =
        (Instruction.ofText raw.before.code).length ∧
      ((Machine.small none).moment 0 100 d.code "").tape.pointer = 1 ∧
      (Machine.small none).Halts d.code "" .finished #[.number 0] := by
  obtain ⟨d, hd, mark, hmark, hcheck⟩ := exists_of_comesTo (show comesTo {} Node.hastyShow
    (fun d mark => (mark.rawCode {}).any
      (RawCode.reached (Machine.small none) 0 100 "" 0 1 d)) = true by decide +kernel)
  obtain ⟨d', hd', -, hhalts⟩ := Compile.exists_of_prints (show Compile.prints {} Node.hastyShow
    (Machine.small none) 2 "" #[.number 0] = true by decide +kernel)
  cases hd.symm.trans hd'
  obtain ⟨raw, hraw, hreached⟩ := List.any_eq_true.1 hcheck
  obtain ⟨hsize, hspot, hpc, hcell⟩ := of_decide_eq_true hreached
  have hcodes : ∀ code ∈ Node.verbatimsIn Node.hastyShow, Moveless code := by
    simp [Node.hastyShow, Node.verbatimsIn, Node.verbatims, Moveless]
  exact ⟨d, raw, hd, hcodes, hsize, List.mem_flatMap.2 ⟨mark, hmark, hraw⟩, hspot, hpc, hcell,
    hhalts⟩

end TapeCompiler
