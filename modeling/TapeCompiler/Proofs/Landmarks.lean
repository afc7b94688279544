import TapeCompiler.Proofs.Expansion

namespace TapeCompiler

open Compile Compilation

inductive Landmark where
  | statement (node : Node) (before after : Compilation) (around : Option (Compilation × Node))
  | closing (node : Node) (cell : Int) (opened reached : Compilation)

namespace Compile

mutual

def landmarks (options : CompileOptions) (call : String → Compile Unit)
    (marks : String → Option (Compilation × Node) → Compilation → List Landmark) :
    Node → Option (Compilation × Node) → Compilation → List Landmark
  | .conditional line test body, around, c =>
      match openLoop options test c with
      | .error _ _ => []
      | .ok cell opened => landmarksIn options call marks body around opened ++
          match block options call body opened with
          | .error _ _ => []
          | .ok _ reached => [.closing (.conditional line test body) cell opened reached]
  | .loop line test body, around, c =>
      match openLoop options test c with
      | .error _ _ => []
      | .ok cell opened =>
          landmarksIn options call marks body (around.or (some (c, .loop line test body))) opened ++
          match block options call body opened with
          | .error _ _ => []
          | .ok _ reached => [.closing (.loop line test body) cell opened reached]
  | .function .., _, _ => []
  | .call _ name, around, c => marks name around c
  | node, around, c =>
      match form options call node c with
      | .error _ _ => []
      | .ok _ d => [.statement node c d around]

def landmarksIn (options : CompileOptions) (call : String → Compile Unit)
    (marks : String → Option (Compilation × Node) → Compilation → List Landmark) :
    List Node → Option (Compilation × Node) → Compilation → List Landmark
  | [], _, _ => []
  | node :: rest, around, c =>
      landmarks options call marks node around
          (c.record (.statement node.line node.kind c.pointer)) ++
        match asStatement node (form options call node) c with
        | .error _ _ => []
        | .ok _ d => landmarksIn options call marks rest around d

end

def inlineLandmarks (options : CompileOptions) :
    Nat → String → Option (Compilation × Node) → Compilation → List Landmark
  | 0, _, _, _ => []
  | depth + 1, name, around, c =>
      match enterFunction name c with
      | .error _ _ => []
      | .ok body d =>
          landmarksIn options (inline options depth) (inlineLandmarks options depth) body around
            (d.record (.inlining name d.pointer))

def programLandmarks (options : CompileOptions) (nodes : List Node) : List Landmark :=
  landmarksIn options (inline options (Compilation.initial.functions.bound nodes))
    (inlineLandmarks options (Compilation.initial.functions.bound nodes)) nodes none
    Compilation.initial

end Compile

def Landmark.stop : Landmark → Node
  | .statement node _ _ _ => node
  | .closing (.conditional line test _) _ _ _ => .conditional line test []
  | .closing (.loop line test _) _ _ _ => .loop line test []
  | .closing node _ _ _ => node

namespace Node

mutual

def stops : Node → List Node
  | conditional line test body => stopsIn body ++ [conditional line test []]
  | loop line test body => stopsIn body ++ [loop line test []]
  | node => [node]

def stopsIn : List Node → List Node
  | [] => []
  | node :: rest => node.stops ++ stopsIn rest

end

theorem stopsIn_append (nodes rest : List Node) :
    stopsIn (nodes ++ rest) = stopsIn nodes ++ stopsIn rest := by
  induction nodes with
  | nil => rfl
  | cons node nodes ih => rw [List.cons_append, stopsIn, stopsIn, ih, List.append_assoc]

end Node

inductive Passes (options : CompileOptions) : Option (Compilation × Node) → Landmark → List Node →
    Compilation → Compilation → Prop where
  | statement {around node call c d} : node.isPlain = true → form options call node c = .ok () d →
      Passes options around (.statement node c d around) [node] c d
  | endConditional {around line test body flat bodies a c c₁ c₂ d} :
      openLoop options test c = .ok a c₁ → Expands c₁.functions.bodies body flat bodies →
      Lowered options flat c₁ c₂ → closeConditional a c₂ = .ok () d →
      Passes options around (.closing (.conditional line test body) a c₁ c₂)
        [.conditional line test flat] c d
  | endLoop {around line test body flat bodies a c c₁ c₂ d} :
      openLoop options test c = .ok a c₁ → Expands c₁.functions.bodies body flat bodies →
      Lowered options flat c₁ c₂ → closeLoop a c₂ = .ok () d →
      Passes options around (.closing (.loop line test body) a c₁ c₂) [.loop line test flat] c d
  | conditional {around mark line test flat a c c₁ c₂ d} : openLoop options test c = .ok a c₁ →
      Passes options around mark flat c₁ c₂ → closeConditional a c₂ = .ok () d →
      Passes options around mark [.conditional line test flat] c d
  | loop {around mark line test body flat bodies a c c₁ c₂ d} :
      openLoop options test c = .ok a c₁ → Expands c₁.functions.bodies body flat bodies →
      Passes options (around.or (some (c, .loop line test body))) mark flat c₁ c₂ →
      closeLoop a c₂ = .ok () d → Passes options around mark [.loop line test flat] c d
  | before {around mark flat flat' c d e} : Passes options around mark flat c d →
      Lowered options flat' d e → Passes options around mark (flat ++ flat') c e
  | after {around mark flat flat' c d e} : Lowered options flat c d →
      Passes options around mark flat' d e → Passes options around mark (flat ++ flat') c e

namespace Passes

variable {options : CompileOptions} {around : Option (Compilation × Node)} {mark : Landmark}
  {flat : List Node} {c d e : Compilation}

theorem lowered (h : Passes options around mark flat c d) : Lowered options flat c d := by
  induction h with
  | statement hplain hform => exact .plain hplain hform .nil
  | endConditional hopen _ hbody hclose => exact .conditional hopen hbody hclose .nil
  | endLoop hopen _ hbody hclose => exact .loop hopen hbody hclose .nil
  | conditional hopen _ hclose ih => exact .conditional hopen ih hclose .nil
  | loop hopen _ _ hclose ih => exact .loop hopen ih hclose .nil
  | before _ hrest ih => exact ih.append hrest
  | after hfirst _ ih => exact hfirst.append ih

theorem noted (h : Passes options around mark flat d e) (hn : Noted c d) :
    Passes options around mark flat c e :=
  .after (.of_noted hn) h

theorem noted_end (h : Passes options around mark flat c d) (hn : Noted d e) :
    Passes options around mark flat c e := by
  have hpasses := h.before (.of_noted hn)
  rwa [List.append_nil] at hpasses

end Passes

namespace Compile

open Functions

variable {options : CompileOptions} {names : List String} {depth : Nat}
  {call : String → Compile Unit}
  {marks : String → Option (Compilation × Node) → Compilation → List Landmark}
  {around inner : Option (Compilation × Node)} {mark : Landmark} {c d : Compilation}

def Passed (options : CompileOptions) (around : Option (Compilation × Node)) (mark : Landmark)
    (nodes : List Node) (c d : Compilation) : Prop :=
  ∃ flat, Expands c.functions.bodies nodes flat d.functions.bodies ∧
    Passes options around mark flat c d

def Marks (options : CompileOptions) (names : List String) (depth : Nat)
    (call : String → Compile Unit)
    (marks : String → Option (Compilation × Node) → Compilation → List Landmark) : Prop :=
  ∀ {name : String} {around : Option (Compilation × Node)} {mark : Landmark} {c d : Compilation},
    Sound c → c.unsafePointer = none → Scoped names depth c.functions → call name c = .ok () d →
    mark ∈ marks name around c →
    ∃ body, c.functions.bodies.find? name = some body ∧ Passed options around mark body c d

theorem Passed.plain {node : Node} (hplain : node.isPlain = true) (h : Sound c)
    (hu : c.unsafePointer = none) (hd : form options call node c = .ok () d) :
    Passed options around (.statement node c d around) [node] c d := by
  obtain ⟨-, hfunctions, -⟩ := plain_keeps hplain h hu hd
  exact ⟨[node], by rw [hfunctions]; exact .plain hplain .nil, .statement hplain hd⟩

theorem Passed.enclose {node : Node} {body : List Node} {f : List Node → Node}
    {c₁ c₂ : Compilation} (h : Passed options inner mark body c₁ c₂)
    (hopen : c₁.functions = c.functions) (hclose : d.functions = c₂.functions)
    (hexpands : ∀ {bodies flat bodies'}, Expands bodies body flat bodies' →
      Expands bodies [node] [f flat] bodies')
    (hpasses : ∀ {flat bodies}, Expands c₁.functions.bodies body flat bodies →
      Passes options inner mark flat c₁ c₂ → Passes options around mark [f flat] c d) :
    Passed options around mark [node] c d := by
  obtain ⟨flat, hflat, hmark⟩ := h
  refine ⟨[f flat], ?_, hpasses hflat hmark⟩
  rw [hclose, ← hopen]
  exact hexpands hflat

mutual

theorem landmarks_passed (hcall : Inlines options names depth call)
    (hmarks : Marks options names depth call marks) (node : Node)
    {around : Option (Compilation × Node)} {c d : Compilation} (h : Sound c)
    (hu : c.unsafePointer = none)
    (hs : Scoped names depth c.functions) (hn : ∀ n ∈ node.defined, n ∈ names)
    (hd : form options call node c = .ok () d)
    (hmark : mark ∈ landmarks options call marks node around c) :
    Passed options around mark [node] c d := by
  cases node
  case conditional line test body =>
    obtain ⟨a, c₁, c₂, hopen, hbody, hclose, hsound, hpoint, hsame, hclosed⟩ := conditional_ok h hu hd
    simp only [landmarks, hopen, hbody, List.mem_append, List.mem_singleton] at hmark
    rcases hmark with hmark | rfl
    · exact (landmarksIn_passed hcall hmarks body hsound hpoint (hsame ▸ hs) hn hbody
        hmark).enclose hsame hclosed (f := .conditional line test)
        (fun hflat => .conditional hflat .nil) fun _ hbody => .conditional hopen hbody hclose
    · obtain ⟨flat, hexpands, hlowered, -⟩ := block_inlined hcall body hsound hpoint
        (hsame ▸ hs) hn hbody
      refine ⟨[.conditional line test flat], ?_, .endConditional hopen hexpands hlowered hclose⟩
      rw [hclosed, ← hsame]
      exact .conditional hexpands .nil
  case loop line test body =>
    obtain ⟨a, c₁, c₂, hopen, hbody, hclose, hsound, hpoint, hsame, hclosed⟩ := loop_ok h hu hd
    simp only [landmarks, hopen, hbody, List.mem_append, List.mem_singleton] at hmark
    rcases hmark with hmark | rfl
    · exact (landmarksIn_passed hcall hmarks body hsound hpoint (hsame ▸ hs) hn hbody
        hmark).enclose hsame hclosed (f := .loop line test)
        (fun hflat => .loop hflat .nil) fun hflat hbody => .loop hopen hflat hbody hclose
    · obtain ⟨flat, hexpands, hlowered, -⟩ := block_inlined hcall body hsound hpoint
        (hsame ▸ hs) hn hbody
      refine ⟨[.loop line test flat], ?_, .endLoop hopen hexpands hlowered hclose⟩
      rw [hclosed, ← hsame]
      exact .loop hexpands .nil
  case function line name body => cases hmark
  case call line name =>
    obtain ⟨body, hbody, flat, hexpands, hpasses⟩ := hmarks h hu hs hd hmark
    exact ⟨flat, .of_call hbody hexpands, hpasses⟩
  all_goals
    simp only [landmarks, hd, List.mem_singleton] at hmark
    subst hmark
    exact .plain rfl h hu hd

theorem landmarksIn_passed (hcall : Inlines options names depth call)
    (hmarks : Marks options names depth call marks) (nodes : List Node)
    {around : Option (Compilation × Node)} {c d : Compilation} (h : Sound c)
    (hu : c.unsafePointer = none)
    (hs : Scoped names depth c.functions) (hn : ∀ n ∈ Node.definedIn nodes, n ∈ names)
    (hd : block options call nodes c = .ok () d)
    (hmark : mark ∈ landmarksIn options call marks nodes around c) :
    Passed options around mark nodes c d := by
  match nodes with
  | [] => cases hmark
  | node :: rest =>
      simp only [block, bind_ok] at hd
      obtain ⟨_, e, hnode, hrest⟩ := hd
      have hform := form_of_asStatement hnode
      have hnoted : Noted c (c.record (.statement node.line node.kind c.pointer)) := .record c _
      have hn₁ (n : String) (hmem : n ∈ node.defined) : n ∈ names :=
        hn n (List.mem_append_left _ hmem)
      have hn₂ (n : String) (hmem : n ∈ Node.definedIn rest) : n ∈ names :=
        hn n (List.mem_append_right _ hmem)
      obtain ⟨flat, hexpands, hlowered, hscoped, -⟩ := form_inlined hcall node
        (hnoted.sound h) hu hs hn₁ hform
      have hfirst : Lowered options flat c e := .noted hnoted hlowered
      obtain ⟨hkeeps, hnone⟩ := hfirst.keeps h hu
      simp only [landmarksIn, hnode, List.mem_append] at hmark
      rcases hmark with hmark | hmark
      · obtain ⟨flat₁, hexpands₁, hpasses⟩ := landmarks_passed hcall hmarks node
          (hnoted.sound h) hu hs hn₁ hform hmark
        obtain ⟨flat', hexpands', hlowered', -⟩ := block_inlined hcall rest hkeeps.sound hnone
          hscoped hn₂ hrest
        obtain rfl := (hexpands₁.unique hexpands).1
        exact ⟨flat₁ ++ flat', hexpands.cons hexpands', .before (hpasses.noted hnoted) hlowered'⟩
      · obtain ⟨flat', hexpands', hpasses⟩ := landmarksIn_passed hcall hmarks rest hkeeps.sound
          hnone hscoped hn₂ hrest hmark
        exact ⟨flat ++ flat', hexpands.cons hexpands', .after hfirst hpasses⟩

end

theorem inlineLandmarks_marks (options : CompileOptions) (names : List String) (depth : Nat) :
    Marks options names depth (inline options depth) (inlineLandmarks options depth) := by
  induction depth with
  | zero =>
      intro name around mark c d _ _ _ _ hmark
      cases hmark
  | succ depth ih =>
      intro name around mark c d h hu hs hd hmark
      obtain ⟨rest, body, c₁, e, hdepth, hfind, henter, hfunctions, hentered, hscoped, hbody,
        rfl⟩ := inline_ok hs hd
      cases hdepth
      simp only [inlineLandmarks, henter] at hmark
      obtain ⟨flat, hexpands, hpasses⟩ := landmarksIn_passed
        (inline_inlines options names depth) ih body (hentered.sound h)
        (hentered.unsafePointer.trans hu) hscoped (hs.known hfind).2 hbody hmark
      rw [Compilation.record, hfunctions] at hexpands
      exact ⟨body, hfind, flat, hexpands,
        (hpasses.noted hentered).noted_end ⟨rfl, rfl, rfl, rfl, rfl, rfl⟩⟩

theorem program_passed {nodes : List Node} (hd : program options nodes c = .ok () d)
    (hmark : mark ∈ programLandmarks options nodes) :
    ∃ flat, Expands Functions.initial.bodies nodes flat d.functions.bodies ∧
      Passes options none mark flat Compilation.initial d := by
  simp only [program, statements, bind_ok, set_ok, get_ok, record_ok] at hd
  obtain ⟨_, _, rfl, _, e, ⟨_, _, ⟨rfl, rfl⟩, hblock⟩, _, _, ⟨rfl, rfl⟩, rfl⟩ := hd
  obtain ⟨flat, hexpands, hpasses⟩ := landmarksIn_passed (inline_inlines options _ _)
    (inlineLandmarks_marks options _ _) nodes Sound.initial rfl
    (Functions.scoped_bound List.nodup_nil (fun n hn => by cases hn) nodes)
    (fun n hn => List.mem_append_right _ hn) hblock hmark
  exact ⟨flat, hexpands, hpasses.noted_end (.record e _)⟩

def Covers (places : List Landmark) (nodes : List Node) (c d : Compilation) : Prop :=
  ∃ flat, Expands c.functions.bodies nodes flat d.functions.bodies ∧
    places.map Landmark.stop = Node.stopsIn flat

def CoversCalls (names : List String) (depth : Nat) (call : String → Compile Unit)
    (marks : String → Option (Compilation × Node) → Compilation → List Landmark) : Prop :=
  ∀ {name : String} {around : Option (Compilation × Node)} {c d : Compilation},
    Sound c → c.unsafePointer = none → Scoped names depth c.functions → call name c = .ok () d →
    ∃ body, c.functions.bodies.find? name = some body ∧ Covers (marks name around c) body c d

mutual

theorem landmarks_covers (hcall : Inlines options names depth call)
    (hmarks : CoversCalls names depth call marks) (node : Node)
    (around : Option (Compilation × Node)) {c d : Compilation} (h : Sound c)
    (hu : c.unsafePointer = none)
    (hs : Scoped names depth c.functions) (hn : ∀ n ∈ node.defined, n ∈ names)
    (hd : form options call node c = .ok () d) :
    Covers (landmarks options call marks node around c) [node] c d := by
  cases node
  case conditional line test body =>
    obtain ⟨a, c₁, c₂, hopen, hbody, -, hsound, hpoint, hsame, hclosed⟩ := conditional_ok h hu hd
    obtain ⟨flat, hexpands, hstops⟩ := landmarksIn_covers hcall hmarks body around hsound
      hpoint (hsame ▸ hs) hn hbody
    refine ⟨[.conditional line test flat], ?_, ?_⟩
    · rw [hclosed, ← hsame]
      exact .conditional hexpands .nil
    · simp only [landmarks, hopen, hbody, List.map_append, hstops, Node.stopsIn, Node.stops,
        List.append_nil]
      rfl
  case loop line test body =>
    obtain ⟨a, c₁, c₂, hopen, hbody, -, hsound, hpoint, hsame, hclosed⟩ := loop_ok h hu hd
    obtain ⟨flat, hexpands, hstops⟩ := landmarksIn_covers hcall hmarks body
      (around.or (some (c, .loop line test body))) hsound hpoint (hsame ▸ hs) hn hbody
    refine ⟨[.loop line test flat], ?_, ?_⟩
    · rw [hclosed, ← hsame]
      exact .loop hexpands .nil
    · simp only [landmarks, hopen, hbody, List.map_append, hstops, Node.stopsIn, Node.stops,
        List.append_nil]
      rfl
  case function line name body =>
    simp only [form, define, bind_ok, record_ok, modify_ok] at hd
    obtain ⟨_, _, rfl, rfl⟩ := hd
    exact ⟨[], .function .nil, rfl⟩
  case call line name =>
    obtain ⟨body, hbody, flat, hexpands, hstops⟩ := hmarks h hu hs hd
    exact ⟨flat, .of_call hbody hexpands, hstops⟩
  all_goals
    obtain ⟨-, hfunctions, -⟩ := plain_keeps rfl h hu hd
    exact ⟨_, by rw [hfunctions]; exact .plain rfl .nil, by simp only [landmarks, hd]; rfl⟩

theorem landmarksIn_covers (hcall : Inlines options names depth call)
    (hmarks : CoversCalls names depth call marks) (nodes : List Node)
    (around : Option (Compilation × Node)) {c d : Compilation} (h : Sound c)
    (hu : c.unsafePointer = none)
    (hs : Scoped names depth c.functions) (hn : ∀ n ∈ Node.definedIn nodes, n ∈ names)
    (hd : block options call nodes c = .ok () d) :
    Covers (landmarksIn options call marks nodes around c) nodes c d := by
  match nodes with
  | [] =>
      obtain ⟨-, rfl⟩ := pure_ok.1 hd
      exact ⟨[], .nil, rfl⟩
  | node :: rest =>
      simp only [block, bind_ok] at hd
      obtain ⟨_, e, hnode, hrest⟩ := hd
      have hform := form_of_asStatement hnode
      have hnoted : Noted c (c.record (.statement node.line node.kind c.pointer)) := .record c _
      have hn₁ (n : String) (hmem : n ∈ node.defined) : n ∈ names :=
        hn n (List.mem_append_left _ hmem)
      obtain ⟨_, -, hlowered, hscoped, -⟩ := form_inlined hcall node (hnoted.sound h) hu hs hn₁
        hform
      obtain ⟨hkeeps, hnone⟩ := hlowered.keeps (hnoted.sound h) hu
      obtain ⟨flat, hexpands, hstops⟩ := landmarks_covers hcall hmarks node around
        (hnoted.sound h) hu hs hn₁ hform
      obtain ⟨flat', hexpands', hstops'⟩ := landmarksIn_covers hcall hmarks rest around
        hkeeps.sound hnone hscoped (fun n hmem => hn n (List.mem_append_right _ hmem)) hrest
      refine ⟨flat ++ flat', hexpands.cons hexpands', ?_⟩
      simp only [landmarksIn, hnode, List.map_append, hstops, hstops', Node.stopsIn_append]

end

theorem inlineLandmarks_covers (options : CompileOptions) (names : List String) (depth : Nat) :
    CoversCalls names depth (inline options depth) (inlineLandmarks options depth) := by
  induction depth with
  | zero =>
      intro name around c d _ _ hs hd
      obtain ⟨rest, _, _, _, hzero, -⟩ := inline_ok hs hd
      cases hzero
  | succ depth ih =>
      intro name around c d h hu hs hd
      obtain ⟨rest, body, c₁, e, hdepth, hfind, henter, hfunctions, hentered, hscoped, hbody,
        rfl⟩ := inline_ok hs hd
      cases hdepth
      obtain ⟨flat, hexpands, hstops⟩ := landmarksIn_covers (inline_inlines options names depth) ih
        body around (hentered.sound h) (hentered.unsafePointer.trans hu) hscoped (hs.known hfind).2
        hbody
      rw [Compilation.record, hfunctions] at hexpands
      refine ⟨body, hfind, flat, hexpands, ?_⟩
      simp only [inlineLandmarks, henter]
      exact hstops

theorem programLandmarks_stops {nodes flat : List Node} {bodies : Table (List Node)}
    (hd : program options nodes c = .ok () d)
    (hflat : Expands Functions.initial.bodies nodes flat bodies) :
    (programLandmarks options nodes).map Landmark.stop = Node.stopsIn flat := by
  simp only [program, statements, bind_ok, set_ok, get_ok, record_ok] at hd
  obtain ⟨_, _, rfl, _, e, ⟨_, _, ⟨rfl, rfl⟩, hblock⟩, _, _, ⟨rfl, rfl⟩, rfl⟩ := hd
  obtain ⟨flat', hexpands, hstops⟩ := landmarksIn_covers (inline_inlines options _ _)
    (inlineLandmarks_covers options _ _) nodes none Sound.initial rfl
    (Functions.scoped_bound List.nodup_nil (fun n hn => by cases hn) nodes)
    (fun n hn => List.mem_append_right _ hn) hblock
  obtain ⟨rfl, -⟩ := hflat.unique hexpands
  exact hstops

def comesTo (options : CompileOptions) (nodes : List Node)
    (check : Compilation → Landmark → Bool) : Bool :=
  match program options nodes Compilation.initial with
  | .ok _ d => (programLandmarks options nodes).any (check d)
  | .error _ _ => false

theorem exists_of_comesTo {nodes : List Node} {check : Compilation → Landmark → Bool}
    (h : comesTo options nodes check = true) :
    ∃ d, program options nodes Compilation.initial = .ok () d ∧
      ∃ mark ∈ programLandmarks options nodes, check d mark = true := by
  unfold comesTo at h
  split at h
  · rename_i d hd
    exact ⟨d, hd, List.any_eq_true.1 h⟩
  · cases h

end Compile

end TapeCompiler
