import TapeCompiler.Proofs.Settled

namespace TapeCompiler

open Compilation Compile

theorem Expands.known {bodies bodies' : Table (List Node)} {nodes flat : List Node}
    (h : Expands bodies nodes flat bodies') {name : String} (hname : (bodies.find? name).isSome) :
    (bodies'.find? name).isSome := by
  induction h with
  | nil => exact hname
  | plain _ _ ih => exact ih hname
  | conditional _ _ ihb ih => exact ih (ihb hname)
  | loop _ _ ihb ih => exact ih (ihb hname)
  | function _ ih =>
      refine ih ?_
      rw [Table.find?_insert]
      split
      · rfl
      · exact hname
  | call _ _ _ ihb ih => exact ih (ihb hname)

theorem Compile.Inlined.settled {options : CompileOptions} {names : List String} {depth : Nat}
    {nodes : List Node} {c d : Compilation} (hd : Inlined options names depth nodes c d)
    (h : Settled c) (hu : c.unsafePointer = none) :
    Settled d ∧ d.unsafePointer = none ∧ Functions.Scoped names depth d.functions ∧
      c.layout.highWater ≤ d.layout.highWater := by
  obtain ⟨flat, hexpands, hlowered, hscoped, hexpanding⟩ := hd
  obtain ⟨hkeeps, hnone⟩ := hlowered.keeps h.sound hu
  refine ⟨⟨hkeeps.sound, hscoped.nodup, fun name hname => ?_⟩, hnone, hscoped, hkeeps.grows⟩
  exact hexpands.known (h.known name (hexpanding ▸ hname))

namespace Watch

variable {options : CompileOptions} {c d : Compilation}

theorem Safe.note {β : Type} {event : Event} {f : Unit → Watch β} (h : Settled c)
    (hf : (f ()).Safe (c.record event)) : (step (Compile.record event) >>= f).Safe c :=
  .change (h.record event) hf

theorem drainAmount_safe (h : Settled c) (amount : Node) (sign : Sign) :
    (drainAmount options amount sign).Safe c := by
  refine .bind (.of_look h unsafePointer_clean fun hp => (unsafePointer_ok.1 hp).2) fun {p _} hd => ?_
  obtain ⟨hp, rfl⟩ := unsafePointer_ok.1 hd
  refine (evaluate_safe h amount).bind fun {a c₁} ha => ?_
  obtain ⟨value, hyields⟩ := evaluated h ha
  have h₁ := h.extend hyields.step.ext hyields.step.sound
  have hlive : c₁.layout.status p ≠ .free :=
    hyields.step.ext.live (by simp [h.sound.reserved_of_unsafePointer hp])
  refine (addCopy_safe h₁ hyields.live hlive sign).bind fun {_ _} hd => ?_
  rw [compile_addCopy, modify_ok] at hd
  subst hd
  have hdoes := does_addCopy h₁.sound hyields.live hlive sign
  exact .of_modify ((h₁.extend hdoes.ext hdoes.sound).release a)

theorem operation_settled (node : Node) (h : Settled c)
    (hd : Compile.operation options node c = .ok () d) : Settled d := by
  obtain ⟨hkeeps, hscope⟩ := operation_sound node h.sound hd
  exact h.of_functions hkeeps.sound hscope.functions

theorem operations_settled {nodes : List Node} (h : Settled c)
    (hd : Compile.operations options nodes c = .ok () d) :
    Settled d ∧ d.unsafeRegion = c.unsafeRegion ∧ c.layout.highWater ≤ d.layout.highWater := by
  obtain ⟨hkeeps, hscope⟩ := operations_sound nodes h.sound hd
  exact ⟨h.of_functions hkeeps.sound hscope.functions, hscope.unsafeRegion, hkeeps.grows⟩

mutual

theorem operation_safe (node : Node) {c : Compilation} (h : Settled c) :
    (operation options node).Safe c := by
  have hpointer {f : Int → Compilation → Compilation} :
      Clean (unsafePointer >>= fun p => modify (f p)) :=
    .after unsafePointer_clean (fun hp => (unsafePointer_ok.1 hp).2) fun _ => clean_modify _
  cases node
  case unsafeAdd line amount => exact drainAmount_safe h amount .plus
  case unsafeReduce line amount => exact drainAmount_safe h amount .minus
  case unsafeLoop line body =>
    refine .bind (.of_look h unsafePointer_clean fun hp => (unsafePointer_ok.1 hp).2) fun {p _} hd => ?_
    obtain ⟨hp, rfl⟩ := unsafePointer_ok.1 hd
    have hbounds := h.sound.dense.bounds
      (show c.layout.status p ≠ .free by simp [h.sound.reserved_of_unsafePointer hp])
    have hopen : Settled ((c.moveTo p).emit "[") :=
      h.turn_below ((Same.moveTo c p).trans (.emit _ _)) hbounds
    refine .change hopen ((operations_safe body hopen).bind fun {_ e} hd => .of_modify ?_)
    rw [compile_operations] at hd
    obtain ⟨he, hregion, hgrows⟩ := operations_settled hopen hd
    rw [layout_emit, layout_moveTo] at hgrows
    obtain ⟨r, hr, hinside⟩ := h.sound.inside hp
    have hclose : Settled ((e.moveTo p).emit "]") :=
      he.turn_below ((Same.moveTo e p).trans (.emit _ _))
        (by rw [pointer_emit, pointer_moveTo]; omega)
    refine hclose.of_functions (hclose.sound.pointTo (r := r) ?_ hinside) rfl
    rw [((Same.moveTo e p).trans (.emit _ "]")).unsafeRegion, hregion,
      ((Same.moveTo c p).trans (.emit _ "[")).unsafeRegion, hr]
  case unsafeGoto line offset =>
    exact .of_clean h (goto_clean offset) (operation_settled (.unsafeGoto line offset) h)
  case unsafeShow line =>
    exact .of_clean h hpointer (operation_settled (.unsafeShow line) h)
  case verbatim line code =>
    exact .of_clean h hpointer (operation_settled (.verbatim line code) h)
  all_goals exact .of_fail h

theorem operations_safe (nodes : List Node) {c : Compilation} (h : Settled c) :
    (operations options nodes).Safe c := by
  match nodes with
  | [] => exact .of_pure ()
  | node :: rest =>
      refine (operation_safe node h).bind fun hd => operations_safe rest ?_
      rw [compile_operation] at hd
      exact operation_settled node h hd

end

theorem assignCell_safe {value : ∀ bits : Nat, (Int → BitVec bits) → BitVec bits} {a target : Int}
    (h : Settled c) (hyields : Yields c d a value) (ht : c.layout.status target ≠ .free) :
    (assignCell a target).Safe d := by
  unfold assignCell
  split
  · exact .of_pure ()
  · refine (detach_safe (h.extend hyields.step.ext hyields.step.sound) hyields.live).bind
      fun hd => .of_modify ?_
    have hdoes := (hyields.detach (detach_ok hd)).store ht
    exact h.extend hdoes.ext hdoes.sound

theorem assignTo_safe {target : Int} (h : Settled c) (ht : c.layout.status target ≠ .free)
    (value : Node) : (assignTo options target value).Safe c := by
  unfold assignTo
  split
  · exact setValue_safe h ht _
  · exact .of_modify (h.turn ((Same.clear _ _).trans (.emit _ _)) ht)
  · refine (evaluate_safe h _).bind fun hd => ?_
    obtain ⟨value, hyields⟩ := evaluated h hd
    exact assignCell_safe h hyields ht

theorem assign_safe (h : Settled c) (name : String) (index : Option Node) (value : Node) :
    (assign options name index value).Safe c := by
  have hplace (i : Int) : Safe (step (element name i) >>= fun target =>
      assignTo options target value) c := by
    refine .bind (.of_look h (element_clean name i) fun hd => (element_ok.1 hd).choose_spec.2.2.2)
      fun {target _} hd => ?_
    obtain ⟨b, hb, hi, rfl, rfl⟩ := element_ok.1 hd
    obtain ⟨k, rfl⟩ : ∃ k : Nat, i = k := ⟨i.toNat, by omega⟩
    exact assignTo_safe h (by simp [h.sound.bound hb k (by omega)]) value
  unfold assign
  split
  · exact hplace 0
  · split
    · exact hplace _
    · exact writeElement_safe h name _ value

theorem display_safe (h : Settled c) (value : Node) : (display options value).Safe c := by
  refine (evaluate_safe h value).bind fun {a c₁} ha => ?_
  obtain ⟨v, hyields⟩ := evaluated h ha
  have h₁ := (h.extend hyields.step.ext hyields.step.sound).turn (.moveTo c₁ a) hyields.live
  refine .change h₁ (.bind (.of_look h₁ (isTextual_clean value) fun hd => (isTextual_ok hd).1)
    fun {textual _} hd => ?_)
  obtain ⟨rfl, -⟩ := isTextual_ok hd
  have h₂ := h₁.of_functions (h₁.sound.of_same (.emit _ (if textual then "~" else "."))
    h₁.sound.tracked) rfl
  exact .change h₂ (.of_modify (h₂.release a))

theorem openLoop_safe (h : Settled c) (node : Node) : (openLoop options node).Safe c := by
  refine (condition_safe h node).bind fun {a c₁} ha => .change ?_ (.of_pure a)
  unfold condition at ha
  split at ha
  · obtain ⟨v, hyields⟩ := evaluated h ha
    exact (h.extend hyields.step.ext hyields.step.sound).turn ((Same.moveTo c₁ a).trans (.emit _ _))
      hyields.live
  · exact absurd ha fail_ok

theorem unsafeBlock_safe (h : Settled c) (size : Int) (body : List Node) :
    (unsafeBlock options size body).Safe c := by
  unfold unsafeBlock
  split
  · exact .of_fail h
  · rename_i hsize
    refine .look ?_
    dsimp only
    split
    · exact .of_fail h
    · rename_i hnone
      have hsize : 0 < size := by omega
      have henter : Settled (c.enterBlock size) :=
        h.of_functions (enterBlock_sound h.sound (by simpa using hnone) hsize)
          (same_clearReused c _ size).functions
      have hreserved := (henter.sound.reserved (c.layout.firstFit size)).2
        ⟨⟨c.layout.firstFit size, size⟩, rfl, by dsimp only; omega⟩
      have hmoved := henter.turn (.moveTo _ (c.layout.firstFit size)) (by simp [hreserved])
      refine .change henter (.ensuring (.change hmoved ((operations_safe body hmoved).bind fun _ =>
        .of_quiet fun herror => by cases herror)) (fun {_ d} hd => ?_) fun d => ⟨rfl, rfl⟩)
      simp only [compile_bind, compile_step, compile_quiet, compile_operations, bind_ok,
        modify_ok] at hd
      obtain ⟨_, _, rfl, _, e, hbody, rfl⟩ := hd
      obtain ⟨he, hregion, -⟩ := operations_settled hmoved hbody
      rw [(Same.moveTo _ _).unsafeRegion] at hregion
      have hleave : Keeps [] (fun _ => False) e
          (e.clearAndFree (addresses (c.layout.firstFit size) size.toNat)).leaveBlock :=
        leaveBlock_keeps he.sound hsize hregion fun hx => hx.elim
      have hsame := same_sweep e (c.layout.firstFit size)
        (fun i layout => layout.free (c.layout.firstFit size + i)) size.toNat
      rw [← clearAndFree_eq] at hsame
      exact he.of_functions hleave.sound hsame.functions

theorem asStatement_safe {node : Node} {w : Watch Unit} (h : Settled c)
    (hw : ∀ event, w.Safe (c.record event)) : (asStatement node w).Safe c := by
  unfold asStatement
  split
  · exact .look (.note h (.locate (hw _)))
  · exact .of_fail h

theorem declare_safe (h : Settled c) (name : String) (type : CellType) (length : Option Int) :
    (step (Compile.declare name type length)).Safe c := by
  refine .of_step (fun hd => ?_) fun {error d} hd => ?_
  · obtain ⟨base, hdeclares⟩ := declare_declares h.sound hd
    exact h.of_functions (hdeclares.sound h.sound) hdeclares.functions
  · rcases declare_error hd with rfl | rfl
    · exact h
    · exact h.record _

theorem define_safe (h : Settled c) (name : String) (body : List Node) :
    (step (Compile.define name body)).Safe c := by
  refine .of_step (fun hd => ?_) fun hd => by cases hd
  simp only [Compile.define, bind_ok, record_ok, modify_ok] at hd
  obtain ⟨_, _, rfl, rfl⟩ := hd
  have hsound : Noted c { c.record (.registered name body.length) with
    functions := c.functions.define name body } := ⟨rfl, rfl, rfl, rfl, rfl, rfl⟩
  refine ⟨hsound.sound h.sound, h.nodup, fun n hn => ?_⟩
  change ((c.functions.bodies.insert name body).find? n).isSome
  rw [Table.find?_insert]
  split
  · rfl
  · exact h.known n hn

section

variable {names : List String} {depth : Nat} {call : String → Watch Unit}
  {call' : String → Compile Unit}

theorem opened_safe {test : Node} {body : Watch Unit} {close : Int → Compile Unit}
    (nodes : List Node) (h : Settled c) (hu : c.unsafePointer = none) (hs : Functions.Scoped names depth c.functions)
    (hbody : ∀ {d}, Settled d → d.unsafePointer = none → Functions.Scoped names depth d.functions →
      body.Safe d ∧ ∀ {e}, body.compile d = .ok () e → Inlined options names depth nodes d e)
    (hclose : ∀ {a e}, Settled e → 0 ≤ a ∧ a < e.layout.highWater → (step (close a)).Safe e) :
    Safe (do
      let a ← openLoop options test
      body
      step (close a)) c := by
  refine (openLoop_safe h test).bind fun {a c₁} ha => ?_
  rw [compile_openLoop] at ha
  have hfunctions := functions_openLoop h.sound ha
  obtain ⟨e, rfl, -, hsound, hbounds, hpoint, -⟩ := Lowered.opened [] (S := fun _ => False) h.sound
    (fun hx => hx.elim) ha
  have h₁ := h.of_functions hsound hfunctions
  obtain ⟨hsafe, hinlined⟩ := hbody h₁ (hpoint.trans hu) (hfunctions ▸ hs)
  refine hsafe.bind fun {_ c₂} hd => ?_
  obtain ⟨h₂, -, -, hgrows⟩ := (hinlined hd).settled h₁ (hpoint.trans hu)
  rw [layout_emit, layout_moveTo] at hgrows
  exact hclose h₂ (by omega)

theorem closeLoop_safe {a : Int} (h : Settled c) (ha : 0 ≤ a ∧ a < c.layout.highWater) :
    (step (Compile.closeLoop a)).Safe c :=
  .of_modify ((h.turn_below ((Same.moveTo c a).trans (.emit _ _)) ha).freeCondition a)

theorem closeConditional_safe {a : Int} (h : Settled c) (ha : 0 ≤ a ∧ a < c.layout.highWater) :
    (step (Compile.closeConditional a)).Safe c :=
  .of_modify ((h.turn_below ((Same.clear c a).trans (.emit _ _)) ha).freeCondition a)

mutual

theorem form_safe (hcompile : ∀ name, (call name).compile = call' name)
    (hcall : Inlines options names depth call')
    (hsafe : ∀ {name c}, Settled c → c.unsafePointer = none →
      Functions.Scoped names depth c.functions → (call name).Safe c)
    (node : Node) {c : Compilation} (h : Settled c) (hu : c.unsafePointer = none)
    (hs : Functions.Scoped names depth c.functions) (hn : ∀ n ∈ node.defined, n ∈ names) :
    (form options call node).Safe c := by
  cases node
  case declare line name type length => exact declare_safe h name type length
  case assign line name index value => exact assign_safe h name index value
  case display line value => exact display_safe h value
  case input line name =>
    refine .of_clean h (input_clean name) fun {_ d} hd => ?_
    have hkeeps : Keeps [] (fun _ => False) c d ∧ Same c d :=
      input_keeps h.sound (fun hx => hx.elim) hd
    exact h.of_functions hkeeps.1.sound hkeeps.2.functions
  case remove line name =>
    refine .of_clean h (remove_clean name) fun hd => ?_
    obtain ⟨b, hb, hremoves⟩ := remove_removes h.sound hd
    exact h.of_functions (hremoves.sound h.sound hb) hremoves.functions
  case conditional line test body =>
    refine opened_safe body h hu hs (fun hd hnone hscoped =>
      ⟨block_safe hcompile hcall hsafe body hd hnone hscoped hn, fun he => ?_⟩) closeConditional_safe
    rw [compile_block options hcompile] at he
    exact block_inlined hcall body hd.sound hnone hscoped hn he
  case loop line test body =>
    refine opened_safe body h hu hs (fun hd hnone hscoped =>
      ⟨block_safe hcompile hcall hsafe body hd hnone hscoped hn, fun he => ?_⟩) closeLoop_safe
    rw [compile_block options hcompile] at he
    exact block_inlined hcall body hd.sound hnone hscoped hn he
  case unsafeBlock line size body => exact unsafeBlock_safe h size body
  case function line name body => exact define_safe h name body
  case call line name => exact hsafe h hu hs
  all_goals exact operation_safe _ h

theorem block_safe (hcompile : ∀ name, (call name).compile = call' name)
    (hcall : Inlines options names depth call')
    (hsafe : ∀ {name c}, Settled c → c.unsafePointer = none →
      Functions.Scoped names depth c.functions → (call name).Safe c)
    (nodes : List Node) {c : Compilation} (h : Settled c) (hu : c.unsafePointer = none)
    (hs : Functions.Scoped names depth c.functions) (hn : ∀ n ∈ Node.definedIn nodes, n ∈ names) :
    (block options call nodes).Safe c := by
  match nodes with
  | [] => exact .of_pure ()
  | node :: rest =>
      have hnode (n : String) (hmem : n ∈ node.defined) : n ∈ names :=
        hn n (List.mem_append_left _ hmem)
      refine (asStatement_safe h fun event => form_safe hcompile hcall hsafe node (h.record event) hu
        hs hnode).bind fun {_ e} he => ?_
      rw [compile_asStatement, compile_form options hcompile] at he
      have hone : Compile.block options call' [node] c = .ok () e := bind_ok.2 ⟨(), e, he, rfl⟩
      obtain ⟨h₁, hnone, hscoped, -⟩ := (block_inlined hcall [node] h.sound hu hs
        (fun n hmem => hnode n (by simpa [Node.definedIn] using hmem)) hone).settled h hu
      exact block_safe hcompile hcall hsafe rest h₁ hnone hscoped
        fun n hmem => hn n (List.mem_append_right _ hmem)

end

end

theorem inline_safe (options : CompileOptions) (names : List String) (depth : Nat) {name : String}
    {c : Compilation} (h : Settled c) (hu : c.unsafePointer = none)
    (hs : Functions.Scoped names depth c.functions) : (inline options depth name).Safe c := by
  induction depth generalizing name c with
  | zero =>
      have hno {body : List Node} {d : Compilation} : ¬enterFunction name c = .ok body d := by
        rw [enterFunction_ok]
        rintro ⟨functions, he, -⟩
        obtain ⟨rest, hzero, -⟩ := hs.enter he
        cases hzero
      exact .bind (.of_clean h (enterFunction_clean name) fun hd => absurd hd hno)
        fun hd => absurd hd hno
  | succ depth ih =>
      have hentered {body : List Node} {d : Compilation} (hd : enterFunction name c = .ok body d) :
          Settled d ∧ d.unsafePointer = none ∧ Functions.Scoped names depth d.functions ∧
            c.functions.bodies.find? name = some body := by
        obtain ⟨functions, he, rfl⟩ := enterFunction_ok.1 hd
        obtain ⟨rest, hrest, hscoped⟩ := hs.enter he
        obtain rfl : depth = rest := by omega
        obtain ⟨hfind, -, rfl⟩ := Functions.enter_ok.1 he
        have hnoted : Noted c { c with functions :=
            { c.functions with expanding := c.functions.expanding ++ [name] } } :=
          ⟨rfl, rfl, rfl, rfl, rfl, rfl⟩
        refine ⟨⟨hnoted.sound h.sound, hscoped.nodup, fun n hn => ?_⟩, hu, hscoped, hfind⟩
        rcases List.mem_append.1 hn with hn | hn
        · exact h.known n hn
        · rw [List.mem_singleton.1 hn]
          exact Option.isSome_iff_exists.2 ⟨body, hfind⟩
      refine .bind (.of_clean h (enterFunction_clean name) fun hd => (hentered hd).1)
        fun {body d} hd => ?_
      obtain ⟨hd', hnone, hscoped, hfind⟩ := hentered hd
      refine .ensuring (.look (.note hd' (block_safe (compile_inline options depth)
        (inline_inlines options names depth) (fun hc hu hs => ih hc hu hs) body (hd'.record _) hnone
        hscoped (hs.known hfind).2))) (fun {_ e} he => ?_) fun e => ⟨rfl, rfl⟩
      simp only [compile_bind, compile_quiet, compile_step,
        compile_block options (compile_inline options depth)] at he
      have hinline : Compile.inline options (depth + 1) name c = .ok () (leaveFunction e) :=
        bind_ok.2 ⟨body, d, hd, ensuring_ok.2 ⟨e, he, rfl⟩⟩
      obtain ⟨_, hfind', hinlined⟩ := inline_inlines options names (depth + 1) h.sound hu hs hinline
      exact (hinlined.settled h hu).1

theorem statements_safe (h : Settled c) (hu : c.unsafePointer = none) (nodes : List Node) :
    (statements options nodes).Safe c :=
  .look (block_safe (compile_inline options _) (inline_inlines options _ _)
    (fun hc hu hs => inline_safe options _ _ hc hu hs) nodes h hu
    (Functions.scoped_bound h.nodup h.known nodes) fun _ hn => List.mem_append_right _ hn)

theorem program_safe (options : CompileOptions) (nodes : List Node) (c : Compilation) :
    (program options nodes).Safe c := by
  refine .bind (.of_step (fun hd => set_ok.1 hd ▸ Settled.initial) fun hd => by cases hd) fun hd => ?_
  obtain rfl := set_ok.1 hd
  refine (statements_safe .initial rfl nodes).bind fun {_ e} he => .look ?_
  rw [compile_statements] at he
  simp only [Compile.statements, bind_ok, get_ok] at he
  obtain ⟨_, _, ⟨rfl, rfl⟩, he⟩ := he
  have hinlined := block_inlined (inline_inlines options _ _) nodes .initial rfl
    (Functions.scoped_bound Settled.initial.nodup Settled.initial.known nodes)
    (fun n hn => List.mem_append_right _ hn) he
  exact .of_modify ((hinlined.settled .initial rfl).1.record _)

theorem mem_passed_program {nodes : List Node} (hd : Compile.program options nodes c = .ok () d) :
    d ∈ (program options nodes).passed c := by
  simp only [Compile.program, bind_ok, set_ok, get_ok, record_ok] at hd
  obtain ⟨_, _, rfl, _, e, he, _, _, ⟨rfl, rfl⟩, rfl⟩ := hd
  rw [← compile_statements] at he
  exact mem_passed_bind.2 (.inr ⟨_, _, rfl, mem_passed_bind.2 (.inr ⟨_, _, he,
    mem_passed_bind.2 (.inr ⟨_, _, rfl, List.mem_singleton_self _⟩)⟩)⟩)

end Watch

theorem Compilation.Coherent.disjoint {c : Compilation} (h : Coherent c) {name name' : String}
    {b b' : Binding} (hb : c.bindings.find? name = some b) (hb' : c.bindings.find? name' = some b')
    (hne : name ≠ name') {i j : Nat} (hi : i < b.length) (hj : j < b'.length) :
    b.base + (i : Int) ≠ b'.base + j := by
  intro heq
  have hnamed := h.bound hb i hi
  rw [heq, h.bound hb' j hj] at hnamed
  exact hne (Occupancy.named.inj hnamed).1.symm

theorem allocation_invariant (options : CompileOptions) (nodes : List Node) (start : Compilation) :
    (Watch.program options nodes).compile = Compile.program options nodes ∧
    (∀ d, Compile.program options nodes start = .ok () d →
      d ∈ (Watch.program options nodes).passed start) ∧
    (∀ error d, Compile.program options nodes start = .error error d →
      ∃ c ∈ (Watch.program options nodes).passed start,
        c.layout = d.layout ∧ c.bindings = d.bindings) ∧
    ∀ c ∈ (Watch.program options nodes).passed start,
      (∀ a, (∃ o, (a, o) ∈ c.layout.cells) ↔ 0 ≤ a ∧ a < c.layout.highWater) ∧
      (∀ name b, c.bindings.find? name = some b → ∀ i : Nat, i < b.length →
        c.layout.status (b.base + i) = .named name i b.type) ∧
      (∀ name name' b b', c.bindings.find? name = some b → c.bindings.find? name' = some b' →
        name ≠ name' → ∀ i j : Nat, i < b.length → j < b'.length →
        b.base + (i : Int) ≠ b'.base + j) ∧
      (∀ a, c.layout.status a = .reserved ↔
        ∃ r, c.unsafeRegion = some r ∧ r.start ≤ a ∧ a < r.start + r.size) ∧
      (c.unsafePointer.isSome ↔ c.unsafeRegion.isSome) ∧
      0 ≤ c.layout.lowestFree ∧ c.layout.status c.layout.lowestFree = .free ∧
      ∀ a, 0 ≤ a → a < c.layout.lowestFree → c.layout.status a ≠ .free := by
  have hsafe := Watch.program_safe options nodes start
  refine ⟨Watch.compile_program options nodes, fun d => Watch.mem_passed_program,
    fun error d hd => hsafe.failed (Watch.compile_program options nodes ▸ hd), fun c hc => ?_⟩
  have h := (hsafe.passed c hc).sound
  obtain ⟨hfree, hlow, -, hleast⟩ := Layout.lowestFree_spec h.dense
  refine ⟨h.dense, fun name b => h.bound,
    fun name name' b b' hb hb' hne i j => h.disjoint hb hb' hne, h.reserved, ?_, hlow, hfree, hleast⟩
  constructor
  · intro hp
    obtain ⟨p, hp⟩ := Option.isSome_iff_exists.1 hp
    obtain ⟨r, hr, -⟩ := h.inside hp
    exact Option.isSome_iff_exists.2 ⟨r, hr⟩
  · intro hr
    by_contra hp
    rw [h.outside (by simpa using hp)] at hr
    cases hr

def Node.overrun : List Node :=
  [.declare 1 "a" .number (some 2),
    .unsafeBlock 2 2 [.unsafeAdd 3 (.var "a" (some (.literal 1 false))), .unsafeGoto 4 2]]

theorem allocation_invariant_overrun :
    ∃ c ∈ (Watch.program {} Node.overrun).passed Compilation.initial,
      c.unsafeRegion = some ⟨2, 2⟩ ∧ c.bindings.find? "a" = some ⟨0, 2, .number⟩ ∧
      c.layout.status 1 = .named "a" 1 .number ∧ c.layout.status 3 = .reserved ∧
      c.unsafePointer.isSome ∧ c.layout.status c.layout.lowestFree = .free := by
  have hany : ((Watch.program {} Node.overrun).passed Compilation.initial).any (fun c =>
      c.unsafeRegion = some ⟨2, 2⟩ ∧ c.bindings.find? "a" = some ⟨0, 2, .number⟩) = true := by
    decide +kernel
  obtain ⟨c, hc, hopen⟩ := List.any_eq_true.1 hany
  obtain ⟨hregion, hbound⟩ := of_decide_eq_true hopen
  obtain ⟨-, -, -, hall⟩ := allocation_invariant {} Node.overrun Compilation.initial
  obtain ⟨-, hnamed, -, hreserved, hblock, -, hfree, -⟩ := hall c hc
  exact ⟨c, hc, hregion, hbound, hnamed "a" _ hbound 1 (by decide),
    (hreserved 3).2 ⟨_, hregion, by decide, by decide⟩, hblock.2 (by rw [hregion]; rfl), hfree⟩

end TapeCompiler
