import TapeCompiler.Proofs.Statements

namespace TapeCompiler

open Compile Compilation

namespace Compilation

structure Noted (c c' : Compilation) : Prop where
  layout : c'.layout = c.layout
  bindings : c'.bindings = c.bindings
  pointer : c'.pointer = c.pointer
  code : c'.code = c.code
  unsafePointer : c'.unsafePointer = c.unsafePointer
  unsafeRegion : c'.unsafeRegion = c.unsafeRegion

theorem Noted.refl (c : Compilation) : Noted c c :=
  ⟨rfl, rfl, rfl, rfl, rfl, rfl⟩

theorem Noted.record (c : Compilation) (event : Event) : Noted c (c.record event) :=
  ⟨rfl, rfl, rfl, rfl, rfl, rfl⟩

theorem Noted.trans {c d e : Compilation} (h : Noted c d) (h' : Noted d e) : Noted c e :=
  ⟨h'.layout.trans h.layout, h'.bindings.trans h.bindings, h'.pointer.trans h.pointer,
    h'.code.trans h.code, h'.unsafePointer.trans h.unsafePointer,
    h'.unsafeRegion.trans h.unsafeRegion⟩

theorem Noted.symm {c d : Compilation} (h : Noted c d) : Noted d c :=
  ⟨h.layout.symm, h.bindings.symm, h.pointer.symm, h.code.symm, h.unsafePointer.symm,
    h.unsafeRegion.symm⟩

theorem Noted.sound {c d : Compilation} (h : Noted c d) (hc : Sound c) : Sound d := by
  refine ⟨⟨h.layout ▸ hc.dense, ?_⟩, ?_, ?_, ?_, ?_⟩
  · intro name b hb
    rw [h.bindings] at hb
    rw [h.layout]
    exact hc.bound hb
  · rw [h.layout, h.unsafeRegion]
    exact hc.reserved
  · rw [h.unsafePointer, h.unsafeRegion]
    exact hc.inside
  · rw [h.unsafePointer, h.unsafeRegion]
    exact hc.outside
  · rw [h.layout, h.pointer]
    exact hc.tracked

theorem Noted.emits {c d e : Compilation} {bound : Int} {k : Code} (h : Noted c d)
    (hk : Emits bound d e k) : Emits bound c e k := by
  obtain ⟨⟨added, hadded, hflat⟩, hleads⟩ := hk
  exact ⟨⟨added, by rw [hadded, h.code], hflat⟩, by rwa [h.pointer] at hleads⟩

def Protected (touched : List String) (c : Compilation) (x : Int) : Prop :=
  c.layout.status x = .temp ∨ ∃ n i t, c.layout.status x = .named n i t ∧ n ∉ touched

variable {touched touched' : List String} {c d : Compilation} {x : Int}

theorem Protected.apart : Apart (Protected touched c) c := by
  rintro x (h | ⟨n, i, t, h, -⟩) <;> simp [h]

theorem Protected.live (h : Protected touched c x) : c.layout.status x ≠ .free := (apart h).1

theorem Protected.not_named (h : Protected touched c x) {name : String} (hname : name ∈ touched)
    {i : Int} {t : CellType} : c.layout.status x ≠ .named name i t := by
  rintro heq
  rcases h with h | ⟨n, j, u, h, hn⟩
  · rw [heq] at h
    cases h
  · rw [heq] at h
    cases h
    exact hn hname

theorem Protected.carry (h : Protected touched' c x) (hs : d.layout.status x = c.layout.status x)
    (ht : ∀ n ∈ touched, n ∈ touched') : Protected touched d x := by
  unfold Protected
  rw [hs]
  exact h.imp id fun ⟨n, i, t, hnamed, hn⟩ => ⟨n, i, t, hnamed, fun hmem => hn (ht n hmem)⟩

theorem Keeps.noted {codes : List String} {S : Int → Prop} (h : Noted c d) (hc : Sound c) :
    Keeps codes S c d :=
  .silently (h.sound hc) h.code h.pointer (by rw [h.layout]) fun _ => by rw [h.layout]

end Compilation

namespace Compile

variable {options : CompileOptions} {call : String → Compile Unit} {c d : Compilation} {a : Int}

theorem openLoop_ok {node : Node} : openLoop options node c = .ok a d ↔
    ∃ e, node.isValue = true ∧ evaluate options node c = .ok a e ∧ (e.moveTo a).emit "[" = d := by
  simp only [openLoop, bind_ok, modify_ok, pure_ok, condition]
  constructor
  · rintro ⟨_, e, he, _, _, rfl, rfl, rfl⟩
    split at he
    · rename_i hvalue
      exact ⟨e, hvalue, he, rfl⟩
    · exact absurd he fail_ok
  · rintro ⟨e, hvalue, he, rfl⟩
    exact ⟨a, e, by rwa [if_pos hvalue], (), _, rfl, rfl, rfl⟩

theorem operation_outside {node : Node} (hu : c.unsafePointer = none) :
    ¬operation options node c = .ok () d := by
  intro hd
  have hno {p : Int} {e : Compilation} : ¬unsafePointer c = .ok p e := by
    rw [unsafePointer_ok, hu]
    simp
  cases node
  case unsafeGoto line offset =>
    simp only [operation, goto, bind_ok] at hd
    obtain ⟨p, e, hp, -⟩ := hd
    exact hno hp
  case unsafeAdd line amount =>
    simp only [operation, drainAmount, bind_ok] at hd
    obtain ⟨p, e, hp, -⟩ := hd
    exact hno hp
  case unsafeReduce line amount =>
    simp only [operation, drainAmount, bind_ok] at hd
    obtain ⟨p, e, hp, -⟩ := hd
    exact hno hp
  case unsafeShow line =>
    simp only [operation, bind_ok] at hd
    obtain ⟨p, e, hp, -⟩ := hd
    exact hno hp
  case unsafeLoop line body =>
    simp only [operation, bind_ok] at hd
    obtain ⟨p, e, hp, -⟩ := hd
    exact hno hp
  case verbatim line code =>
    simp only [operation, bind_ok] at hd
    obtain ⟨p, e, hp, -⟩ := hd
    exact hno hp
  all_goals exact absurd hd fail_ok

theorem plain_keeps {node : Node} (hplain : node.isPlain = true) (h : Sound c)
    (hu : c.unsafePointer = none) (hd : form options call node c = .ok () d) :
    Keeps node.verbatims (Protected node.touched c) c d ∧ d.functions = c.functions ∧
      d.unsafePointer = none := by
  cases node
  case declare line name type length =>
    obtain ⟨base, hdeclares⟩ := declare_declares h hd
    exact ⟨hdeclares.keeps h Protected.live, hdeclares.functions, hdeclares.unsafePointer.trans hu⟩
  case assign line name index value =>
    obtain ⟨f, hdoes, -, hothers⟩ := assign_does h hd
    refine ⟨.of_does hdoes Protected.live fun bits y x hx => hothers bits y x fun i t => ?_,
      hdoes.ext.functions, hdoes.ext.unsafePointer.trans hu⟩
    exact hx.not_named (by simp [Node.touched])
  case display line value =>
    obtain ⟨hkeeps, hext⟩ := display_keeps h Protected.live hd
    exact ⟨hkeeps, hext.functions, hext.unsafePointer.trans hu⟩
  case input line name =>
    have hname : name ∈ (Node.input line name).touched := by simp [Node.touched]
    obtain ⟨hkeeps, hsame⟩ := input_keeps h (fun hx => Protected.not_named hx hname) hd
    exact ⟨hkeeps, hsame.functions, hsame.unsafePointer.trans hu⟩
  case remove line name =>
    have hname : name ∈ (Node.remove line name).touched := by simp [Node.touched]
    obtain ⟨b, hb, hremoves⟩ := remove_removes h hd
    exact ⟨hremoves.keeps h hb fun hx => Protected.not_named hx hname,
      hremoves.functions, hremoves.unsafePointer.trans hu⟩
  case unsafeBlock line size body =>
    obtain ⟨hkeeps, hscope, hnone⟩ := unsafeBlock_keeps h Protected.apart hd
    exact ⟨hkeeps, hscope.functions, hnone⟩
  all_goals first | exact absurd hd (operation_outside hu) | cases hplain

end Compile

inductive Lowered (options : CompileOptions) : List Node → Compilation → Compilation → Prop where
  | nil {c} : Lowered options [] c c
  | noted {flat c d e} : Noted c d → Lowered options flat d e → Lowered options flat c e
  | plain {node call rest c d e} : node.isPlain = true → form options call node c = .ok () d →
      Lowered options rest d e → Lowered options (node :: rest) c e
  | conditional {line test body rest a c c₁ c₂ c₃ d} : openLoop options test c = .ok a c₁ →
      Lowered options body c₁ c₂ → closeConditional a c₂ = .ok () c₃ →
      Lowered options rest c₃ d → Lowered options (.conditional line test body :: rest) c d
  | loop {line test body rest a c c₁ c₂ c₃ d} : openLoop options test c = .ok a c₁ →
      Lowered options body c₁ c₂ → closeLoop a c₂ = .ok () c₃ →
      Lowered options rest c₃ d → Lowered options (.loop line test body :: rest) c d

namespace Lowered

variable {options : CompileOptions} {flat flat' : List Node} {c d e : Compilation}

theorem append (h : Lowered options flat c d) (h' : Lowered options flat' d e) :
    Lowered options (flat ++ flat') c e := by
  induction h with
  | nil => exact h'
  | noted hn _ ih => exact .noted hn (ih h')
  | plain hplain hform _ ih => exact .plain hplain hform (ih h')
  | conditional hopen hbody hclose _ _ ih => exact .conditional hopen hbody hclose (ih h')
  | loop hopen hbody hclose _ _ ih => exact .loop hopen hbody hclose (ih h')

theorem of_noted (h : Noted c d) : Lowered options [] c d := .noted h .nil

theorem opened (codes : List String) {S : Int → Prop} {node : Node} {a : Int} (h : Sound c)
    (hlive : ∀ {x}, S x → c.layout.status x ≠ .free) (hopen : openLoop options node c = .ok a d) :
    ∃ c₁ : Compilation, d = (c₁.moveTo a).emit "[" ∧ Keeps codes S c (c₁.moveTo a) ∧ Sound d ∧
      (0 ≤ a ∧ a < c₁.layout.highWater) ∧ (c₁.moveTo a).unsafePointer = c.unsafePointer ∧
      (c.layout.status a = .free ∧ node.place? = none ∨
        ∃ name i t, c.layout.status a = .named name i t ∧ name ∈ node.place?.toList.map (·.1)) := by
  obtain ⟨c₁, -, hvalue, rfl⟩ := openLoop_ok.1 hopen
  obtain ⟨value, hyields, -, hfresh⟩ := evaluate_yields h hvalue
  have hsound := hyields.step.sound
  have hbounds := hsound.dense.bounds hyields.live
  have hkeeps : Keeps codes S c (c₁.moveTo a) :=
    (Keeps.of_yields hyields hlive).trans (.moveTo hsound hbounds)
  refine ⟨c₁, rfl, hkeeps, hkeeps.sound.of_same (.emit _ _) hkeeps.sound.tracked, hbounds,
    (Same.moveTo c₁ a).unsafePointer.trans hyields.step.ext.unsafePointer, ?_⟩
  cases hplace : node.place? with
  | none => exact .inl ⟨(hfresh hplace).free, rfl⟩
  | some place =>
      obtain ⟨name, i⟩ := place
      rw [evaluate_place hplace, element_ok] at hvalue
      obtain ⟨b, hb, hi, rfl, -⟩ := hvalue
      obtain ⟨k, rfl⟩ : ∃ k : Nat, i = k := ⟨i.toNat, by omega⟩
      exact .inr ⟨name, k, b.type, h.bound hb k (by omega), by simp⟩

theorem keeps (h : Lowered options flat c d) (hc : Sound c) (hu : c.unsafePointer = none) :
    Keeps (Node.verbatimsIn flat) (Protected (Node.touchedIn flat) c) c d ∧
      d.unsafePointer = none := by
  induction h with
  | nil => exact ⟨.refl hc, hu⟩
  | noted hn _ ih =>
      obtain ⟨hkeeps, hnone⟩ := ih (hn.sound hc) (hn.unsafePointer.trans hu)
      refine ⟨(Keeps.noted hn hc).trans (hkeeps.mono (fun _ => id) fun hx => ?_), hnone⟩
      exact hx.carry (by rw [hn.layout]) fun _ => id
  | @plain node call rest c d e hplain hform _ ih =>
      obtain ⟨hfirst, -, hnone⟩ := plain_keeps hplain hc hu hform
      obtain ⟨hrest, hnone⟩ := ih hfirst.sound hnone
      have hsub {x : Int} (hx : Protected (Node.touchedIn (node :: rest)) c x) :
          Protected node.touched c x := hx.carry rfl fun _ => List.mem_append_left _
      refine ⟨(hfirst.mono (fun _ => List.mem_append_left _) hsub).trans
        (hrest.mono (fun _ => List.mem_append_right _) fun hx => ?_), hnone⟩
      exact hx.carry (hfirst.status (hsub hx)) fun _ => List.mem_append_right _
  | @conditional line test body rest a c c₁ c₂ c₃ d hopen _ hclose _ ihbody ihrest =>
      rw [closeConditional, modify_ok] at hclose
      subst hclose
      obtain ⟨e, rfl, hkeeps, hsound, hbounds, hpoint, hplace⟩ :=
        opened (Node.verbatimsIn (.conditional line test body :: rest)) hc
          (S := Protected (Node.touchedIn (.conditional line test body :: rest)) c) Protected.live hopen
      -- The cell of the condition is cleared behind the body, so it must not be a protected one.
      have hcell : ¬Protected (Node.touchedIn (.conditional line test body :: rest)) c a := by
        intro hx
        rcases hplace with ⟨hfree, -⟩ | ⟨name, i, t, hnamed, hname⟩
        · exact hx.live hfree
        · exact hx.not_named (List.mem_append_left _ (List.mem_append_left _ hname)) hnamed
      obtain ⟨hbody, hnone⟩ := ihbody hsound (hpoint.trans hu)
      have hgrows := hbody.grows
      rw [layout_emit, layout_moveTo] at hgrows
      have hbody : Keeps (Node.verbatimsIn (.conditional line test body :: rest))
          (Protected (Node.touchedIn (.conditional line test body :: rest)) c)
          ((e.moveTo a).emit "[") c₂ :=
        hbody.mono (fun _ => List.mem_append_left _) fun hx => hx.carry (hkeeps.status hx)
          fun _ hm => List.mem_append_left _ (List.mem_append_right _ hm)
      have hloop := (hbody.trans (.clear hbody.sound (a := a) (by omega) hcell)).loop
        (c := e.moveTo a) rfl
      have hclosed := (hkeeps.trans hloop).trans
        (Keeps.freeCondition hloop.sound (a := a) fun _ => hcell)
      have hnone' : ((c₂.clear a).emit "]" |>.freeCondition a).unsafePointer = none := by
        rw [unsafePointer_freeCondition]
        exact (Same.clear c₂ a).unsafePointer.trans hnone
      obtain ⟨hrest, hdone⟩ := ihrest hclosed.sound hnone'
      refine ⟨hclosed.trans (hrest.mono (fun _ => List.mem_append_right _) fun hx => ?_), hdone⟩
      exact hx.carry (hclosed.status hx) fun _ => List.mem_append_right _
  | @loop line test body rest a c c₁ c₂ c₃ d hopen _ hclose _ ihbody ihrest =>
      rw [closeLoop, modify_ok] at hclose
      subst hclose
      obtain ⟨e, rfl, hkeeps, hsound, hbounds, hpoint, hplace⟩ :=
        opened (Node.verbatimsIn (.loop line test body :: rest)) hc
          (S := Protected (Node.touchedIn (.loop line test body :: rest)) c) Protected.live hopen
      obtain ⟨hbody, hnone⟩ := ihbody hsound (hpoint.trans hu)
      have hgrows := hbody.grows
      rw [layout_emit, layout_moveTo] at hgrows
      have hbody : Keeps (Node.verbatimsIn (.loop line test body :: rest))
          (Protected (Node.touchedIn (.loop line test body :: rest)) c)
          ((e.moveTo a).emit "[") c₂ :=
        hbody.mono (fun _ => List.mem_append_left _) fun hx => hx.carry (hkeeps.status hx)
          fun _ => List.mem_append_left _
      have hloop := (hbody.trans (.moveTo hbody.sound (a := a) (by omega))).loop
        (c := e.moveTo a) rfl
      have hclosed := (hkeeps.trans hloop).trans
        (Keeps.freeCondition hloop.sound (a := a) fun htemp hx => by
          have hstatus := (hkeeps.trans hloop).status hx
          rw [htemp] at hstatus
          rcases hplace with ⟨hfree, -⟩ | ⟨name, i, t, hnamed, -⟩
          · exact hx.live hfree
          · cases hstatus.trans hnamed)
      have hnone' : ((c₂.moveTo a).emit "]" |>.freeCondition a).unsafePointer = none := by
        rw [unsafePointer_freeCondition]
        exact (Same.moveTo c₂ a).unsafePointer.trans hnone
      obtain ⟨hrest, hdone⟩ := ihrest hclosed.sound hnone'
      refine ⟨hclosed.trans (hrest.mono (fun _ => List.mem_append_right _) fun hx => ?_), hdone⟩
      exact hx.carry (hclosed.status hx) fun _ => List.mem_append_right _

end Lowered

theorem opened_sound {options : CompileOptions} {test : Node} {a : Int} {c d : Compilation}
    (h : Sound c) (hopen : openLoop options test c = .ok a d) :
    Sound d ∧ d.unsafePointer = c.unsafePointer := by
  obtain ⟨e, rfl, -, hsound, -, hpoint, -⟩ := Lowered.opened [] (S := fun _ => False) h
    (fun hx => hx.elim) hopen
  exact ⟨hsound, hpoint⟩

end TapeCompiler
