import TapeCompiler.Proofs.Assignment
import TapeCompiler.Proofs.Region

namespace TapeCompiler

theorem Runs.loop_keeps {s : Setting} {body : Code} {bound p x : Int} (hl : body.Leads bound p p)
    (hbody : ∀ {w w' : World s.bits}, w.pointer = p → Runs s body w (.done w') →
      w'.cells x = w.cells x)
    {w w' : World s.bits} (hw : w.pointer = p) (h : Runs s (.loop body .done) w (.done w')) :
    w'.cells x = w.cells x := by
  have hkept := h.loop_invariant (P := fun u => u.pointer = p ∧ u.cells x = w.cells x) ⟨hw, rfl⟩
    fun hu _ hb => ⟨hb.pointer_eq hl hu.1, (hbody hu.1 hb).trans hu.2⟩
  exact hkept.1.2

namespace Compilation

section

variable {c d : Compilation} {a : Int}

theorem freeCondition_temp (h : c.layout.status a = .temp) : c.freeCondition a = c.free a :=
  if_pos (Layout.isTemp_iff.2 h)

theorem freeCondition_kept (h : c.layout.status a ≠ .temp) : c.freeCondition a = c :=
  if_neg (mt Layout.isTemp_iff.1 h)

theorem freeCondition_eq (c : Compilation) (a : Int) :
    c.freeCondition a = { c with layout := (c.freeCondition a).layout } := by
  unfold freeCondition
  split <;> rfl

theorem code_freeCondition (c : Compilation) (a : Int) : (c.freeCondition a).code = c.code := by
  rw [freeCondition_eq]

theorem pointer_freeCondition (c : Compilation) (a : Int) :
    (c.freeCondition a).pointer = c.pointer := by
  rw [freeCondition_eq]

theorem bindings_freeCondition (c : Compilation) (a : Int) :
    (c.freeCondition a).bindings = c.bindings := by
  rw [freeCondition_eq]

theorem functions_freeCondition (c : Compilation) (a : Int) :
    (c.freeCondition a).functions = c.functions := by
  rw [freeCondition_eq]

theorem unsafePointer_freeCondition (c : Compilation) (a : Int) :
    (c.freeCondition a).unsafePointer = c.unsafePointer := by
  rw [freeCondition_eq]

theorem highWater_freeCondition (ha : 0 ≤ a ∧ a < c.layout.highWater) :
    (c.freeCondition a).layout.highWater = c.layout.highWater := by
  by_cases htemp : c.layout.status a = .temp
  · rw [freeCondition_temp htemp]
    simp only [free, Layout.free, Layout.highWater_set _ ha.1]
    omega
  · rw [freeCondition_kept htemp]

theorem emits_freeCondition {bound : Int} {k : Code} (h : Emits bound c d k) (a : Int) :
    Emits bound c (d.freeCondition a) k := by
  rw [freeCondition_eq]
  exact ⟨h.text, h.leads⟩

end

def Moveless (code : String) : Prop := ∀ ch ∈ code.toList, ch ∉ ['<', '>', '[', ']']

/-- The second state comes from the first by compiling something that holds the machine code `codes`.
The marks of the cells `S` stay as they are. If the machine code neither moves nor loops, the code
between the states keeps the pointer where they say; if it does no more than record the tape, the
values of the cells `S` stay as they are. -/
structure Keeps (codes : List String) (S : Int → Prop) (c c' : Compilation) : Prop where
  sound : Sound c'
  grows : c.layout.highWater ≤ c'.layout.highWater
  status : ∀ {x : Int}, S x → c'.layout.status x = c.layout.status x
  code : (∀ code ∈ codes, Moveless code) → ∃ k, Emits c'.layout.highWater c c' k ∧
    ((∀ code ∈ codes, code = "&") → ∀ {s : Setting} {w w' : World s.bits}, w.pointer = c.pointer →
      Runs s k w (.done w') → ∀ {x : Int}, S x → w'.cells x = w.cells x)

variable {codes codes' : List String} {S S' : Int → Prop} {c d e : Compilation} {x a : Int}

namespace Keeps

theorem trans (h : Keeps codes S c d) (h' : Keeps codes S d e) : Keeps codes S c e := by
  refine ⟨h'.sound, h.grows.trans h'.grows, fun hx => (h'.status hx).trans (h.status hx),
    fun hm => ?_⟩
  obtain ⟨k, hk, hkeep⟩ := h.code hm
  obtain ⟨l, hl, hkeep'⟩ := h'.code hm
  refine ⟨k ++ l, (hk.mono h'.grows).trans hl, ?_⟩
  intro hq s w w' hw hrun x hx
  rcases Runs.append_iff.1 hrun with ⟨v, hv, hv'⟩ | ⟨f, v, heq, -⟩
  · rw [hkeep' hq (hv.pointer_eq hk.leads hw) hv' hx, hkeep hq hw hv hx]
  · cases heq

theorem mono (h : Keeps codes S c d) (hcodes : ∀ code ∈ codes, code ∈ codes')
    (hS : ∀ {x}, S' x → S x) : Keeps codes' S' c d := by
  refine ⟨h.sound, h.grows, fun hx => h.status (hS hx), fun hm => ?_⟩
  obtain ⟨k, hk, hkeep⟩ := h.code fun code hc => hm code (hcodes code hc)
  exact ⟨k, hk, fun hq _ _ _ hw hrun _ hx =>
    hkeep (fun code hc => hq code (hcodes code hc)) hw hrun (hS hx)⟩

theorem of_step {P : ∀ bits : Nat, (Int → BitVec bits) → (Int → BitVec bits) → Prop}
    (h : Step c d P) (hlive : ∀ {x}, S x → c.layout.status x ≠ .free)
    (hP : ∀ {bits : Nat} {y z : Int → BitVec bits}, P bits y z → ∀ {x : Int}, S x → z x = y x) :
    Keeps codes S c d := by
  obtain ⟨k, hk, hrun⟩ := h.runs
  refine ⟨h.sound, h.ext.grows, fun hx => h.ext.keeps (hlive hx), fun _ => ⟨k, hk, ?_⟩⟩
  intro _ s w w' hw hdone x hx
  obtain ⟨cells, hcells, hPcells⟩ := hrun s w hw
  cases hdone.deterministic hcells
  exact hP hPcells hx

theorem of_does {f : ∀ bits : Nat, (Int → BitVec bits) → Int → BitVec bits} (h : Does c d f)
    (hlive : ∀ {x}, S x → c.layout.status x ≠ .free)
    (hf : ∀ (bits : Nat) (y : Int → BitVec bits) {x : Int}, S x → f bits y x = y x) :
    Keeps codes S c d :=
  of_step h hlive fun hP _ hx => (hP.1 _ (hlive hx)).trans (hf _ _ hx)

theorem of_yields {value : ∀ bits : Nat, (Int → BitVec bits) → BitVec bits}
    (h : Yields c d a value) (hlive : ∀ {x}, S x → c.layout.status x ≠ .free) : Keeps codes S c d :=
  of_step h.step hlive fun hP _ hx => hP.1 _ (hlive hx)

theorem of_turns (h : Sound c) (hsame : Same c d)
    (hp : 0 ≤ d.pointer ∧ d.pointer < max 1 d.layout.highWater)
    {f : ∀ bits : Nat, (Int → BitVec bits) → Int → BitVec bits}
    (hturn : Turns d.layout.highWater c d f)
    (hf : ∀ (bits : Nat) (y : Int → BitVec bits) {x : Int}, S x → f bits y x = y x) :
    Keeps codes S c d := by
  obtain ⟨k, hk, hrun⟩ := hturn
  refine ⟨h.of_same hsame hp, by rw [hsame.layout], fun _ => by rw [hsame.layout],
    fun _ => ⟨k, hk, ?_⟩⟩
  intro _ s w w' hw hdone x hx
  cases hdone.deterministic (hrun s w hw)
  exact hf _ _ hx

theorem moveTo (h : Sound c) (ha : 0 ≤ a ∧ a < c.layout.highWater) :
    Keeps codes S c (c.moveTo a) := by
  have hp := h.tracked
  have hlayout := layout_moveTo c a
  refine of_turns h (Same.moveTo c a) ?_ (turns_moveTo ?_ ?_) fun _ _ _ _ => rfl
  · rw [hlayout, pointer_moveTo]
    omega
  · rw [hlayout]
    omega
  · rw [hlayout]
    exact ha

theorem clear (h : Sound c) (ha : 0 ≤ a ∧ a < c.layout.highWater) (hS : ¬S a) :
    Keeps codes S c (c.clear a) := by
  have hp := h.tracked
  have hlayout := layout_clear c a
  refine of_turns h (Same.clear c a) ?_ (turns_clear ?_ ?_) ?_
  · rw [hlayout, pointer_clear]
    omega
  · rw [hlayout]
    omega
  · rw [hlayout]
    exact ha
  · intro bits y x hx
    refine Function.update_of_ne ?_ _ _
    rintro rfl
    exact hS hx

theorem silently (hd : Sound d) (hcode : d.code = c.code) (hpointer : d.pointer = c.pointer)
    (hgrows : c.layout.highWater ≤ d.layout.highWater)
    (hstatus : ∀ {x : Int}, S x → d.layout.status x = c.layout.status x) : Keeps codes S c d := by
  refine ⟨hd, hgrows, hstatus, fun _ => ⟨.done, .same hcode hpointer, ?_⟩⟩
  intro _ s w w' hw hrun x hx
  cases hrun
  rfl

theorem refl (h : Sound c) : Keeps codes S c c := silently h rfl rfl (Int.le_refl _) fun _ => rfl

theorem loop (h : Keeps codes S (c.emit "[") d) (hp : d.pointer = c.pointer) :
    Keeps codes S c (d.emit "]") := by
  refine ⟨h.sound.of_same (.emit d "]") h.sound.tracked, h.grows, h.status, fun hm => ?_⟩
  obtain ⟨k, hk, hkeep⟩ := h.code hm
  refine ⟨.loop k .done, hk.loop hp, ?_⟩
  intro hq s w w' hw hrun x hx
  have hl := hk.leads
  rw [hp] at hl
  exact hrun.loop_keeps hl (fun hw' hbody => hkeep hq hw' hbody hx) hw

theorem act (h : Sound c) (action : Action) {text : String}
    (ht : Instruction.ofText text = [action.instruction]) (hs : action.shift = 0)
    (hp : 0 ≤ c.pointer ∧ c.pointer < c.layout.highWater)
    (hS : action.writes = true → ¬S c.pointer) : Keeps codes S c (c.emit text) := by
  refine ⟨h.of_same (.emit c text) h.tracked, Int.le_refl _, fun _ => rfl,
    fun _ => ⟨.act action .done, .act ht hs hp, ?_⟩⟩
  intro _ s w w' hw hrun x hx
  cases hrun with
  | act ha hrest =>
      cases hrest
      refine Action.cells_perform ha fun hwrites heq => hS hwrites ?_
      rwa [← hw, ← heq]

theorem free (h : Sound c) (ha : c.layout.status a = .temp) (hS : ¬S a) :
    Keeps codes S c (c.free a) := by
  have hb := h.dense.bounds (show c.layout.status a ≠ .free by simp [ha])
  refine silently (h.free ha) rfl rfl ?_ fun {x} hx => ?_
  · simp only [Compilation.free, Layout.free, Layout.highWater_set _ hb.1]
    omega
  · have hxa : x ≠ a := by
      rintro rfl
      exact hS hx
    simp only [Compilation.free, Layout.free, Layout.status_set_of_ne hxa]

theorem freeCondition (h : Sound c) (hS : c.layout.status a = .temp → ¬S a) :
    Keeps codes S c (c.freeCondition a) := by
  by_cases htemp : c.layout.status a = .temp
  · rw [freeCondition_temp htemp]
    exact free h htemp (hS htemp)
  · rw [freeCondition_kept htemp]
    exact refl h

theorem release (h : Sound c) (hS : c.layout.status a = .temp → ¬S a) :
    Keeps codes S c (c.release a) := by
  by_cases htemp : c.layout.status a = .temp
  · rw [release_temp htemp]
    have hclear : Keeps codes S c (c.clear a) :=
      clear h (h.dense.bounds (by simp [htemp])) (hS htemp)
    exact hclear.trans (free hclear.sound (by rw [layout_clear, htemp]) (hS htemp))
  · rw [release_kept htemp]
    exact refl h

end Keeps

end Compilation

end TapeCompiler
