import TapeCompiler.Proofs.Bench
import TapeCompiler.Proofs.Preservation

namespace TapeCompiler

open Compile Compilation

namespace Node

mutual

/-- The variables that a body has declared and not removed, after one more statement. There is no
answer if the statement removes another variable. Inside a loop there is none either if it declares
a name that is in use, or has a body that leaves variables behind. -/
def own? (looped : Bool) (outer own : List String) : Node → Option (List String)
  | declare _ name _ _ => if looped ∧ name ∈ outer ++ own then none else some (name :: own)
  | remove _ name => if name ∈ own then some (own.filter (· ≠ name)) else none
  | conditional _ _ body =>
      (ownIn? looped (outer ++ own) [] body).bind fun left =>
        if looped ∧ left ≠ [] then none else some (left ++ own)
  | loop _ _ body =>
      (ownIn? true (outer ++ own) [] body).bind fun left => if left ≠ [] then none else some own
  | _ => some own

def ownIn? (looped : Bool) (outer own : List String) : List Node → Option (List String)
  | [] => some own
  | node :: rest => (node.own? looped outer own).bind fun own => ownIn? looped outer own rest

end

end Node

theorem Compilation.Extends.named_of_named {c d : Compilation} (h : Extends c d) {x i : Int}
    {name : String} {type : CellType} (hx : d.layout.status x = .named name i type) :
    c.layout.status x = .named name i type := by
  by_cases hfree : c.layout.status x = .free
  · rcases h.takes hfree with hx' | hx' <;> cases hx'.symm.trans hx
  · rw [← h.keeps hfree, hx]

structure Within (looped : Bool) (outer own : List String) (c d : Compilation) : Prop where
  live : ∀ {x}, c.layout.status x ≠ .free → d.layout.status x = c.layout.status x
  known : ∀ {name b}, c.bindings.find? name = some b → name ∈ outer
  bound : ∀ {name b}, d.bindings.find? name = some b → name ∉ own →
    c.bindings.find? name = some b
  fresh : ∀ {name b}, d.bindings.find? name = some b → name ∈ own →
    ∀ i : Nat, i < b.length → c.layout.status (b.base + i) = .free
  kept : looped = true → ∀ {name}, name ∉ own → d.bindings.find? name = c.bindings.find? name
  new : looped = true → ∀ {name}, name ∈ own → c.bindings.find? name = none
  marked : looped = true → ∀ {x name i type}, d.layout.status x = .named name i type →
    c.layout.status x = .free →
      name ∈ own ∧ ∃ b, d.bindings.find? name = some b ∧ ∃ j : Nat, j < b.length ∧ x = b.base + j

namespace Within

variable {looped inner : Bool} {outer own left : List String} {c d e e₁ e₂ : Compilation}
  {name : String} {type : CellType} {base a : Int} {n : Nat}

theorem refl (h : ∀ {name b}, c.bindings.find? name = some b → name ∈ outer) :
    Within looped outer [] c c :=
  ⟨fun _ => rfl, h, fun hb _ => hb, fun _ hname => absurd hname List.not_mem_nil, fun _ _ _ => rfl,
    fun _ _ hname => absurd hname List.not_mem_nil,
    fun _ _ _ _ _ hnamed hfree => by rw [hfree] at hnamed; cases hnamed⟩

theorem free_of_free (h : Within looped outer own c d) {x : Int}
    (hx : d.layout.status x = .free) : c.layout.status x = .free := by
  by_contra hlive
  exact hlive ((h.live hlive).symm.trans hx)

theorem names (h : Within looped outer own c d) {b : Binding}
    (hb : d.bindings.find? name = some b) : name ∈ outer ++ own := by
  by_cases hname : name ∈ own
  · exact List.mem_append_right _ hname
  · exact List.mem_append_left _ (h.known (h.bound hb hname))

theorem extend (h : Within looped outer own c d) (he : Extends d e) :
    Within looped outer own c e := by
  refine ⟨fun hx => ?_, h.known, ?_, ?_, fun hl _ hname => ?_, h.new,
    fun hl x m i t hnamed hfree => ?_⟩
  · rw [he.keeps (by rwa [h.live hx]), h.live hx]
  · rw [he.bindings]
    exact h.bound
  · rw [he.bindings]
    exact h.fresh
  · rw [he.bindings]
    exact h.kept hl hname
  · rw [he.bindings]
    exact h.marked hl (he.named_of_named hnamed) hfree

theorem noted (h : Within looped outer own c d) (hn : Noted d e) : Within looped outer own c e := by
  refine ⟨fun hx => ?_, h.known, ?_, ?_, fun hl => ?_, h.new, fun hl => ?_⟩
  · rw [hn.layout, h.live hx]
  · rw [hn.bindings]
    exact h.bound
  · rw [hn.bindings]
    exact h.fresh
  · rw [hn.bindings]
    exact h.kept hl
  · rw [hn.bindings, hn.layout]
    exact h.marked hl

theorem declare (h : Within looped outer own c d) (he : Declares d e name type base n)
    (hnew : ¬(looped = true ∧ name ∈ outer ++ own)) : Within looped outer (name :: own) c e := by
  have hother {m : String} (hm : m ≠ name) : e.bindings.find? m = d.bindings.find? m := by
    rw [he.bindings, Table.find?_insert, if_neg (Ne.symm hm)]
  have hself : e.bindings.find? name = some ⟨base, n, type⟩ := by
    rw [he.bindings, Table.find?_insert, if_pos rfl]
  have houtside {x : Int} (hx : d.layout.status x ≠ .free) : x < base ∨ base + n ≤ x := by
    rcases Layout.inside_or_outside base x n with ⟨i, hi, rfl⟩ | hout
    · exact absurd (he.free i hi) hx
    · exact hout
  refine ⟨fun {x} hx => ?_, h.known, fun {m b} hb hm => ?_, fun {m b} hb hm => ?_,
    fun hl m hm => ?_, fun hl m hm => ?_, fun hl x m i t hnamed hfree => ?_⟩
  · have hlive := h.live hx
    rw [he.layout, Layout.status_setRange_outside (houtside (by rwa [hlive])), hlive]
  · rw [List.mem_cons, not_or] at hm
    rw [hother hm.1] at hb
    exact h.bound hb hm.2
  · intro i hi
    by_cases hname : m = name
    · subst hname
      cases hself.symm.trans hb
      exact h.free_of_free (he.free i hi)
    · rw [hother hname] at hb
      exact h.fresh hb ((List.mem_cons.1 hm).resolve_left hname) i hi
  · rw [List.mem_cons, not_or] at hm
    rw [hother hm.1, h.kept hl hm.2]
  · rcases List.mem_cons.1 hm with rfl | hm
    · refine Option.eq_none_iff_forall_not_mem.2 fun b hb => hnew ⟨hl, ?_⟩
      exact List.mem_append_left _ (h.known hb)
    · exact h.new hl hm
  · rw [he.layout] at hnamed
    rcases Layout.inside_or_outside base x n with ⟨j, hj, rfl⟩ | hout
    · rw [Layout.status_setRange_inside hj] at hnamed
      cases hnamed
      exact ⟨List.mem_cons_self, _, hself, j, hj, rfl⟩
    · rw [Layout.status_setRange_outside hout] at hnamed
      obtain ⟨hm, b, hb, hcell⟩ := h.marked hl hnamed hfree
      have hne : m ≠ name := by
        rintro rfl
        exact hnew ⟨hl, List.mem_append_right _ hm⟩
      exact ⟨List.mem_cons_of_mem _ hm, b, (hother hne).trans hb, hcell⟩

theorem remove (h : Within looped outer own c d) {b : Binding}
    (hb : d.bindings.find? name = some b) (he : Removes d e name b) (hname : name ∈ own) :
    Within looped outer (own.filter (· ≠ name)) c e := by
  have hmem {m : String} : m ∈ own.filter (· ≠ name) ↔ m ∈ own ∧ m ≠ name := by
    simp [List.mem_filter]
  have hother {m : String} (hm : m ≠ name) : e.bindings.find? m = d.bindings.find? m := by
    rw [he.bindings, Table.find?_erase, if_neg (Ne.symm hm)]
  have hself : e.bindings.find? name = none := by
    rw [he.bindings, Table.find?_erase, if_pos rfl]
  have hne {m : String} {b' : Binding} (hb' : e.bindings.find? m = some b') : m ≠ name := by
    rintro rfl
    cases hself.symm.trans hb'
  refine ⟨fun {x} hx => ?_, h.known, fun {m b'} hb' hm => ?_, fun {m b'} hb' hm => ?_,
    fun hl m hm => ?_, fun hl m hm => h.new hl (hmem.1 hm).1, fun hl x m i t hnamed hfree => ?_⟩
  · have hlive := h.live hx
    rw [he.layout]
    rcases Layout.inside_or_outside b.base x b.length with ⟨i, hi, rfl⟩ | hout
    · exact absurd (h.fresh hb hname i hi) hx
    · rw [Layout.status_setRange_outside hout, hlive]
  · have hm' := hne hb'
    rw [hother hm'] at hb'
    exact h.bound hb' fun hown => hm (hmem.2 ⟨hown, hm'⟩)
  · rw [hother (hne hb')] at hb'
    exact h.fresh hb' (hmem.1 hm).1
  · by_cases hm' : m = name
    · subst hm'
      rw [hself, h.new hl hname]
    · rw [hother hm']
      exact h.kept hl fun hown => hm (hmem.2 ⟨hown, hm'⟩)
  · rw [he.layout] at hnamed
    rcases Layout.inside_or_outside b.base x b.length with ⟨j, hj, rfl⟩ | hout
    · rw [Layout.status_setRange_inside hj] at hnamed
      cases hnamed
    · rw [Layout.status_setRange_outside hout] at hnamed
      obtain ⟨hm, b', hb', j, hj, rfl⟩ := h.marked hl hnamed hfree
      have hm' : m ≠ name := by
        rintro rfl
        cases hb.symm.trans hb'
        omega
      exact ⟨hmem.2 ⟨hm, hm'⟩, b', (hother hm').trans hb', j, hj, rfl⟩

theorem nest (h : Within looped outer own c d) (hopen : Extends d e₁)
    (hbody : Within inner (outer ++ own) left e₁ e₂)
    (hinner : looped = true → inner = true ∧ left = []) :
    Within looped outer (left ++ own) c e₂ := by
  have hbound {m : String} {b : Binding} (hb : e₂.bindings.find? m = some b) (hm : m ∉ left) :
      d.bindings.find? m = some b := by
    rw [← hopen.bindings]
    exact hbody.bound hb hm
  refine ⟨fun {x} hx => ?_, h.known, fun {m b} hb hm => ?_, fun {m b} hb hm i hi => ?_,
    fun hl m hm => ?_, fun hl m hm => ?_, fun hl x m i t hnamed hfree => ?_⟩
  · have hlive : d.layout.status x ≠ .free := by rwa [h.live hx]
    have hlive' : e₁.layout.status x ≠ .free := hopen.live hlive
    rw [hbody.live hlive', hopen.keeps hlive, h.live hx]
  · rw [List.mem_append, not_or] at hm
    exact h.bound (hbound hb hm.1) hm.2
  · by_cases hleft : m ∈ left
    · exact h.free_of_free (hopen.free_of_free (hbody.fresh hb hleft i hi))
    · exact h.fresh (hbound hb hleft) ((List.mem_append.1 hm).resolve_left hleft) i hi
  · obtain ⟨hin, rfl⟩ := hinner hl
    rw [hbody.kept hin List.not_mem_nil, hopen.bindings, h.kept hl hm]
  · obtain ⟨-, rfl⟩ := hinner hl
    exact h.new hl hm
  · obtain ⟨hin, rfl⟩ := hinner hl
    have hlive : e₁.layout.status x ≠ .free := fun hx =>
      absurd (hbody.marked hin hnamed hx).1 List.not_mem_nil
    rw [hbody.live hlive] at hnamed
    obtain ⟨hm, b, hb, hcell⟩ := h.marked hl (hopen.named_of_named hnamed) hfree
    refine ⟨hm, b, ?_, hcell⟩
    rw [hbody.kept hin List.not_mem_nil, hopen.bindings, hb]

theorem free (h : Within looped outer own c d) (ha : c.layout.status a = .free) :
    Within looped outer own c (d.free a) := by
  have hother {x : Int} (hx : x ≠ a) : (d.free a).layout.status x = d.layout.status x := by
    simp only [Compilation.free, Layout.free, Layout.status_set_of_ne hx]
  refine ⟨fun {x} hx => ?_, h.known, h.bound, h.fresh, h.kept, h.new,
    fun hl x m i t hnamed hfree => ?_⟩
  · have hne : x ≠ a := by
      rintro rfl
      exact hx ha
    rw [hother hne, h.live hx]
  · have hne : x ≠ a := by
      rintro rfl
      simp [Compilation.free, Layout.free] at hnamed
    rw [hother hne] at hnamed
    exact h.marked hl hnamed hfree

theorem opened {options : CompileOptions} {test : Node} (h : Within looped outer own c d)
    (hd : Sound d) (hopen : openLoop options test d = .ok a e) :
    Within inner (outer ++ own) [] e e := by
  obtain ⟨e, value, rfl, -, hyields, -⟩ := opened_yields hd hopen
  refine .refl fun {name b} hb => h.names (b := b) ?_
  rw [← hyields.step.ext.bindings]
  exact hb

theorem enclose {options : CompileOptions} {test : Node} {e₃ : Compilation}
    (h : Within looped outer own c d) (hd : Sound d) (hopen : openLoop options test d = .ok a e₁)
    (hbody : Within inner (outer ++ own) left e₁ e₂)
    (hinner : looped = true → inner = true ∧ left = []) (hsame : Same e₂ e₃) :
    Within looped outer (left ++ own) c (e₃.freeCondition a) := by
  obtain ⟨e, value, rfl, -, hyields, -⟩ := opened_yields hd hopen
  have hext : Extends d (e.emit "[") := hyields.step.ext.trans (.of_same (.emit e "["))
  have hnest := (h.nest hext hbody hinner).extend (.of_same hsame)
  unfold Compilation.freeCondition
  split
  · rename_i htemp
    rcases hyields.place with ⟨hfree, -⟩ | ⟨name, i, type, hnamed⟩
    · exact hnest.free (h.free_of_free hfree)
    · have hlive : (e.emit "[").layout.status a = .named name i type :=
        (hext.keeps (by simp [hnamed])).trans hnamed
      rw [Layout.isTemp_iff, hsame.layout, hbody.live (by rw [hlive]; simp), hlive] at htemp
      cases htemp
  · exact hnest

end Within

namespace Compile

variable {options : CompileOptions} {call : String → Compile Unit} {looped : Bool}
  {outer own own' : List String} {c d e : Compilation}

theorem plain_within {node : Node} (hplain : node.isPlain = true) (h : Sound d)
    (hu : d.unsafePointer = none) (hcodes : ∀ code ∈ node.verbatims, code = "&")
    (hown : node.own? looped outer own = some own') (hin : Within looped outer own c d)
    (hd : form options call node d = .ok () e) : Within looped outer own' c e := by
  cases node
  case declare line name type length =>
    obtain ⟨base, hdeclares⟩ := declare_declares h hd
    rw [Node.own?] at hown
    split at hown
    · cases hown
    · rename_i hnew
      cases hown
      exact hin.declare hdeclares hnew
  case remove line name =>
    obtain ⟨b, hb, hremoves⟩ := remove_removes h hd
    rw [Node.own?] at hown
    split at hown
    · rename_i hname
      cases hown
      exact hin.remove hb hremoves hname
    · cases hown
  case assign line name index value =>
    cases hown
    obtain ⟨f, hdoes, -, -⟩ := assign_does h hd
    exact hin.extend hdoes.ext
  case display line value =>
    cases hown
    exact hin.extend (display_extends h hd)
  case input line name =>
    cases hown
    exact hin.extend (.of_same (input_same hd))
  case unsafeBlock line size body =>
    cases hown
    exact hin.extend (unsafeBlock_extends h hcodes hd)
  all_goals first | exact absurd hd (operation_outside hu) | cases hplain

end Compile

theorem Lowered.within {options : CompileOptions} {flat : List Node} {looped : Bool}
    {outer own own' : List String} {c d e : Compilation} (h : Lowered options flat d e)
    (hd : Sound d) (hu : d.unsafePointer = none)
    (hcodes : ∀ code ∈ Node.verbatimsIn flat, code = "&")
    (hown : Node.ownIn? looped outer own flat = some own') (hin : Within looped outer own c d) :
    Within looped outer own' c e := by
  induction h generalizing looped outer own own' c with
  | nil =>
      cases hown
      exact hin
  | @noted flat d d₁ e hn hrest ih =>
      exact ih (hn.sound hd) (hn.unsafePointer.trans hu) hcodes hown (hin.noted hn)
  | @plain node call rest d d₁ e hplain hform hrest ih =>
      rw [Gathers.verbatims.cons, List.forall_mem_append] at hcodes
      obtain ⟨own₁, hfirst, hown⟩ := Option.bind_eq_some_iff.1 hown
      obtain ⟨hkeeps, -, hnone⟩ := plain_keeps hplain hd hu hform
      exact ih hkeeps.sound hnone hcodes.2 hown
        (plain_within hplain hd hu (by simpa [Node.verbatimsIn] using hcodes.1) hfirst hin hform)
  | @conditional line test body rest a d d₁ d₂ d₃ e hopen hbody hclose hrest ihbody ih =>
      rw [Gathers.verbatims.cons, Gathers.verbatims.conditional, List.forall_mem_append] at hcodes
      obtain ⟨own₁, hfirst, hown⟩ := Option.bind_eq_some_iff.1 hown
      obtain ⟨left, hleft, hfirst⟩ := Option.bind_eq_some_iff.1 hfirst
      have hnode : Lowered options [.conditional line test body] d d₃ :=
        .conditional hopen hbody hclose .nil
      obtain ⟨hkeeps, hnone⟩ := hnode.keeps hd hu
      obtain ⟨hsound, hpointer⟩ := opened_sound hd hopen
      rw [closeConditional, modify_ok] at hclose
      subst hclose
      split at hfirst
      · cases hfirst
      · rename_i hinner
        cases hfirst
        refine ih hkeeps.sound hnone hcodes.2 hown (hin.enclose hd hopen
          (ihbody hsound (hpointer.trans hu) hcodes.1 hleft (hin.opened hd hopen)) (fun hl => ?_)
          ((Same.clear d₂ a).trans (.emit _ _)))
        exact ⟨hl, by_contra fun hne => hinner ⟨hl, hne⟩⟩
  | @loop line test body rest a d d₁ d₂ d₃ e hopen hbody hclose hrest ihbody ih =>
      rw [Gathers.verbatims.cons, Gathers.verbatims.loop, List.forall_mem_append] at hcodes
      obtain ⟨own₁, hfirst, hown⟩ := Option.bind_eq_some_iff.1 hown
      obtain ⟨left, hleft, hfirst⟩ := Option.bind_eq_some_iff.1 hfirst
      have hnode : Lowered options [.loop line test body] d d₃ := .loop hopen hbody hclose .nil
      obtain ⟨hkeeps, hnone⟩ := hnode.keeps hd hu
      obtain ⟨hsound, hpointer⟩ := opened_sound hd hopen
      rw [closeLoop, modify_ok] at hclose
      subst hclose
      split at hfirst
      · cases hfirst
      · rename_i hinner
        cases hfirst
        obtain rfl : left = [] := not_not.1 hinner
        exact ih hkeeps.sound hnone hcodes.2 hown (hin.enclose hd hopen
          (ihbody hsound (hpointer.trans hu) hcodes.1 hleft (hin.opened hd hopen))
          (fun _ => ⟨rfl, rfl⟩) ((Same.moveTo d₂ a).trans (.emit _ _)))

end TapeCompiler
