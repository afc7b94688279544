import TapeCompiler.Proofs.Landmarks
import TapeCompiler.Proofs.Recompilation

namespace TapeCompiler

open Compile Compilation

inductive Fate where
  | redeclared
  | removed
  deriving DecidableEq, Repr

namespace Node

mutual

def fate? (name : String) : Node → Option Fate
  | declare _ other _ _ => if other = name then some .redeclared else none
  | remove _ other => if other = name then some .removed else none
  | conditional _ _ body => fateIn? name body
  | loop _ _ body => fateIn? name body
  | _ => none

def fateIn? (name : String) : List Node → Option Fate
  | [] => none
  | node :: rest => (node.fate? name).or (fateIn? name rest)

end

end Node

namespace Compilation

def Marked (name : String) (a : Int) (c : Compilation) : Prop :=
  ∃ i type, c.layout.status a = .named name i type

def Left (name : String) (a : Int) (c : Compilation) : Prop :=
  c.Marked name a ∧ ∀ b, c.bindings.find? name = some b → a < b.base ∨ b.base + b.length ≤ a

end Compilation

structure Spares (name : String) (a : Int) (fate : Option Fate) (c d : Compilation) : Prop where
  left : c.Left name a → d.Left name a
  kept : fate = none → c.Marked name a → d.Marked name a
  leaves : fate = some .redeclared → c.Marked name a → d.Left name a

namespace Spares

variable {name other : String} {a base : Int} {n : Nat} {type : CellType} {fate fate' : Option Fate}
  {b : Binding} {c d e : Compilation}

theorem trans (h : Spares name a fate c d) (h' : Spares name a fate' d e) :
    Spares name a (fate.or fate') c e := by
  refine ⟨fun hleft => h'.left (h.left hleft), fun hfate hmarked => ?_, fun hfate hmarked => ?_⟩
  · rw [Option.or_eq_none_iff] at hfate
    exact h'.kept hfate.2 (h.kept hfate.1 hmarked)
  · rcases Option.or_eq_some_iff.1 hfate with hfirst | ⟨hfirst, hsecond⟩
    · exact h'.left (h.leaves hfirst hmarked)
    · exact h'.leaves hsecond (h.kept hfirst hmarked)

theorem marked (h : Spares name a fate c d) (hfate : fate ≠ some .removed)
    (hmarked : c.Marked name a) : d.Marked name a := by
  cases fate with
  | none => exact h.kept rfl hmarked
  | some fate =>
      cases fate with
      | redeclared => exact (h.leaves rfl hmarked).1
      | removed => exact absurd rfl hfate

theorem of_eq (hstatus : c.Marked name a → d.layout.status a = c.layout.status a)
    (hbindings : d.bindings = c.bindings) : Spares name a none c d := by
  have hkept (hmarked : c.Marked name a) : d.Marked name a := by
    rw [Marked, hstatus hmarked]
    exact hmarked
  refine ⟨fun hleft => ⟨hkept hleft.1, ?_⟩, fun _ => hkept, fun hfate => by cases hfate⟩
  rw [hbindings]
  exact hleft.2

theorem of_extends (h : Extends c d) : Spares name a none c d :=
  .of_eq (fun ⟨_, _, hnamed⟩ => h.keeps (by simp [hnamed])) h.bindings

theorem freeCondition (c : Compilation) (x : Int) : Spares name a none c (c.freeCondition x) := by
  refine .of_eq (fun ⟨i, type, hnamed⟩ => ?_) (bindings_freeCondition c x)
  by_cases htemp : c.layout.status x = .temp
  · have hx : a ≠ x := by
      rintro rfl
      cases hnamed.symm.trans htemp
    rw [freeCondition_temp htemp]
    exact Layout.status_set_of_ne hx
  · rw [freeCondition_kept htemp]

theorem enclose {c₁ c₂ : Compilation} (h : Spares name a fate c₁ c₂) (hopen : Extends c c₁)
    (hclose : Same c₂ d) (x : Int) : Spares name a fate c (d.freeCondition x) := by
  have hend : Spares name a none c₂ (d.freeCondition x) :=
    (of_extends (.of_same hclose)).trans (freeCondition d x)
  simpa using (of_extends hopen).trans (h.trans hend)

theorem declare (h : Declares c d other type base n) :
    Spares name a (if other = name then some .redeclared else none) c d := by
  have hout (hmarked : c.Marked name a) : a < base ∨ base + n ≤ a := by
    obtain ⟨i, t, hnamed⟩ := hmarked
    rcases Layout.inside_or_outside base a n with ⟨j, hj, rfl⟩ | hout
    · rw [h.free j hj] at hnamed
      cases hnamed
    · exact hout
  have hkept (hmarked : c.Marked name a) : d.Marked name a := by
    rw [Marked, h.layout, Layout.status_setRange_outside (hout hmarked)]
    exact hmarked
  refine ⟨fun hleft => ⟨hkept hleft.1, fun b hb => ?_⟩, fun _ => hkept,
    fun hfate hmarked => ⟨hkept hmarked, fun b hb => ?_⟩⟩
  · rw [h.bindings, Table.find?_insert] at hb
    split at hb
    · cases hb
      exact hout hleft.1
    · exact hleft.2 b hb
  · have hname : other = name := by
      by_contra hne
      rw [if_neg hne] at hfate
      cases hfate
    rw [h.bindings, Table.find?_insert, if_pos hname] at hb
    cases hb
    exact hout hmarked

theorem remove (h : Sound c) (hb : c.bindings.find? other = some b) (hd : Removes c d other b) :
    Spares name a (if other = name then some .removed else none) c d := by
  have hkept (hmarked : c.Marked name a) (hout : a < b.base ∨ b.base + b.length ≤ a) :
      d.Marked name a := by
    rw [Marked, hd.layout, Layout.status_setRange_outside hout]
    exact hmarked
  have hother (hname : other ≠ name) (hmarked : c.Marked name a) :
      a < b.base ∨ b.base + b.length ≤ a := by
    obtain ⟨i, t, hnamed⟩ := hmarked
    rcases Layout.inside_or_outside b.base a b.length with ⟨j, hj, rfl⟩ | hout
    · rw [h.bound hb j hj] at hnamed
      cases hnamed
      exact absurd rfl hname
    · exact hout
  refine ⟨fun hleft => ⟨?_, fun b' hb' => ?_⟩, fun hfate hmarked => ?_, fun hfate => ?_⟩
  · by_cases hname : other = name
    · exact hkept hleft.1 (hleft.2 b (hname ▸ hb))
    · exact hkept hleft.1 (hother hname hleft.1)
  · rw [hd.bindings, Table.find?_erase] at hb'
    split at hb'
    · cases hb'
    · exact hleft.2 b' hb'
  · have hname : other ≠ name := by
      rintro rfl
      rw [if_pos rfl] at hfate
      cases hfate
    exact hkept hmarked (hother hname hmarked)
  · split at hfate <;> cases hfate

end Spares

namespace Compile

variable {options : CompileOptions} {call : String → Compile Unit} {c d : Compilation}

theorem plain_spares {node : Node} (hplain : node.isPlain = true) (h : Sound c)
    (hu : c.unsafePointer = none) (hd : form options call node c = .ok () d) (name : String)
    (a : Int) : Spares name a (node.fate? name) c d := by
  cases node
  case declare line other type length =>
    obtain ⟨base, hdeclares⟩ := declare_declares h hd
    exact .declare hdeclares
  case remove line other =>
    obtain ⟨b, hb, hremoves⟩ := remove_removes h hd
    exact .remove h hb hremoves
  case assign line other index value =>
    obtain ⟨f, hdoes, -, -⟩ := assign_does h hd
    exact .of_extends hdoes.ext
  case display line value => exact .of_extends (display_extends h hd)
  case input line other => exact .of_extends (.of_same (input_same hd))
  case unsafeBlock line size body =>
    have hapart : Apart (Protected [] c) c := Protected.apart
    obtain ⟨hkeeps, hscope, -⟩ := unsafeBlock_keeps h hapart hd
    exact .of_eq (fun ⟨i, t, hnamed⟩ => hkeeps.status (.inr ⟨name, i, t, hnamed, List.not_mem_nil⟩))
      hscope.bindings
  all_goals first | exact absurd hd (operation_outside hu) | cases hplain

end Compile

theorem Lowered.spares {options : CompileOptions} {flat : List Node} {c d : Compilation}
    (h : Lowered options flat c d) (hc : Sound c) (hu : c.unsafePointer = none) (name : String)
    (a : Int) : Spares name a (Node.fateIn? name flat) c d := by
  induction h with
  | nil => exact .of_eq (fun _ => rfl) rfl
  | @noted flat c d e hn _ ih =>
      have hnoted : Spares name a none c d := .of_eq (fun _ => by rw [hn.layout]) hn.bindings
      exact hnoted.trans (ih (hn.sound hc) (hn.unsafePointer.trans hu))
  | plain hplain hform _ ih =>
      obtain ⟨hkeeps, -, hnone⟩ := plain_keeps hplain hc hu hform
      exact (plain_spares hplain hc hu hform name a).trans (ih hkeeps.sound hnone)
  | @conditional line test body rest x c c₁ c₂ c₃ d hopen hbody hclose _ ihbody ih =>
      have hnode : Lowered options [.conditional line test body] c c₃ :=
        .conditional hopen hbody hclose .nil
      obtain ⟨hkeeps, hnone⟩ := hnode.keeps hc hu
      obtain ⟨hsound, hpoint⟩ := opened_sound hc hopen
      obtain ⟨e, rfl, hopens⟩ := openLoop_opens hc hopen
      rw [closeConditional, modify_ok] at hclose
      subst hclose
      exact ((ihbody hsound (hpoint.trans hu)).enclose
        (hopens.ext.trans (.of_same (.emit e "["))) ((Same.clear c₂ x).trans (.emit _ "]")) x).trans
        (ih hkeeps.sound hnone)
  | @loop line test body rest x c c₁ c₂ c₃ d hopen hbody hclose _ ihbody ih =>
      have hnode : Lowered options [.loop line test body] c c₃ := .loop hopen hbody hclose .nil
      obtain ⟨hkeeps, hnone⟩ := hnode.keeps hc hu
      obtain ⟨hsound, hpoint⟩ := opened_sound hc hopen
      obtain ⟨e, rfl, hopens⟩ := openLoop_opens hc hopen
      rw [closeLoop, modify_ok] at hclose
      subst hclose
      exact ((ihbody hsound (hpoint.trans hu)).enclose
        (hopens.ext.trans (.of_same (.emit e "["))) ((Same.moveTo c₂ x).trans (.emit _ "]"))
        x).trans (ih hkeeps.sound hnone)

section

variable {options : CompileOptions} {nodes : List Node} {node : Node} {a : Int}
  {c d opened reached : Compilation}

theorem Passes.closes {around : Option (Compilation × Node)} {flat : List Node}
    (h : Passes options around (.closing node a opened reached) flat c d) (hc : Sound c)
    (hu : c.unsafePointer = none) :
    ∃ line test body flat bodies e, (node = .conditional line test body ∨
        node = .loop line test body) ∧ Sound e ∧ e.unsafePointer = none ∧
      openLoop options test e = .ok a opened ∧ Expands opened.functions.bodies body flat bodies ∧
      Lowered options flat opened reached := by
  generalize hmark : Landmark.closing node a opened reached = mark at h
  induction h with
  | statement => cases hmark
  | endConditional hopen hexpands hbody =>
      cases hmark
      exact ⟨_, _, _, _, _, _, .inl rfl, hc, hu, hopen, hexpands, hbody⟩
  | endLoop hopen hexpands hbody =>
      cases hmark
      exact ⟨_, _, _, _, _, _, .inr rfl, hc, hu, hopen, hexpands, hbody⟩
  | conditional hopen _ _ ih =>
      obtain ⟨hsound, hpoint⟩ := opened_sound hc hopen
      exact ih hsound (hpoint.trans hu) hmark
  | loop hopen _ _ _ ih =>
      obtain ⟨hsound, hpoint⟩ := opened_sound hc hopen
      exact ih hsound (hpoint.trans hu) hmark
  | before _ _ ih => exact ih hc hu hmark
  | after hfirst _ ih =>
      obtain ⟨hkeeps, hnone⟩ := hfirst.keeps hc hu
      exact ih hkeeps.sound hnone hmark

theorem condition_cell_not_taken_over {line j : Int} {test : Node} {body : List Node} {x : String}
    (hd : Compile.program options nodes c = .ok () d)
    (hmark : .closing (.conditional line test body) a opened reached ∈
        programLandmarks options nodes ∨
      .closing (.loop line test body) a opened reached ∈ programLandmarks options nodes)
    (hplace : test.place? = some (x, j))
    (hspared : ∀ flat bodies, Expands opened.functions.bodies body flat bodies →
      Node.fateIn? x flat ≠ some .removed) :
    (∃ b, opened.bindings.find? x = some b ∧ 0 ≤ j ∧ j < b.length ∧ a = b.base + j) ∧
    (∀ other b, other ≠ x → reached.bindings.find? other = some b →
      a < b.base ∨ b.base + b.length ≤ a) ∧
    (Turns reached.layout.highWater reached (reached.clear a) fun _ cells =>
      Function.update cells a 0) ∧
    ∀ {bits : Nat} (cells : Int → BitVec bits) (value : BitVec bits) (other : String), other ≠ x →
      view reached.bindings (Function.update cells a value) other =
        view reached.bindings cells other := by
  obtain ⟨e, flat, bodies, he, hu, hopen, hexpands, hbody⟩ : ∃ e flat bodies, Sound e ∧
      e.unsafePointer = none ∧ openLoop options test e = .ok a opened ∧
      Expands opened.functions.bodies body flat bodies ∧ Lowered options flat opened reached := by
    rcases hmark with hmark | hmark
    all_goals
      obtain ⟨flat, -, hpasses⟩ := program_passed hd hmark
      obtain ⟨line', test', body', flat', bodies, e, hnode, hrest⟩ :=
        hpasses.closes Sound.initial rfl
      rcases hnode with heq | heq <;> cases heq
      exact ⟨e, flat', bodies, hrest⟩
  obtain ⟨hsound, hpoint⟩ := opened_sound he hopen
  obtain ⟨hkeeps, -⟩ := hbody.keeps hsound (hpoint.trans hu)
  obtain ⟨o, rfl, hopens⟩ := openLoop_opens he hopen
  obtain ⟨b, hb, hj, rfl⟩ := hopens.place hplace
  obtain ⟨n, rfl⟩ : ∃ n : Nat, j = n := ⟨j.toNat, by omega⟩
  have hmarked : (o.emit "[").Marked x (b.base + n) := ⟨n, b.type, hsound.bound hb n (by omega)⟩
  obtain ⟨i, type, hstatus⟩ := (hbody.spares hsound (hpoint.trans hu) x (b.base + n)).marked
    (hspared flat bodies hexpands) hmarked
  have hothers (other : String) (b' : Binding) (hother : other ≠ x)
      (hb' : reached.bindings.find? other = some b') :
      b.base + n < b'.base ∨ b'.base + b'.length ≤ b.base + n := by
    rcases Layout.inside_or_outside b'.base (b.base + n) b'.length with ⟨k, hk, heq⟩ | hout
    · have hbound := hkeeps.sound.bound hb' k hk
      rw [← heq, hstatus] at hbound
      cases hbound
      exact absurd rfl hother
    · exact hout
  have hlive : reached.layout.status (b.base + n) ≠ .free := by
    rw [hstatus]
    simp
  have hbounds := hkeeps.sound.dense.bounds hlive
  have htracked := hkeeps.sound.tracked
  refine ⟨⟨b, hb, hj.1, hj.2, rfl⟩, hothers, turns_clear (by omega) hbounds,
    fun {bits} cells value other hother => ?_⟩
  refine view_apply_congr rfl fun b' hb' k hk => Function.update_of_ne ?_ _ _
  have := hothers other b' hother hb'
  omega

end

def Landmark.closesOn (x : String) (a : Int) (fate : Option Fate) (other : String) (base : Int) :
    Landmark → Bool
  | .closing (.conditional _ (.var name none) body) cell _ reached =>
      name = x ∧ cell = a ∧ body.all Node.isPlain = true ∧ Node.fateIn? x body = fate ∧
        reached.bindings.find? other = some ⟨base, 1, .number⟩
  | _ => false

theorem Landmark.of_closesOn {x other : String} {a base : Int} {fate : Option Fate}
    {mark : Landmark} (h : mark.closesOn x a fate other base = true) :
    ∃ line body opened reached,
      mark = .closing (.conditional line (.var x none) body) a opened reached ∧
      body.all Node.isPlain = true ∧ Node.fateIn? x body = fate ∧
      reached.bindings.find? other = some ⟨base, 1, .number⟩ := by
  unfold Landmark.closesOn at h
  split at h
  · obtain ⟨rfl, rfl, hrest⟩ := of_decide_eq_true h
    exact ⟨_, _, _, _, rfl, hrest⟩
  · cases h

def Node.namesake : List Node :=
  [.declare 1 "x" .number none, .assign 2 "x" none (.literal 1 false),
    .conditional 3 (.var "x" none) [
      .declare 4 "x" .number none, .remove 5 "x", .declare 6 "z" .number none,
      .assign 7 "z" none (.literal 5 false)],
    .display 8 (.var "z" none)]

theorem condition_cell_not_taken_over_namesake :
    ∃ d line body opened reached,
      Compile.program {} Node.namesake Compilation.initial = .ok () d ∧
      .closing (.conditional line (.var "x" none) body) 0 opened reached ∈
        programLandmarks {} Node.namesake ∧
      Node.fateIn? "x" body = some .redeclared ∧
      reached.bindings.find? "z" = some ⟨1, 1, .number⟩ ∧
      ∀ {bits : Nat} (cells : Int → BitVec bits) (value : BitVec bits),
        view reached.bindings (Function.update cells 0 value) "z" =
          view reached.bindings cells "z" := by
  obtain ⟨d, hd, mark, hmark, hcheck⟩ := exists_of_comesTo (show comesTo {} Node.namesake
    (fun _ mark => mark.closesOn "x" 0 (some .redeclared) "z" 1) = true by decide +kernel)
  obtain ⟨line, body, opened, reached, rfl, hplain, hfate, hz⟩ := Landmark.of_closesOn hcheck
  obtain ⟨-, -, -, hview⟩ := condition_cell_not_taken_over hd (.inl hmark) rfl
    fun flat bodies hexpands => by
      obtain ⟨rfl, -⟩ := hexpands.unique (.of_plain hplain _)
      rw [hfate]
      simp
  exact ⟨d, line, body, opened, reached, hd, hmark, hfate, hz,
    fun cells value => hview cells value "z" (by decide)⟩

def Node.takeover : List Node :=
  [.declare 1 "x" .number none, .assign 2 "x" none (.literal 1 false),
    .conditional 3 (.var "x" none) [
      .remove 4 "x", .declare 5 "y" .number none, .assign 6 "y" none (.literal 5 false)],
    .display 7 (.var "y" none)]

theorem condition_cell_taken_over :
    ∃ d line body opened reached,
      Compile.program {} Node.takeover Compilation.initial = .ok () d ∧
      .closing (.conditional line (.var "x" none) body) 0 opened reached ∈
        programLandmarks {} Node.takeover ∧
      reached.bindings.find? "y" = some ⟨0, 1, .number⟩ ∧
      (Machine.small none).Halts d.code "" .finished #[.number 0] := by
  obtain ⟨d, hd, mark, hmark, hcheck⟩ := exists_of_comesTo (show comesTo {} Node.takeover
    (fun _ mark => mark.closesOn "x" 0 (some .removed) "y" 0) = true by decide +kernel)
  obtain ⟨line, body, opened, reached, rfl, -, -, hy⟩ := Landmark.of_closesOn hcheck
  obtain ⟨d', hd', -, hhalts⟩ := Compile.exists_of_prints (show Compile.prints {} Node.takeover
    (Machine.small none) 9 "" #[.number 0] = true by decide +kernel)
  cases hd.symm.trans hd'
  exact ⟨d, line, body, opened, reached, hd, hmark, hy, hhalts⟩

end TapeCompiler
