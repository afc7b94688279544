import TapeCompiler.Compile.Statement
import TapeCompiler.Proofs.Values
import Mathlib.Data.List.Forall2

namespace TapeCompiler

namespace Compile

variable {α β α' β' : Type} {S T : Compilation → Compilation → Prop} {R : α → β → Prop}
  {Q : α' → β' → Prop}

inductive Matched (S : Compilation → Compilation → Prop) (R : α → β → Prop) :
    EStateM.Result CompileError Compilation α → EStateM.Result CompileError Compilation β → Prop where
  | ok {a b d d'} : R a b → S d d' → Matched S R (.ok a d) (.ok b d')
  | error {error d d'} : S d d' → Matched S R (.error error d) (.error error d')

def Together (S : Compilation → Compilation → Prop) (R : α → β → Prop) (x : Compile α)
    (y : Compile β) : Prop :=
  ∀ c c', S c c' → Matched S R (x c) (y c')

def Any (_ : α) (_ : β) : Prop := True

theorem Matched.bind {x : Compile α} {y : Compile β} {f : α → Compile α'} {g : β → Compile β'}
    {c c' : Compilation} (hx : Matched S R (x c) (y c'))
    (hf : ∀ {a b}, R a b → Together S Q (f a) (g b)) : Matched S Q ((x >>= f) c) ((y >>= g) c') := by
  change Matched S Q (EStateM.bind x f c) (EStateM.bind y g c')
  unfold EStateM.bind
  revert hx
  generalize x c = r
  generalize y c' = r'
  rintro (⟨hab, hd⟩ | hd)
  · exact hf hab _ _ hd
  · exact .error hd

namespace Together

variable {x : Compile α} {y : Compile β}

theorem pure {a : α} {b : β} (h : R a b) : Together S R (pure a) (pure b) :=
  fun _ _ hs => .ok h hs

theorem fail (fault : CompileFault) : Together S R (Compile.fail fault) (Compile.fail fault) :=
  fun _ _ hs => .error hs

theorem bind {f : α → Compile α'} {g : β → Compile β'} (hx : Together S R x y)
    (hf : ∀ {a b}, R a b → Together S Q (f a) (g b)) : Together S Q (x >>= f) (y >>= g) :=
  fun c c' hs => (hx c c' hs).bind hf

theorem get {f g : Compilation → Compile α'} {Q : α' → α' → Prop}
    (h : ∀ {c c'}, S c c' → Matched S Q (f c c) (g c' c')) :
    Together S Q (get >>= f) (get >>= g) :=
  fun _ _ hs => h hs

theorem modify {f g : Compilation → Compilation} (h : ∀ {c c'}, S c c' → S (f c) (g c')) :
    Together S (@Any Unit Unit) (modify f) (modify g) :=
  fun _ _ hs => .ok trivial (h hs)

theorem modifyGet {f : Compilation → α × Compilation} {g : Compilation → β × Compilation}
    (h : ∀ {c c'}, S c c' → R (f c).1 (g c').1 ∧ S (f c).2 (g c').2) :
    Together S R (modifyGet f) (modifyGet g) :=
  fun _ _ hs => .ok (h hs).1 (h hs).2

theorem locate (line : Int) (h : Together S R x y) :
    Together S R (Compile.locate line x) (Compile.locate line y) := by
  intro c c' hs
  unfold Compile.locate
  have hmatched := h c c' hs
  revert hmatched
  generalize x c = r
  generalize y c' = r'
  rintro (⟨hab, hd⟩ | hd)
  · exact .ok hab hd
  · exact .error hd

theorem ok (h : Together S R x y) {c c' d : Compilation} {a : α} (hs : S c c')
    (hx : x c = .ok a d) : ∃ b d', y c' = .ok b d' ∧ R a b ∧ S d d' := by
  have hmatched := h c c' hs
  rw [hx] at hmatched
  revert hmatched
  generalize y c' = r'
  rintro (⟨hab, hd⟩ | -)
  exact ⟨_, _, rfl, hab, hd⟩

end Together

theorem Matched.ensuring {x : Compile α} {y : Compile β} {f g : Compilation → Compilation}
    {c c' : Compilation} (h : Matched T R (x c) (y c'))
    (hf : ∀ {d d'}, T d d' → S (f d) (g d')) :
    Matched S R (Compile.ensuring f x c) (Compile.ensuring g y c') := by
  unfold Compile.ensuring
  revert h
  generalize x c = r
  generalize y c' = r'
  rintro (⟨hab, hd⟩ | hd)
  · exact .ok hab (hf hd)
  · exact .error (hf hd)

end Compile

open Compilation Compile

structure Entries (R : Int → Int → Prop) (e e' : String × Binding) : Prop where
  name : e.1 = e'.1
  base : R e.2.base e'.2.base
  length : e.2.length = e'.2.length
  type : e.2.type = e'.2.type

namespace Entries

variable {R : Int → Int → Prop}

theorem names {t t' : Table Binding} (h : List.Forall₂ (Entries R) t.entries t'.entries) :
    t.names = t'.names := by
  obtain ⟨entries⟩ := t
  obtain ⟨entries'⟩ := t'
  unfold Table.names
  dsimp only at h ⊢
  induction h with
  | nil => rfl
  | cons he _ ih => rw [List.map_cons, List.map_cons, he.name, ih]

theorem find? {t t' : Table Binding} (h : List.Forall₂ (Entries R) t.entries t'.entries)
    (name : String) :
    Option.Rel (fun b b' : Binding => R b.base b'.base ∧ b.length = b'.length ∧ b.type = b'.type)
      (t.find? name) (t'.find? name) := by
  obtain ⟨entries⟩ := t
  obtain ⟨entries'⟩ := t'
  unfold Table.find?
  dsimp only at h ⊢
  induction h with
  | nil => exact .none
  | cons he _ ih =>
      rw [List.find?_cons, List.find?_cons, he.name]
      split
      · exact .some ⟨he.base, he.length, he.type⟩
      · exact ih

theorem insert {t t' : Table Binding} {b b' : Binding} (name : String)
    (h : List.Forall₂ (Entries R) t.entries t'.entries) (hbase : R b.base b'.base)
    (hlength : b.length = b'.length) (htype : b.type = b'.type) :
    List.Forall₂ (Entries R) (t.insert name b).entries (t'.insert name b').entries := by
  obtain ⟨entries⟩ := t
  obtain ⟨entries'⟩ := t'
  unfold Table.insert
  dsimp only at h ⊢
  induction h with
  | nil => exact .cons ⟨rfl, hbase, hlength, htype⟩ .nil
  | @cons e e' l l' he hrest ih =>
      simp only [Table.insertInto, he.name]
      split
      · exact .cons ⟨rfl, hbase, hlength, htype⟩ hrest
      · exact .cons ⟨rfl, he.base, he.length, he.type⟩ ih

theorem erase {t t' : Table Binding} (name : String)
    (h : List.Forall₂ (Entries R) t.entries t'.entries) :
    List.Forall₂ (Entries R) (t.erase name).entries (t'.erase name).entries := by
  obtain ⟨entries⟩ := t
  obtain ⟨entries'⟩ := t'
  unfold Table.erase
  dsimp only at h ⊢
  induction h with
  | nil => exact .nil
  | cons he _ ih =>
      rw [List.filter_cons, List.filter_cons, he.name]
      split
      · exact .cons he ih
      · exact ih

end Entries

structure Parallel (S : Compilation → Compilation → Prop) (R P : Int → Int → Prop) : Prop where
  bindings : ∀ {c c'}, S c c' →
    List.Forall₂ (Entries R) c.bindings.entries c'.bindings.entries
  cursor : ∀ {c c'}, S c c' → Option.Rel P c.unsafePointer c'.unsafePointer
  region : ∀ {c c' p p'}, S c c' → P p p' →
    Option.Rel (fun r r' : Region => r.size = r'.size ∧ p - r.start = p' - r'.start)
      c.unsafeRegion c'.unsafeRegion
  address : ∀ {p p'}, P p p' → R p p'
  shift : ∀ {a a'}, R a a' → ∀ i, R (a + i) (a' + i)
  shiftCursor : ∀ {p p'}, P p p' → ∀ i, P (p + i) (p' + i)
  record : ∀ {c c'}, S c c' → ∀ event event', S (c.record event) (c'.record event')
  emit : ∀ {c c'}, S c c' → ∀ code, S (c.emit code) (c'.emit code)
  moveTo : ∀ {c c' a a'}, S c c' → R a a' → S (c.moveTo a) (c'.moveTo a')
  mark : ∀ {c c' a a'}, S c c' → R a a' → ∀ o,
    S { c with layout := c.layout.set a o } { c' with layout := c'.layout.set a' o }
  lowestFree : ∀ {c c'}, S c c' → R c.layout.lowestFree c'.layout.lowestFree
  firstFit : ∀ {c c'}, S c c' → ∀ size, R (c.layout.firstFit size) (c'.layout.firstFit size)
  rebind : ∀ {c c' t t'}, S c c' → List.Forall₂ (Entries R) t.entries t'.entries →
    S { c with bindings := t } { c' with bindings := t' }
  point : ∀ {c c' p p'}, S c c' → P p p' →
    S { c with unsafePointer := some p } { c' with unsafePointer := some p' }
  define : ∀ {c c'}, S c c' → ∀ name body,
    S { c with functions := c.functions.define name body }
      { c' with functions := c'.functions.define name body }

namespace Parallel

variable {S : Compilation → Compilation → Prop} {R P : Int → Int → Prop} {c c' : Compilation}
  {a a' b b' : Int}

theorem free (h : Parallel S R P) (hs : S c c') (ha : R a a') : S (c.free a) (c'.free a') :=
  h.mark hs ha .free

theorem clear (h : Parallel S R P) (hs : S c c') (ha : R a a') : S (c.clear a) (c'.clear a') :=
  h.emit (h.moveTo hs ha) _

theorem countAt (h : Parallel S R P) (hs : S c c') (ha : R a a') (value : Int) :
    S (c.countAt value a) (c'.countAt value a') := by
  simp only [Compilation.countAt, countHere]
  split
  · exact h.emit (h.clear hs ha) _
  · exact h.emit (h.clear hs ha) _

theorem drain (h : Parallel S R P) (hs : S c c') (ha : R a a') (hb : R b b') (sign : Sign) :
    S (c.drain a b sign) (c'.drain a' b' sign) :=
  h.emit (h.moveTo (h.emit (h.moveTo (h.emit (h.moveTo hs ha) _) hb) _) ha) _

theorem take (h : Parallel S R P) (hs : S c c') :
    R c.allocateTemp.1 c'.allocateTemp.1 ∧ S c.allocateTemp.2 c'.allocateTemp.2 :=
  ⟨h.lowestFree hs, h.mark hs (h.lowestFree hs) .temp⟩

theorem copy (h : Parallel S R P) (hs : S c c') (ha : R a a') :
    R (c.copy a).1 (c'.copy a').1 ∧ S (c.copy a).2 (c'.copy a').2 := by
  obtain ⟨hkept, hs⟩ := h.take hs
  obtain ⟨hback, hs⟩ := h.take hs
  have hs := h.emit (h.moveTo (h.clear (h.clear hs hkept) hback) ha) "["
  have hs := h.emit (h.moveTo (h.emit (h.moveTo hs hkept) "+") hback) "+"
  have hs := h.emit (h.moveTo hs ha) "-]"
  exact ⟨hkept, h.free (h.drain hs hback ha .plus) hback⟩

theorem addCopy (h : Parallel S R P) (hs : S c c') (ha : R a a') (hb : R b b') (sign : Sign) :
    S (c.addCopy a b sign) (c'.addCopy a' b' sign) := by
  obtain ⟨hcopied, hs⟩ := h.copy hs ha
  exact h.free (h.drain hs hcopied hb sign) hcopied

theorem greatest (h : Parallel S R P) (hs : S c c') :
    R c.greatest.1 c'.greatest.1 ∧ S c.greatest.2 c'.greatest.2 :=
  ⟨(h.take hs).1, h.emit (h.clear (h.take hs).2 (h.take hs).1) _⟩

theorem sum (h : Parallel S R P) (hs : S c c') (ha : R a a') (hb : R b b') :
    R (c.sum a b).1 (c'.sum a' b').1 ∧ S (c.sum a b).2 (c'.sum a' b').2 := by
  obtain ⟨hA, hs⟩ := h.copy hs ha
  obtain ⟨hB, hs⟩ := h.copy hs hb
  obtain ⟨hresult, hs⟩ := h.take hs
  have hs := h.drain (h.drain (h.clear hs hresult) hA hresult .plus) hB hresult .plus
  exact ⟨hresult, h.free (h.free hs hA) hB⟩

theorem whenIndexIs (h : Parallel S R P) (hs : S c c') (ha : R a a') (slot : Int)
    {body body' : Compilation → Compilation}
    (hbody : ∀ {c c'}, S c c' → S (body c) (body' c')) :
    S (c.whenIndexIs a slot body) (c'.whenIndexIs a' slot body') := by
  obtain ⟨hprobe, hs⟩ := h.copy hs ha
  have hs : S (if 0 < slot then ((c.copy a).2.moveTo (c.copy a).1).emit (repeated '-' slot.toNat)
        else (c.copy a).2)
      (if 0 < slot then ((c'.copy a').2.moveTo (c'.copy a').1).emit (repeated '-' slot.toNat)
        else (c'.copy a').2) := by
    split
    · exact h.emit (h.moveTo hs hprobe) _
    · exact hs
  obtain ⟨hguard, hs⟩ := h.take hs
  have hs := h.emit (h.moveTo (h.countAt hs hguard 1) hprobe) "["
  have hs := h.emit (h.clear (h.clear hs hguard) hprobe) "]"
  have hs := hbody (h.emit (h.moveTo hs hguard) "[")
  exact h.free (h.free (h.emit (h.clear hs hguard) "]") hguard) hprobe

theorem atElement (h : Parallel S R P) (hs : S c c') (ha : R a a') {found found' : Binding}
    (hbase : R found.base found'.base) (hlength : found.length = found'.length)
    {body body' : Int → Compilation → Compilation}
    (hbody : ∀ {x x' c c'}, R x x' → S c c' → S (body x c) (body' x' c')) :
    S (c.atElement found a body) (c'.atElement found' a' body') := by
  unfold Compilation.atElement
  rw [← hlength]
  exact List.foldl_rel hs fun slot _ _ _ hs =>
    h.whenIndexIs hs ha slot (hbody (h.shift hbase slot))

theorem addresses (h : Parallel S R P) (ha : R a a') (count : Nat) :
    List.Forall₂ R (addresses a count) (addresses a' count) := by
  unfold TapeCompiler.addresses
  rw [List.forall₂_map_left_iff, List.forall₂_map_right_iff, List.forall₂_same]
  exact fun i _ => h.shift ha i

theorem clearAll (h : Parallel S R P) (hs : S c c') {cells cells' : List Int}
    (hcells : List.Forall₂ R cells cells') : S (c.clearAll cells) (c'.clearAll cells') := by
  unfold Compilation.clearAll
  induction hcells generalizing c c' with
  | nil => exact hs
  | cons ha _ ih => exact ih (h.clear hs ha)

theorem clearAndFree (h : Parallel S R P) (hs : S c c') {cells cells' : List Int}
    (hcells : List.Forall₂ R cells cells') : S (c.clearAndFree cells) (c'.clearAndFree cells') := by
  unfold Compilation.clearAndFree
  induction hcells generalizing c c' with
  | nil => exact hs
  | cons ha _ ih => exact ih (h.free (h.clear hs ha) ha)

end Parallel

structure Settles (options options' : CompileOptions) (S : Compilation → Compilation → Prop)
    (R : Int → Int → Prop) : Prop where
  release : ∀ {c c' a a'}, S c c' → R a a' → S (c.release a) (c'.release a')
  own : ∀ {c c' a a'}, S c c' → R a a' →
    R (if c.layout.isTemp a then (a, c) else c.copy a).1
        (if c'.layout.isTemp a' then (a', c') else c'.copy a').1 ∧
      S (if c.layout.isTemp a then (a, c) else c.copy a).2
        (if c'.layout.isTemp a' then (a', c') else c'.copy a').2
  assignCell : ∀ {c c' a a' b b'}, S c c' → R a a' → R b b' →
    S (c.assignCell a b) (c'.assignCell a' b')
  freeCondition : ∀ {c c' a a'}, S c c' → R a a' → S (c.freeCondition a) (c'.freeCondition a')
  clearReused : ∀ {c c' a a'}, S c c' → R a a' → ∀ count,
    S (c.clearReused a count) (c'.clearReused a' count)
  leave : ∀ {c c' a a' b b'}, S c c' → R a a' → R b b' →
    S (if options.freeSubtractionCopies then (c.free a).free b else c)
      (if options'.freeSubtractionCopies then (c'.free a').free b' else c')

namespace Compile

variable {S : Compilation → Compilation → Prop} {R P : Int → Int → Prop}
  {options options' : CompileOptions} {c c' : Compilation}

theorem binding_together (h : Parallel S R P) (name : String) :
    Together S (fun b b' : Binding => R b.base b'.base ∧ b.length = b'.length ∧ b.type = b'.type)
      (binding name) (binding name) := by
  refine .get fun {c c'} hs => ?_
  have hentries := h.bindings hs
  have hfind := Entries.find? hentries name
  have hsuggestion : c.suggestion name = c'.suggestion name := by
    simp only [Compilation.suggestion, Entries.names hentries]
  revert hfind
  generalize c.bindings.find? name = found
  generalize c'.bindings.find? name = found'
  rintro (hb | _)
  · exact .ok hb hs
  · dsimp only
    rw [hsuggestion]
    exact .error hs

theorem element_together (h : Parallel S R P) (name : String) (index : Int) :
    Together S R (element name index) (element name index) := by
  refine (binding_together h name).bind fun {b b'} hb => ?_
  rw [hb.2.1]
  split
  · exact .pure (h.shift hb.1 index)
  · exact .fail _

theorem setValue_together (h : Parallel S R P) {a a' : Int} (ha : R a a') (value : Int) :
    Together S Any (setValue value a) (setValue value a') := by
  intro c c' hs
  rw [setValue_eq, setValue_eq]
  split
  · exact .ok trivial (h.countAt hs ha value)
  · exact .error (h.clear hs ha)

theorem constant_together (h : Parallel S R P) (value : Int) :
    Together S R (constant value) (constant value) :=
  (Together.modifyGet h.take).bind fun ha => (setValue_together h ha value).bind fun _ => .pure ha

theorem readElement_together (h : Parallel S R P) (hset : Settles options options' S R)
    (name : String) {index index' : Compile Int} (hindex : Together S R index index') :
    Together S R (readElement name index) (readElement name index') := by
  refine (binding_together h name).bind fun {b b'} hb => hindex.bind fun {i i'} hi => ?_
  refine (Together.modifyGet h.take).bind fun {r r'} hr => ?_
  refine (Together.modify fun hs => h.clear hs hr).bind fun _ => ?_
  refine (Together.modify fun hs => h.atElement hs hi hb.1 hb.2.1 fun hx hs =>
    h.addCopy hs hx hr .plus).bind fun _ => ?_
  exact (Together.modify fun hs => hset.release hs hi).bind fun _ => .pure hr

theorem own_together (hset : Settles options options' S R) {a a' : Int} (ha : R a a')
    {f g : Int → Compile Unit} (hf : ∀ {b b'}, R b b' → Together S Any (f b) (g b')) :
    Together S Any
      (get >>= fun c => if c.layout.isTemp a then pure a >>= f else modifyGet (·.copy a) >>= f)
      (get >>= fun c => if c.layout.isTemp a' then pure a' >>= g else modifyGet (·.copy a') >>= g) := by
  refine .get fun {c c'} hs => ?_
  obtain ⟨hcell, hstate⟩ := hset.own hs ha
  revert hcell hstate
  split <;> split <;> exact fun hcell hstate => hf hcell _ _ hstate

theorem writeElement_together (h : Parallel S R P) (hset : Settles options options' S R)
    (name : String) {index index' value value' : Compile Int} (hindex : Together S R index index')
    (hvalue : Together S R value value') :
    Together S Any (writeElement name index value) (writeElement name index' value') := by
  refine (binding_together h name).bind fun {b b'} hb => hindex.bind fun {i i'} hi => ?_
  refine own_together hset hi fun {i i'} hi => hvalue.bind fun hv => ?_
  refine (Together.modify fun hs => h.atElement hs hi hb.1 hb.2.1 fun {x x' c c'} hx hs => ?_).bind
    fun _ => (Together.modify fun hs => hset.release hs hv).bind fun _ =>
      .modify fun hs => hset.release hs hi
  obtain ⟨hcopied, hs⟩ := h.copy hs hv
  exact h.free (h.drain (h.clear hs hx) hcopied hx .plus) hcopied

theorem difference (h : Parallel S R P) (hset : Settles options options' S R) {a a' b b' : Int}
    (hs : S c c') (ha : R a a') (hb : R b b') :
    R (c.difference options a b).1 (c'.difference options' a' b').1 ∧
      S (c.difference options a b).2 (c'.difference options' a' b').2 := by
  obtain ⟨hA, hs⟩ := h.copy hs ha
  obtain ⟨hB, hs⟩ := h.copy hs hb
  obtain ⟨hresult, hs⟩ := h.take hs
  have hs := h.drain (h.drain (h.clear hs hresult) hA hresult .plus) hB hresult .minus
  exact ⟨hresult, hset.leave hs hA hB⟩

theorem evaluate_together (h : Parallel S R P) (hset : Settles options options' S R) (node : Node) :
    Together S R (evaluate options node) (evaluate options' node) := by
  have hrelease {a a' b b' : Int} (ha : R a a') (hb : R b b') :
      Together S Any (modify fun c => (c.release b).release a : Compile Unit)
        (modify fun c => (c.release b').release a' : Compile Unit) :=
    .modify fun hs => hset.release (hset.release hs hb) ha
  fun_induction evaluate options node with
  | case1 value isChar => exact constant_together h value
  | case2 name => exact element_together h name 0
  | case3 name index value hindex =>
      simp only [evaluate, hindex]
      exact element_together h name value
  | case4 name index hindex ih =>
      simp only [evaluate, hindex]
      exact readElement_together h hset name ih
  | case5 left right ihl ihr =>
      refine ihl.bind fun ha => ihr.bind fun hb => ?_
      exact (Together.modifyGet fun hs => h.sum hs ha hb).bind fun hr =>
        (hrelease ha hb).bind fun _ => .pure hr
  | case6 left right ihl ihr =>
      refine ihl.bind fun ha => ihr.bind fun hb => ?_
      exact (Together.modifyGet fun hs => difference h hset hs ha hb).bind fun hr =>
        (hrelease ha hb).bind fun _ => .pure hr
  | case7 operator left right hplus hminus =>
      rw [evaluate]
      · exact .fail _
      · exact hplus
      · exact hminus
  | case8 => exact .modifyGet h.greatest
  | case9 node =>
      rw [evaluate]
      · exact .fail _
      all_goals assumption

theorem condition_together (h : Parallel S R P) (hset : Settles options options' S R) (node : Node) :
    Together S R (condition options node) (condition options' node) := by
  unfold condition
  split
  · exact evaluate_together h hset node
  · exact .fail _

theorem isTextual_together (h : Parallel S R P) (node : Node) :
    Together S Eq (isTextual node) (isTextual node) := by
  unfold isTextual
  split
  · exact .pure rfl
  · refine (binding_together h _).bind fun hb => ?_
    rw [hb.2.2]
    exact .pure rfl
  · exact .pure rfl

theorem unsafePointer_together (h : Parallel S R P) :
    Together S P unsafePointer unsafePointer := by
  refine .get fun {c c'} hs => ?_
  have hcursor := h.cursor hs
  revert hcursor
  generalize c.unsafePointer = p
  generalize c'.unsafePointer = p'
  rintro (hp | _)
  · exact .ok hp hs
  · exact .error hs

theorem goto_together (h : Parallel S R P) (offset : Int) :
    Together S Any (goto offset) (goto offset) := by
  refine (unsafePointer_together h).bind fun {p p'} hp => .get fun {c c'} hs => ?_
  have hregion := h.region hs hp
  revert hregion
  generalize c.unsafeRegion = region
  generalize c'.unsafeRegion = region'
  rintro (⟨hsize, hstart⟩ | _)
  · rename_i r r'
    have hinside : (r.start ≤ p + offset ∧ p + offset < r.start + r.size) ↔
        (r'.start ≤ p' + offset ∧ p' + offset < r'.start + r'.size) := by omega
    dsimp only
    split
    · rename_i hin
      rw [if_pos (hinside.1 hin)]
      exact .ok trivial (h.point (h.moveTo hs (h.address (h.shiftCursor hp offset)))
        (h.shiftCursor hp offset))
    · rename_i hout
      rw [if_neg (fun hin => hout (hinside.2 hin)),
        show p' + offset - r'.start = p + offset - r.start by omega, ← hsize]
      exact .error hs
  · exact .error hs

theorem drainAmount_together (h : Parallel S R P) (hset : Settles options options' S R)
    (amount : Node) (sign : Sign) :
    Together S Any (drainAmount options amount sign) (drainAmount options' amount sign) := by
  refine (unsafePointer_together h).bind fun hp => (evaluate_together h hset amount).bind fun ha => ?_
  exact (Together.modify fun hs => h.addCopy hs ha (h.address hp) sign).bind fun _ =>
    .modify fun hs => hset.release hs ha

mutual

theorem operation_together (h : Parallel S R P) (hset : Settles options options' S R) (node : Node) :
    Together S Any (operation options node) (operation options' node) := by
  cases node
  case unsafeGoto line offset => exact goto_together h offset
  case unsafeAdd line amount => exact drainAmount_together h hset amount .plus
  case unsafeReduce line amount => exact drainAmount_together h hset amount .minus
  case unsafeShow line =>
    exact (unsafePointer_together h).bind fun hp =>
      .modify fun hs => h.emit (h.moveTo hs (h.address hp)) _
  case unsafeLoop line body =>
    refine (unsafePointer_together h).bind fun hp => ?_
    refine (Together.modify fun hs => h.emit (h.moveTo hs (h.address hp)) _).bind fun _ => ?_
    refine (operations_together h hset body).bind fun _ => .modify fun hs => ?_
    exact h.point (h.emit (h.moveTo hs (h.address hp)) _) hp
  case verbatim line code =>
    exact (unsafePointer_together h).bind fun _ => .modify fun hs => h.emit hs code
  all_goals exact .fail _

theorem operations_together (h : Parallel S R P) (hset : Settles options options' S R)
    (nodes : List Node) : Together S Any (operations options nodes) (operations options' nodes) := by
  match nodes with
  | [] => exact .pure trivial
  | node :: rest =>
      exact (operation_together h hset node).bind fun _ => operations_together h hset rest

end

def Nests (options options' : CompileOptions) (S : Compilation → Compilation → Prop)
    (R : Int → Int → Prop) : Prop :=
  ∀ {c c'}, S c c' → ∀ size, ∃ T P, Parallel T R P ∧ Settles options options' T R ∧
    T (c.enterBlock size) (c'.enterBlock size) ∧ ∀ {d d'}, T d d' → S d.leaveBlock d'.leaveBlock

theorem unsafeBlock_together (h : Parallel S R P) (hnests : Nests options options' S R) (size : Int)
    (body : List Node) :
    Together S Any (unsafeBlock options size body) (unsafeBlock options' size body) := by
  unfold unsafeBlock
  split
  · exact .fail _
  · refine .get fun {c c'} hs => ?_
    have hinside : c'.unsafePointer.isSome = c.unsafePointer.isSome := by
      have hcursor := h.cursor hs
      revert hcursor
      generalize c.unsafePointer = p
      generalize c'.unsafePointer = p'
      rintro (_ | _) <;> rfl
    rw [hinside]
    split
    · exact .error hs
    · obtain ⟨T, Q, hinner, hset, hentered, hleft⟩ := hnests hs size
      have hstart := h.firstFit hs size
      refine Matched.ensuring (T := T) ?_ hleft
      refine Together.bind (.modify fun hs => hinner.moveTo hs hstart) (fun _ => ?_) _ _ hentered
      exact (operations_together hinner hset body).bind fun _ =>
        .modify fun hs => hinner.clearAndFree hs (hinner.addresses hstart _)

theorem declareScalar (h : Parallel S R P) (hset : Settles options options' S R) (hs : S c c')
    (name : String) (type : CellType) :
    S (c.declareScalar name type) (c'.declareScalar name type) := by
  have haddress := h.lowestFree hs
  have hcleared := hset.clearReused hs haddress 1
  exact h.rebind (h.mark hcleared haddress (.named name 0 type))
    (Entries.insert name (h.bindings hcleared) haddress rfl rfl)

theorem declareArray (h : Parallel S R P) (hs : S c c') (name : String) (type : CellType)
    (length : Nat) : S (c.declareArray name type length) (c'.declareArray name type length) := by
  have hbase := h.firstFit hs length
  unfold Compilation.declareArray
  dsimp only
  refine h.rebind ?hplaced (Entries.insert name (h.bindings ?hplaced) hbase rfl rfl)
  refine List.foldl_rel hs fun index _ d d' hd => ?_
  exact h.clear (h.mark hd (h.shift hbase index) _) (h.shift hbase index)

theorem record_together (h : Parallel S R P) (event event' : Event) :
    Together S Any (record event) (record event') :=
  .modify fun hs => h.record hs event event'

theorem redeclared_together (h : Parallel S R P) (name : String) {x y : Compile Unit}
    (hx : Together S Any x y) :
    Together S Any (do if (← get).bindings.contains name then record (.redeclared name)
                       x)
      (do if (← get).bindings.contains name then record (.redeclared name)
          y) := by
  refine .get fun {c c'} hs => ?_
  have hcontains : c'.bindings.contains name = c.bindings.contains name := by
    have hfind := Entries.find? (h.bindings hs) name
    unfold Table.contains
    revert hfind
    generalize c.bindings.find? name = found
    generalize c'.bindings.find? name = found'
    rintro (_ | _) <;> rfl
  rw [hcontains]
  split
  · exact hx _ _ (h.record hs _ _)
  · exact hx _ _ hs

theorem declare_together (h : Parallel S R P) (hset : Settles options options' S R) (name : String)
    (type : CellType) (length : Option Int) :
    Together S Any (declare name type length) (declare name type length) := by
  cases length with
  | none =>
      exact redeclared_together h name (.modify fun hs => declareScalar h hset hs name type)
  | some length =>
      refine redeclared_together h name ?_
      split
      · exact .fail _
      · exact .modify fun hs => declareArray h hs name type length.toNat

theorem assignTo_together (h : Parallel S R P) (hset : Settles options options' S R) {a a' : Int}
    (ha : R a a') (value : Node) :
    Together S Any (assignTo options a value) (assignTo options' a' value) := by
  unfold assignTo
  split
  · exact setValue_together h ha _
  · exact .modify fun hs => h.emit (h.clear hs ha) _
  · exact (evaluate_together h hset _).bind fun hsource =>
      .modify fun hs => hset.assignCell hs hsource ha

theorem assign_together (h : Parallel S R P) (hset : Settles options options' S R) (name : String)
    (index : Option Node) (value : Node) :
    Together S Any (assign options name index value) (assign options' name index value) := by
  unfold assign
  split
  · exact (element_together h name 0).bind fun ha => assignTo_together h hset ha value
  · split
    · exact (element_together h name _).bind fun ha => assignTo_together h hset ha value
    · exact writeElement_together h hset name (evaluate_together h hset _)
        (evaluate_together h hset value)

theorem display_together (h : Parallel S R P) (hset : Settles options options' S R) (value : Node) :
    Together S Any (display options value) (display options' value) := by
  refine (evaluate_together h hset value).bind fun ha => ?_
  refine (Together.modify fun hs => h.moveTo hs ha).bind fun _ => ?_
  refine (isTextual_together h value).bind fun {textual textual'} htextual => ?_
  subst htextual
  exact (Together.modify fun hs => h.emit hs _).bind fun _ => .modify fun hs => hset.release hs ha

theorem input_together (h : Parallel S R P) (name : String) :
    Together S Any (input name) (input name) :=
  (element_together h name 0).bind fun ha => .modify fun hs => h.emit (h.moveTo hs ha) _

theorem remove_together (h : Parallel S R P) (name : String) :
    Together S Any (remove name) (remove name) := by
  refine (binding_together h name).bind fun {b b'} hb => .modify fun {c c'} hs => ?_
  unfold Compilation.removeVariable
  rw [← hb.2.1]
  have hs := h.clearAndFree hs (h.addresses hb.1 b.length)
  exact h.rebind hs (Entries.erase name (h.bindings hs))

theorem openLoop_together (h : Parallel S R P) (hset : Settles options options' S R) (node : Node) :
    Together S R (openLoop options node) (openLoop options' node) :=
  (condition_together h hset node).bind fun ha =>
    (Together.modify fun hs => h.emit (h.moveTo hs ha) _).bind fun _ => .pure ha

theorem closeLoop_together (h : Parallel S R P) (hset : Settles options options' S R) {a a' : Int}
    (ha : R a a') : Together S Any (closeLoop a) (closeLoop a') :=
  .modify fun hs => hset.freeCondition (h.emit (h.moveTo hs ha) _) ha

theorem closeConditional_together (h : Parallel S R P) (hset : Settles options options' S R)
    {a a' : Int} (ha : R a a') : Together S Any (closeConditional a) (closeConditional a') :=
  .modify fun hs => hset.freeCondition (h.emit (h.clear hs ha) _) ha

theorem define_together (h : Parallel S R P) (name : String) (body : List Node) :
    Together S Any (define name body) (define name body) :=
  (record_together h _ _).bind fun _ => .modify fun hs => h.define hs name body

theorem asStatement_together (h : Parallel S R P) (node : Node) {x y : Compile Unit}
    (hx : Together S Any x y) : Together S Any (asStatement node x) (asStatement node y) := by
  unfold asStatement
  split
  · exact .get fun hs => (record_together h _ _ _ _ hs).bind fun _ => hx.locate node.line
  · exact .fail _

mutual

theorem form_together (h : Parallel S R P) (hset : Settles options options' S R)
    (hnests : Nests options options' S R) {call call' : String → Compile Unit}
    (hcall : ∀ name, Together S Any (call name) (call' name)) (node : Node) :
    Together S Any (form options call node) (form options' call' node) := by
  cases node
  case declare line name type length => exact declare_together h hset name type length
  case assign line name index value => exact assign_together h hset name index value
  case display line value => exact display_together h hset value
  case input line name => exact input_together h name
  case remove line name => exact remove_together h name
  case conditional line test body =>
    exact (openLoop_together h hset test).bind fun ha =>
      (block_together h hset hnests hcall body).bind fun _ => closeConditional_together h hset ha
  case loop line test body =>
    exact (openLoop_together h hset test).bind fun ha =>
      (block_together h hset hnests hcall body).bind fun _ => closeLoop_together h hset ha
  case unsafeBlock line size body => exact unsafeBlock_together h hnests size body
  case function line name body => exact define_together h name body
  case call line name => exact hcall name
  all_goals exact operation_together h hset _

theorem block_together (h : Parallel S R P) (hset : Settles options options' S R)
    (hnests : Nests options options' S R) {call call' : String → Compile Unit}
    (hcall : ∀ name, Together S Any (call name) (call' name)) (nodes : List Node) :
    Together S Any (block options call nodes) (block options' call' nodes) := by
  match nodes with
  | [] => exact .pure trivial
  | node :: rest =>
      exact (asStatement_together h node (form_together h hset hnests hcall node)).bind fun _ =>
        block_together h hset hnests hcall rest

end

end Compile

end TapeCompiler
