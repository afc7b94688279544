import TapeCompiler.Compile.Functions
import TapeCompiler.Proofs.Reference

namespace TapeCompiler

namespace Node

mutual

def verbatims : Node → List String
  | verbatim _ code => [code]
  | conditional _ _ body | loop _ _ body | unsafeBlock _ _ body => verbatimsIn body
  | function _ _ body | unsafeLoop _ body => verbatimsIn body
  | _ => []

def verbatimsIn : List Node → List String
  | [] => []
  | node :: rest => node.verbatims ++ verbatimsIn rest

end

mutual

def defined : Node → List String
  | conditional _ _ body | loop _ _ body => definedIn body
  | function _ name body => name :: definedIn body
  | _ => []

def definedIn : List Node → List String
  | [] => []
  | node :: rest => node.defined ++ definedIn rest

end

mutual

def touched : Node → List String
  | assign _ name .. | input _ name | remove _ name => [name]
  | conditional _ condition body => condition.place?.toList.map (·.1) ++ touchedIn body
  | loop _ _ body => touchedIn body
  | _ => []

def touchedIn : List Node → List String
  | [] => []
  | node :: rest => node.touched ++ touchedIn rest

end

mutual

def blocks : Node → List Node
  | unsafeBlock line size body => [unsafeBlock line size body]
  | conditional _ _ body | loop _ _ body | function _ _ body => blocksIn body
  | _ => []

def blocksIn : List Node → List Node
  | [] => []
  | node :: rest => node.blocks ++ blocksIn rest

end

def isDump : Node → Bool
  | unsafeBlock _ size [verbatim _ code] => size = 1 ∧ code = "&"
  | _ => false

mutual

def isSteady (top : Bool) : Node → Bool
  | declare .. | remove .. => top
  | conditional _ _ body | loop _ _ body => isSteadyIn false body
  | _ => true

def isSteadyIn (top : Bool) : List Node → Bool
  | [] => true
  | node :: rest => node.isSteady top && isSteadyIn top rest

end

def isPlain : Node → Bool
  | conditional .. | loop .. | function .. | call .. => false
  | _ => true

mutual

theorem length_defined (node : Node) : node.defined.length = node.definitions := by
  cases node
  case conditional line condition body => exact length_definedIn body
  case loop line condition body => exact length_definedIn body
  case function line name body =>
    simp only [defined, definitions, List.length_cons, length_definedIn body]
  all_goals rfl

theorem length_definedIn (nodes : List Node) : (definedIn nodes).length = definitionsIn nodes := by
  match nodes with
  | [] => rfl
  | node :: rest =>
      simp only [definedIn, definitionsIn, List.length_append, length_defined node,
        length_definedIn rest]

end

end Node

/-- The program `flat` is `program` with calls replaced and definitions left out, where a call stands
for the body that was defined last before it in the order of the text. -/
inductive Expands : Table (List Node) → List Node → List Node → Table (List Node) → Prop where
  | nil {bodies} : Expands bodies [] [] bodies
  | plain {bodies bodies' node rest flat} : node.isPlain = true → Expands bodies rest flat bodies' →
      Expands bodies (node :: rest) (node :: flat) bodies'
  | conditional {bodies bodies₁ bodies₂ line condition body rest flat flat'} :
      Expands bodies body flat bodies₁ → Expands bodies₁ rest flat' bodies₂ →
      Expands bodies (.conditional line condition body :: rest)
        (.conditional line condition flat :: flat') bodies₂
  | loop {bodies bodies₁ bodies₂ line condition body rest flat flat'} :
      Expands bodies body flat bodies₁ → Expands bodies₁ rest flat' bodies₂ →
      Expands bodies (.loop line condition body :: rest) (.loop line condition flat :: flat') bodies₂
  | function {bodies bodies' line name body rest flat} :
      Expands (bodies.insert name body) rest flat bodies' →
      Expands bodies (.function line name body :: rest) flat bodies'
  | call {bodies bodies₁ bodies₂ line name body rest flat flat'} :
      bodies.find? name = some body → Expands bodies body flat bodies₁ →
      Expands bodies₁ rest flat' bodies₂ →
      Expands bodies (.call line name :: rest) (flat ++ flat') bodies₂

theorem Expands.of_plain {body : List Node} (h : body.all Node.isPlain = true)
    (bodies : Table (List Node)) : Expands bodies body body bodies := by
  induction body with
  | nil => exact .nil
  | cons node rest ih =>
      rw [List.all_cons, Bool.and_eq_true] at h
      exact .plain h.1 (ih h.2)

theorem Expands.of_call {bodies bodies' : Table (List Node)} {line : Int} {name : String}
    {body flat : List Node} (hbody : bodies.find? name = some body)
    (h : Expands bodies body flat bodies') : Expands bodies [.call line name] flat bodies' := by
  have hcall : Expands bodies [.call line name] (flat ++ []) bodies' := .call hbody h .nil
  rwa [List.append_nil] at hcall

theorem Expands.unique {bodies bodies₁ bodies₂ : Table (List Node)} {nodes flat flat' : List Node}
    (h : Expands bodies nodes flat bodies₁) (h' : Expands bodies nodes flat' bodies₂) :
    flat = flat' ∧ bodies₁ = bodies₂ := by
  induction h generalizing flat' bodies₂ with
  | nil =>
      cases h'
      exact ⟨rfl, rfl⟩
  | plain hplain _ ih =>
      cases h' with
      | plain _ h' =>
          obtain ⟨rfl, rfl⟩ := ih h'
          exact ⟨rfl, rfl⟩
      | conditional => cases hplain
      | loop => cases hplain
      | function => cases hplain
      | call => cases hplain
  | conditional _ _ ihb ih =>
      cases h' with
      | plain hplain _ => cases hplain
      | conditional hbody h' =>
          obtain ⟨rfl, rfl⟩ := ihb hbody
          obtain ⟨rfl, rfl⟩ := ih h'
          exact ⟨rfl, rfl⟩
  | loop _ _ ihb ih =>
      cases h' with
      | plain hplain _ => cases hplain
      | loop hbody h' =>
          obtain ⟨rfl, rfl⟩ := ihb hbody
          obtain ⟨rfl, rfl⟩ := ih h'
          exact ⟨rfl, rfl⟩
  | function _ ih =>
      cases h' with
      | plain hplain _ => cases hplain
      | function h' => exact ih h'
  | call hfind _ _ ihb ih =>
      cases h' with
      | plain hplain _ => cases hplain
      | call hfind' hbody h' =>
          cases hfind.symm.trans hfind'
          obtain ⟨rfl, rfl⟩ := ihb hbody
          obtain ⟨rfl, rfl⟩ := ih h'
          exact ⟨rfl, rfl⟩

structure Gathers {α : Type} (f : List Node → List α) : Prop where
  nil : f [] = []
  cons : ∀ node rest, f (node :: rest) = f [node] ++ f rest
  conditional : ∀ line test body, f [.conditional line test body] = f body
  loop : ∀ line test body, f [.loop line test body] = f body
  function : ∀ line name body, f [.function line name body] = f body

namespace Gathers

variable {α : Type} {f : List Node → List α}

theorem append (hf : Gathers f) (nodes rest : List Node) : f (nodes ++ rest) = f nodes ++ f rest := by
  induction nodes with
  | nil => rw [hf.nil, List.nil_append, List.nil_append]
  | cons node nodes ih =>
      rw [List.cons_append, hf.cons, hf.cons node nodes, ih, List.append_assoc]

theorem verbatims : Gathers Node.verbatimsIn where
  nil := rfl
  cons node rest := by simp [Node.verbatimsIn]
  conditional line test body := by simp [Node.verbatimsIn, Node.verbatims]
  loop line test body := by simp [Node.verbatimsIn, Node.verbatims]
  function line name body := by simp [Node.verbatimsIn, Node.verbatims]

theorem blocks : Gathers Node.blocksIn where
  nil := rfl
  cons node rest := by simp [Node.blocksIn]
  conditional line test body := by simp [Node.blocksIn, Node.blocks]
  loop line test body := by simp [Node.blocksIn, Node.blocks]
  function line name body := by simp [Node.blocksIn, Node.blocks]

theorem expands (hf : Gathers f) {P : α → Prop} {bodies bodies' : Table (List Node)}
    {nodes flat : List Node} (h : Expands bodies nodes flat bodies')
    (hbodies : ∀ {name body}, bodies.find? name = some body → ∀ x ∈ f body, P x)
    (hnodes : ∀ x ∈ f nodes, P x) :
    (∀ x ∈ f flat, P x) ∧
      ∀ {name body}, bodies'.find? name = some body → ∀ x ∈ f body, P x := by
  induction h with
  | nil => exact ⟨hnodes, hbodies⟩
  | @plain bodies bodies' node rest flat _ _ ih =>
      rw [hf.cons, List.forall_mem_append] at hnodes ⊢
      obtain ⟨hflat, hbodies'⟩ := ih hbodies hnodes.2
      exact ⟨⟨hnodes.1, hflat⟩, hbodies'⟩
  | conditional _ _ ihb ih =>
      rw [hf.cons, hf.conditional, List.forall_mem_append] at hnodes ⊢
      obtain ⟨hbody, hbodies₁⟩ := ihb hbodies hnodes.1
      obtain ⟨hflat, hbodies'⟩ := ih hbodies₁ hnodes.2
      exact ⟨⟨hbody, hflat⟩, hbodies'⟩
  | loop _ _ ihb ih =>
      rw [hf.cons, hf.loop, List.forall_mem_append] at hnodes ⊢
      obtain ⟨hbody, hbodies₁⟩ := ihb hbodies hnodes.1
      obtain ⟨hflat, hbodies'⟩ := ih hbodies₁ hnodes.2
      exact ⟨⟨hbody, hflat⟩, hbodies'⟩
  | @function bodies bodies' line name body rest flat _ ih =>
      rw [hf.cons, hf.function, List.forall_mem_append] at hnodes
      refine ih (fun {name' body'} hfind => ?_) hnodes.2
      rw [Table.find?_insert] at hfind
      split at hfind
      · cases hfind
        exact hnodes.1
      · exact hbodies hfind
  | call hfind _ _ ihb ih =>
      rw [hf.cons, List.forall_mem_append] at hnodes
      obtain ⟨hbody, hbodies₁⟩ := ihb hbodies (hbodies hfind)
      obtain ⟨hflat, hbodies'⟩ := ih hbodies₁ hnodes.2
      rw [hf.append, List.forall_mem_append]
      exact ⟨⟨hbody, hflat⟩, hbodies'⟩

theorem expands_initial (hf : Gathers f) {P : α → Prop} {bodies : Table (List Node)}
    {nodes flat : List Node} (h : Expands Functions.initial.bodies nodes flat bodies)
    (hdump : ∀ x ∈ f [.unsafeBlock 0 1 [.verbatim 0 "&"]], P x) (hnodes : ∀ x ∈ f nodes, P x) :
    ∀ x ∈ f flat, P x := by
  refine (hf.expands h (fun {name body} hbody => ?_) hnodes).1
  rw [Functions.initial, Table.find?_insert] at hbody
  split at hbody
  · cases hbody
    exact hdump
  · cases hbody

end Gathers

theorem Expands.cons {bodies bodies₁ bodies₂ : Table (List Node)} {node : Node}
    {rest flat flat' : List Node} (h : Expands bodies [node] flat bodies₁)
    (h' : Expands bodies₁ rest flat' bodies₂) :
    Expands bodies (node :: rest) (flat ++ flat') bodies₂ := by
  cases h with
  | plain hplain h =>
      cases h
      exact .plain hplain h'
  | conditional hbody h =>
      cases h
      exact .conditional hbody h'
  | loop hbody h =>
      cases h
      exact .loop hbody h'
  | function h =>
      cases h
      exact .function h'
  | call hfind hbody h =>
      cases h
      rw [List.append_nil]
      exact .call hfind hbody h'

end TapeCompiler
