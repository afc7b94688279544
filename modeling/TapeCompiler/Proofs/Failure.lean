import TapeCompiler.Proofs.Expansion

namespace TapeCompiler

namespace Compile

variable {α β : Type}

def Clean (x : Compile α) : Prop := ∀ c error d, x c = .error error d → d = c

theorem clean_fail (fault : CompileFault) : Clean (fail fault : Compile α) := by
  intro c error d h
  cases h
  rfl

theorem clean_pure (a : α) : Clean (pure a : Compile α) := by
  intro c error d h
  cases h

theorem clean_modify (f : Compilation → Compilation) : Clean (modify f : Compile Unit) := by
  intro c error d h
  cases h

theorem Clean.after {x : Compile α} {f : α → Compile β} (hx : Clean x)
    (hlook : ∀ {a c d}, x c = .ok a d → c = d) (hf : ∀ a, Clean (f a)) : Clean (x >>= f) := by
  intro c error d h
  rcases bind_error.1 h with h | ⟨a, e, h, herror⟩
  · exact hx c error d h
  · rw [hlook h]
    exact hf a e error d herror

theorem Clean.get {f : Compilation → Compile β} (hf : ∀ c, Clean (f c)) : Clean (get >>= f) := by
  refine .after (fun c error d h => ?_) (fun h => (get_ok.1 h).2) hf
  cases h

theorem binding_clean (name : String) : Clean (binding name) := .get fun c => by
  split
  · exact clean_pure _
  · exact clean_fail _

theorem element_clean (name : String) (index : Int) : Clean (element name index) :=
  .after (binding_clean name) (fun h => (binding_ok.1 h).2) fun found => by
    split
    · exact clean_pure _
    · exact clean_fail _

theorem unsafePointer_clean : Clean unsafePointer := .get fun c => by
  split
  · exact clean_pure _
  · exact clean_fail _

theorem goto_clean (offset : Int) : Clean (goto offset) :=
  .after unsafePointer_clean (fun h => (unsafePointer_ok.1 h).2) fun address => .get fun c => by
    dsimp only
    split
    · exact clean_fail _
    · split
      · exact clean_modify _
      · exact clean_fail _

theorem isTextual_clean (node : Node) : Clean (isTextual node) := by
  unfold isTextual
  split
  · exact clean_pure _
  · exact .after (binding_clean _) (fun h => (binding_ok.1 h).2) fun _ => clean_pure _
  · exact clean_pure _

theorem input_clean (name : String) : Clean (input name) :=
  .after (element_clean name 0) (fun h => (element_ok.1 h).choose_spec.2.2.2)
    fun _ => clean_modify _

theorem declare_error {name : String} {type : CellType} {length : Option Int} {c d : Compilation}
    {error : CompileError} (hd : declare name type length c = .error error d) :
    d = c ∨ d = c.record (.redeclared name) := by
  simp only [declare, bind_error, get_ok] at hd
  rcases hd with hd | ⟨_, _, ⟨rfl, rfl⟩, hd⟩
  · cases hd
  · cases length with
    | none =>
        split at hd
        · rcases bind_error.1 hd with hd | ⟨_, _, -, hd⟩ <;> cases hd
        · cases hd
    | some length =>
        have hrest : Clean (if length ≤ 0 then fail (.arrayLength name length)
            else modify (·.declareArray name type length.toNat)) := by
          split
          · exact clean_fail _
          · exact clean_modify _
        split at hd
        · rcases bind_error.1 hd with hd | ⟨_, _, hnoted, hd⟩
          · cases hd
          · rw [record_ok] at hnoted
            exact .inr (hnoted ▸ hrest _ _ _ hd)
        · exact .inl (hrest _ _ _ hd)

theorem remove_clean (name : String) : Clean (remove name) :=
  .after (binding_clean name) (fun h => (binding_ok.1 h).2) fun _ => clean_modify _

theorem enterFunction_clean (name : String) : Clean (enterFunction name) := .get fun c => by
  split
  · intro c error d h
    cases h
  · exact clean_fail _

end Compile

end TapeCompiler
