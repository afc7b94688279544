import TapeCompiler.Compile.Statement

namespace TapeCompiler

namespace Compile

variable {α β : Type} {c d : Compilation}

theorem bind_ok {x : Compile α} {f : α → Compile β} {b : β} :
    (x >>= f) c = .ok b d ↔ ∃ a e, x c = .ok a e ∧ f a e = .ok b d := by
  change EStateM.bind x f c = .ok b d ↔ _
  unfold EStateM.bind
  constructor
  · intro h
    split at h
    · exact ⟨_, _, by assumption, h⟩
    · cases h
  · rintro ⟨a, e, hx, hf⟩
    rw [hx]
    exact hf

theorem bind_error {x : Compile α} {f : α → Compile β} {error : CompileError} :
    (x >>= f) c = .error error d ↔
      x c = .error error d ∨ ∃ a e, x c = .ok a e ∧ f a e = .error error d := by
  change EStateM.bind x f c = .error error d ↔ _
  unfold EStateM.bind
  cases hx : x c with
  | ok a e =>
      constructor
      · intro h
        exact .inr ⟨a, e, rfl, h⟩
      · rintro (h | ⟨_, _, h, hf⟩)
        · cases h
        · cases h
          exact hf
  | error error' e =>
      constructor
      · intro h
        cases h
        exact .inl rfl
      · rintro (h | ⟨_, _, h, -⟩)
        · cases h
          rfl
        · cases h

theorem pure_ok {a b : α} : (pure a : Compile α) c = .ok b d ↔ a = b ∧ c = d := by
  change EStateM.Result.ok a c = .ok b d ↔ _
  simp

theorem modify_ok {f : Compilation → Compilation} {u : Unit} :
    (modify f : Compile Unit) c = .ok u d ↔ f c = d := by
  change EStateM.Result.ok () (f c) = .ok u d ↔ _
  simp

theorem modifyGet_ok {f : Compilation → α × Compilation} {a : α} :
    (modifyGet f : Compile α) c = .ok a d ↔ f c = (a, d) := by
  change EStateM.Result.ok (f c).1 (f c).2 = .ok a d ↔ _
  simp [Prod.ext_iff]

theorem get_ok {e : Compilation} : (get : Compile Compilation) c = .ok e d ↔ c = e ∧ c = d := by
  change EStateM.Result.ok c c = .ok e d ↔ _
  simp

theorem set_ok {e : Compilation} {u : PUnit} : (set e : Compile PUnit) c = .ok u d ↔ e = d := by
  change EStateM.Result.ok _ e = .ok u d ↔ _
  simp

theorem fail_ok {fault : CompileFault} {a : α} : ¬(fail fault : Compile α) c = .ok a d := by
  intro h
  cases h

theorem record_ok {event : Event} {u : Unit} : record event c = .ok u d ↔ c.record event = d :=
  modify_ok

theorem locate_ok {line : Int} {x : Compile α} {a : α} :
    locate line x c = .ok a d ↔ x c = .ok a d := by
  unfold locate
  split <;> simp_all

theorem ensuring_ok {finish : Compilation → Compilation} {x : Compile α} {a : α} :
    ensuring finish x c = .ok a d ↔ ∃ e, x c = .ok a e ∧ finish e = d := by
  unfold ensuring
  constructor
  · intro h
    split at h
    · cases h
      exact ⟨_, by assumption, rfl⟩
    · cases h
  · rintro ⟨e, hx, rfl⟩
    rw [hx]

theorem binding_ok {name : String} {b : Binding} :
    binding name c = .ok b d ↔ c.bindings.find? name = some b ∧ c = d := by
  simp only [binding, bind_ok, get_ok]
  constructor
  · rintro ⟨_, _, ⟨rfl, rfl⟩, h⟩
    cases hb : c.bindings.find? name with
    | some b' =>
        rw [hb] at h
        obtain ⟨rfl, rfl⟩ := pure_ok.1 h
        exact ⟨rfl, rfl⟩
    | none =>
        rw [hb] at h
        exact absurd h fail_ok
  · rintro ⟨hb, rfl⟩
    exact ⟨c, c, ⟨rfl, rfl⟩, by rw [hb]; rfl⟩

theorem element_ok {name : String} {i a : Int} :
    element name i c = .ok a d ↔
      ∃ b, c.bindings.find? name = some b ∧ (0 ≤ i ∧ i < b.length) ∧ a = b.base + i ∧ c = d := by
  simp only [element, bind_ok, binding_ok]
  constructor
  · rintro ⟨b, _, ⟨hb, rfl⟩, h⟩
    split at h
    · rename_i hi
      obtain ⟨rfl, rfl⟩ := pure_ok.1 h
      exact ⟨b, hb, hi, rfl, rfl⟩
    · exact absurd h fail_ok
  · rintro ⟨b, hb, hi, rfl, rfl⟩
    exact ⟨b, c, ⟨hb, rfl⟩, by rw [if_pos hi]; rfl⟩

theorem setValue_eq (value address : Int) :
    setValue value address c =
      if value.natAbs < countLimit then .ok () (c.countAt value address)
      else .error ⟨.uncountable value, 0⟩ (c.clear address) := by
  change setHere value (c.moveTo address) = _
  unfold setHere
  split <;> rfl

theorem setValue_ok {value address : Int} {u : Unit} :
    setValue value address c = .ok u d ↔
      value.natAbs < countLimit ∧ c.countAt value address = d := by
  rw [setValue_eq]
  by_cases hvalue : value.natAbs < countLimit
  · simp [hvalue]
  · simp [hvalue]

theorem setValue_error {value address : Int} {error : CompileError} :
    setValue value address c = .error error d ↔
      countLimit ≤ value.natAbs ∧ ⟨.uncountable value, 0⟩ = error ∧ c.clear address = d := by
  rw [setValue_eq]
  by_cases hvalue : value.natAbs < countLimit
  · simp [hvalue, Nat.not_le.2 hvalue]
  · simp [hvalue, Nat.not_lt.1 hvalue]

theorem constant_ok {value a : Int} :
    constant value c = .ok a d ↔
      ∃ e, c.allocateTemp = (a, e) ∧ value.natAbs < countLimit ∧ e.countAt value a = d := by
  simp only [constant, bind_ok, modifyGet_ok, setValue_ok, pure_ok]
  constructor
  · rintro ⟨_, e, halloc, _, _, ⟨hvalue, rfl⟩, rfl, rfl⟩
    exact ⟨e, halloc, hvalue, rfl⟩
  · rintro ⟨e, halloc, hvalue, rfl⟩
    exact ⟨a, e, halloc, (), _, ⟨hvalue, rfl⟩, rfl, rfl⟩

end Compile

end TapeCompiler
