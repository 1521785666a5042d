import LibNekit.Library.Machine

/-!
# Runs that end

Where every step that succeeds uses up some of a rank, the rank bounds the runs. A
condition on the inputs where they arrive is enough for a run if it is enough for each
step.
-/
namespace LibNekit.Library.Machine

variable {σ ι ε : Type*} {m : Machine σ ι ε}

/-- What a run has used up, and what is left, where the inputs meet a condition. -/
theorem run_uses_of_inputs (Inv : σ → Prop) (Condition : ι → Prop) (rank : σ → Nat)
    (falls : ∀ i s s', Inv s → m.admits i s → Condition i → m.step i s = .ok s' → Inv s' ∧ rank s' < rank s)
    (inputs : List ι) (s s' : σ) (initially : Inv s) (admitted : m.Admitted inputs s)
    (conditions : ∀ i ∈ inputs, Condition i) (ran : m.run inputs s = .ok s') :
    inputs.length + rank s' ≤ rank s := by
  induction inputs generalizing s with
  | nil =>
    cases ran
    exact Nat.le_of_eq (Nat.zero_add _)
  | cons i rest ih =>
    rw [run_cons] at ran
    cases stepped : m.step i s with
    | error e =>
      rw [stepped] at ran
      cases ran
    | ok s₁ =>
      rw [stepped] at ran
      obtain ⟨holds, less⟩ := falls i s s₁ initially admitted.1 (conditions i List.mem_cons_self) stepped
      have more := ih s₁ holds (admitted.2 s₁ stepped) (fun j member => conditions j (List.mem_cons_of_mem i member)) ran
      rw [List.length_cons]
      omega

theorem run_uses (Inv : σ → Prop) (rank : σ → Nat)
    (falls : ∀ i s s', Inv s → m.admits i s → m.step i s = .ok s' → Inv s' ∧ rank s' < rank s)
    (inputs : List ι) (s s' : σ) (initially : Inv s) (admitted : m.Admitted inputs s) (ran : m.run inputs s = .ok s') :
    inputs.length + rank s' ≤ rank s :=
  run_uses_of_inputs Inv (fun _ => True) rank (fun i s s' holds admits _ stepped => falls i s s' holds admits stepped)
    inputs s s' initially admitted (fun _ _ => trivial) ran

/-- Where a step fails only if its input breaks a condition, so does a run. -/
theorem run_invariant_or_breaks (Inv : σ → Prop) (Allowed : ε → Prop) (Condition : ι → σ → Prop)
    (preserved : ∀ i s, Inv s → m.admits i s →
      (∃ e, m.step i s = .error e ∧ Allowed e ∧ ¬Condition i s) ∨ ∃ s', m.step i s = .ok s' ∧ Inv s')
    (inputs : List ι) (s : σ) (initially : Inv s) (admitted : m.Admitted inputs s) :
    (∃ e, m.run inputs s = .error e ∧ Allowed e ∧ ¬m.Along Condition inputs s) ∨
      ∃ s', m.run inputs s = .ok s' ∧ Inv s' := by
  induction inputs generalizing s with
  | nil => exact Or.inr ⟨s, rfl, initially⟩
  | cons i rest ih =>
    rw [run_cons]
    rcases preserved i s initially admitted.1 with ⟨e, failed, allowed, broken⟩ | ⟨s₁, stepped, holds⟩
    · exact Or.inl ⟨e, by rw [failed]; rfl, allowed, fun along => broken along.1⟩
    · rw [stepped]
      rcases ih s₁ holds (admitted.2 s₁ stepped) with ⟨e, failed, allowed, broken⟩ | ran
      · exact Or.inl ⟨e, failed, allowed, fun along => broken (along.2 s₁ stepped)⟩
      · exact Or.inr ran

end LibNekit.Library.Machine
