import Mathlib.Init
import Mathlib.Logic.Basic

/-!
# Machines driven by inputs

A machine takes one step for each input and may fail; `admits` says which inputs
its environment is allowed to offer in a state. The rule of this library is the
usual one for invariants: what one admitted step preserves, and succeeds in, every
admitted run preserves, and succeeds in.
-/
namespace LibNekit.Library

structure Machine (σ ι ε : Type*) where
  admits : ι → σ → Prop
  step : ι → σ → Except ε σ

namespace Machine

variable {σ ι ε : Type*} (m : Machine σ ι ε)

/-- Feed the inputs one after the other. -/
def run : List ι → σ → Except ε σ
  | [], s => .ok s
  | i :: rest, s => m.step i s >>= run rest

/-- Every input is admitted in the state that the inputs before it lead to. -/
def Admitted : List ι → σ → Prop
  | [], _ => True
  | i :: rest, s => m.admits i s ∧ ∀ s', m.step i s = .ok s' → Admitted rest s'

instance decidableAdmitted [∀ i s, Decidable (m.admits i s)] :
    (inputs : List ι) → (s : σ) → Decidable (m.Admitted inputs s)
  | [], _ => .isTrue trivial
  | i :: rest, s =>
    match stepped : m.step i s with
    | .error _ => decidable_of_iff (m.admits i s)
        ⟨fun admitted => ⟨admitted, fun s' ok => by rw [stepped] at ok; cases ok⟩, And.left⟩
    | .ok s₁ =>
      haveI := decidableAdmitted rest s₁
      decidable_of_iff (m.admits i s ∧ m.Admitted rest s₁)
        ⟨fun ⟨admitted, more⟩ => ⟨admitted, fun s' ok => by
            rw [stepped] at ok
            cases ok
            exact more⟩,
          fun ⟨admitted, more⟩ => ⟨admitted, more s₁ stepped⟩⟩

/-- Every input satisfies `Condition` in the state it arrives in. -/
def Along (Condition : ι → σ → Prop) : List ι → σ → Prop
  | [], _ => True
  | i :: rest, s => Condition i s ∧ ∀ s', m.step i s = .ok s' → Along Condition rest s'

instance decidableAlong {Condition : ι → σ → Prop} [∀ i s, Decidable (Condition i s)] :
    (inputs : List ι) → (s : σ) → Decidable (m.Along Condition inputs s)
  | [], _ => .isTrue trivial
  | i :: rest, s =>
    match stepped : m.step i s with
    | .error _ => decidable_of_iff (Condition i s)
        ⟨fun holds => ⟨holds, fun s' ok => by rw [stepped] at ok; cases ok⟩, And.left⟩
    | .ok s₁ =>
      haveI : Decidable (m.Along Condition rest s₁) := decidableAlong rest s₁
      decidable_of_iff (Condition i s ∧ m.Along Condition rest s₁)
        ⟨fun ⟨holds, more⟩ => ⟨holds, fun s' ok => by
            rw [stepped] at ok
            cases ok
            exact more⟩,
          fun ⟨holds, more⟩ => ⟨holds, more s₁ stepped⟩⟩

/-- Every step succeeds, and `Good` describes it. -/
def AllSteps (Good : ι → σ → σ → Prop) : List ι → σ → Prop
  | [], _ => True
  | i :: rest, s => ∃ s', m.step i s = .ok s' ∧ Good i s s' ∧ AllSteps Good rest s'

/-- `Good` describes every step that succeeds. -/
def EachStep (Good : ι → σ → σ → Prop) : List ι → σ → Prop
  | [], _ => True
  | i :: rest, s => ∀ s', m.step i s = .ok s' → Good i s s' ∧ EachStep Good rest s'

instance decidableEachStep {Good : ι → σ → σ → Prop} [∀ i s s', Decidable (Good i s s')] :
    (inputs : List ι) → (s : σ) → Decidable (m.EachStep Good inputs s)
  | [], _ => .isTrue trivial
  | i :: rest, s =>
    match stepped : m.step i s with
    | .error _ => .isTrue fun s' ok => by
        rw [stepped] at ok
        cases ok
    | .ok s₁ =>
      haveI : Decidable (m.EachStep Good rest s₁) := decidableEachStep rest s₁
      decidable_of_iff (Good i s s₁ ∧ m.EachStep Good rest s₁)
        ⟨fun good s' ok => by
            rw [stepped] at ok
            cases ok
            exact good,
          fun all => all s₁ stepped⟩

/-- The inputs are admitted, every step succeeds, and the last state satisfies `Post`. -/
@[reducible] def Runs (inputs : List ι) (s : σ) (Post : σ → Prop) : Prop :=
  m.Admitted inputs s ∧ ∃ s', m.run inputs s = .ok s' ∧ Post s'

/-- States that admitted runs from `start` end in. -/
def Reachable (start s : σ) : Prop := ∃ inputs, m.Admitted inputs start ∧ m.run inputs start = .ok s

variable {m} {start : σ}

@[simp] theorem run_nil (s : σ) : m.run [] s = .ok s := rfl

theorem run_cons (i : ι) (rest : List ι) (s : σ) : m.run (i :: rest) s = m.step i s >>= m.run rest :=
  rfl

theorem run_append (before after : List ι) (s : σ) :
    m.run (before ++ after) s = m.run before s >>= m.run after := by
  induction before generalizing s with
  | nil => rfl
  | cons i rest ih =>
    rw [List.cons_append, run_cons, run_cons]
    cases m.step i s with
    | error e => rfl
    | ok s' => exact ih s'

/-- Where the environment may offer everything, every run is admitted. -/
theorem admitted_all (everything : ∀ i s, m.admits i s) (inputs : List ι) (s : σ) : m.Admitted inputs s := by
  induction inputs generalizing s with
  | nil => trivial
  | cons i rest ih => exact ⟨everything i s, fun s' _ => ih s'⟩

/-- A run goes on from the state that its first part leads to. -/
theorem admitted_append {before after : List ι} {s s' : σ} (admitted : m.Admitted before s)
    (ran : m.run before s = .ok s') : m.Admitted (before ++ after) s ↔ m.Admitted after s' := by
  induction before generalizing s with
  | nil =>
    cases ran
    rfl
  | cons i rest ih =>
    rw [run_cons] at ran
    rw [List.cons_append, Admitted]
    cases stepped : m.step i s with
    | error e =>
      rw [stepped] at ran
      cases ran
    | ok s₁ =>
      rw [stepped] at ran
      have more := ih (admitted.2 s₁ stepped) ran
      constructor
      · intro holds
        exact more.mp (holds.2 s₁ rfl)
      · intro holds
        refine ⟨admitted.1, fun s₂ again => ?_⟩
        obtain rfl : s₁ = s₂ := Except.ok.inj again
        exact more.mpr holds

theorem admitted_of_append {before after : List ι} {s : σ} (admitted : m.Admitted (before ++ after) s) :
    m.Admitted before s := by
  induction before generalizing s with
  | nil => trivial
  | cons i rest ih => exact ⟨admitted.1, fun s' stepped => ih (admitted.2 s' stepped)⟩

/-- Runs one after the other. -/
theorem Runs.append {before after : List ι} {s : σ} {Mid Post : σ → Prop} (first : m.Runs before s Mid)
    (then_runs : ∀ s', Mid s' → m.Runs after s' Post) : m.Runs (before ++ after) s Post := by
  obtain ⟨admitted, s', ran, mid⟩ := first
  obtain ⟨admitted', s'', ran', post⟩ := then_runs s' mid
  refine ⟨(admitted_append admitted ran).mpr admitted', s'', ?_, post⟩
  rw [run_append, ran]
  exact ran'

/-- One step, and the run from where it leads. -/
theorem Runs.cons {i : ι} {after : List ι} {s s' : σ} {Post : σ → Prop} (admits : m.admits i s)
    (stepped : m.step i s = .ok s') (then_runs : m.Runs after s' Post) : m.Runs (i :: after) s Post :=
  have first : m.Runs [i] s (· = s') :=
    ⟨⟨admits, fun _ _ => trivial⟩, s', by rw [run_cons, stepped]; rfl, rfl⟩
  first.append fun _ same => same ▸ then_runs

/-- An invariant that may speak about the inputs so far, and that admitted steps
preserve unless they fail as described, holds after every admitted run, or after the
inputs before the one that failed so. -/
theorem run_history_cut {Inv : List ι → σ → Prop} {Fails : ι → σ → ε → Prop}
    (preserved : ∀ past i s, Inv past s → m.admits i s →
      (∃ e, m.step i s = .error e ∧ Fails i s e) ∨ ∃ s', m.step i s = .ok s' ∧ Inv (past ++ [i]) s')
    (inputs past : List ι) (s : σ) (initially : Inv past s) (admitted : m.Admitted inputs s) :
    (∃ before i after s' e, inputs = before ++ i :: after ∧ m.run before s = .ok s' ∧
        Inv (past ++ before) s' ∧ Fails i s' e ∧ m.run inputs s = .error e) ∨
      ∃ s', m.run inputs s = .ok s' ∧ Inv (past ++ inputs) s' := by
  induction inputs generalizing past s with
  | nil => exact Or.inr ⟨s, rfl, by rwa [List.append_nil]⟩
  | cons i rest ih =>
    rw [run_cons]
    rcases preserved past i s initially admitted.1 with ⟨e, failed, described⟩ | ⟨s₁, stepped, holds⟩
    · refine Or.inl ⟨[], i, rest, s, e, rfl, rfl, by rwa [List.append_nil], described, ?_⟩
      rw [failed]
      rfl
    · rw [stepped]
      have more := ih (past ++ [i]) s₁ holds (admitted.2 s₁ stepped)
      simp only [List.append_assoc, List.singleton_append] at more
      rcases more with ⟨before, j, after, s', e, rfl, ran, held, described, failed⟩ | ⟨s', ran, held⟩
      · refine Or.inl ⟨i :: before, j, after, s', e, rfl, ?_, held, described, failed⟩
        rw [run_cons, stepped]
        exact ran
      · exact Or.inr ⟨s', ran, held⟩

/-- The rule where only the kind of the failure matters. -/
theorem run_history_upTo {Inv : List ι → σ → Prop} {Allowed : ε → Prop}
    (preserved : ∀ past i s, Inv past s → m.admits i s →
      (∃ e, m.step i s = .error e ∧ Allowed e) ∨ ∃ s', m.step i s = .ok s' ∧ Inv (past ++ [i]) s')
    (inputs past : List ι) (s : σ) (initially : Inv past s) (admitted : m.Admitted inputs s) :
    (∃ e, m.run inputs s = .error e ∧ Allowed e) ∨
      ∃ s', m.run inputs s = .ok s' ∧ Inv (past ++ inputs) s' := by
  rcases run_history_cut preserved inputs past s initially admitted with
    ⟨_, _, _, _, e, _, _, _, allowed, failed⟩ | finished
  · exact Or.inl ⟨e, failed, allowed⟩
  · exact Or.inr finished

/-- The rule for a run in which every step succeeds. -/
theorem run_history {Inv : List ι → σ → Prop}
    (preserved : ∀ past i s, Inv past s → m.admits i s →
      ∃ s', m.step i s = .ok s' ∧ Inv (past ++ [i]) s')
    (inputs past : List ι) (s : σ) (initially : Inv past s) (admitted : m.Admitted inputs s) :
    ∃ s', m.run inputs s = .ok s' ∧ Inv (past ++ inputs) s' :=
  (run_history_upTo (fun past i s holds admits =>
    (Or.inr (preserved past i s holds admits) : (∃ e, m.step i s = .error e ∧ False) ∨ _)) inputs past
    s initially admitted).resolve_left fun ⟨_, _, never⟩ => never

/-- An invariant that admitted steps preserve, up to failures of an allowed kind,
holds after every admitted run, up to such a failure. -/
theorem run_invariant_upTo {Inv : σ → Prop} {Allowed : ε → Prop}
    (preserved : ∀ i s, Inv s → m.admits i s →
      (∃ e, m.step i s = .error e ∧ Allowed e) ∨ ∃ s', m.step i s = .ok s' ∧ Inv s')
    (inputs : List ι) (s : σ) (initially : Inv s) (admitted : m.Admitted inputs s) :
    (∃ e, m.run inputs s = .error e ∧ Allowed e) ∨ ∃ s', m.run inputs s = .ok s' ∧ Inv s' :=
  run_history_upTo (fun (_ : List ι) => preserved) inputs [] s initially admitted

/-- An invariant under which admitted steps succeed holds after every admitted run. -/
theorem run_invariant {Inv : σ → Prop}
    (preserved : ∀ i s, Inv s → m.admits i s → ∃ s', m.step i s = .ok s' ∧ Inv s')
    (inputs : List ι) (s : σ) (initially : Inv s) (admitted : m.Admitted inputs s) :
    ∃ s', m.run inputs s = .ok s' ∧ Inv s' :=
  (run_invariant_upTo (fun i s holds admits =>
    (Or.inr (preserved i s holds admits) : (∃ e, m.step i s = .error e ∧ False) ∨ _)) inputs s
    initially admitted).resolve_left fun ⟨_, _, never⟩ => never

/-- The rule for runs whose inputs all meet a condition. -/
theorem run_invariant_of_inputs {Inv : σ → Prop} {Condition : ι → Prop}
    (preserved : ∀ i s, Inv s → m.admits i s → Condition i → ∃ s', m.step i s = .ok s' ∧ Inv s')
    (inputs : List ι) (s : σ) (initially : Inv s) (admitted : m.Admitted inputs s)
    (conditions : ∀ i ∈ inputs, Condition i) : ∃ s', m.run inputs s = .ok s' ∧ Inv s' := by
  induction inputs generalizing s with
  | nil => exact ⟨s, rfl, initially⟩
  | cons i rest ih =>
    obtain ⟨s₁, stepped, holds⟩ := preserved i s initially admitted.1 (conditions i List.mem_cons_self)
    obtain ⟨s', ran, more⟩ := ih s₁ holds (admitted.2 s₁ stepped)
      fun j member => conditions j (List.mem_cons_of_mem i member)
    exact ⟨s', by rw [run_cons, stepped]; exact ran, more⟩

/-- Where a condition decides each step, it decides the run. -/
theorem allSteps_iff_along {Inv : σ → Prop} {Good : ι → σ → σ → Prop} {Condition : ι → σ → Prop}
    (decides : ∀ i s, Inv s → m.admits i s →
      ((∃ s', m.step i s = .ok s' ∧ Good i s s') ↔ Condition i s))
    (preserved : ∀ i s s', Inv s → m.admits i s → Condition i s → m.step i s = .ok s' → Inv s')
    (inputs : List ι) (s : σ) (initially : Inv s) (admitted : m.Admitted inputs s) :
    m.AllSteps Good inputs s ↔ m.Along Condition inputs s := by
  induction inputs generalizing s with
  | nil => exact Iff.rfl
  | cons i rest ih =>
    have decided := decides i s initially admitted.1
    constructor
    · rintro ⟨s', stepped, good, more⟩
      have condition := decided.mp ⟨s', stepped, good⟩
      refine ⟨condition, fun s₁ again => ?_⟩
      obtain rfl : s' = s₁ := Except.ok.inj (stepped.symm.trans again)
      have holds := preserved i s s' initially admitted.1 condition stepped
      exact (ih s' holds (admitted.2 s' stepped)).mp more
    · rintro ⟨condition, more⟩
      obtain ⟨s', stepped, good⟩ := decided.mpr condition
      have holds := preserved i s s' initially admitted.1 condition stepped
      exact ⟨s', stepped, good, (ih s' holds (admitted.2 s' stepped)).mpr (more s' stepped)⟩

/-- The rule for a condition on the inputs alone, which an invariant makes sufficient. -/
theorem allSteps_of_inputs {Inv : σ → Prop} {Good : ι → σ → σ → Prop} {Condition : ι → Prop}
    (good : ∀ i s, Inv s → m.admits i s → Condition i → ∃ s', m.step i s = .ok s' ∧ Good i s s' ∧ Inv s')
    (inputs : List ι) (s : σ) (initially : Inv s) (admitted : m.Admitted inputs s)
    (conditions : ∀ i ∈ inputs, Condition i) : m.AllSteps Good inputs s := by
  induction inputs generalizing s with
  | nil => trivial
  | cons i rest ih =>
    obtain ⟨s', stepped, described, holds⟩ :=
      good i s initially admitted.1 (conditions i List.mem_cons_self)
    exact ⟨s', stepped, described, ih s' holds (admitted.2 s' stepped)
      fun j member => conditions j (List.mem_cons_of_mem i member)⟩

/-- The rule for a condition on the inputs where they arrive, which is enough. -/
theorem allSteps_of_along {Inv : σ → Prop} {Good : ι → σ → σ → Prop} {Condition : ι → σ → Prop}
    (good : ∀ i s, Inv s → m.admits i s → Condition i s → ∃ s', m.step i s = .ok s' ∧ Good i s s' ∧ Inv s')
    (inputs : List ι) (s : σ) (initially : Inv s) (admitted : m.Admitted inputs s)
    (along : m.Along Condition inputs s) : m.AllSteps Good inputs s := by
  induction inputs generalizing s with
  | nil => trivial
  | cons i rest ih =>
    obtain ⟨s', stepped, described, holds⟩ := good i s initially admitted.1 along.1
    exact ⟨s', stepped, described, ih s' holds (admitted.2 s' stepped) (along.2 s' stepped)⟩

/-- The rule for what the inputs find: a condition that, under an invariant, makes the
other hold, and the invariant last. -/
theorem along_of_along {Inv : σ → Prop} {Good Condition : ι → σ → Prop}
    (good : ∀ i s, Inv s → m.admits i s → Condition i s → Good i s ∧ ∀ s', m.step i s = .ok s' → Inv s')
    (inputs : List ι) (s : σ) (initially : Inv s) (admitted : m.Admitted inputs s)
    (along : m.Along Condition inputs s) : m.Along Good inputs s := by
  induction inputs generalizing s with
  | nil => trivial
  | cons i rest ih =>
    obtain ⟨here, last⟩ := good i s initially admitted.1 along.1
    exact ⟨here, fun s' stepped => ih s' (last s' stepped) (admitted.2 s' stepped) (along.2 s' stepped)⟩

/-- Where a condition decides what every input finds, it decides the run. -/
theorem along_iff_along {Inv : σ → Prop} {Good Condition : ι → σ → Prop}
    (decides : ∀ i s, Inv s → m.admits i s → (Good i s ↔ Condition i s))
    (preserved : ∀ i s s', Inv s → m.admits i s → Condition i s → m.step i s = .ok s' → Inv s')
    (inputs : List ι) (s : σ) (initially : Inv s) (admitted : m.Admitted inputs s) :
    m.Along Good inputs s ↔ m.Along Condition inputs s := by
  induction inputs generalizing s with
  | nil => exact Iff.rfl
  | cons i rest ih =>
    have decided := decides i s initially admitted.1
    constructor
    · rintro ⟨good, more⟩
      have condition := decided.mp good
      refine ⟨condition, fun s' stepped => ?_⟩
      have holds := preserved i s s' initially admitted.1 condition stepped
      exact (ih s' holds (admitted.2 s' stepped)).mp (more s' stepped)
    · rintro ⟨condition, more⟩
      refine ⟨decided.mpr condition, fun s' stepped => ?_⟩
      have holds := preserved i s s' initially admitted.1 condition stepped
      exact (ih s' holds (admitted.2 s' stepped)).mpr (more s' stepped)

/-- And its converse: what every good step says about its input. -/
theorem AllSteps.inputs {Good : ι → σ → σ → Prop} {Condition : ι → Prop}
    (needed : ∀ i s s', m.step i s = .ok s' → Good i s s' → Condition i) {inputs : List ι} {s : σ}
    (steps : m.AllSteps Good inputs s) : ∀ i ∈ inputs, Condition i := by
  induction inputs generalizing s with
  | nil => exact fun _ member => absurd member List.not_mem_nil
  | cons i rest ih =>
    obtain ⟨s', stepped, good, more⟩ := steps
    intro j member
    rcases List.mem_cons.mp member with rfl | later
    · exact needed j s s' stepped good
    · exact ih more j later

/-- The rule for steps that may fail: where a condition decides each step that succeeds,
it decides the run. -/
theorem eachStep_iff {Inv : σ → Prop} {Good Good' : ι → σ → σ → Prop}
    (decides : ∀ i s s', Inv s → m.admits i s → m.step i s = .ok s' → (Good i s s' ↔ Good' i s s'))
    (preserved : ∀ i s s', Inv s → m.admits i s → m.step i s = .ok s' → Inv s')
    (inputs : List ι) (s : σ) (initially : Inv s) (admitted : m.Admitted inputs s) :
    m.EachStep Good inputs s ↔ m.EachStep Good' inputs s := by
  induction inputs generalizing s with
  | nil => exact Iff.rfl
  | cons i rest ih =>
    refine forall₂_congr fun s' stepped => ?_
    have holds := preserved i s s' initially admitted.1 stepped
    rw [decides i s s' initially admitted.1 stepped, ih s' holds (admitted.2 s' stepped)]

/-- What is true of every step is true of the steps of a run. -/
theorem eachStep_all {Good : ι → σ → σ → Prop} (good : ∀ i s s', m.step i s = .ok s' → Good i s s') (inputs : List ι)
    (s : σ) : m.EachStep Good inputs s := by
  induction inputs generalizing s with
  | nil => trivial
  | cons i rest ih => exact fun s' stepped => ⟨good i s s' stepped, ih s'⟩

/-- What an invariant says about every step. -/
theorem eachStep_of_invariant {Inv : σ → Prop} {Good : ι → σ → σ → Prop}
    (good : ∀ i s s', Inv s → m.admits i s → m.step i s = .ok s' → Good i s s' ∧ Inv s')
    (inputs : List ι) (s : σ) (initially : Inv s) (admitted : m.Admitted inputs s) :
    m.EachStep Good inputs s := by
  induction inputs generalizing s with
  | nil => trivial
  | cons i rest ih =>
    intro s' stepped
    obtain ⟨described, holds⟩ := good i s s' initially admitted.1 stepped
    exact ⟨described, ih s' holds (admitted.2 s' stepped)⟩

/-- The same rule where the inputs meet a condition. -/
theorem eachStep_of_along {Inv : σ → Prop} {Good : ι → σ → σ → Prop} {Condition : ι → σ → Prop}
    (good : ∀ i s s', Inv s → m.admits i s → Condition i s → m.step i s = .ok s' → Good i s s' ∧ Inv s')
    (inputs : List ι) (s : σ) (initially : Inv s) (admitted : m.Admitted inputs s) (along : m.Along Condition inputs s) :
    m.EachStep Good inputs s := by
  induction inputs generalizing s with
  | nil => trivial
  | cons i rest ih =>
    intro s' stepped
    obtain ⟨described, holds⟩ := good i s s' initially admitted.1 along.1 stepped
    exact ⟨described, ih s' holds (admitted.2 s' stepped) (along.2 s' stepped)⟩

/-- What an input in the middle of a run finds. -/
theorem AllSteps.finds {Inv : σ → Prop} {Good : ι → σ → σ → Prop}
    (preserved : ∀ i s s', Inv s → m.admits i s → m.step i s = .ok s' → Good i s s' → Inv s')
    (before : List ι) {i : ι} {after : List ι} {s : σ} (steps : m.AllSteps Good (before ++ i :: after) s)
    (admitted : m.Admitted (before ++ i :: after) s) (initially : Inv s) :
    ∃ s', Inv s' ∧ m.admits i s' := by
  induction before generalizing s with
  | nil => exact ⟨s, initially, admitted.1⟩
  | cons first before ih =>
    obtain ⟨s', stepped, good, more⟩ := steps
    exact ih more (admitted.2 s' stepped) (preserved first s s' initially admitted.1 stepped good)

/-- The same rule read backwards from a finished run, when steps may fail. -/
theorem Reachable.invariant {Inv : σ → Prop} {s : σ} (reached : m.Reachable start s)
    (initially : Inv start)
    (preserved : ∀ i s s', Inv s → m.admits i s → m.step i s = .ok s' → Inv s') : Inv s := by
  obtain ⟨inputs, admitted, ran⟩ := reached
  induction inputs generalizing start with
  | nil =>
    cases ran
    exact initially
  | cons i rest ih =>
    rw [run_cons] at ran
    cases stepped : m.step i start with
    | error e =>
      rw [stepped] at ran
      cases ran
    | ok s₁ =>
      rw [stepped] at ran
      exact ih (preserved i start s₁ initially admitted.1 stepped) (admitted.2 s₁ stepped) ran

end Machine

end LibNekit.Library
