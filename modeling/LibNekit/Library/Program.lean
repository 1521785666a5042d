import Mathlib.Init
import Mathlib.Logic.Basic

/-!
# Programs that call back

A program computes, fails, or asks its environment a question and goes on with the
answer. Its environment is a handler with a state of its own. `Safe` is the rule for a
property of every question that a run asks; what a run does to the handler's state is
what the handler's answers do to it.
-/
namespace LibNekit.Library

inductive Program (Q R ε α : Type) where
  | done (a : α)
  | fail (e : ε)
  | ask (q : Q) (next : R → Program Q R ε α)

namespace Program

variable {Q R ε α β σ τ : Type}

def bind : Program Q R ε α → (α → Program Q R ε β) → Program Q R ε β
  | .done a, f => f a
  | .fail e, _ => .fail e
  | .ask q next, f => .ask q fun r => (next r).bind f

instance : Monad (Program Q R ε) where
  pure := .done
  bind := .bind

@[simp] theorem fail_bind (e : ε) (f : α → Program Q R ε β) : (fail e >>= f) = fail e := rfl
@[simp] theorem ask_bind (q : Q) (next : R → Program Q R ε α) (f : α → Program Q R ε β) :
    (ask q next >>= f) = ask q fun r => next r >>= f := rfl

theorem bind_assoc {γ : Type} (program : Program Q R ε α) (f : α → Program Q R ε β)
    (g : β → Program Q R ε γ) : (program >>= f >>= g) = program >>= fun a => f a >>= g := by
  induction program with
  | done a => rfl
  | fail e => rfl
  | ask q next ih => exact congrArg (ask q) (funext ih)

theorem bind_done (program : Program Q R ε α) : (program >>= done) = program := by
  induction program with
  | done a => rfl
  | fail e => rfl
  | ask q next ih => exact congrArg (ask q) (funext ih)

/-- Run a program against a handler. -/
def run (handler : Q → σ → Except ε (R × σ)) : Program Q R ε α → σ → Except ε (α × σ)
  | .done a, s => .ok (a, s)
  | .fail e, _ => .error e
  | .ask q next, s =>
    match handler q s with
    | .ok (r, s) => (next r).run handler s
    | .error e => .error e

@[simp] theorem run_done (handler : Q → σ → Except ε (R × σ)) (a : α) (s : σ) :
    run handler (.done a) s = .ok (a, s) := rfl

@[simp] theorem run_fail (handler : Q → σ → Except ε (R × σ)) (e : ε) (s : σ) :
    run handler (.fail e : Program Q R ε α) s = .error e := rfl

theorem run_ask {handler : Q → σ → Except ε (R × σ)} {q : Q} {r : R} {s s' : σ}
    (answered : handler q s = .ok (r, s')) (next : R → Program Q R ε α) :
    run handler (.ask q next) s = run handler (next r) s' := by
  rw [run, answered]

theorem run_ask_error {handler : Q → σ → Except ε (R × σ)} {q : Q} {e : ε} {s : σ}
    (failed : handler q s = .error e) (next : R → Program Q R ε α) :
    run handler (.ask q next) s = .error e := by
  rw [run, failed]

theorem run_bind (handler : Q → σ → Except ε (R × σ)) (program : Program Q R ε α)
    (f : α → Program Q R ε β) (s : σ) :
    run handler (program >>= f) s =
      match run handler program s with
      | .ok (a, s) => run handler (f a) s
      | .error e => .error e := by
  induction program generalizing s with
  | done a => rfl
  | fail e => rfl
  | ask q next ih =>
    rw [ask_bind, run, run]
    cases handler q s with
    | ok reply => exact ih reply.1 reply.2
    | error e => rfl

/-- Where one handler follows what another does, so does a run. -/
theorem run_follows {handler : Q → σ → Except ε (R × σ)} {spec : Q → τ → Except ε (R × τ)} {Rel : σ → τ → Prop}
    (answers : ∀ q s t r t', Rel s t → spec q t = .ok (r, t') → ∃ s', handler q s = .ok (r, s') ∧ Rel s' t')
    {program : Program Q R ε α} {s : σ} {t t' : τ} {a : α} (related : Rel s t) (ran : program.run spec t = .ok (a, t')) :
    ∃ s', program.run handler s = .ok (a, s') ∧ Rel s' t' := by
  induction program generalizing s t with
  | done b =>
    cases ran
    exact ⟨s, rfl, related⟩
  | fail e => cases ran
  | ask q next ih =>
    cases told : spec q t with
    | error e =>
      rw [run_ask_error told] at ran
      cases ran
    | ok answer =>
      obtain ⟨s₁, answered, related₁⟩ := answers q s t answer.1 answer.2 related told
      rw [run_ask told] at ran
      obtain ⟨s', later, related'⟩ := ih answer.1 related₁ ran
      exact ⟨s', (run_ask answered next).trans later, related'⟩

/-! ## What a program asks -/

/-- The questions of a run, each with the state that it is asked in. -/
def asked (handler : Q → σ → Except ε (R × σ)) : Program Q R ε α → σ → List (Q × σ)
  | .done _, _ | .fail _, _ => []
  | .ask q next, s =>
    (q, s) :: match handler q s with
    | .ok (r, s) => (next r).asked handler s
    | .error _ => []

/-- Every question is asked in a state that is fit for it, and the result satisfies `Post`. -/
def Safe (handler : Q → σ → Except ε (R × σ)) (Fit : Q → σ → Prop) (Post : α → σ → Prop) :
    Program Q R ε α → σ → Prop
  | .done a, s => Post a s
  | .fail _, _ => True
  | .ask q next, s => Fit q s ∧ ∀ r s', handler q s = .ok (r, s') → (next r).Safe handler Fit Post s'

section Safe

variable {handler : Q → σ → Except ε (R × σ)} {Fit : Q → σ → Prop} {Post : α → σ → Prop}

theorem Safe.fit {program : Program Q R ε α} {s : σ} (safe : program.Safe handler Fit Post s) :
    ∀ e ∈ program.asked handler s, Fit e.1 e.2 := by
  induction program generalizing s with
  | done a | fail e => nofun
  | ask q next ih =>
    obtain ⟨fit, more⟩ := safe
    intro e member
    rw [asked] at member
    rcases List.mem_cons.mp member with rfl | later
    · exact fit
    · cases answered : handler q s with
      | error e =>
        rw [answered] at later
        exact absurd later List.not_mem_nil
      | ok answer =>
        rw [answered] at later
        exact ih answer.1 (more answer.1 answer.2 answered) e later

theorem Safe.result {program : Program Q R ε α} {s s' : σ} {a : α} (safe : program.Safe handler Fit Post s)
    (ran : program.run handler s = .ok (a, s')) : Post a s' := by
  induction program generalizing s with
  | done b =>
    cases ran
    exact safe
  | fail e => cases ran
  | ask q next ih =>
    rw [run] at ran
    cases answered : handler q s with
    | error e =>
      rw [answered] at ran
      cases ran
    | ok answer =>
      rw [answered] at ran
      exact ih answer.1 (safe.2 answer.1 answer.2 answered) ran

theorem Safe.mono {Post' : α → σ → Prop} {program : Program Q R ε α} {s : σ} (safe : program.Safe handler Fit Post s)
    (weaker : ∀ a s', Post a s' → Post' a s') : program.Safe handler Fit Post' s := by
  induction program generalizing s with
  | done a => exact weaker a s safe
  | fail e => trivial
  | ask q next ih => exact ⟨safe.1, fun r s' answered => ih r (safe.2 r s' answered)⟩

/-- The rule for a program in two parts: the second one starts where the first one ended. -/
theorem Safe.bind {Middle : α → σ → Prop} {Post : β → σ → Prop} {program : Program Q R ε α}
    {f : α → Program Q R ε β} {s : σ} (first : program.Safe handler Fit Middle s)
    (second : ∀ a s', program.run handler s = .ok (a, s') → Middle a s' → (f a).Safe handler Fit Post s') :
    (program >>= f).Safe handler Fit Post s := by
  induction program generalizing s with
  | done a => exact second a s rfl first
  | fail e => trivial
  | ask q next ih =>
    refine ⟨first.1, fun r s' answered => ih r (first.2 r s' answered) fun a s'' ran => ?_⟩
    exact second a s'' ((run_ask answered next).trans ran)

end Safe

/-- The result satisfies `Post`, and a reply in `Last` ends the program at once, with a
value in `Final`. -/
def Heeds (handler : Q → σ → Except ε (R × σ)) (Last : R → Prop) (Final : α → Prop) (Post : α → σ → Prop) :
    Program Q R ε α → σ → Prop
  | .done a, s => Post a s
  | .fail _, _ => True
  | .ask q next, s => ∀ r s', handler q s = .ok (r, s') →
      (Last r → ∃ a, next r = .done a ∧ Final a) ∧ (next r).Heeds handler Last Final Post s'

section Heeds

variable {handler : Q → σ → Except ε (R × σ)} {Last : R → Prop} {Final : α → Prop} {Post : α → σ → Prop}

theorem Heeds.result {program : Program Q R ε α} {s s' : σ} {a : α} (heeds : program.Heeds handler Last Final Post s)
    (ran : program.run handler s = .ok (a, s')) : Post a s' := by
  induction program generalizing s with
  | done b =>
    cases ran
    exact heeds
  | fail e => cases ran
  | ask q next ih =>
    rw [run] at ran
    cases answered : handler q s with
    | error e =>
      rw [answered] at ran
      cases ran
    | ok answer =>
      rw [answered] at ran
      exact ih answer.1 (heeds answer.1 answer.2 answered).2 ran

/-- A reply in `Last` is the last one. -/
theorem Heeds.last {program : Program Q R ε α} {s : σ} (heeds : program.Heeds handler Last Final Post s)
    {e : Q × σ} (member : e ∈ program.asked handler s) {r : R} {s' : σ} (answered : handler e.1 e.2 = .ok (r, s'))
    (last : Last r) : ∃ a, program.run handler s = .ok (a, s') := by
  induction program generalizing s with
  | done a | fail e => exact absurd member List.not_mem_nil
  | ask q next ih =>
    rw [asked] at member
    rcases List.mem_cons.mp member with rfl | later
    · obtain ⟨a, done, -⟩ := (heeds r s' answered).1 last
      exact ⟨a, by rw [run_ask answered, done]; rfl⟩
    · cases first : handler q s with
      | error e =>
        rw [first] at later
        exact absurd later List.not_mem_nil
      | ok answer =>
        rw [first] at later
        obtain ⟨a, ran⟩ := ih answer.1 (heeds answer.1 answer.2 first).2 later
        exact ⟨a, (run_ask first next).trans ran⟩

theorem Heeds.mono {Post' : α → σ → Prop} {program : Program Q R ε α} {s : σ}
    (heeds : program.Heeds handler Last Final Post s) (weaker : ∀ a s', Post a s' → Post' a s') :
    program.Heeds handler Last Final Post' s := by
  induction program generalizing s with
  | done a => exact weaker a s heeds
  | fail e => trivial
  | ask q next ih =>
    intro r s' answered
    obtain ⟨last, more⟩ := heeds r s' answered
    exact ⟨last, ih r more⟩

/-- The rule for a program in two parts, of which the second one does nothing to a final value. -/
theorem Heeds.bind {Middle : α → σ → Prop} {Final' : β → Prop} {Post : β → σ → Prop} {program : Program Q R ε α}
    {f : α → Program Q R ε β} {s : σ} (first : program.Heeds handler Last Final Middle s)
    (finals : ∀ a, Final a → ∃ b, f a = .done b ∧ Final' b)
    (second : ∀ a s', Middle a s' → (f a).Heeds handler Last Final' Post s') :
    (program >>= f).Heeds handler Last Final' Post s := by
  induction program generalizing s with
  | done a => exact second a s first
  | fail e => trivial
  | ask q next ih =>
    intro r s' answered
    obtain ⟨last, more⟩ := first r s' answered
    constructor
    · intro final
      obtain ⟨a, done, ends⟩ := last final
      obtain ⟨b, same, ends'⟩ := finals a ends
      refine ⟨b, ?_, ends'⟩
      show (next r >>= f) = .done b
      rw [done]
      exact same
    · exact ih r more

end Heeds

/-- What every answer of the handler keeps, every run keeps. -/
theorem run_keeps {handler : Q → σ → Except ε (R × σ)} {Rel : σ → σ → Prop} (refl : ∀ s, Rel s s)
    (trans : ∀ {s₁ s₂ s₃}, Rel s₁ s₂ → Rel s₂ s₃ → Rel s₁ s₃)
    (step : ∀ q s r s', handler q s = .ok (r, s') → Rel s s') {program : Program Q R ε α} {s s' : σ} {a : α}
    (ran : program.run handler s = .ok (a, s')) : Rel s s' := by
  induction program generalizing s with
  | done b =>
    cases ran
    exact refl _
  | fail e => cases ran
  | ask q next ih =>
    rw [run] at ran
    cases answered : handler q s with
    | error e =>
      rw [answered] at ran
      cases ran
    | ok answer =>
      rw [answered] at ran
      exact trans (step q s answer.1 answer.2 answered) (ih answer.1 ran)

/-- What the answers to the questions of a run keep, the run keeps. -/
theorem run_keeps_asked {handler : Q → σ → Except ε (R × σ)} {Inv : σ → Prop} {program : Program Q R ε α} {s s' : σ} {a : α}
    (step : ∀ e ∈ program.asked handler s, ∀ r s', Inv e.2 → handler e.1 e.2 = .ok (r, s') → Inv s') (initially : Inv s)
    (ran : program.run handler s = .ok (a, s')) : Inv s' := by
  induction program generalizing s with
  | done b =>
    cases ran
    exact initially
  | fail e => cases ran
  | ask q next ih =>
    rw [run] at ran
    rw [asked] at step
    cases answered : handler q s with
    | error e =>
      rw [answered] at ran
      cases ran
    | ok answer =>
      rw [answered] at ran step
      have first := step (q, s) List.mem_cons_self answer.1 answer.2 initially answered
      exact ih answer.1 (fun e member => step e (List.mem_cons_of_mem _ member)) first ran

end Program

end LibNekit.Library
