import Mathlib.Data.List.Infix
import LibNekit.Library.Program

/-!
# Loops with fuel

A loop of a program may never end, so it is given fuel and fails when that runs out. A
program that gets further than another one, wherever that one fails, is above it; more
fuel leads above, and a run that ends is the run of every program above.
-/
namespace LibNekit.Library

namespace Program

variable {Q R ε α β σ τ : Type}

/-- The body goes once more, or stops with a result. -/
def loop (out : ε) (body : τ → Program Q R ε (τ ⊕ α)) : Nat → τ → Program Q R ε α
  | 0, _ => .fail out
  | fuel + 1, t => body t >>= fun
    | .inl t => loop out body fuel t
    | .inr a => .done a

@[simp] theorem loop_zero (out : ε) (body : τ → Program Q R ε (τ ⊕ α)) (t : τ) : loop out body 0 t = .fail out := rfl

theorem loop_succ (out : ε) (body : τ → Program Q R ε (τ ⊕ α)) (fuel : Nat) (t : τ) :
    loop out body (fuel + 1) t = body t >>= fun
      | .inl t => loop out body fuel t
      | .inr a => .done a := rfl

/-- `q` does what `p` does, and may go on where `p` fails. -/
def Below : Program Q R ε α → Program Q R ε α → Prop
  | .done a, q => q = .done a
  | .fail _, _ => True
  | .ask c next, q => ∃ next', q = .ask c next' ∧ ∀ r, Below (next r) (next' r)

theorem Below.refl (p : Program Q R ε α) : Below p p := by
  induction p with
  | done a => rfl
  | fail e => trivial
  | ask c next ih => exact ⟨next, rfl, ih⟩

theorem Below.bind {p p' : Program Q R ε α} {f f' : α → Program Q R ε β} (first : Below p p')
    (rest : ∀ a, Below (f a) (f' a)) : Below (p >>= f) (p' >>= f') := by
  induction p generalizing p' with
  | done a =>
    cases first
    exact rest a
  | fail e => trivial
  | ask c next ih =>
    obtain ⟨next', rfl, below⟩ := first
    exact ⟨_, rfl, fun r => ih r (below r)⟩

/-- More fuel, for the loop or for its body, leads above. -/
theorem Below.loop {out : ε} {body body' : τ → Program Q R ε (τ ⊕ α)} (bodies : ∀ t, Below (body t) (body' t))
    {fuel fuel' : Nat} (le : fuel ≤ fuel') (t : τ) :
    Below (Program.loop out body fuel t) (Program.loop out body' fuel' t) := by
  induction fuel generalizing fuel' t with
  | zero => trivial
  | succ fuel ih =>
    obtain ⟨more, rfl⟩ : ∃ more, fuel' = more + 1 := ⟨fuel' - 1, by omega⟩
    rw [loop_succ, loop_succ]
    refine (bodies t).bind fun r => ?_
    cases r with
    | inl t => exact ih (by omega) t
    | inr a => rfl

variable {handler : Q → σ → Except ε (R × σ)}

theorem Below.run_ok {p q : Program Q R ε α} (below : Below p q) {s : σ} {x : α × σ} (ran : p.run handler s = .ok x) :
    q.run handler s = .ok x := by
  induction p generalizing q s with
  | done a =>
    cases below
    exact ran
  | fail e => cases ran
  | ask c next ih =>
    obtain ⟨next', rfl, below⟩ := below
    rw [run] at ran ⊢
    cases answered : handler c s with
    | error e =>
      rw [answered] at ran
      cases ran
    | ok answer =>
      rw [answered] at ran
      exact ih answer.1 (below answer.1) ran

theorem Below.asked {p q : Program Q R ε α} (below : Below p q) (s : σ) :
    Program.asked handler p s <+: Program.asked handler q s := by
  induction p generalizing q s with
  | done a | fail e => exact List.nil_prefix
  | ask c next ih =>
    obtain ⟨next', rfl, below⟩ := below
    simp only [Program.asked]
    refine (List.prefix_cons_inj _).mpr ?_
    cases handler c s with
    | error e => exact List.nil_prefix
    | ok answer => exact ih answer.1 (below answer.1) answer.2

/-- A run that ends asks what the programs above ask. -/
theorem Below.asked_eq {p q : Program Q R ε α} (below : Below p q) {s : σ} {x : α × σ} (ran : p.run handler s = .ok x) :
    Program.asked handler q s = Program.asked handler p s := by
  induction p generalizing q s with
  | done a =>
    cases below
    rfl
  | fail e => cases ran
  | ask c next ih =>
    obtain ⟨next', rfl, below⟩ := below
    rw [run] at ran
    simp only [Program.asked]
    cases answered : handler c s with
    | error e => rfl
    | ok answer =>
      rw [answered] at ran
      exact congrArg _ (ih answer.1 (below answer.1) ran)

/-! ## Runs in two parts -/

theorem run_bind_ok {p : Program Q R ε α} {f : α → Program Q R ε β} {s : σ} {x : β × σ} :
    (p >>= f).run handler s = .ok x ↔ ∃ a s', p.run handler s = .ok (a, s') ∧ (f a).run handler s' = .ok x := by
  rw [run_bind]
  cases p.run handler s with
  | error e => simp
  | ok y =>
    obtain ⟨a, s'⟩ := y
    simp

theorem asked_bind {p : Program Q R ε α} {f : α → Program Q R ε β} {s s' : σ} {a : α}
    (ran : p.run handler s = .ok (a, s')) :
    (p >>= f).asked handler s = p.asked handler s ++ (f a).asked handler s' := by
  induction p generalizing s with
  | done b =>
    cases ran
    rfl
  | fail e => cases ran
  | ask c next ih =>
    rw [run] at ran
    simp only [ask_bind, asked]
    cases answered : handler c s with
    | error e =>
      rw [answered] at ran
      cases ran
    | ok answer =>
      rw [answered] at ran
      exact congrArg _ (ih answer.1 ran)

theorem asked_of_bind {p : Program Q R ε α} {f : α → Program Q R ε β} (s : σ) :
    p.asked handler s <+: (p >>= f).asked handler s := by
  induction p generalizing s with
  | done b | fail e => exact List.nil_prefix
  | ask c next ih =>
    simp only [ask_bind, asked]
    refine (List.prefix_cons_inj _).mpr ?_
    cases handler c s with
    | error e => exact List.nil_prefix
    | ok answer => exact ih answer.1 answer.2

/-! ## The questions that a program can ask -/

def Asks (P : Q → Prop) : Program Q R ε α → Prop
  | .done _ | .fail _ => True
  | .ask q next => P q ∧ ∀ r, (next r).Asks P

theorem Asks.ask {P : Q → Prop} {q : Q} {next : R → Program Q R ε α} (first : P q) (rest : ∀ r, (next r).Asks P) :
    (Program.ask q next).Asks P := ⟨first, rest⟩

theorem Asks.bind {P : Q → Prop} {p : Program Q R ε α} {f : α → Program Q R ε β} (first : p.Asks P)
    (rest : ∀ a, (f a).Asks P) : (p >>= f).Asks P := by
  induction p with
  | done a => exact rest a
  | fail e => trivial
  | ask q next ih => exact ⟨first.1, fun r => ih r (first.2 r)⟩

theorem Asks.loop {P : Q → Prop} {out : ε} {body : τ → Program Q R ε (τ ⊕ α)} (each : ∀ t, (body t).Asks P) (fuel : Nat)
    (t : τ) : (Program.loop out body fuel t).Asks P := by
  induction fuel generalizing t with
  | zero => trivial
  | succ fuel ih =>
    rw [loop_succ]
    refine (each t).bind fun r => ?_
    cases r with
    | inl t' => exact ih t'
    | inr a => trivial

theorem Asks.asked {P : Q → Prop} {p : Program Q R ε α} (asks : p.Asks P) (s : σ) :
    ∀ e ∈ Program.asked handler p s, P e.1 := by
  induction p generalizing s with
  | done a | fail e => nofun
  | ask q next ih =>
    intro e member
    rw [Program.asked] at member
    rcases List.mem_cons.mp member with rfl | later
    · exact asks.1
    · cases answered : handler q s with
      | error e =>
        rw [answered] at later
        exact absurd later List.not_mem_nil
      | ok answer =>
        rw [answered] at later
        exact ih answer.1 (asks.2 answer.1) answer.2 e later

/-! ## Loops that end -/

section Loop

variable {out : ε} {body : τ → Program Q R ε (τ ⊕ α)} {Inv : τ → σ → Prop} {Fit : Q → σ → Prop} {Post : α → σ → Prop}

/-- The rule for a loop whose questions all meet a condition: what one pass keeps, or ends
with, the loop ends with. -/
theorem loop_along
    (step : ∀ t s r s', Inv t s → (body t).run handler s = .ok (r, s') → (∀ e ∈ (body t).asked handler s, Fit e.1 e.2) →
      Sum.elim (fun t' => Inv t' s') (fun a => Post a s') r)
    {fuel : Nat} {t : τ} {s : σ} {x : α × σ} (initially : Inv t s) (ran : (loop out body fuel t).run handler s = .ok x)
    (along : ∀ e ∈ (loop out body fuel t).asked handler s, Fit e.1 e.2) : Post x.1 x.2 := by
  induction fuel generalizing t s with
  | zero => cases ran
  | succ fuel ih =>
    rw [loop_succ] at ran along
    obtain ⟨r, s', passed, ran⟩ := run_bind_ok.mp ran
    rw [asked_bind passed] at along
    have kept := step t s r s' initially passed fun e member => along e (List.mem_append_left _ member)
    cases r with
    | inl t' => exact ih kept ran fun e member => along e (List.mem_append_right _ member)
    | inr a =>
      cases ran
      exact kept

/-- The same rule without a condition. -/
theorem loop_ends
    (step : ∀ t s r s', Inv t s → (body t).run handler s = .ok (r, s') →
      Sum.elim (fun t' => Inv t' s') (fun a => Post a s') r)
    {fuel : Nat} {t : τ} {s : σ} {x : α × σ} (initially : Inv t s) (ran : (loop out body fuel t).run handler s = .ok x) :
    Post x.1 x.2 :=
  @loop_along _ _ _ _ _ _ _ out body Inv (fun _ _ => True) Post (fun t s r s' inv passed _ => step t s r s' inv passed)
    _ _ _ _ initially ran fun _ _ => trivial

/-- Where every pass goes on to another one, the loop does not end. -/
theorem loop_endless (step : ∀ t s r s', Inv t s → (body t).run handler s = .ok (r, s') → ∃ t', r = .inl t' ∧ Inv t' s')
    (fuel : Nat) {t : τ} {s : σ} (initially : Inv t s) (x : α × σ) : (loop out body fuel t).run handler s ≠ .ok x := by
  intro ran
  refine @loop_ends _ _ _ _ _ _ handler out body Inv (fun _ _ => False) ?_ _ _ _ _ initially ran
  intro t s r s' inv passed
  obtain ⟨t', rfl, inv⟩ := step t s r s' inv passed
  exact inv

end Loop

/-- Passes that are given fuel themselves, and come down in a well-founded order, end if
all that they ask meets the condition under which one of them ends. -/
theorem loop_returns {out : ε} {body : Nat → τ → Program Q R ε (τ ⊕ α)} {Inv : τ → σ → Prop} {Fit : Q → σ → Prop}
    {rel : τ × σ → τ × σ → Prop} (wf : WellFounded rel) (mono : ∀ {n n' t}, n ≤ n' → Below (body n t) (body n' t))
    (step : ∀ t s, Inv t s → (∀ n, ∀ e ∈ (body n t).asked handler s, Fit e.1 e.2) →
      ∃ n r s', (body n t).run handler s = .ok (r, s') ∧ ∀ t', r = .inl t' → Inv t' s' ∧ rel (t', s') (t, s))
    (t : τ) (s : σ) (initially : Inv t s)
    (along : ∀ n, ∀ e ∈ (loop out (body n) n t).asked handler s, Fit e.1 e.2) :
    ∃ n x, (loop out (body n) n t).run handler s = .ok x := by
  obtain ⟨start, here⟩ : ∃ start : τ × σ, start = (t, s) := ⟨_, rfl⟩
  induction start using wf.induction generalizing t s with
  | _ start ih =>
    subst here
    have fit : ∀ n, ∀ e ∈ (body n t).asked handler s, Fit e.1 e.2 := fun n e member =>
      along (n + 1) e ((asked_of_bind s).mem ((mono (Nat.le_succ n)).asked s |>.mem member))
    obtain ⟨n, r, s', passed, next⟩ := step t s initially fit
    cases r with
    | inr a =>
      refine ⟨n + 1, (a, s'), ?_⟩
      rw [loop_succ]
      exact run_bind_ok.mpr ⟨_, _, (mono (Nat.le_succ n)).run_ok passed, rfl⟩
    | inl t' =>
      obtain ⟨inv, lower⟩ := next t' rfl
      have pass : ∀ k, n ≤ k → (body k t).run handler s = .ok (.inl t', s') := fun k le => (mono le).run_ok passed
      obtain ⟨m, x, ran⟩ := ih (t', s') lower t' s' inv (fun m e member => along (max n m + 1) e (by
        rw [loop_succ, asked_bind (pass _ (by omega))]
        refine List.mem_append_right _ ?_
        have above := @Below.loop _ _ _ _ _ out (body m) (body (max n m + 1)) (fun t => mono (by omega)) m (max n m) (by omega) t'
        exact (above.asked s').mem member)) rfl
      refine ⟨max n m + 1, x, ?_⟩
      rw [loop_succ]
      have above := @Below.loop _ _ _ _ _ out (body m) (body (max n m + 1)) (fun t => mono (by omega)) m (max n m) (by omega) t'
      exact run_bind_ok.mpr ⟨_, _, pass _ (by omega), above.run_ok ran⟩

end Program

end LibNekit.Library
