import LibNekit.Library.Program

/-!
# Deferred failures

A run whose environment may fail, and one whose environment never does: where the first
fails, the second notes why and goes on. `Shadows` says that the note at the end of the
second run is how the first one ended. So what is known of the second, which has a result,
is known of the first wherever nothing was noted.
-/
namespace LibNekit.Library

/-- Why a run is followed no further. -/
inductive Halt (ε : Type) where
  | fault (e : ε)
  /-- It has taken another way. -/
  | parted
  deriving DecidableEq, Repr

variable {ε σ σ' α β β' γ γ' : Type}

/-- How a run ended. -/
def noted : Except ε α → Except (Halt ε) α
  | .ok a => .ok a
  | .error e => .error (.fault e)

@[simp] theorem noted_ok (a : α) : noted (.ok a : Except ε α) = .ok a := rfl

@[simp] theorem noted_error (e : ε) : noted (.error e : Except ε α) = .error (.fault e) := rfl

theorem noted_bind (run : Except ε α) (f : α → Except ε β) :
    noted (run >>= f) = noted run >>= fun a => noted (f a) := by
  cases run <;> rfl

/-- `look` reads the note in what `run` comes to. It is `ended`, unless the two have parted. -/
def Shadows (look : β' → Except (Halt ε) β) (ended : Except (Halt ε) β) (run : Except ε β') : Prop :=
  ∀ b, run = .ok b → look b = ended ∨ look b = .error .parted

namespace Shadows

variable {look : β' → Except (Halt ε) β} {look' : γ' → Except (Halt ε) γ} {ended : Except (Halt ε) β} {run : Except ε β'}

theorem of_ok {b : β'} (seen : look b = ended ∨ look b = .error .parted) : Shadows look ended (.ok b : Except ε β') := by
  intro b' same
  cases same
  exact seen

theorem of_error (e : ε) : Shadows look ended (.error e : Except ε β') := nofun

/-- What the second run notes is what the first one does. -/
theorem seen_ok {first : Except ε β} {b : β} {b' : β'} (shadows : Shadows look (noted first) run) (ran : run = .ok b')
    (seen : look b' = .ok b) : first = .ok b := by
  have ends := shadows b' ran
  rw [seen] at ends
  cases first with
  | ok a =>
    rcases ends with same | parted
    · cases same
      rfl
    · cases parted
  | error e =>
    rcases ends with same | parted
    · cases same
    · cases parted

theorem seen_fault {first : Except ε β} {e : ε} {b' : β'} (shadows : Shadows look (noted first) run) (ran : run = .ok b')
    (seen : look b' = .error (.fault e)) : first = .error e := by
  have ends := shadows b' ran
  rw [seen] at ends
  cases first with
  | ok a =>
    rcases ends with same | parted
    · cases same
    · cases parted
  | error e' =>
    rcases ends with same | parted
    · cases same
      rfl
    · cases parted

theorem bind {f : β → Except ε γ} {f' : β' → Except ε γ'} (first : Shadows look ended run)
    (rest : ∀ b, Shadows look' (look b >>= fun b => noted (f b)) (f' b)) :
    Shadows look' (ended >>= fun b => noted (f b)) (run >>= f') := by
  intro c ran
  cases run with
  | error e => cases ran
  | ok b =>
    have ends := rest b c ran
    rcases first b rfl with same | parted
    · rwa [same] at ends
    · rw [parted] at ends
      exact Or.inr (ends.elim id id)

/-- A program, under handlers that agree on every question. -/
theorem program {Q R : Type} {look : σ' → Except (Halt ε) σ} {handler : Q → σ → Except ε (R × σ)}
    {handler' : Q → σ' → Except ε (R × σ')}
    (answers : ∀ q s, Shadows (fun answer => (look answer.2).map (Prod.mk answer.1))
      (look s >>= fun s => noted (handler q s)) (handler' q s)) (program : Program Q R ε α) (s : σ') :
    Shadows (fun done => (look done.2).map (Prod.mk done.1)) (look s >>= fun s => noted (program.run handler s))
      (program.run handler' s) := by
  induction program generalizing s with
  | done a =>
    refine of_ok (Or.inl ?_)
    cases look s <;> rfl
  | fail e => exact of_error e
  | ask q next ih =>
    have asked (s : σ) : (Program.ask q next).run handler s = handler q s >>= fun answer => (next answer.1).run handler answer.2 := by
      rw [Program.run]
      cases handler q s <;> rfl
    have asked' : (Program.ask q next).run handler' s = handler' q s >>= fun answer => (next answer.1).run handler' answer.2 := by
      rw [Program.run]
      cases handler' q s <;> rfl
    have split : (look s >>= fun s => noted ((Program.ask q next).run handler s)) =
        (look s >>= fun s => noted (handler q s)) >>= fun answer => noted ((next answer.1).run handler answer.2) := by
      cases look s with
      | error halt => rfl
      | ok s =>
        show noted ((Program.ask q next).run handler s) = noted (handler q s) >>= _
        rw [asked, noted_bind]
    rw [split, asked']
    refine bind (answers q s) fun answer => ?_
    have same : ((look answer.2).map (Prod.mk answer.1) >>= fun answer => noted ((next answer.1).run handler answer.2)) =
        look answer.2 >>= fun s => noted ((next answer.1).run handler s) := by
      cases look answer.2 <;> rfl
    rw [same]
    exact ih answer.1 answer.2

end Shadows

end LibNekit.Library
