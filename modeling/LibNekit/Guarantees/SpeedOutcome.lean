import Mathlib.Data.Finset.Card
import LibNekit.Source.DataFlow.SpeedRace

/-!
# One outcome of a SpeedDataFlow

Timers expire and candidates report in any order. A run of a race is in one of three
situations, and in the last two nothing changes any more: the winner has destroyed the other
candidates and all timers, whose closures do nothing, or nobody is left to report.
-/
namespace LibNekit.Guarantees.SpeedOutcome

open LibNekit.Source LibNekit.Library LibNekit.Source.SpeedRace
open LibNekit.Source.SpeedDataFlow (Event Candidate)

/-- The candidates that have reported `success`, in order. -/
def reported (success : Bool) (past : List Event) : List Nat :=
  past.filterMap fun
    | .connected i result _ => if result = success then some i else none
    | _ => none

def unreported (candidates : Nat) (past : List Event) : Finset Nat :=
  (Finset.range candidates).filter fun i => i ∉ reported true past ∧ i ∉ reported false past

theorem reported_append (success : Bool) (past : List Event) (i : Nat) (result : Bool)
    (machine : FlowStateMachine) :
    reported success (past ++ [.connected i result machine]) =
      reported success past ++ if result = success then [i] else [] := by
  unfold reported
  rw [List.filterMap_append]
  split <;> simp [*]

theorem reported_silent (success : Bool) (past : List Event) {e : Event}
    (silent : ∀ i result machine, e ≠ .connected i result machine) :
    reported success (past ++ [e]) = reported success past := by
  unfold reported
  rw [List.filterMap_append]
  cases e with
  | connected i result machine => exact absurd rfl (silent i result machine)
  | _ => simp

structure Racing (n : Nat) (past : List Event) (f : SpeedRace) : Prop where
  machine : f.stateMachine.state = .establishing
  flows : f.dataFlows.length = n
  timers : ∀ i : Nat, f.connectTimers[i]? = some true → f.dataFlows[i]? = some .waiting
  destroyed : f.destroyed = []
  failed : ∀ i : Nat, f.dataFlows[i]? = some .failed ↔ i ∈ reported false past
  succeeded : reported true past = []
  active : f.currentActiveConnection = (unreported n past).card
  some_left : (unreported n past).Nonempty
  answers : f.answers = []

structure Won (n : Nat) (past : List Event) (f : SpeedRace) (i : Nat) : Prop where
  machine : f.stateMachine.state = .established
  first : (reported true past).head? = some i
  winner : f.winner = some i
  flows : f.dataFlows = []
  timers : f.connectTimers = []
  not_lost : ∃ j < n, j ∉ reported false past
  answers : f.answers = [true]

structure Lost (n : Nat) (past : List Event) (f : SpeedRace) : Prop where
  machine : f.stateMachine.state = .establishing
  timers : ∀ i : Nat, f.connectTimers[i]? ≠ some true
  destroyed : f.destroyed = []
  flows : ∀ i : Nat, f.dataFlows[i]? ≠ some .connecting
  succeeded : reported true past = []
  failed : ∀ i < n, i ∈ reported false past
  answers : f.answers = [false]

/-- The situations of a race of `n` candidates. -/
inductive Situation (n : Nat) (past : List Event) (f : SpeedRace) : Prop where
  | fresh (nothing : past = []) (created : f = SpeedRace.init n)
  | racing (racing : Racing n past f)
  | won (i : Nat) (won : Won n past f i)
  | lost (lost : Lost n past f)

variable {n i : Nat} {past : List Event} {f : SpeedRace}

/-! ## Steps of a race -/

theorem start_races (positive : 0 < n) :
    ∃ f, step .callConnect (SpeedRace.init n) = .ok f ∧ Racing n [.callConnect] f := by
  have everybody : unreported n [.callConnect] = Finset.range n := by
    simp [unreported, reported]
  refine ⟨_, rfl, rfl, List.length_replicate, fun i pending => ?_, rfl, fun i => ?_, rfl, ?_, ?_, rfl⟩
  · have inside : i < n := by
      have inside := (List.getElem?_eq_some_iff.mp pending).1
      simpa [SpeedRace.init, SpeedDataFlow.init] using inside
    simp [SpeedRace.init, SpeedDataFlow.init, inside]
  · simp [SpeedRace.init, SpeedDataFlow.init, reported, List.getElem?_replicate]
  · rw [everybody, Finset.card_range]
    exact List.length_replicate
  · rw [everybody]
    exact ⟨0, Finset.mem_range.mpr positive⟩

theorem Racing.timer (racing : Racing n past f) (admits : f.connectTimers[i]? = some true) :
    ∃ f', step (.timer i) f = .ok f' ∧ Racing n (past ++ [.timer i]) f' := by
  have waiting := racing.timers i admits
  have silent (success : Bool) : reported success (past ++ [.timer i]) = reported success past :=
    reported_silent success past nofun
  have same : unreported n (past ++ [.timer i]) = unreported n past := by
    simp only [unreported, silent]
  refine ⟨_, onTimer_eq admits waiting, racing.machine, List.length_set.trans racing.flows, fun j pending => ?_,
    racing.destroyed, fun j => ?_, ?_, ?_, ?_, racing.answers⟩
  · by_cases it : i = j
    · subst it
      simp [List.getElem?_set_self'] at pending
    · rw [List.getElem?_set_ne it] at pending ⊢
      exact racing.timers j pending
  · rw [silent, ← racing.failed]
    by_cases it : i = j
    · subst it
      have inside := (List.getElem?_eq_some_iff.mp waiting).1
      simp [waiting, List.getElem?_set_self inside]
    · rw [List.getElem?_set_ne it]
  · rw [silent]
    exact racing.succeeded
  · rw [same]
    exact racing.active
  · rw [same]
    exact racing.some_left

/-- A report takes its candidate out of those that are to report. -/
theorem unreported_report (success : Bool) (machine : FlowStateMachine) :
    unreported n (past ++ [.connected i success machine]) = (unreported n past).erase i := by
  ext j
  simp only [unreported, Finset.mem_filter, Finset.mem_erase, reported_append]
  cases success <;> simp <;> tauto

/-- A candidate that has not failed is to report. -/
theorem Racing.due (racing : Racing n past f) {candidate : Candidate}
    (here : f.dataFlows[i]? = some candidate) (notFailed : candidate ≠ .failed) :
    i ∈ unreported n past := by
  have inside : i < n := racing.flows ▸ (List.getElem?_eq_some_iff.mp here).1
  have silent : i ∉ reported false past := fun failed => by
    have failed := (racing.failed i).mpr failed
    rw [here] at failed
    exact notFailed (Option.some.inj failed)
  simp [unreported, racing.succeeded, inside, silent]

theorem Racing.failure (racing : Racing n past f) (fits : n < sizeRange) (machine : FlowStateMachine)
    (admits : f.dataFlows[i]? = some .connecting) :
    ∃ f', step (.connected i false machine) f = .ok f' ∧
      Situation n (past ++ [.connected i false machine]) f' := by
  have due := racing.due admits nofun
  have left : unreported n (past ++ [.connected i false machine]) = (unreported n past).erase i :=
    unreported_report false machine
  have size : (unreported n past).card ≤ n := by
    have size := Finset.card_filter_le (Finset.range n) fun i => i ∉ reported true past ∧ i ∉ reported false past
    rwa [Finset.card_range] at size
  have some_left : 0 < (unreported n past).card := Finset.card_pos.mpr racing.some_left
  have count : sizeSub f.currentActiveConnection 1 = ((unreported n past).erase i).card := by
    rw [racing.active, sizeSub_eq (by omega) some_left, Finset.card_erase_of_mem due]
  have succeeded : reported true (past ++ [.connected i false machine]) = [] := by
    rw [reported_append, racing.succeeded]
    rfl
  have failed (j : Nat) : (f.dataFlows.set i .failed)[j]? = some .failed ↔
      j ∈ reported false (past ++ [.connected i false machine]) := by
    rw [reported_append, if_pos rfl, List.mem_append, List.mem_singleton, ← racing.failed]
    by_cases it : i = j
    · subst it
      simp [List.getElem?_set_self (List.getElem?_eq_some_iff.mp admits).1]
    · rw [List.getElem?_set_ne it]
      simp [Ne.symm it]
  refine ⟨_, onConnected_failed admits count, ?_⟩
  by_cases last : ((unreported n past).erase i).card = 0
  · -- the last candidate has failed
    have nobody (j : Nat) (other : i ≠ j) : j ∉ unreported n past := by
      rw [Finset.card_eq_zero] at last
      intro member
      exact absurd (last ▸ Finset.mem_erase.mpr ⟨Ne.symm other, member⟩) (Finset.notMem_empty j)
    refine .lost ⟨racing.machine, fun j pending => ?_, racing.destroyed, fun j connecting => ?_, succeeded, fun j inside => ?_, ?_⟩
    · have waits := racing.timers j pending
      refine nobody j ?_ (racing.due waits nofun)
      rintro rfl
      rw [admits] at waits
      cases waits
    · by_cases it : i = j
      · subst it
        simp [List.getElem?_set_self (List.getElem?_eq_some_iff.mp admits).1] at connecting
      · rw [List.getElem?_set_ne it] at connecting
        exact nobody j it (racing.due connecting nofun)
    · by_cases it : i = j
      · subst it
        simp [reported_append]
      · have silent := nobody j it
        simp only [unreported, Finset.mem_filter, Finset.mem_range, racing.succeeded, List.not_mem_nil,
          not_false_eq_true, true_and, inside, not_not] at silent
        rw [reported_append]
        exact List.mem_append_left _ silent
    · simp [last, racing.answers]
  · refine .racing ⟨racing.machine, List.length_set.trans racing.flows, fun j pending => ?_, racing.destroyed, failed, succeeded,
      by rw [left], ?_, ?_⟩
    · have waits := racing.timers j pending
      have other : i ≠ j := by
        rintro rfl
        rw [admits] at waits
        cases waits
      rwa [List.getElem?_set_ne other]
    · rw [left]
      exact Finset.card_pos.mp (Nat.pos_of_ne_zero last)
    · simp [last, racing.answers]

theorem Racing.success (racing : Racing n past f) (machine : FlowStateMachine)
    (admits : f.dataFlows[i]? = some .connecting) :
    ∃ f', step (.connected i true machine) f = .ok f' ∧ Won n (past ++ [.connected i true machine]) f' i := by
  have due := racing.due admits nofun
  simp only [unreported, Finset.mem_filter, Finset.mem_range] at due
  refine ⟨_, onConnected_succeeded admits racing.machine, rfl, ?_, rfl, rfl, rfl, ⟨i, due.1, ?_⟩,
    by simp [racing.answers]⟩
  · rw [reported_append, racing.succeeded]
    rfl
  · rw [reported_append]
    simpa using due.2.2

/-- What was destroyed is not heard of again. -/
theorem Won.timer (won : Won n past f i) (j : Nat) :
    ∃ f', step (.timer j) f = .ok f' ∧ Won n (past ++ [.timer j]) f' i := by
  have silent (success : Bool) : reported success (past ++ [.timer j]) = reported success past :=
    reported_silent success past nofun
  have none : f.connectTimers[j]? = none := by rw [won.timers, List.getElem?_nil]
  have stepped : step (.timer j) f = .ok { f with destroyed := f.destroyed.set j false } := if_pos none
  refine ⟨_, stepped, won.machine, ?_, won.winner, won.flows, won.timers, ?_, won.answers⟩
  · rw [silent]
    exact won.first
  · rw [silent]
    exact won.not_lost

/-- The step lemma. -/
theorem situation_step (positive : 0 < n) (fits : n < sizeRange) (past : List Event) (e : Event)
    (f : SpeedRace) (situation : Situation n past f) (admits : Admits e f) :
    ∃ f', step e f = .ok f' ∧ Situation n (past ++ [e]) f' := by
  cases situation with
  | fresh nothing created =>
    subst nothing created
    cases e with
    | callConnect =>
      obtain ⟨f', stepped, racing⟩ := start_races positive
      exact ⟨f', stepped, .racing racing⟩
    | timer i => rcases admits with live | destroyed <;> cases ‹_›
    | connected i success machine =>
      have here : (List.replicate n Candidate.waiting)[i]? = some .connecting := admits
      rw [List.getElem?_replicate] at here
      split at here <;> cases here
  | racing racing =>
    cases e with
    | callConnect =>
      have state : f.stateMachine.state = .init := admits
      rw [racing.machine] at state
      cases state
    | timer i =>
      rcases admits with pending | destroyed
      · obtain ⟨f', stepped, racing'⟩ := racing.timer pending
        exact ⟨f', stepped, .racing racing'⟩
      · rw [racing.destroyed] at destroyed
        cases destroyed
    | connected i success machine =>
      cases success with
      | false => exact racing.failure fits machine admits
      | true =>
        obtain ⟨f', stepped, won⟩ := racing.success machine admits
        exact ⟨f', stepped, .won i won⟩
  | won winner won =>
    cases e with
    | callConnect =>
      have state : f.stateMachine.state = .init := admits
      rw [won.machine] at state
      cases state
    | timer j =>
      obtain ⟨f', stepped, won'⟩ := won.timer j
      exact ⟨f', stepped, .won winner won'⟩
    | connected i success machine =>
      have alive : f.dataFlows[i]? = some .connecting := admits
      rw [won.flows] at alive
      cases alive
  | lost lost =>
    cases e with
    | callConnect =>
      have state : f.stateMachine.state = .init := admits
      rw [lost.machine] at state
      cases state
    | timer i =>
      rcases admits with pending | destroyed
      · exact absurd pending (lost.timers i)
      · rw [lost.destroyed] at destroyed
        cases destroyed
    | connected i success machine => exact absurd admits (lost.flows i)

/-! ## Whole runs -/

/-- The handler is told once, of the first success or of the failure of all, and until
then the count is of those that are to report. -/
theorem speed_connect_one_outcome (n : Nat) (positive : 0 < n) (fits : n < sizeRange) (events : List Event)
    (admitted : machine.Admitted events (SpeedRace.init n)) :
    ∃ f, machine.run events (SpeedRace.init n) = .ok f ∧ f.answers.length ≤ 1 ∧
      (f.answers = [true] ↔ ∃ i, i ∈ reported true events) ∧
      (∀ i, (reported true events).head? = some i →
        f.winner = some i ∧ f.dataFlows = [] ∧ f.connectTimers = []) ∧
      (f.answers = [false] ↔ ∀ i < n, i ∈ reported false events) ∧
      (f.answers = [] → events ≠ [] → f.currentActiveConnection = (unreported n events).card) := by
  obtain ⟨f, ran, situation⟩ := Machine.run_history (situation_step positive fits) events [] _
    (.fresh rfl rfl) admitted
  refine ⟨f, ran, ?_⟩
  rw [List.nil_append] at situation
  cases situation with
  | fresh nothing created =>
    subst nothing created
    refine ⟨Nat.zero_le _, ?_, nofun, ?_, fun _ called => absurd rfl called⟩
    · constructor <;> intro impossible
      · cases impossible
      · obtain ⟨i, member⟩ := impossible
        cases member
    · constructor <;> intro impossible
      · cases impossible
      · exact absurd (impossible 0 positive) List.not_mem_nil
  | racing racing =>
    obtain ⟨i, due⟩ := racing.some_left
    simp only [unreported, Finset.mem_filter, Finset.mem_range] at due
    simp only [racing.answers, racing.succeeded]
    refine ⟨Nat.zero_le _, by simp, nofun, ?_, fun _ _ => racing.active⟩
    exact ⟨nofun, fun all => absurd (all i due.1) due.2.2⟩
  | won i won =>
    obtain ⟨j, inside, silent⟩ := won.not_lost
    have first := List.mem_of_mem_head? (Option.mem_def.mpr won.first)
    simp only [won.answers]
    refine ⟨Nat.le_refl _, ⟨fun _ => ⟨i, first⟩, fun _ => trivial⟩, fun k same => ?_, ⟨nofun, fun all =>
      absurd (all j inside) silent⟩, nofun⟩
    obtain rfl : i = k := Option.some.inj (won.first.symm.trans same)
    exact ⟨won.winner, won.flows, won.timers⟩
  | lost lost =>
    simp only [lost.answers, lost.succeeded]
    refine ⟨Nat.le_refl _, by simp, nofun, ⟨fun _ => lost.failed, fun _ => trivial⟩, nofun⟩

/-- The second candidate wins while the first one is still connecting. -/
theorem speed_connect_one_outcome_second :
    ∃ f, machine.run [.callConnect, .timer 0, .timer 1, .connected 1 true { type := .remote }]
      (SpeedRace.init 2) = .ok f ∧ (f.answers = [true] ↔ ∃ i, i ∈ reported true
        [.callConnect, .timer 0, .timer 1, .connected 1 true { type := .remote }]) := by
  obtain ⟨f, ran, -, success, -⟩ := speed_connect_one_outcome 2 (by decide) (by decide)
    [.callConnect, .timer 0, .timer 1, .connected 1 true { type := .remote }] (by decide)
  exact ⟨f, ran, success⟩

end LibNekit.Guarantees.SpeedOutcome
