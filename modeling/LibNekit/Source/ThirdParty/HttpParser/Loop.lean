import LibNekit.Library.Outcome
import LibNekit.Source.ThirdParty.HttpParser.Execute

/-!
# Following the loop of `http_parser_execute`

`Feeds` speaks about the rest of a call, from one pass of the loop on: against the
callbacks of `handler` it returns with `Post`. Its rules are one for each way a pass
can end.
-/
namespace LibNekit.Source.HttpParser

open LibNekit.Library

variable {σ α β : Type}

/-! ## Pieces of the parser against its callbacks -/

def Run.under (handler : Callback → σ → Checked (Reply × σ)) (run : Run α) (s : σ) :
    Checked (Flow α × σ) :=
  Program.run handler run s

section Under

variable {handler : Callback → σ → Checked (Reply × σ)}

@[simp] theorem under_next (a : α) (s : σ) : (Run.next a).under handler s = .ok (.next a, s) := rfl

@[simp] theorem under_exit (n : Nat) (parser : HttpParser) (s : σ) :
    (Run.exit n parser : Run α).under handler s = .ok (.exit n parser, s) := rfl

@[simp] theorem under_fault (e : Fault) (s : σ) :
    (Run.fault e : Run α).under handler s = .error e := rfl

theorem under_ask {callback : Callback} {s s' : σ} {reply : Reply}
    (answered : handler callback s = .ok (reply, s')) (next : Reply → Run α) :
    (Run.ask callback next).under handler s = (next reply).under handler s' :=
  Program.run_ask answered next

theorem under_bind (run : Run α) (f : α → Run β) (s : σ) :
    (run >>= f).under handler s =
      match run.under handler s with
      | .ok (.next a, s) => (f a).under handler s
      | .ok (.exit n parser, s) => .ok (.exit n parser, s)
      | .error e => .error e := by
  refine (Program.run_bind handler run _ s).trans ?_
  unfold Run.under
  cases Program.run handler run s with
  | error e => rfl
  | ok done =>
    obtain ⟨flow, s⟩ := done
    cases flow <;> rfl

theorem under_ask_eq (callback : Callback) (next : Reply → Run α) (s : σ) :
    (Run.ask callback next).under handler s =
      match handler callback s with
      | .ok (reply, s) => (next reply).under handler s
      | .error e => .error e := by
  cases answered : handler callback s with
  | ok answer => exact under_ask answered next
  | error e => exact Program.run_ask_error answered next

theorem outcome_ask {callback : Callback} {next : Reply → Run α} {s : σ}
    {Good : Flow α × σ → Prop} {Bad : Prop}
    (outcome : Outcome (handler callback s)
      (fun answer => Outcome ((next answer.1).under handler answer.2) Good Bad) Bad) :
    Outcome ((Run.ask callback next).under handler s) Good Bad := by
  rw [under_ask_eq]
  cases answered : handler callback s <;> rw [answered] at outcome <;> exact outcome

end Under

/-! ## The rest of a call -/

def Feeds (handler : Callback → σ → Checked (Reply × σ)) (data : Bytes) (f : Frame) (s : σ)
    (Post : Nat → HttpParser → σ → Prop) (Bad : Prop) : Prop :=
  ∀ fuel, data.length ≤ f.p + fuel →
    Outcome ((loop data fuel f).result.run handler s) (fun done => Post done.1.1 done.1.2 done.2) Bad

variable {handler : Callback → σ → Checked (Reply × σ)} {data : Bytes} {f : Frame} {s : σ}
  {Post : Nat → HttpParser → σ → Prop} {Bad : Prop}

/-- Where a piece of a pass leaves the call. -/
def Goes (handler : Callback → σ → Checked (Reply × σ)) (data : Bytes) (p : Nat)
    (Post : Nat → HttpParser → σ → Prop) (Bad : Prop) : Flow Frame × σ → Prop
  | (.next f, s) => p ≤ f.p ∧ Feeds handler data { f with p := f.p + 1 } s Post Bad
  | (.exit n parser, s) => Post n parser s

theorem Goes.mono {p q : Nat} (le : p ≤ q) {flow : Flow Frame × σ}
    (goes : Goes handler data q Post Bad flow) : Goes handler data p Post Bad flow := by
  obtain ⟨flow, s⟩ := flow
  cases flow with
  | next f => exact ⟨Nat.le_trans le goes.1, goes.2⟩
  | exit n parser => exact goes

theorem result_run (run : Run Frame) (s : σ) :
    run.result.run handler s =
      match run.under handler s with
      | .ok (.next f, s) => .ok ((f.p, f.parser), s)
      | .ok (.exit n parser, s) => .ok ((n, parser), s)
      | .error e => .error e := by
  refine (Program.run_bind handler run _ s).trans ?_
  unfold Run.under
  cases Program.run handler run s with
  | error e => rfl
  | ok done =>
    obtain ⟨flow, s⟩ := done
    cases flow <;> rfl

/-- One pass of the loop. -/
theorem Feeds.pass {ch : UInt8} (here : data[f.p]? = some ch)
    (pass : Outcome ((iteration data f ch).under handler s) (Goes handler data f.p Post Bad) Bad) :
    Feeds handler data f s Post Bad := by
  intro fuel enough
  have inside : f.p < data.length := (List.getElem?_eq_some_iff.mp here).1
  obtain ⟨fuel, rfl⟩ : ∃ k, fuel = k + 1 := ⟨fuel - 1, by omega⟩
  rw [result_run, loop, here]
  dsimp only
  rw [under_bind]
  cases ran : (iteration data f ch).under handler s with
  | error e =>
    rw [ran] at pass
    exact pass
  | ok done =>
    obtain ⟨flow, s'⟩ := done
    rw [ran] at pass
    cases flow with
    | exit n parser => exact pass
    | next f' =>
      obtain ⟨forward, rest⟩ := pass
      have more := rest fuel (by show data.length ≤ f'.p + 1 + fuel; omega)
      rwa [result_run] at more

/-- A pass that calls nobody. -/
theorem Feeds.silent {ch : UInt8} {f' : Frame} (here : data[f.p]? = some ch)
    (pass : iteration data f ch = Run.next f') (forward : f.p ≤ f'.p)
    (rest : Feeds handler data { f' with p := f'.p + 1 } s Post Bad) :
    Feeds handler data f s Post Bad :=
  Feeds.pass here (by rw [pass]; exact ⟨forward, rest⟩)

/-! ## The end of the data -/

theorem callbackDataTo_unmarked {callback : DataCallback} (clear : f.parser.httpErrno = .ok)
    (unmarked : f.marks callback = none) (stop er : Nat) :
    callbackDataTo callback stop er f = Run.next f := by
  simp [callbackDataTo, clear, unmarked]

theorem callbackDataTo_marked {callback : DataCallback} {start : Nat}
    (clear : f.parser.httpErrno = .ok) (marked : f.marks callback = some start) (stop er : Nat) :
    callbackDataTo callback stop er f = Run.ask (.data callback start (stop - start)) fun reply =>
      if reply.errno (.cbData callback) = .ok then
        Run.next { f with
          parser := f.parser.setErrno .ok, marks := Function.update f.marks callback none }
      else Run.exit er (f.parser.setErrno (reply.errno (.cbData callback))) := by
  simp only [callbackDataTo, clear, marked, ne_eq, not_true_eq_false, if_false]
  refine congrArg (Run.ask _) (funext fun reply => ?_)
  by_cases fine : reply.errno (.cbData callback) = .ok <;> simp [fine]

theorem leftover_none (clear : f.parser.httpErrno = .ok) (unmarked : f.marks = fun _ => none) :
    leftover data f = Run.exit data.length f.parser := by
  simp [leftover, cAssert, openMarks, callbackDataNoAdvance, callbackDataTo_unmarked, clear, unmarked]

theorem openMarks_one (callback : DataCallback) (start : Nat) :
    openMarks (Function.update (fun _ => none) callback (some start)) = 1 := by
  cases callback <;> rfl

/-- At most one element is left open. -/
theorem leftover_one {callback : DataCallback} {start : Nat} (clear : f.parser.httpErrno = .ok)
    (marked : f.marks = Function.update (fun _ => none) callback (some start))
    (used : f.p = data.length) :
    leftover data f = Run.ask (.data callback start (data.length - start)) fun reply =>
      Run.exit data.length (f.parser.setErrno (reply.errno (.cbData callback))) := by
  have reported := callbackDataTo_marked clear
    (by rw [marked, Function.update_self] : f.marks callback = some start) data.length data.length
  have unmarked : ∀ other, other ≠ callback → f.marks other = none := fun other different => by
    rw [marked, Function.update_of_ne different]
  have one := openMarks_one callback start
  rw [← marked] at one
  cases callback <;>
  · simp only [leftover, callbackDataNoAdvance, cAssert, one, clear, unmarked, reported, used,
      callbackDataTo_unmarked, Nat.le_refl, if_true, Run.next_bind, Run.ask_bind, ne_eq,
      reduceCtorEq, not_false_eq_true]
    refine congrArg (Run.ask _) (funext fun reply => ?_)
    split
    · rename_i fine
      simp [fine, callbackDataTo_unmarked, unmarked]
    · rfl

theorem loop_used (used : data.length ≤ f.p) (fuel : Nat) : loop data fuel f = leftover data f := by
  cases fuel with
  | zero => rfl
  | succ fuel => rw [loop, List.getElem?_eq_none used]

/-- The data is used up, and no element is open. -/
theorem Feeds.stop (used : f.p = data.length) (clear : f.parser.httpErrno = .ok)
    (unmarked : f.marks = fun _ => none) (post : Post data.length f.parser s) :
    Feeds handler data f s Post Bad := by
  intro fuel _
  rw [loop_used (Nat.le_of_eq used.symm), leftover_none clear unmarked]
  exact post

/-- The data is used up inside an element, which is reported as far as it goes. -/
theorem Feeds.report {callback : DataCallback} {start : Nat} (used : f.p = data.length)
    (clear : f.parser.httpErrno = .ok)
    (marked : f.marks = Function.update (fun _ => none) callback (some start))
    (reported : Outcome (handler (.data callback start (data.length - start)) s)
      (fun answer => Post data.length
        (f.parser.setErrno (answer.1.errno (.cbData callback))) answer.2) Bad) :
    Feeds handler data f s Post Bad := by
  intro fuel _
  rw [result_run, loop_used (Nat.le_of_eq used.symm), leftover_one clear marked used, under_ask_eq]
  cases answered : handler (.data callback start (data.length - start)) s <;>
    rw [answered] at reported <;> exact reported

theorem execute_outcome {parser : HttpParser} (clear : parser.httpErrno = .ok) (some_data : data ≠ [])
    (feeds : Feeds handler data (entryFrame parser) s Post Bad) :
    Outcome ((execute parser data).run handler s)
      (fun done => Post done.1.1 done.1.2 done.2) Bad := by
  unfold execute
  rw [if_neg (by simp [clear]), if_neg some_data]
  exact feeds data.length (Nat.le_add_left _ _)

end LibNekit.Source.HttpParser
