import LibNekit.Source.Transport.ProxyManager

/-!
# The accept loop of a running ProxyManager

An accepted socket becomes one tunnel, and its listener waits again. An error of
`async_accept` does not get that far: the manager logs it and follows the result as if
it held a flow. So the loop goes on exactly in the runs that see no such error.
-/
namespace LibNekit.Guarantees.AcceptLoop

open LibNekit.Source LibNekit.Library LibNekit.Source.ProxyManager

variable {Socket Flow : Type} {dataFlowHandler : Socket → Flow} {m m' : ProxyManager Flow}

/-- Every listener that is not closed waits for the next connection. -/
def Waiting (m : ProxyManager Flow) : Prop := ∀ l ∈ m.listeners, l.closed = false → l.accepting = true

/-- What an outcome has to do: a socket gets one tunnel, which is opened, and nothing
else does anything to flows or tunnels. -/
def Served (dataFlowHandler : Socket → Flow) (e : Event Socket) (m m' : ProxyManager Flow) : Prop :=
  Waiting m' ∧
    match e with
    | .accepted _ (.socket socket) =>
      let tunnel : BuiltTunnel Flow := { localDataFlow := dataFlowHandler socket, opened := true }
      m'.tunnelManager.built = m.tunnelManager.built ++ [tunnel] ∧
        m'.tunnelManager.tunnels = m.tunnelManager.tunnels ++ [(m.tunnelManager.built.length, tunnel)] ∧
        m'.resolved = m.resolved ++ [dataFlowHandler socket]
    | .accepted _ _ | .close _ => m'.tunnelManager = m.tunnelManager ∧ m'.resolved = m.resolved
    | .tunnelClosed _ => m'.tunnelManager.built = m.tunnelManager.built ∧ m'.resolved = m.resolved

/-- `async_accept` completed with an error other than `operation_aborted`. -/
def Fails (e : Event Socket) : Prop := ∃ i, e = .accepted i .error

theorem run_waiting (listeners : Nat) : Waiting (run listeners : ProxyManager Flow) := by
  intro l member _
  rw [List.eq_of_mem_replicate member]
  rfl

/-- Setting one listener keeps the others waiting. -/
theorem Waiting.set (waiting : Waiting m) (i : Nat) {l : TcpListener}
    (again : l.closed = false → l.accepting = true) (same : m'.listeners = m.listeners.set i l) :
    Waiting m' := by
  intro other member notClosed
  rw [same] at member
  rcases List.mem_or_eq_of_mem_set member with old | rfl
  · exact waiting other old notClosed
  · exact again notClosed

theorem error_fails (dataFlowHandler : Socket → Flow) (i : Nat) (m' : ProxyManager Flow) :
    step dataFlowHandler (.accepted i .error) m ≠ .ok m' := by
  intro stepped
  obtain ⟨l, -, rest⟩ := bind_eq_ok.mp stepped
  obtain ⟨after, failed, -⟩ := bind_eq_ok.mp rest
  cases failed

/-- Every other outcome is served. -/
theorem step_serves (waiting : Waiting m) {e : Event Socket} (admits : Admits e m) (fine : ¬Fails e) :
    ∃ m', step dataFlowHandler e m = .ok m' ∧ Served dataFlowHandler e m m' ∧ Waiting m' := by
  cases e with
  | accepted i outcome =>
    obtain ⟨l, here, -, aborted⟩ := admits
    cases outcome with
    | error => exact absurd ⟨i, rfl⟩ fine
    | operationAborted =>
      have closed := aborted rfl
      let l' : TcpListener := { l with accepting := false }
      have waits : Waiting { m with listeners := m.listeners.set i l' } :=
        waiting.set i (fun notClosed => absurd closed (by simp [show l.closed = false from notClosed])) rfl
      exact ⟨_, by rw [step, here]; rfl, ⟨waits, rfl, rfl⟩, waits⟩
    | socket socket =>
      let m' : ProxyManager Flow := { m with
        resolved := m.resolved ++ [dataFlowHandler socket]
        tunnelManager := m.tunnelManager.buildAndOpen (dataFlowHandler socket)
        listeners := m.listeners.set i { l with accepting := true } }
      have waits : Waiting m' := waiting.set i (fun _ => rfl) rfl
      exact ⟨m', by rw [step, here]; rfl, ⟨waits, rfl, rfl, rfl⟩, waits⟩
  | close i =>
    obtain ⟨l, here⟩ := admits
    have waits : Waiting { m with listeners := m.listeners.set i l.close } :=
      waiting.set i (fun notClosed => absurd notClosed (by simp [TcpListener.close])) rfl
    exact ⟨_, by rw [step, here]; rfl, ⟨waits, rfl, rfl⟩, waits⟩
  | tunnelClosed tunnel => exact ⟨_, rfl, ⟨waiting, rfl, rfl⟩, waiting⟩

/-- The loop survives a run exactly when the run has no error in it. -/
theorem accept_loop_survives_iff (dataFlowHandler : Socket → Flow) (listeners : Nat)
    (events : List (Event Socket)) (admitted : (machine dataFlowHandler).Admitted events (run listeners)) :
    (machine dataFlowHandler).AllSteps (Served dataFlowHandler) events (run listeners) ↔
      ∀ e ∈ events, ¬Fails e := by
  constructor
  · refine Machine.AllSteps.inputs fun e m m' stepped _ => ?_
    rintro ⟨i, rfl⟩
    exact error_fails dataFlowHandler i m' stepped
  · exact @Machine.allSteps_of_inputs _ _ _ (machine dataFlowHandler) Waiting _ _
      (fun e m waiting admits fine => step_serves waiting admits fine) events _ (run_waiting listeners) admitted

/-- Two clients one after the other, the first of which is gone when the second comes. -/
theorem accept_loop_survives_iff_twice :
    (machine (id : Nat → Nat)).AllSteps (Served id)
      [.accepted 0 (.socket 1), .tunnelClosed 0, .accepted 0 (.socket 2)] (run 1) := by
  have admitted : (machine (id : Nat → Nat)).Admitted
      [.accepted 0 (.socket 1), .tunnelClosed 0, .accepted 0 (.socket 2)] (run 1) := by
    refine ⟨⟨_, rfl, rfl, nofun⟩, fun s stepped => ?_⟩
    cases stepped
    refine ⟨trivial, fun s stepped => ?_⟩
    cases stepped
    exact ⟨⟨_, rfl, rfl, nofun⟩, fun _ _ => trivial⟩
  exact (accept_loop_survives_iff id 1 _ admitted).mpr (by simp [Fails])

/-- A client that is gone before it is accepted ends the manager. -/
theorem accept_error_is_followed :
    (machine (id : Nat → Nat)).Admitted [.accepted 0 .error] (run 1) ∧
      (machine (id : Nat → Nat)).run [.accepted 0 .error] (run 1) = .error .assertion ∧
      ¬(machine (id : Nat → Nat)).AllSteps (Served id) [.accepted 0 .error] (run 1) := by
  refine ⟨⟨⟨_, rfl, rfl, nofun⟩, nofun⟩, rfl, ?_⟩
  rintro ⟨m', stepped, -⟩
  exact error_fails id 0 m' stepped

end LibNekit.Guarantees.AcceptLoop
