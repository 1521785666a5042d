import LibNekit.Library.Machine
import LibNekit.Source.Crypto.PlainRecords

/-!
# A write that SSL_write could not finish

`SSL_write` may want input first. The tunnel notes that in `need_cipher_input_`, and what
it could not write stays in `pending_write_plain_`. The note is taken back when input
arrives, but nothing writes the rest then.
-/
namespace LibNekit.Guarantees.BlockedWrite

open LibNekit.Source LibNekit.Library Ssl TlsTunnel Program

variable {σ : Type} {lib : OpenSsl σ}

/-- What `SSL_write` has accepted from the tunnel. -/
structure Accepts (lib : OpenSsl σ) (accepted : σ → Bytes) : Prop where
  sslWrite : ∀ data s, (lib (.sslWrite data) s).1.count ≤ data.length ∧
    accepted (lib (.sslWrite data) s).2 = accepted s ++ data.take (lib (.sslWrite data) s).1.count
  other : ∀ c s, (∀ data, c ≠ .sslWrite data) → accepted (lib c s).2 = accepted s

inductive Call where
  | readPlainTextData
  | writePlainTextData (buffer : Chunks)
  | readCipherTextData
  | writeCipherTextData (buffer : Chunks)

/-- A tunnel after the handshake. `written` is the plain text that it was given. -/
structure Sender (σ : Type) where
  tunnel : TlsTunnel
  session : σ
  written : Bytes := []

def Sender.step (lib : OpenSsl σ) (fuel : Nat) : Call → Sender σ → Checked (Sender σ)
  | .readPlainTextData, x => .ok { x with tunnel := x.tunnel.readPlainTextData.2 }
  | .writePlainTextData buffer, x => do
    let (tunnel, session) ← on lib (x.tunnel.writePlainTextData fuel buffer) x.session
    return { tunnel, session, written := x.written ++ buffer.bytes }
  | .readCipherTextData, x => .ok { x with tunnel := x.tunnel.readCipherTextData.2 }
  | .writeCipherTextData buffer, x => do
    let (tunnel, session) ← on lib (x.tunnel.writeCipherTextData fuel buffer) x.session
    return { x with tunnel, session }

def machine (lib : OpenSsl σ) (fuel : Nat) : Machine (Sender σ) Call Fault := ⟨fun _ _ => True, Sender.step lib fuel⟩

/-- What is left of a write waits for input. -/
def Waits (t : TlsTunnel) : Prop :=
  t.error = 0 → t.closed = false → t.pendingWritePlain.size ≠ 0 → t.needCipherInput = true

/-- Between two calls, what is left of a write waits for input, and the rest has been
accepted, once and in order; what does not wait is finished when the cipher text is read. -/
structure Resumable (accepted : σ → Bytes) (call : Call) (x : Sender σ) : Prop where
  waits : Waits x.tunnel
  once : accepted x.session ++ x.tunnel.pendingWritePlain.bytes = x.written
  finished : call = .readCipherTextData → x.tunnel.error = 0 → x.tunnel.closed = false → x.tunnel.needCipherInput = false →
    x.tunnel.finishWritingCipherData = true

/-- No input arrives while a write waits for it. -/
def Undisturbed (call : Call) (x : Sender σ) : Prop :=
  match call with
  | .writeCipherTextData buffer =>
    buffer.size = 0 ∨ x.tunnel.pendingWritePlain.size = 0 ∨ x.tunnel.error ≠ 0 ∨ x.tunnel.closed = true
  | _ => True

instance decidableUndisturbed : (call : Call) → (x : Sender σ) → Decidable (Undisturbed call x)
  | .writeCipherTextData buffer, x => inferInstanceAs (Decidable
      (buffer.size = 0 ∨ x.tunnel.pendingWritePlain.size = 0 ∨ x.tunnel.error ≠ 0 ∨ x.tunnel.closed = true))
  | .readPlainTextData, _ | .writePlainTextData _, _ | .readCipherTextData, _ => .isTrue trivial

variable {accepted : σ → Bytes} {t t' : TlsTunnel} {s s' : σ}

/-! ## The flushes leave the write alone -/

/-- The write has not changed. -/
structure Frame (accepted : σ → Bytes) (t t' : TlsTunnel) (s s' : σ) : Prop where
  pending : t'.pendingWritePlain = t.pendingWritePlain
  closed : t.closed = true → t'.closed = true
  accepted : accepted s' = accepted s

theorem Frame.trans {t₁ t₂ t₃ : TlsTunnel} {s₁ s₂ s₃ : σ} (first : Frame accepted t₁ t₂ s₁ s₂)
    (second : Frame accepted t₂ t₃ s₂ s₃) : Frame accepted t₁ t₃ s₁ s₃ :=
  ⟨second.pending.trans first.pending, fun closed => second.closed (first.closed closed),
    second.accepted.trans first.accepted⟩

theorem flushCipherBuffer_frame (accepts : Accepts lib accepted) (ran : on lib t.flushCipherBuffer s = .ok (t', s')) :
    Frame accepted t t' s s' := by
  unfold flushCipherBuffer at ran
  simp only [call_bind, on_ask] at ran
  have first := accepts.other .bioPending s nofun
  split at ran
  · cases ran
    exact ⟨rfl, id, first⟩
  · rw [on_ask] at ran
    obtain ⟨u, s₁, fits, ran⟩ := on_bind_ok.mp ran
    obtain ⟨-, rfl⟩ := on_assert.mp fits
    cases ran
    exact ⟨rfl, id, (accepts.other (.bioRead _) _ nofun).trans first⟩

theorem readStopped_frame (r : SslReply) (t : TlsTunnel) :
    (t.readStopped r).pendingWritePlain = t.pendingWritePlain ∧ (t.closed = true → (t.readStopped r).closed = true) := by
  unfold readStopped
  split <;> simp

theorem flushPlainBuffer_frame (accepts : Accepts lib accepted) {n : Nat}
    (ran : on lib (t.flushPlainBuffer n) s = .ok (t', s')) : Frame accepted t t' s s' := by
  refine @loop_ends _ _ _ _ σ TlsTunnel (answers lib) .endlessLoop readOnce (fun t₁ s₁ => Frame accepted t t₁ s s₁)
    (fun t₁ s₁ => Frame accepted t t₁ s s₁) ?_ n t s (t', s') ⟨rfl, id, rfl⟩ ran
  intro t₁ s₁ r s₂ frame passed
  have passed : on lib t₁.readOnce s₁ = .ok (r, s₂) := passed
  have kept := accepts.other (.sslRead tlsReadSize) s₁ nofun
  unfold readOnce at passed
  simp only [call_bind, on_ask] at passed
  split at passed
  · cases passed
    obtain ⟨pending, closed⟩ := readStopped_frame (lib (.sslRead tlsReadSize) s₁).1 t₁
    exact frame.trans ⟨pending, closed, kept⟩
  · split at passed
    · cases passed
      exact frame.trans ⟨rfl, id, kept⟩
    · split at passed
      · cases passed
        exact frame.trans ⟨rfl, id, kept⟩
      · cases passed

theorem writePieces_frame (accepts : Accepts lib accepted) {pieces : List Bytes} {processed processed' : Nat}
    (ran : on lib (writePieces pieces t processed) s = .ok ((t', processed'), s')) : Frame accepted t t' s s' := by
  induction pieces generalizing t processed s with
  | nil =>
    cases ran
    exact ⟨rfl, id, rfl⟩
  | cons data rest ih =>
    have kept := accepts.other (.bioWrite (passed data)) s nofun
    have cleared : Frame accepted t { t with needCipherInput := false } s (lib (.bioWrite (passed data)) s).2 :=
      ⟨rfl, id, kept⟩
    unfold writePieces at ran
    simp only [call_bind, on_ask] at ran
    split at ran
    · split at ran <;> cases ran <;> exact cleared.trans ⟨rfl, id, rfl⟩
    · split at ran
      · exact cleared.trans (ih ran)
      · cases ran
        exact cleared

theorem writePass_frame (accepts : Accepts lib accepted) {buffer : Chunks} {n : Nat} {x : TlsTunnel × Nat}
    {r : TlsTunnel × Nat ⊕ TlsTunnel} (ran : on lib (writePass buffer n x) s = .ok (r, s')) :
    Sum.elim (fun x' => Frame accepted x.1 x'.1 s s') (fun t' => Frame accepted x.1 t' s s') r := by
  unfold writePass at ran
  split at ran
  · obtain ⟨⟨t₁, processed⟩, s₁, walked, ran⟩ := on_bind_ok.mp ran
    have given := writePieces_frame accepts walked
    dsimp only at ran
    split at ran
    · obtain ⟨t₂, s₂, flushed, ran⟩ := on_bind_ok.mp ran
      cases ran
      obtain ⟨t₃, s₃, cipher, plain⟩ := on_bind_ok.mp flushed
      exact given.trans ((flushCipherBuffer_frame accepts cipher).trans (flushPlainBuffer_frame accepts plain))
    · cases ran
      exact given
  · cases ran
    exact ⟨rfl, id, rfl⟩

theorem writeCipherTextData_frame (accepts : Accepts lib accepted) {buffer : Chunks} {n : Nat}
    (ran : on lib (writeCipherTextData n buffer t) s = .ok (t', s')) : Frame accepted t t' s s' := by
  refine @loop_ends _ _ _ _ σ (TlsTunnel × Nat) (answers lib) .endlessLoop (writePass buffer n)
    (fun x s₁ => Frame accepted t x.1 s s₁) (fun t₁ s₁ => Frame accepted t t₁ s s₁) ?_ n (t, 0) s (t', s') ⟨rfl, id, rfl⟩ ran
  intro x s₁ r s₂ frame passed
  have pass := writePass_frame accepts passed
  cases r with
  | inl x' => exact frame.trans pass
  | inr t₁ => exact frame.trans pass

/-- There is nothing to do for an empty Buffer, or after an error. -/
theorem writeCipherTextData_idle {buffer : Chunks} {n : Nat} (idle : buffer.size = 0 ∨ t.error ≠ 0)
    (ran : on lib (writeCipherTextData n buffer t) s = .ok (t', s')) : t' = t := by
  cases n with
  | zero => cases ran
  | succ n =>
    rw [writeCipherTextData, loop_succ, writePass, if_neg (by rintro ⟨more, fine⟩; grind)] at ran
    cases ran
    rfl

/-! ## Writing -/

/-- What the walk of `InternalPlainWrite` has written is accepted, and only that. -/
theorem plainPieces_accepts (accepts : Accepts lib accepted) {pieces : List Bytes} {writed writed' : Nat}
    (ran : on lib (plainPieces pieces t writed) s = .ok ((t', writed'), s')) :
    accepted s' = accepted s ++ pieces.flatten.take (writed' - writed) ∧ t'.pendingWritePlain = t.pendingWritePlain ∧
      writed ≤ writed' := by
  induction pieces generalizing writed s with
  | nil =>
    cases ran
    simp
  | cons data rest ih =>
    obtain ⟨count, more⟩ := accepts.sslWrite (passed data) s
    obtain ⟨short, first⟩ := take_passed count
    rw [first] at more
    unfold plainPieces at ran
    simp only [call_bind, on_ask] at ran
    split at ran
    · next whole =>
      obtain ⟨accepted', pending, le⟩ := ih ran
      refine ⟨?_, pending, by omega⟩
      have count : writed' - writed = data.length + (writed' - (writed + data.length)) := by omega
      rw [accepted', more, whole, List.take_length, List.append_assoc, List.flatten_cons, count, List.take_length_add_append]
    · split at ran
      · obtain ⟨u, s₁, part, ran⟩ := on_bind_ok.mp ran
        obtain ⟨part, rfl⟩ := on_assert.mp part
        cases ran
        refine ⟨?_, rfl, by omega⟩
        rw [more, List.flatten_cons, Nat.add_sub_cancel_left, List.take_append_of_le_length short]
      · next none =>
        have none : (lib (.sslWrite (passed data)) s).1.count = 0 := by omega
        rw [none, List.take_zero, List.append_nil] at more
        split at ran <;> cases ran <;> exact ⟨by rw [more, Nat.sub_self]; simp, rfl, Nat.le_refl _⟩

/-- `InternalPlainWrite` ends with nothing left, or with a reason. -/
theorem internalPlainWrite_waits (accepts : Accepts lib accepted) {n : Nat} {written : Bytes}
    (before : accepted s ++ t.pendingWritePlain.bytes = written)
    (ran : on lib (internalPlainWrite n t) s = .ok (t', s')) :
    Waits t' ∧ accepted s' ++ t'.pendingWritePlain.bytes = written := by
  refine @loop_ends _ _ _ _ σ TlsTunnel (answers lib) .endlessLoop plainPass
    (fun t s => accepted s ++ t.pendingWritePlain.bytes = written)
    (fun t s => Waits t ∧ accepted s ++ t.pendingWritePlain.bytes = written) ?_ n t s (t', s') before ran
  intro t₁ s₁ r s₂ left passed
  have passed : on lib (plainPass t₁) s₁ = .ok (r, s₂) := passed
  unfold plainPass at passed
  obtain ⟨⟨t₂, writed⟩, s₃, walked, passed⟩ := on_bind_ok.mp passed
  obtain ⟨more, pending, -⟩ := plainPieces_accepts accepts walked
  obtain ⟨u, s₄, full, passed⟩ := on_bind_ok.mp passed
  obtain ⟨-, rfl⟩ := on_assert.mp full
  obtain ⟨t₃, s₅, flushed, passed⟩ := on_bind_ok.mp passed
  have frame := flushCipherBuffer_frame accepts flushed
  have rest : accepted s₅ ++ t₃.pendingWritePlain.bytes = written := by
    rw [frame.accepted, frame.pending, more, Nat.sub_zero, Chunks.bytes_shrinkFront, pending, List.append_assoc]
    exact (congrArg (_ ++ ·) (List.take_append_drop writed _)).trans left
  split at passed
  · cases passed
    exact rest
  · next stops =>
    cases passed
    refine ⟨fun fine still_open some => ?_, rest⟩
    exact Bool.not_eq_false _ ▸ fun none => stops ⟨some, none, still_open, fine⟩

/-! ## Runs -/

/-- What a step keeps. -/
def Sound (accepted : σ → Bytes) (x : Sender σ) : Prop :=
  Waits x.tunnel ∧ accepted x.session ++ x.tunnel.pendingWritePlain.bytes = x.written

theorem writeCipherTextData_sound (accepts : Accepts lib accepted) {buffer : Chunks} {x : Sender σ} {n : Nat}
    (sound : Sound accepted x) (undisturbed : Undisturbed (.writeCipherTextData buffer) x)
    (ran : on lib (writeCipherTextData n buffer x.tunnel) x.session = .ok (t', s')) :
    Waits t' ∧ accepted s' ++ t'.pendingWritePlain.bytes = x.written := by
  have frame := writeCipherTextData_frame accepts ran
  refine ⟨?_, by rw [frame.accepted, frame.pending]; exact sound.2⟩
  rcases undisturbed with none | none | failed | closed
  · rw [writeCipherTextData_idle (Or.inl none) ran]
    exact sound.1
  · intro _ _ some
    rw [frame.pending] at some
    exact absurd none some
  · rw [writeCipherTextData_idle (Or.inr failed) ran]
    exact sound.1
  · intro _ still_open _
    rw [frame.closed closed] at still_open
    cases still_open

theorem writePlainTextData_sound (accepts : Accepts lib accepted) {buffer : Chunks} {x : Sender σ} {n : Nat}
    (sound : Sound accepted x) (ran : on lib (writePlainTextData n buffer x.tunnel) x.session = .ok (t', s')) :
    Waits t' ∧ accepted s' ++ t'.pendingWritePlain.bytes = x.written ++ buffer.bytes := by
  obtain ⟨u, s₁, asserted, ran⟩ := on_bind_ok.mp ran
  obtain ⟨finished, rfl⟩ := on_assert.mp asserted
  refine internalPlainWrite_waits accepts ?_ ran
  have finished : x.tunnel.pendingWritePlain.size = 0 ∧ x.tunnel.pendingReadCipher = [] := of_decide_eq_true finished
  have empty : x.tunnel.pendingWritePlain.bytes = [] := Chunks.bytes_eq_nil.mpr finished.1
  have before := sound.2
  rw [empty, List.append_nil] at before
  rw [before]

theorem step_sound (accepts : Accepts lib accepted) {call : Call} {x x' : Sender σ} {n : Nat} (sound : Sound accepted x)
    (undisturbed : Undisturbed call x) (stepped : x.step lib n call = .ok x') : Sound accepted x' := by
  cases call with
  | readPlainTextData =>
    cases stepped
    unfold readPlainTextData
    split <;> exact sound
  | writePlainTextData buffer =>
    obtain ⟨⟨t', s'⟩, ran, stepped⟩ := bind_eq_ok.mp stepped
    cases stepped
    exact writePlainTextData_sound accepts sound ran
  | readCipherTextData =>
    cases stepped
    exact sound
  | writeCipherTextData buffer =>
    obtain ⟨⟨t', s'⟩, ran, stepped⟩ := bind_eq_ok.mp stepped
    cases stepped
    exact @writeCipherTextData_sound _ _ _ _ _ accepts _ x n sound undisturbed ran

/-- A write that nothing waits for is finished with the cipher text that is read. -/
theorem finished_of_read {x x' : Sender σ} {n : Nat} (waits : Waits x'.tunnel)
    (stepped : x.step lib n .readCipherTextData = .ok x') (fine : x'.tunnel.error = 0) (still_open : x'.tunnel.closed = false)
    (none : x'.tunnel.needCipherInput = false) : x'.tunnel.finishWritingCipherData = true := by
  have nothing : x'.tunnel.pendingWritePlain.size = 0 := by
    by_contra some
    rw [waits fine still_open some] at none
    cases none
  cases stepped
  exact decide_eq_true ⟨nothing, rfl⟩

/-- Every step of a run leaves a write that waits for input, or none, as long as no input
arrives for a write that waits. -/
theorem blocked_write_waits (lib : OpenSsl σ) (accepted : σ → Bytes) (accepts : Accepts lib accepted) (fuel : Nat)
    (input : List Call) (x : Sender σ) (fresh : x.tunnel.pendingWritePlain = .empty) (written : accepted x.session = x.written)
    (undisturbed : (machine lib fuel).Along Undisturbed input x) :
    (machine lib fuel).EachStep (fun call _ x' => Resumable accepted call x') input x := by
  refine @Machine.eachStep_of_along _ _ _ (machine lib fuel) (Sound accepted) _ Undisturbed ?_ input x ?_
    (Machine.admitted_all (fun _ _ => trivial) _ _) undisturbed
  · intro call x x' sound _ fit stepped
    have after := step_sound accepts sound fit stepped
    refine ⟨⟨after.1, after.2, fun reads => ?_⟩, after⟩
    subst reads
    exact @finished_of_read _ lib x x' fuel after.1 stepped
  · refine ⟨fun _ _ some => absurd ?_ some, ?_⟩
    · rw [fresh]
      rfl
    · rw [fresh, ← written]
      exact List.append_nil _

/-! ## A peer that renegotiates -/

def handshakeRecord : UInt8 := 22

/-- Records without encryption, where a message of the peer has to come before the next
`SSL_write`. -/
structure Renegotiating where
  records : PlainRecords := {}
  asked : Bool := false
  accepted : Bytes := []

def Renegotiating.openSsl : OpenSsl Renegotiating
  | .sslWrite data, x =>
    if x.asked then ({ error := .wantRead }, x)
    else
      let (r, records) := x.records.sslWrite data
      (r, { x with records, accepted := x.accepted ++ data })
  | .sslRead len, x =>
    match nextRecord x.records.held with
    | some (type, _, size) =>
      if type = handshakeRecord then
        ({ error := .wantRead }, { x with records.held := x.records.held.drop size, asked := false })
      else
        let (r, records) := x.records.sslRead len
        (r, { x with records })
    | none =>
      let (r, records) := x.records.sslRead len
      (r, { x with records })
  | c, x =>
    let (r, records) := PlainRecords.openSsl c x.records
    (r, { x with records })

theorem renegotiating_accepts : Accepts Renegotiating.openSsl Renegotiating.accepted where
  sslWrite data x := by
    unfold Renegotiating.openSsl
    dsimp only
    split <;> simp [PlainRecords.sslWrite]
  other c x other := by
    cases c with
    | sslWrite data => exact absurd rfl (other data)
    | sslRead len =>
      unfold Renegotiating.openSsl
      dsimp only
      split
      · split <;> rfl
      · rfl
    | _ => rfl

/-- A write that blocks, and another one behind a record of the peer. -/
theorem blocked_write_waits_asked :
    (machine Renegotiating.openSsl 3).EachStep (fun call _ x' => Resumable Renegotiating.accepted call x')
      [.writePlainTextData PlainRecords.oneByte, .readCipherTextData] ⟨{}, { asked := true }, []⟩ :=
  blocked_write_waits Renegotiating.openSsl Renegotiating.accepted renegotiating_accepts 3 _ _ rfl rfl (by decide)

/-- The message that the write waited for arrives, and the write is not taken up again. -/
theorem write_left_behind :
    ∃ (lib : OpenSsl Renegotiating) (accepted : Renegotiating → Bytes), Accepts lib accepted ∧
      (machine lib 3).Runs [.writePlainTextData PlainRecords.oneByte, .writeCipherTextData ⟨[record handshakeRecord []], by decide⟩]
        ⟨{}, { asked := true }, []⟩
        (fun x => x.session.asked = false ∧ x.tunnel.error = 0 ∧ x.tunnel.closed = false ∧
          x.tunnel.needCipherInput = false ∧ x.tunnel.pendingWritePlain.size ≠ 0) :=
  ⟨Renegotiating.openSsl, Renegotiating.accepted, renegotiating_accepts, Machine.admitted_all (fun _ _ => trivial) _ _, _,
    rfl, by decide⟩

end LibNekit.Guarantees.BlockedWrite
