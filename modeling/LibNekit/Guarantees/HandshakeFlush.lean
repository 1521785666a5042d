import LibNekit.Source.Crypto.CipherStream
import LibNekit.Source.Crypto.PlainRecords
import LibNekit.Source.DataFlow.TlsHandShake

/-!
# The last flight of a handshake

The pair is emptied when `SSL_connect` wants input. What is put into it by the call that
completes the handshake, or by the `SSL_read` in front of it, stays there when Connect's
handler is told of the success.
-/
namespace LibNekit.Guarantees.HandshakeFlush

open LibNekit.Source LibNekit.Library Ssl TlsHandShake

variable {σ : Type} {lib : OpenSsl σ} {b : CipherStream σ}

/-- When the handler is told of a success, the next hop has written everything that the
session has put into the pair. -/
def Flushed (b : CipherStream σ) (x x' : TlsHandShake σ) : Prop :=
  x.stage ≠ .finished true → x'.stage = .finished true → x'.sent = b.emitted x'.session

/-- With no cipher text to write, an `SSL_connect` that reports success leaves the pair
empty. -/
def Emptied (lib : OpenSsl σ) (b : CipherStream σ) (t : TlsTunnel) (s : σ) : Prop :=
  (lib .handShake s).1.error = .none → t.pendingReadCipher = [] → b.held (lib .handShake s).2 = []

/-- That is so in the call of `HandShake` that an event leads to. -/
def Empties (lib : OpenSsl σ) (b : CipherStream σ) (fuel : Nat) (e : Event) (x : TlsHandShake σ) : Prop :=
  x.cancelled = false →
    match e with
    | .nextConnected true | .written true => Emptied lib b x.tunnel x.session
    | .read (some buffer) =>
      match on lib (x.tunnel.writeCipherTextData fuel buffer) x.session with
      | .ok (t, s) => Emptied lib b t s
      | .error _ => True
    | _ => True

instance decidableEmptied (lib : OpenSsl σ) (b : CipherStream σ) (t : TlsTunnel) (s : σ) : Decidable (Emptied lib b t s) :=
  inferInstanceAs (Decidable (_ → _ → _))

instance decidableEmpties (lib : OpenSsl σ) (b : CipherStream σ) (fuel : Nat) (e : Event) (x : TlsHandShake σ) :
    Decidable (Empties lib b fuel e x) := by
  unfold Empties
  refine @instDecidableForall _ _ _ ?_
  split
  · infer_instance
  · infer_instance
  · split <;> infer_instance
  · infer_instance

/-- What the session has put into the pair was written, is being written, or is on its way. -/
def Accounted (b : CipherStream σ) (x : TlsHandShake σ) : Prop :=
  match x.stage with
  | .created | .connecting | .reading => b.Balanced x.sent x.tunnel x.session
  | .writing data => b.Balanced (x.sent ++ data) x.tunnel x.session
  | .finished _ | .abandoned => True

variable {x x' : TlsHandShake σ}

/-! ## One call of HandShake -/

theorem write_accounted (balanced : b.Balanced x.sent x.tunnel x.session) : Accounted b x.write := by
  show b.emitted x.session = x.sent ++ x.tunnel.pendingReadCipher ++ [] ++ b.held x.session
  rw [List.append_nil]
  exact balanced

/-- Only a success ends well. -/
theorem proceed_stage {action : Except Nat TlsTunnel.HandShakeAction} (ran : proceed action x = .ok x') :
    x'.stage = .finished true ↔ action = .ok .success ∧ x.tunnel.pendingReadCipher = [] := by
  unfold proceed at ran
  split at ran
  · split at ran
    · next some =>
      cases ran
      simp [TlsHandShake.write, some]
    · next none =>
      obtain ⟨m, -, ran⟩ := bind_eq_ok.mp ran
      cases ran
      simpa using none
  · cases ran
    split <;> simp [TlsHandShake.write]
  · cases ran
    simp [fail]

theorem proceed_accounted {action : Except Nat TlsTunnel.HandShakeAction} (balanced : b.Balanced x.sent x.tunnel x.session)
    (ran : proceed action x = .ok x') : Accounted b x' := by
  unfold proceed at ran
  split at ran
  · split at ran
    · cases ran
      exact write_accounted balanced
    · obtain ⟨m, -, ran⟩ := bind_eq_ok.mp ran
      cases ran
      trivial
  · cases ran
    split
    · exact write_accounted balanced
    · exact balanced
  · cases ran
    trivial

theorem proceed_fields {action : Except Nat TlsTunnel.HandShakeAction} (ran : proceed action x = .ok x') :
    x'.sent = x.sent ∧ x'.session = x.session := by
  unfold proceed at ran
  split at ran
  · split at ran
    · cases ran
      exact ⟨rfl, rfl⟩
    · obtain ⟨m, -, ran⟩ := bind_eq_ok.mp ran
      cases ran
      exact ⟨rfl, rfl⟩
  · cases ran
    split <;> exact ⟨rfl, rfl⟩
  · cases ran
    exact ⟨rfl, rfl⟩

/-- The cases of `TlsTunnel::HandShake`. -/
theorem tunnel_handShake {t t' : TlsTunnel} {s s' : σ} {action : Except Nat TlsTunnel.HandShakeAction}
    (ran : on lib t.handShake s = .ok ((action, t'), s')) :
    ((lib .handShake s).1.error ≠ .none ∧ action ≠ .ok .success ∧
        (on lib t.flushCipherBuffer (lib .handShake s).2 = .ok (t', s') ∨ (t' = t ∧ s' = (lib .handShake s).2))) ∨
      ((lib .handShake s).1.error = .none ∧ action = .ok .success ∧ t' = t ∧ s' = (lib .handShake s).2) := by
  unfold TlsTunnel.handShake at ran
  simp only [call_bind, on_ask] at ran
  split at ran
  · next want =>
    obtain ⟨t₁, s₁, flushed, ran⟩ := on_bind_ok.mp ran
    cases ran
    exact Or.inl ⟨by simp [want], nofun, Or.inl flushed⟩
  · next want =>
    obtain ⟨t₁, s₁, flushed, ran⟩ := on_bind_ok.mp ran
    cases ran
    exact Or.inl ⟨by simp [want], nofun, Or.inl flushed⟩
  · next none =>
    cases ran
    exact Or.inr ⟨none, rfl, rfl, rfl⟩
  · next failed =>
    cases ran
    exact Or.inl ⟨by simp [failed], nofun, Or.inr ⟨rfl, rfl⟩⟩
  · next failed =>
    cases ran
    exact Or.inl ⟨by simp [failed], nofun, Or.inr ⟨rfl, rfl⟩⟩

/-- What `HandShake` leaves is accounted for, and a success leaves nothing exactly where
the pair is empty. -/
theorem handShake_flushed (emits : Emits lib b) (balanced : b.Balanced x.sent x.tunnel x.session)
    (ran : x.handShake lib = .ok x') :
    Accounted b x' ∧ ((x'.stage = .finished true → x'.sent = b.emitted x'.session) ↔ Emptied lib b x.tunnel x.session) := by
  obtain ⟨⟨⟨action, t⟩, s⟩, asked, ran⟩ := bind_eq_ok.mp ran
  have called : b.Balanced x.sent x.tunnel (lib .handShake x.session).2 := emits.other_balanced nofun nofun rfl balanced
  have stage := proceed_stage ran
  rcases tunnel_handShake asked with ⟨failed, other, after⟩ | ⟨none, rfl, rfl, rfl⟩
  · refine ⟨?_, fun _ good => absurd good failed, fun _ good => absurd (stage.mp good).1 other⟩
    rcases after with flushed | ⟨rfl, rfl⟩
    · exact proceed_accounted (emits.flushCipherBuffer called flushed).1 ran
    · exact proceed_accounted called ran
  · refine ⟨proceed_accounted called ran, ?_⟩
    by_cases nothing : x.tunnel.pendingReadCipher = []
    · have fields := proceed_fields ran
      have sum : b.emitted (lib .handShake x.session).2 = x.sent ++ b.held (lib .handShake x.session).2 := by
        have := called
        unfold CipherStream.Balanced at this
        rwa [nothing, List.append_nil] at this
      rw [fields.1, fields.2, sum]
      constructor
      · intro good _ _
        exact List.self_eq_append_right.mp (good (stage.mpr ⟨rfl, nothing⟩))
      · intro empty _
        rw [empty none nothing, List.append_nil]
    · exact ⟨fun _ _ some => absurd some nothing, fun _ good => absurd (stage.mp good).2 nothing⟩

/-! ## Runs -/

theorem step_flushed (emits : Emits lib b) {fuel : Nat} (e : Event) (accounted : Accounted b x) (admits : Admits e x)
    (stepped : step lib fuel e x = .ok x') : Accounted b x' ∧ (Flushed b x x' ↔ Empties lib b fuel e x) := by
  unfold Flushed Empties
  cases e with
  | connect =>
    obtain ⟨m, -, stepped⟩ := bind_eq_ok.mp (show x.connect = _ from stepped)
    cases stepped
    rw [Accounted, show x.stage = .created from admits] at accounted
    exact ⟨accounted, by simp⟩
  | nextConnected success =>
    have stage : x.stage = .connecting := admits
    rw [Accounted, stage] at accounted
    replace stepped : x.onNextConnected lib success = .ok x' := stepped
    unfold onNextConnected at stepped
    split at stepped
    · next cancelled =>
      cases stepped
      exact ⟨trivial, by simp [cancelled]⟩
    · next going =>
      split at stepped
      · next failed =>
        cases stepped
        exact ⟨trivial, by simp [failed]⟩
      · next fine =>
        obtain ⟨after, iff⟩ := handShake_flushed emits accounted stepped
        rw [Bool.not_eq_false] at fine
        refine ⟨after, ?_⟩
        simpa [stage, going, fine] using iff
  | written success =>
    obtain ⟨data, stage⟩ := admits
    rw [Accounted, stage] at accounted
    rw [step, stage] at stepped
    replace stepped : x.onWritten lib success data = .ok x' := stepped
    unfold onWritten at stepped
    dsimp only at stepped
    split at stepped
    · next cancelled =>
      cases stepped
      exact ⟨trivial, by simp [cancelled]⟩
    · next going =>
      split at stepped
      · next failed =>
        cases stepped
        exact ⟨trivial, by simp [failed, fail]⟩
      · next fine =>
        rw [Bool.not_eq_false] at fine
        rw [fine] at stepped
        obtain ⟨after, iff⟩ := @handShake_flushed _ _ _ { x with sent := x.sent ++ data } _ emits accounted stepped
        refine ⟨after, ?_⟩
        simpa [stage, going, fine] using iff
  | read buffer =>
    have stage : x.stage = .reading := admits
    rw [Accounted, stage] at accounted
    replace stepped : x.onRead lib fuel buffer = .ok x' := stepped
    unfold onRead at stepped
    split at stepped
    · next cancelled =>
      cases stepped
      exact ⟨trivial, by simp [cancelled]⟩
    · next going =>
      cases buffer with
      | none =>
        cases stepped
        exact ⟨trivial, by simp [fail]⟩
      | some buffer =>
        obtain ⟨⟨t, s⟩, wrote, stepped⟩ := bind_eq_ok.mp stepped
        have given := emits.writeCipherTextData accounted wrote
        obtain ⟨after, iff⟩ := @handShake_flushed _ _ _ { x with tunnel := t, session := s } _ emits given stepped
        refine ⟨after, ?_⟩
        simpa [stage, going, wrote] using iff
  | cancel =>
    cases stepped
    exact ⟨accounted, fun _ _ => trivial, fun _ other same => absurd same other⟩

/-- In every handshake, the handler is told of a success with everything written exactly
where no `SSL_connect` that reports it, with no cipher text to write, leaves something in
the pair. -/
theorem handshake_flushed_iff (lib : OpenSsl σ) (b : CipherStream σ) (emits : Emits lib b) (fuel : Nat) (input : List Event)
    (session : σ) (fresh : b.emitted session = b.held session)
    (admitted : (machine lib fuel).Admitted input { session }) :
    (machine lib fuel).EachStep (fun _ x x' => Flushed b x x') input { session } ↔
      (machine lib fuel).EachStep (fun e x _ => Empties lib b fuel e x) input { session } :=
  @Machine.eachStep_iff _ _ _ (machine lib fuel) (Accounted b) (fun _ x x' => Flushed b x x')
    (fun e x _ => Empties lib b fuel e x)
    (fun e _ _ accounted admits stepped => (step_flushed emits e accounted admits stepped).2)
    (fun e _ _ accounted admits stepped => (step_flushed emits e accounted admits stepped).1) input { session }
    (show b.emitted session = [] ++ [] ++ b.held session from fresh) admitted

/-! ## Two handshakes -/

inductive Phase where
  | hello | waiting | done
  deriving DecidableEq, Repr

def handshakeRecord : UInt8 := 22

/-- A handshake of one round trip, without encryption. `last` is what the peer's flight is
answered with; `SSL_read` may go on with the handshake too. -/
structure Flights where
  records : PlainRecords := {}
  phase : Phase := .hello
  last : Bytes
  readNegotiates : Bool
  emitted : Bytes := []
  deriving DecidableEq, Repr

namespace Flights

def put (data : Bytes) (x : Flights) : Flights :=
  { x with records.outgoing := x.records.outgoing ++ data, emitted := x.emitted ++ data }

def advance (x : Flights) : Flights :=
  match x.phase with
  | .hello => put (record handshakeRecord [1]) { x with phase := .waiting }
  | .waiting =>
    match nextRecord x.records.held with
    | some (_, _, size) => put x.last { x with records.held := x.records.held.drop size, phase := .done }
    | none => x
  | .done => x

def openSsl : OpenSsl Flights
  | .handShake, x => ({ error := if x.advance.phase = .done then .none else .wantRead }, x.advance)
  | .sslRead len, x =>
    if x.phase = .done then
      let (r, records) := x.records.sslRead len
      (r, { x with records })
    else ({ error := .wantRead }, if x.readNegotiates then x.advance else x)
  | .sslWrite data, x => ({ count := data.length }, x.put (record applicationData data))
  | c, x =>
    let (r, records) := PlainRecords.openSsl c x.records
    (r, { x with records })

def stream : CipherStream Flights := ⟨Flights.emitted, fun x => x.records.outgoing⟩

theorem advance_puts (x : Flights) :
    ∃ more, x.advance.emitted = x.emitted ++ more ∧ x.advance.records.outgoing = x.records.outgoing ++ more := by
  unfold advance
  split
  · exact ⟨_, rfl, rfl⟩
  · split
    · exact ⟨_, rfl, rfl⟩
    · exact ⟨[], by simp⟩
  · exact ⟨[], by simp⟩

theorem sslRead_outgoing (len : Nat) (x : PlainRecords) : (x.sslRead len).2.outgoing = x.outgoing := by
  unfold PlainRecords.sslRead PlainRecords.handOut
  dsimp only
  split
  · rfl
  · split
    · rfl
    · split
      · rfl
      · split
        · rfl
        · split <;> rfl

theorem emits : Emits openSsl stream where
  bioPending _ := ⟨rfl, rfl, rfl⟩
  bioRead _ _ := ⟨rfl, rfl, rfl⟩
  other c x not_pending not_read := by
    cases c with
    | bioWrite data => exact ⟨[], by simp [openSsl, stream, PlainRecords.openSsl, PlainRecords.bioWrite]⟩
    | bioPending => exact absurd rfl not_pending
    | bioRead n => exact absurd rfl (not_read n)
    | sslRead len =>
      unfold openSsl
      dsimp only
      split
      · exact ⟨[], by simp [stream, sslRead_outgoing]⟩
      · split
        · exact x.advance_puts
        · exact ⟨[], by simp⟩
    | sslWrite data => exact ⟨_, rfl, rfl⟩
    | handShake => exact x.advance_puts

end Flights

def peerFlight : Chunks := ⟨[record handshakeRecord [2]], by decide⟩

/-- ClientHello, the peer's flight, and the end of the handshake. -/
def roundTrip : List Event := [.connect, .nextConnected true, .written true, .read (some peerFlight)]

/-- Where the peer speaks last, everything is written. -/
theorem handshake_flushed_iff_peerLast :
    (machine Flights.openSsl 4).EachStep (fun _ x x' => Flushed Flights.stream x x') roundTrip
      { session := { last := [], readNegotiates := true } } :=
  (handshake_flushed_iff Flights.openSsl Flights.stream Flights.emits 4 roundTrip _ rfl (by decide)).mpr (by decide)

/-- Where the client speaks last, its last flight is left in the pair, whichever call has
put it there. -/
theorem last_flight_left :
    Emits Flights.openSsl Flights.stream ∧
    ∀ readNegotiates,
      (machine Flights.openSsl 4).Runs roundTrip { session := { last := record handshakeRecord [20], readNegotiates } }
        (fun x => x.stage = .finished true ∧ x.sent = record handshakeRecord [1] ∧
          x.session.emitted = record handshakeRecord [1] ++ record handshakeRecord [20] ∧
          x.session.records.outgoing = record handshakeRecord [20]) := by
  refine ⟨Flights.emits, fun readNegotiates => ?_⟩
  cases readNegotiates with
  | false => exact ⟨by decide, _, rfl, by decide⟩
  | true => exact ⟨by decide, _, rfl, by decide⟩

end LibNekit.Guarantees.HandshakeFlush
