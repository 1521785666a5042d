import LibNekit.Guarantees.WriteReturns
import LibNekit.Library.Machine

/-!
# Every complete record is delivered

A flush stops at the first `SSL_read` that does not fill what it was offered. That is
right when nothing but a part of a record is left, and leaves a record behind when one
that is complete has come along.
-/
namespace LibNekit.Guarantees.RecordDelivery

open LibNekit.Source LibNekit.Library Ssl TlsTunnel Program WriteReturns

variable {σ : Type} {lib : OpenSsl σ}

/-- What a session has been given by the peer and has handed out, and the plain text of the
records that are complete in a stream. -/
structure Inbox (σ : Type) where
  given : σ → Bytes
  handed : σ → Bytes
  plain : Bytes → Bytes

structure Inbox.Keeps (b : Inbox σ) (s s' : σ) : Prop where
  given : b.given s' = b.given s
  handed : b.handed s' = b.handed s

/-- What the documentation of OpenSSL says of the calls. -/
structure Delivers (lib : OpenSsl σ) (b : Inbox σ) : Prop where
  bioWrite : ∀ data s, (lib (.bioWrite data) s).1.count ≤ data.length ∧
    b.given (lib (.bioWrite data) s).2 = b.given s ++ data.take (lib (.bioWrite data) s).1.count ∧
    b.handed (lib (.bioWrite data) s).2 = b.handed s
  bioPending : ∀ s, b.Keeps s (lib .bioPending s).2
  bioRead : ∀ n s, b.Keeps s (lib (.bioRead n) s).2
  sslRead : ∀ n s, b.given (lib (.sslRead n) s).2 = b.given s ∧
    b.handed (lib (.sslRead n) s).2 = b.handed s ++ (lib (.sslRead n) s).1.data
  /-- It wants to read, or has seen the end, when no complete record is left. -/
  sslRead_none : ∀ n s, 0 < n → (lib (.sslRead n) s).1.data = [] →
    (lib (.sslRead n) s).1.error = .wantRead ∨ (lib (.sslRead n) s).1.error = .zeroReturn → b.handed s = b.plain (b.given s)

/-! ## The tunnel and who reads from it -/

/-- `sent` is what the Buffers held that were given to the tunnel, and `out` what
`ReadPlainTextData` has returned. -/
structure Receiver (σ : Type) where
  tunnel : TlsTunnel
  session : σ
  sent : Bytes := []
  out : Bytes := []

inductive Call where
  | writeCipherTextData (buffer : Chunks)
  | readPlainTextData

def Receiver.step (lib : OpenSsl σ) (fuel : Nat) : Call → Receiver σ → Checked (Receiver σ)
  | .writeCipherTextData buffer, x => do
    let (tunnel, session) ← on lib (x.tunnel.writeCipherTextData fuel buffer) x.session
    return { x with tunnel, session, sent := x.sent ++ buffer.bytes }
  | .readPlainTextData, x =>
    match x.tunnel.readPlainTextData with
    | (.ok data, tunnel) => .ok { x with tunnel, out := x.out ++ data }
    | (.error _, tunnel) => .ok { x with tunnel }

def machine (lib : OpenSsl σ) (fuel : Nat) : Machine (Receiver σ) Call Fault := ⟨fun _ _ => True, Receiver.step lib fuel⟩

/-- Unless there was an error, all complete records have been delivered. -/
def Delivered (b : Inbox σ) (x : Receiver σ) : Prop :=
  x.tunnel.error = 0 → x.out ++ x.tunnel.pendingReadPlain = b.plain x.sent

/-- An `SSL_read` that gives less than it is asked for leaves no complete record behind, and
one that wants to write does not either; each `BIO_write` is given some bytes. -/
def Whole (lib : OpenSsl σ) (b : Inbox σ) (c : SslCall) (s : σ) : Prop :=
  match c with
  | .sslRead n =>
    ((lib (.sslRead n) s).1.data ≠ [] ∧ (lib (.sslRead n) s).1.data.length < n) ∨
      ((lib (.sslRead n) s).1.data = [] ∧ (lib (.sslRead n) s).1.error = .wantWrite) →
    b.handed (lib (.sslRead n) s).2 = b.plain (b.given (lib (.sslRead n) s).2)
  | .bioWrite data => data ≠ []
  | _ => True

instance decidableWhole (lib : OpenSsl σ) (b : Inbox σ) : (c : SslCall) → (s : σ) → Decidable (Whole lib b c s)
  | .sslRead n, s => inferInstanceAs (Decidable
      (((lib (.sslRead n) s).1.data ≠ [] ∧ (lib (.sslRead n) s).1.data.length < n) ∨
        ((lib (.sslRead n) s).1.data = [] ∧ (lib (.sslRead n) s).1.error = .wantWrite) →
      b.handed (lib (.sslRead n) s).2 = b.plain (b.given (lib (.sslRead n) s).2)))
  | .bioWrite data, _ => inferInstanceAs (Decidable (data ≠ []))
  | .bioPending, _ | .bioRead _, _ | .sslWrite _, _ | .handShake, _ => .isTrue trivial

/-- The sessions that a step finds. -/
def Finds (lib : OpenSsl σ) (fuel : Nat) (P : SslCall → σ → Prop) (c : Call) (x : Receiver σ) : Prop :=
  match c with
  | .writeCipherTextData buffer => ∀ e ∈ calls lib (x.tunnel.writeCipherTextData fuel buffer) x.session, P e.1 e.2
  | .readPlainTextData => True

instance decidableFinds (lib : OpenSsl σ) (fuel : Nat) (P : SslCall → σ → Prop) [∀ c s, Decidable (P c s)] :
    (c : Call) → (x : Receiver σ) → Decidable (Finds lib fuel P c x)
  | .writeCipherTextData buffer, x =>
    inferInstanceAs (Decidable (∀ e ∈ calls lib (x.tunnel.writeCipherTextData fuel buffer) x.session, P e.1 e.2))
  | .readPlainTextData, _ => .isTrue trivial

/-- What the session has handed out is what the reader has, or will get. -/
structure UpToDate (b : Inbox σ) (sent out : Bytes) (t : TlsTunnel) (s : σ) : Prop where
  given : b.given s = sent
  handed : out ++ t.pendingReadPlain = b.handed s
  all : b.handed s = b.plain (b.given s)

variable {v : Intake σ} {b : Inbox σ} {t t' : TlsTunnel} {s s' : σ}

/-! ## One pass -/

theorem flushCipherBuffer_keeps (progresses : Progresses lib v) (delivers : Delivers lib b)
    (ran : on lib t.flushCipherBuffer s = .ok (t', s')) :
    b.Keeps s s' ∧ t'.pendingReadPlain = t.pendingReadPlain ∧ t'.error = t.error := by
  unfold flushCipherBuffer at ran
  simp only [call_bind, on_ask] at ran
  split at ran
  · cases ran
    exact ⟨delivers.bioPending s, rfl, rfl⟩
  · rw [on_ask, assert, if_pos (progresses.bioRead_pending s)] at ran
    cases ran
    have first := delivers.bioPending s
    have second := delivers.bioRead (lib .bioPending s).1.count (lib .bioPending s).2
    exact ⟨⟨second.given.trans first.given, second.handed.trans first.handed⟩, rfl, rfl⟩

/-- What `FlushPlainBuffer` has read is in its Buffer, and nothing is left if no record was
left behind. -/
theorem flushPlainBuffer_delivers (progresses : Progresses lib v) (delivers : Delivers lib b) {out : Bytes} {n : Nat}
    (handed : out ++ t.pendingReadPlain = b.handed s) (ran : on lib (t.flushPlainBuffer n) s = .ok (t', s'))
    (whole : ∀ e ∈ calls lib (t.flushPlainBuffer n) s, Whole lib b e.1 e.2) :
    t'.error = 0 → UpToDate b (b.given s) out t' s' := by
  refine @loop_along _ _ _ _ σ TlsTunnel (answers lib) .endlessLoop readOnce
    (fun t₁ s₁ => b.given s₁ = b.given s ∧ out ++ t₁.pendingReadPlain = b.handed s₁) (Whole lib b)
    (fun t₁ s₁ => t₁.error = 0 → UpToDate b (b.given s) out t₁ s₁) ?_ n t s (t', s') ⟨rfl, handed⟩ ran whole
  rintro t₁ s₁ r s₂ ⟨given, handed⟩ passed fit
  have passed : on lib t₁.readOnce s₁ = .ok (r, s₂) := passed
  have whole : Whole lib b (.sslRead tlsReadSize) s₁ := fit (.sslRead tlsReadSize, s₁) List.mem_cons_self
  rw [readOnce_on t₁ s₁ (progresses.sslRead _ _).1] at passed
  cases passed
  obtain ⟨given', handed'⟩ := delivers.sslRead tlsReadSize s₁
  have appended : out ++ (t₁.pendingReadPlain ++ (lib (.sslRead tlsReadSize) s₁).1.data) =
      b.handed (lib (.sslRead tlsReadSize) s₁).2 := by rw [handed', ← List.append_assoc, handed]
  by_cases nothing : (lib (.sslRead tlsReadSize) s₁).1.data = []
  · rw [if_pos nothing]
    rw [nothing, List.append_nil] at appended handed'
    have left : ∀ t₂ : TlsTunnel, t₂.pendingReadPlain = t₁.pendingReadPlain → b.handed s₁ = b.plain (b.given s₁) →
        UpToDate b (b.given s) out t₂ (lib (.sslRead tlsReadSize) s₁).2 := fun t₂ same none =>
      ⟨given'.trans given, by rw [same]; exact appended, by rw [handed', given']; exact none⟩
    show (t₁.readStopped _).error = 0 → _
    unfold readStopped
    have none := delivers.sslRead_none tlsReadSize s₁ (by decide) nothing
    split
    · next want => exact fun _ => left _ rfl (none (Or.inl want))
    · next want =>
      intro _
      refine ⟨given'.trans given, appended, whole (Or.inr ⟨nothing, want⟩)⟩
    · next zero => exact fun _ => left _ rfl (none (Or.inr zero))
    · next failed =>
      exact fun fine => absurd fine (progresses.sslRead_failed tlsReadSize s₁ (by decide) nothing (Or.inl failed))
    · next failed =>
      exact fun fine => absurd fine (progresses.sslRead_failed tlsReadSize s₁ (by decide) nothing (Or.inr failed))
  · rw [if_neg nothing]
    split
    · next short => exact fun _ => ⟨given'.trans given, appended, whole (Or.inl ⟨nothing, short⟩)⟩
    · exact ⟨given'.trans given, appended⟩

theorem writePieces_gives (delivers : Delivers lib b) {pieces : List Bytes} {processed processed' : Nat}
    (ran : on lib (writePieces pieces t processed) s = .ok ((t', processed'), s')) :
    b.given s' = b.given s ++ pieces.flatten.take (processed' - processed) ∧ b.handed s' = b.handed s ∧
      t'.pendingReadPlain = t.pendingReadPlain ∧ processed ≤ processed' ∧
      processed' ≤ processed + pieces.flatten.length := by
  induction pieces generalizing t processed s with
  | nil =>
    cases ran
    simp
  | cons data rest ih =>
    obtain ⟨count, given, handed⟩ := delivers.bioWrite (passed data) s
    obtain ⟨count, first⟩ := take_passed count
    rw [first] at given
    unfold writePieces at ran
    simp only [call_bind, on_ask, List.flatten_cons, List.length_append] at ran ⊢
    by_cases none : (lib (.bioWrite (passed data)) s).1.count = 0
    · rw [if_pos none] at ran
      rw [none, List.take_zero, List.append_nil] at given
      split at ran <;> cases ran <;> refine ⟨?_, handed, rfl, Nat.le_refl _, by omega⟩ <;>
        rw [Nat.sub_self, List.take_zero, List.append_nil, given]
    rw [if_neg none] at ran
    split at ran
    · next whole =>
      obtain ⟨given', handed', pending, le, bound⟩ := ih ran
      refine ⟨?_, handed'.trans handed, pending, by omega, by omega⟩
      rw [given', given, whole, List.take_length, List.append_assoc]
      congr 1
      have more : processed' - processed = data.length + (processed' - (processed + data.length)) := by omega
      rw [more, List.take_length_add_append]
    · cases ran
      refine ⟨?_, handed, rfl, by omega, by omega⟩
      rw [given, Nat.add_sub_cancel_left, List.take_append_of_le_length count]

/-- A pass keeps the reader up to date, with the bytes that have been processed. -/
def Kept (b : Inbox σ) (sent out : Bytes) (buffer : Chunks) (x : TlsTunnel × Nat) (s : σ) : Prop :=
  x.2 ≤ buffer.size ∧ (x.1.error = 0 → UpToDate b (sent ++ buffer.bytes.take x.2) out x.1 s)

theorem writePass_kept (progresses : Progresses lib v) (delivers : Delivers lib b) {sent out : Bytes} {buffer : Chunks}
    {n : Nat} {x : TlsTunnel × Nat} {r : TlsTunnel × Nat ⊕ TlsTunnel} (kept : Kept b sent out buffer x s)
    (ran : on lib (writePass buffer n x) s = .ok (r, s'))
    (whole : ∀ e ∈ calls lib (writePass buffer n x) s, Whole lib b e.1 e.2) :
    Sum.elim (fun x' => Kept b sent out buffer x' s')
      (fun t' => t'.error = 0 → UpToDate b (sent ++ buffer.bytes) out t' s') r := by
  obtain ⟨t, processed⟩ := x
  obtain ⟨le, kept⟩ := kept
  dsimp only at le kept
  by_cases more : processed ≠ buffer.size ∧ t.error = 0
  · unfold writePass at ran whole
    rw [if_pos more] at ran whole
    obtain ⟨⟨t₁, processed₁⟩, s₁, walked, rest⟩ := on_bind_ok.mp ran
    rw [calls_bind walked] at whole
    obtain ⟨given, handed, pending, more_of, bound⟩ := writePieces_gives delivers walked
    rw [length_pieces le] at bound
    have before := kept more.2
    have given₁ : b.given s₁ = sent ++ buffer.bytes.take processed₁ := by
      rw [given, before.given, Chunks.flatten_piecesFrom, List.append_assoc]
      show sent ++ (buffer.bytes.take processed ++ (buffer.bytes.drop processed).take (processed₁ - processed)) = _
      rw [← List.take_add, Nat.add_sub_cancel' more_of]
    dsimp only at rest whole
    split at rest
    · next fine =>
      rw [if_pos fine] at whole
      obtain ⟨t₂, s₂, flushed, rest⟩ := on_bind_ok.mp rest
      cases rest
      rw [calls_bind flushed] at whole
      obtain ⟨t₃, s₃, cipher, plain⟩ := on_bind_ok.mp flushed
      rw [show calls lib (t₁.flushBuffer n) s₁ = _ from calls_bind cipher] at whole
      obtain ⟨keeps, pending₃, -⟩ := flushCipherBuffer_keeps progresses delivers cipher
      refine ⟨bound, fun fine' => ?_⟩
      have after := flushPlainBuffer_delivers progresses delivers
        (by rw [pending₃, pending, keeps.handed, handed]; exact before.handed) plain
        (fun e member => whole e (List.mem_append_right _ (List.mem_append_left _ (List.mem_append_right _ member)))) fine'
      rwa [keeps.given, given₁] at after
    · next failed =>
      cases rest
      exact ⟨bound, fun fine => absurd fine failed⟩
  · unfold writePass at ran
    rw [if_neg more] at ran
    cases ran
    intro fine
    have all : processed = buffer.size := by_contra fun other => more ⟨other, fine⟩
    have done := kept fine
    rwa [all, ← buffer.length_bytes, List.take_length] at done

/-- What a call of `WriteCipherTextData` leaves. -/
theorem writeCipherTextData_delivers (progresses : Progresses lib v) (delivers : Delivers lib b) {sent out : Bytes}
    {buffer : Chunks} {n : Nat} (before : t.error = 0 → UpToDate b sent out t s)
    (ran : on lib (writeCipherTextData n buffer t) s = .ok (t', s'))
    (whole : ∀ e ∈ calls lib (writeCipherTextData n buffer t) s, Whole lib b e.1 e.2) :
    t'.error = 0 → UpToDate b (sent ++ buffer.bytes) out t' s' := by
  refine @loop_along _ _ _ _ σ (TlsTunnel × Nat) (answers lib) .endlessLoop (writePass buffer n) (Kept b sent out buffer)
    (Whole lib b) (fun t' s' => t'.error = 0 → UpToDate b (sent ++ buffer.bytes) out t' s')
    (fun x s r s' kept passed fit => writePass_kept progresses delivers kept passed fit) n (t, 0) s (t', s')
    ⟨Nat.zero_le _, fun fine => ?_⟩ ran whole
  dsimp only
  rw [List.take_zero, List.append_nil]
  exact before fine

/-! ## Runs -/

theorem step_delivers (progresses : Progresses lib v) (delivers : Delivers lib b) {call : Call} {x : Receiver σ} {N : Nat}
    (fresh : x.tunnel.error = 0 → UpToDate b x.sent x.out x.tunnel x.session)
    (still_open : ∀ n, N ≤ n → Finds lib n (fun _ s => v.closed s = false) call x)
    (whole : ∀ n, N ≤ n → Finds lib n (Whole lib b) call x) :
    ∃ x' enough, (∀ n, enough ≤ n → x.step lib n call = .ok x') ∧
      (x'.tunnel.error = 0 → UpToDate b x'.sent x'.out x'.tunnel x'.session) := by
  cases call with
  | writeCipherTextData buffer =>
    have taken : ∀ n, ∀ e ∈ calls lib (x.tunnel.writeCipherTextData n buffer) x.session, Taken v e.1 e.2 := by
      rintro n ⟨c, s⟩ member
      have later := ((writeCipherTextData_below buffer x.tunnel (Nat.le_max_left n N)).asked x.session).mem member
      have opened := still_open (max n N) (Nat.le_max_right n N) _ later
      have some := whole (max n N) (Nat.le_max_right n N) _ later
      cases c with
      | bioWrite data => exact ⟨some, fun closed => absurd (closed.symm.trans opened) Bool.noConfusion⟩
      | _ => trivial
    obtain ⟨n, ⟨t', s'⟩, ran⟩ := returns_of_taken progresses taken
    have ran_of : ∀ k, n ≤ k → on lib (x.tunnel.writeCipherTextData k buffer) x.session = .ok (t', s') :=
      fun k le => (writeCipherTextData_below buffer x.tunnel le).run_ok ran
    refine ⟨{ x with tunnel := t', session := s', sent := x.sent ++ buffer.bytes }, n, fun k le => ?_, ?_⟩
    · show (on lib _ _ >>= _) = _
      rw [ran_of k le]
      rfl
    · exact writeCipherTextData_delivers progresses delivers fresh (ran_of (max n N) (Nat.le_max_left n N))
        (whole (max n N) (Nat.le_max_right n N))
  | readPlainTextData =>
    by_cases fine : x.tunnel.error = 0
    · refine ⟨{ x with tunnel := { x.tunnel with pendingReadPlain := [] }, out := x.out ++ x.tunnel.pendingReadPlain }, 0,
        fun n _ => ?_, fun _ => ?_⟩
      · simp [Receiver.step, readPlainTextData, fine]
      · have before := fresh fine
        exact ⟨before.given, by rw [List.append_nil]; exact before.handed, before.all⟩
    · refine ⟨x, 0, fun n _ => ?_, fresh⟩
      simp [Receiver.step, readPlainTextData, fine]

/-- Every step returns, if there is enough fuel, and leaves the reader with every record
that is complete, as long as no record is left behind and the session is not closed. -/
theorem records_delivered (lib : OpenSsl σ) (v : Intake σ) (b : Inbox σ) (progresses : Progresses lib v)
    (delivers : Delivers lib b) (input : List Call) (x : Receiver σ)
    (fresh : x.tunnel.error = 0 → UpToDate b x.sent x.out x.tunnel x.session)
    (still_open : ∀ n, (machine lib n).Along (Finds lib n fun _ s => v.closed s = false) input x)
    (whole : ∀ n, (machine lib n).Along (Finds lib n (Whole lib b)) input x) :
    ∃ enough, ∀ n, enough ≤ n → (machine lib n).AllSteps (fun _ _ x' => Delivered b x') input x := by
  suffices wanted : ∀ N, (∀ n, N ≤ n → (machine lib n).Along (Finds lib n fun _ s => v.closed s = false) input x) →
      (∀ n, N ≤ n → (machine lib n).Along (Finds lib n (Whole lib b)) input x) →
      ∃ enough, ∀ n, enough ≤ n → (machine lib n).AllSteps (fun _ _ x' => Delivered b x') input x from
    wanted 0 (fun n _ => still_open n) fun n _ => whole n
  clear still_open whole
  induction input generalizing x with
  | nil => exact fun _ _ _ => ⟨0, fun _ _ => trivial⟩
  | cons call rest ih =>
    intro N still_open whole
    obtain ⟨x', enough, stepped, after⟩ := step_delivers progresses delivers fresh (fun n le => (still_open n le).1)
      fun n le => (whole n le).1
    obtain ⟨more, run⟩ := ih x' after (max N enough) (fun n le => (still_open n (by omega)).2 x' (stepped n (by omega)))
      fun n le => (whole n (by omega)).2 x' (stepped n (by omega))
    refine ⟨max enough more, fun n le => ⟨x', stepped n (by omega), fun fine => ?_, run n (by omega)⟩⟩
    have reader := after fine
    rw [reader.handed, reader.all, reader.given]

/-! ## Records without encryption -/

/-- The plain text of the records that are complete, up to a close_notify. -/
def plainOf : Nat → Bytes → Bytes
  | 0, _ => []
  | fuel + 1, bytes =>
    match nextRecord bytes with
    | some (type, payload, size) =>
      if type = applicationData ∧ payload ≠ [] then payload ++ plainOf fuel (bytes.drop size) else []
    | none => []

def plain (bytes : Bytes) : Bytes := plainOf bytes.length bytes

theorem plainOf_fuel {fuel : Nat} {bytes : Bytes} (enough : bytes.length ≤ fuel) : plainOf fuel bytes = plain bytes := by
  suffices same : ∀ n m bytes, bytes.length ≤ n → bytes.length ≤ m → plainOf n bytes = plainOf m bytes from
    same fuel bytes.length bytes enough (Nat.le_refl _)
  intro n
  induction n with
  | zero =>
    intro m bytes none _
    obtain rfl := List.length_eq_zero_iff.mp (Nat.le_zero.mp none)
    cases m <;> rfl
  | succ n ih =>
    intro m bytes le le'
    cases m with
    | zero =>
      obtain rfl := List.length_eq_zero_iff.mp (Nat.le_zero.mp le')
      rfl
    | succ m =>
      unfold plainOf
      cases found : nextRecord bytes with
      | none => rfl
      | some r =>
        obtain ⟨type, payload, size⟩ := r
        have bounds := PlainRecords.nextRecord_size found
        dsimp only
        rw [ih m (bytes.drop size) (by rw [List.length_drop]; omega) (by rw [List.length_drop]; omega)]

theorem plain_eq (bytes : Bytes) : plain bytes =
    match nextRecord bytes with
    | some (type, payload, size) =>
      if type = applicationData ∧ payload ≠ [] then payload ++ plain (bytes.drop size) else []
    | none => [] := by
  cases bytes with
  | nil => rfl
  | cons c rest =>
    show plainOf (rest.length + 1) (c :: rest) = _
    unfold plainOf
    cases found : nextRecord (c :: rest) with
    | none => rfl
    | some r =>
      obtain ⟨type, payload, size⟩ := r
      have bounds := PlainRecords.nextRecord_size found
      dsimp only
      rw [@plainOf_fuel rest.length _ (by rw [List.length_drop, List.length_cons]; omega)]

/-- A record is found again in front of anything. -/
theorem nextRecord_append {bytes payload : Bytes} {type : UInt8} {size : Nat} (found : nextRecord bytes = some (type, payload, size))
    (more : Bytes) : nextRecord (bytes.take size ++ more) = some (type, payload, size) := by
  unfold nextRecord at found
  split at found
  · next high low rest =>
    dsimp only at found
    split at found
    · next fits =>
      cases found
      have taken : (rest.take (high.toNat * 256 + low.toNat) ++ more).take (high.toNat * 256 + low.toNat) =
          rest.take (high.toNat * 256 + low.toNat) := by
        rw [List.take_append_of_le_length (by rw [List.length_take]; omega), List.take_take, Nat.min_self]
      rw [Nat.add_comm 5]
      simp only [List.take_succ_cons, List.cons_append, nextRecord, List.length_append, List.length_take, taken]
      rw [if_pos (by omega), Nat.add_comm 5]
    · cases found
  · cases found

/-- A part of a record is shorter than the record. -/
theorem size_of_part {front back payload : Bytes} {type : UInt8} {size : Nat} (part : nextRecord front = none)
    (found : nextRecord (front ++ back) = some (type, payload, size)) : front.length < size := by
  by_contra longer
  have again := nextRecord_append found (front.drop size)
  rw [List.take_append_of_le_length (by omega), List.take_append_drop, part] at again
  cases again

/-- A session with the records that it has taken apart, and what it has handed out. -/
structure PlainLog where
  records : PlainRecords := {}
  past : Bytes := []
  handed : Bytes := []

/-- What has been taken apart was handed out, or will be. -/
structure PlainLog.Sound (x : PlainLog) : Prop where
  part : nextRecord x.records.begun = none
  shut : x.records.closed = true → x.records.rest = []
  all : ∀ more, plain (x.past ++ more) = x.handed ++ x.records.rest ++ if x.records.closed then [] else plain more

def PlainLog.call (c : SslCall) (x : PlainLog) : SslReply × PlainLog :=
  let (r, records) := PlainRecords.openSsl c x.records
  match c with
  | .sslRead _ =>
    let size := (x.records.begun ++ x.records.held).length - (records.begun ++ records.held).length
    (r, { records, past := x.past ++ (x.records.begun ++ x.records.held).take size, handed := x.handed ++ r.data })
  | _ => (r, { x with records })

/-- A record is taken apart. -/
theorem PlainLog.Sound.takes {x : PlainLog} (sound : x.Sound) {type : UInt8} {payload : Bytes} {size : Nat}
    (empty : x.records.rest = []) (still_open : x.records.closed = false)
    (found : nextRecord (x.records.begun ++ x.records.held) = some (type, payload, size)) (more : Bytes) :
    (x.records.begun ++ x.records.held).length - (x.records.held.drop (size - x.records.begun.length)).length = size ∧
      plain (x.past ++ (x.records.begun ++ x.records.held).take size ++ more) =
        x.handed ++ if type = applicationData ∧ payload ≠ [] then payload ++ plain more else [] := by
  have bounds := PlainRecords.nextRecord_size found
  have part := size_of_part sound.part found
  have all := sound.all ((x.records.begun ++ x.records.held).take size ++ more)
  rw [empty, still_open, List.append_nil, plain_eq (_ ++ more), nextRecord_append found more] at all
  have behind : ((x.records.begun ++ x.records.held).take size ++ more).drop size = more := by
    have taken : ((x.records.begun ++ x.records.held).take size).length = size := by
      rw [List.length_take]
      omega
    rw [List.drop_append, List.drop_eq_nil_of_le (Nat.le_of_eq taken), taken, Nat.sub_self, List.nil_append, List.drop_zero]
  refine ⟨?_, ?_⟩
  · rw [List.length_append] at bounds ⊢
    rw [List.length_drop]
    omega
  · rw [List.append_assoc, all]
    simp only [Bool.false_eq_true, if_false, behind]

/-- The session after an `SSL_read`. -/
def PlainLog.after (x : PlainLog) (y : SslReply × PlainRecords) : PlainLog where
  records := y.2
  past := x.past ++ (x.records.begun ++ x.records.held).take
    ((x.records.begun ++ x.records.held).length - (y.2.begun ++ y.2.held).length)
  handed := x.handed ++ y.1.data

theorem PlainLog.Sound.read {x : PlainLog} (sound : x.Sound) {n : Nat} {y : SslReply × PlainRecords}
    (read : WriteReturns.Read n x.records y) : (x.after y).Sound := by
  cases read with
  | shut closed =>
    refine ⟨sound.part, sound.shut, ?_⟩
    simpa [PlainLog.after] using sound.all
  | rest still_open some =>
    refine ⟨sound.part, fun closed => ?_, fun more => ?_⟩
    · exact absurd (closed.symm.trans still_open) Bool.noConfusion
    · have all := sound.all more
      simpa [PlainLog.after, PlainRecords.handOut] using all
  | waits still_open empty part =>
    refine ⟨part, fun closed => absurd (closed.symm.trans still_open) Bool.noConfusion, fun more => ?_⟩
    have all := sound.all more
    simpa [PlainLog.after] using all
  | notify payload size still_open empty found =>
    have taken := sound.takes empty still_open found
    refine ⟨rfl, fun _ => empty, fun more => ?_⟩
    obtain ⟨exactly, all⟩ := taken more
    have other : ¬(alert = applicationData ∧ payload ≠ []) := fun both => absurd both.1 (by decide)
    rw [if_neg other] at all
    simp only [PlainLog.after, List.nil_append, exactly, all, List.append_nil, empty, if_true]
  | record payload size still_open empty filled found =>
    have taken := sound.takes empty still_open found
    refine ⟨rfl, fun closed => absurd (closed.symm.trans still_open) Bool.noConfusion, fun more => ?_⟩
    obtain ⟨exactly, all⟩ := taken more
    rw [if_pos ⟨rfl, filled⟩] at all
    simp only [PlainLog.after, PlainRecords.handOut, List.nil_append, exactly, all, still_open, Bool.false_eq_true, if_false]
    rw [List.append_assoc, List.append_assoc, ← List.append_assoc (payload.take n), List.take_append_drop]
  | failed still_open =>
    refine ⟨sound.part, sound.shut, ?_⟩
    simpa [PlainLog.after] using sound.all

theorem PlainLog.call_sound {x : PlainLog} (sound : x.Sound) (c : SslCall) : (x.call c).2.Sound := by
  cases c with
  | bioWrite data => exact ⟨sound.part, sound.shut, sound.all⟩
  | bioPending => exact ⟨sound.part, sound.shut, sound.all⟩
  | bioRead n => exact ⟨sound.part, sound.shut, sound.all⟩
  | sslWrite data => exact ⟨sound.part, sound.shut, sound.all⟩
  | handShake => exact ⟨sound.part, sound.shut, sound.all⟩
  | sslRead n =>
    exact sound.read (sslRead_read n x.records)

/-- A session whose log is sound. -/
abbrev PlainSession := { x : PlainLog // x.Sound }

def PlainSession.openSsl : OpenSsl PlainSession := fun c x => ((x.1.call c).1, ⟨(x.1.call c).2, PlainLog.call_sound x.2 c⟩)

def PlainSession.fresh : PlainSession := ⟨{}, rfl, nofun, fun _ => rfl⟩

def sessionIntake : Intake PlainSession where
  room x := plainIntake.room x.1.records
  work x := plainIntake.work x.1.records
  closed x := plainIntake.closed x.1.records

def plainInbox : Inbox PlainSession where
  given x := x.1.past ++ (x.1.records.begun ++ x.1.records.held)
  handed x := x.1.handed
  plain := plain

theorem session_progresses : Progresses PlainSession.openSsl sessionIntake where
  bioWrite data x := plain_progresses.bioWrite data x.1.records
  bioWrite_full data x := plain_progresses.bioWrite_full data x.1.records
  bioPending _ := ⟨rfl, rfl, rfl⟩
  bioRead _ _ := ⟨rfl, rfl, rfl⟩
  bioRead_pending x := plain_progresses.bioRead_pending x.1.records
  sslRead n x := plain_progresses.sslRead n x.1.records
  sslRead_data n x := plain_progresses.sslRead_data n x.1.records
  sslRead_want n x := plain_progresses.sslRead_want n x.1.records
  sslRead_zero n x := plain_progresses.sslRead_zero n x.1.records
  sslRead_failed n x := plain_progresses.sslRead_failed n x.1.records
  sslRead_closed n x := plain_progresses.sslRead_closed n x.1.records

/-- What is taken out of the pair is still known. -/
theorem given_read {x : PlainLog} (sound : x.Sound) {n : Nat} {y : SslReply × PlainRecords}
    (read : WriteReturns.Read n x.records y) :
    (x.after y).past ++ ((x.after y).records.begun ++ (x.after y).records.held) =
      x.past ++ (x.records.begun ++ x.records.held) := by
  have record : ∀ {type payload size}, nextRecord (x.records.begun ++ x.records.held) = some (type, payload, size) →
      x.records.rest = [] → x.records.closed = false →
      x.past ++ (x.records.begun ++ x.records.held).take ((x.records.begun ++ x.records.held).length -
        ([] ++ x.records.held.drop (size - x.records.begun.length)).length) ++
        ([] ++ x.records.held.drop (size - x.records.begun.length)) = x.past ++ (x.records.begun ++ x.records.held) := by
    intro type payload size found empty still_open
    obtain ⟨exactly, -⟩ := sound.takes empty still_open found []
    have part := size_of_part sound.part found
    have rest : x.records.held.drop (size - x.records.begun.length) = (x.records.begun ++ x.records.held).drop size := by
      rw [List.drop_append, List.drop_eq_nil_of_le (Nat.le_of_lt part), List.nil_append]
    rw [List.nil_append, exactly, rest, List.append_assoc, List.take_append_drop]
  cases read with
  | notify payload size still_open empty found => exact record found empty still_open
  | record payload size still_open empty filled found => exact record found empty still_open
  | shut | rest | waits | failed => simp [PlainLog.after, PlainRecords.handOut]

theorem session_delivers : Delivers PlainSession.openSsl plainInbox where
  bioWrite data x := by
    refine ⟨Nat.min_le_left _ _, ?_, rfl⟩
    simp [plainInbox, PlainSession.openSsl, PlainLog.call, PlainRecords.openSsl, PlainRecords.bioWrite]
  bioPending _ := ⟨rfl, rfl⟩
  bioRead _ _ := ⟨rfl, rfl⟩
  sslRead n x := ⟨given_read x.2 (sslRead_read n x.1.records), rfl⟩
  sslRead_none n x positive := by
    show (x.1.records.sslRead n).1.data = [] → (x.1.records.sslRead n).1.error = .wantRead ∨
      (x.1.records.sslRead n).1.error = .zeroReturn → x.1.handed = plain (x.1.past ++ _)
    have read := sslRead_read n x.1.records
    revert read
    generalize x.1.records.sslRead n = y
    have all := x.2.all (x.1.records.begun ++ x.1.records.held)
    rintro (⟨closed⟩ | ⟨_, some⟩ | ⟨still_open, empty, part⟩ | ⟨payload, size, still_open, empty, found⟩ | _ | _) nothing error
    · rw [all, x.2.shut closed, closed]
      simp
    · exact absurd nothing (handOut_some positive some)
    · rw [all, empty, still_open, plain_eq, part]
      simp
    · have other : ¬(alert = applicationData ∧ payload ≠ []) := fun both => absurd both.1 (by decide)
      rw [all, empty, still_open, plain_eq, found]
      dsimp only
      rw [if_neg other]
      simp
    · simp [PlainRecords.handOut] at error
    · simp at error

/-- Fuel that is enough for a run shows what the run finds with any fuel. -/
theorem along_of_run {P : SslCall → σ → Prop} {N : Nat} {input : List Call} {x y : Receiver σ}
    (ran : (machine lib N).run input x = .ok y) (along : (machine lib N).Along (Finds lib N P) input x) (n : Nat) :
    (machine lib n).Along (Finds lib n P) input x := by
  induction input generalizing x with
  | nil => trivial
  | cons call rest ih =>
    obtain ⟨x₁, stepped, ran⟩ := bind_eq_ok.mp ran
    have more := ih ran (along.2 x₁ stepped)
    cases call with
    | readPlainTextData => exact ⟨trivial, fun x' again => Except.ok.inj (stepped.symm.trans again) ▸ more⟩
    | writeCipherTextData buffer =>
      obtain ⟨⟨t', s'⟩, wrote, same⟩ := bind_eq_ok.mp stepped
      have below := writeCipherTextData_below buffer x.tunnel (Nat.le_max_left N n)
      have below' := writeCipherTextData_below buffer x.tunnel (Nat.le_max_right N n)
      refine ⟨fun e member => along.1 e ?_, fun x' again => ?_⟩
      · have member : e ∈ calls lib _ _ := (below'.asked x.session).mem member
        unfold calls at member ⊢
        rwa [below.asked_eq wrote] at member
      · obtain ⟨⟨t'', s''⟩, wrote', same'⟩ := bind_eq_ok.mp again
        cases (below.run_ok wrote).symm.trans (below'.run_ok wrote')
        exact Except.ok.inj (same.symm.trans same') ▸ more

/-- A tunnel at its beginning. -/
def listening : Receiver PlainSession := { tunnel := {}, session := .fresh }

/-- A record that comes in two Buffers, the second one with another record behind it. -/
def inPieces : List Call :=
  [.writeCipherTextData (oneChunk [23, 3, 3, 0] (by decide)), .readPlainTextData,
    .writeCipherTextData (oneChunk [2, 7, 8] (by decide)), .readPlainTextData,
    .writeCipherTextData (oneChunk (record applicationData [9]) (by decide))]

theorem records_delivered_inPieces : ∃ enough, ∀ n, enough ≤ n →
    (machine PlainSession.openSsl n).AllSteps (fun _ _ x' => Delivered plainInbox x') inPieces listening := by
  have ran : ∃ y, (machine PlainSession.openSsl 3).run inPieces listening = .ok y := ⟨_, rfl⟩
  obtain ⟨y, ran⟩ := ran
  refine records_delivered _ sessionIntake plainInbox session_progresses session_delivers inPieces listening
    (fun _ => ⟨rfl, rfl, rfl⟩) (along_of_run ran ?_) (along_of_run ran ?_)
  · decide +kernel
  · decide +kernel

/-- Two records that come together: the second one waits for a third. -/
theorem second_record_waits : ∃ x, (machine PlainSession.openSsl 3).run
    [.writeCipherTextData (oneChunk (record applicationData [1] ++ record applicationData [2]) (by decide))] listening = .ok x ∧
    ¬Delivered plainInbox x := by
  refine ⟨_, rfl, fun delivered => ?_⟩
  have here := delivered rfl
  revert here
  decide

end LibNekit.Guarantees.RecordDelivery
