import Mathlib.Data.Prod.Lex
import LibNekit.Source.Crypto.PlainRecords

/-!
# WriteCipherTextData comes to its end

Each pass of the loop takes bytes, or makes the session take some out of the pair. A
session whose peer has sent its close_notify takes none any more, so what follows the
close_notify has to fit into the pair. And `BIO_write` takes its length as an `int`, so of
a chunk of 2^31 bytes or more it is asked to write none at some point.
-/
namespace LibNekit.Guarantees.WriteReturns

open LibNekit.Source LibNekit.Library Ssl TlsTunnel Program

variable {σ : Type} {lib : OpenSsl σ}

/-- What is left to do for a session: the free room of the pair in front of it, a measure of
what it has still to take apart or to hand out, and whether it has seen a close_notify. -/
structure Intake (σ : Type) where
  room : σ → Nat
  work : σ → Nat
  closed : σ → Bool

/-- Nothing changes there. -/
structure Intake.Keeps (v : Intake σ) (s s' : σ) : Prop where
  room : v.room s' = v.room s
  work : v.work s' = v.work s
  closed : v.closed s' = v.closed s

/-- What the documentation of OpenSSL says of the calls. -/
structure Progresses (lib : OpenSsl σ) (v : Intake σ) : Prop where
  /-- `BIO_write` takes what there is room for, and asks to retry where there is none. -/
  bioWrite : ∀ data s, data ≠ [] → data.length < 2 ^ 31 → (lib (.bioWrite data) s).1.count = min data.length (v.room s) ∧
    v.room (lib (.bioWrite data) s).2 = v.room s - min data.length (v.room s) ∧
    v.closed (lib (.bioWrite data) s).2 = v.closed s
  bioWrite_full : ∀ data s, data ≠ [] → data.length < 2 ^ 31 → v.room s = 0 → (lib (.bioWrite data) s).1.shouldRetry = true ∧
    v.work (lib (.bioWrite data) s).2 = v.work s
  /-- The other direction of the pair has nothing to do with it. -/
  bioPending : ∀ s, v.Keeps s (lib .bioPending s).2
  bioRead : ∀ n s, v.Keeps s (lib (.bioRead n) s).2
  bioRead_pending : ∀ s,
    (lib (.bioRead (lib .bioPending s).1.count) (lib .bioPending s).2).1.data.length = (lib .bioPending s).1.count
  /-- `SSL_read` takes from the pair and gives as much as it is asked for, at most. -/
  sslRead : ∀ n s, (lib (.sslRead n) s).1.data.length ≤ n ∧ v.room s ≤ v.room (lib (.sslRead n) s).2
  sslRead_data : ∀ n s, (lib (.sslRead n) s).1.data ≠ [] → v.work (lib (.sslRead n) s).2 < v.work s
  /-- It takes what is in the pair while it needs it. -/
  sslRead_want : ∀ n s, (lib (.sslRead n) s).1.data = [] →
    (lib (.sslRead n) s).1.error = .wantRead ∨ (lib (.sslRead n) s).1.error = .wantWrite →
    0 < v.room (lib (.sslRead n) s).2 ∨ v.work (lib (.sslRead n) s).2 < v.work s
  sslRead_zero : ∀ n s, (lib (.sslRead n) s).1.data = [] → (lib (.sslRead n) s).1.error = .zeroReturn →
    v.closed (lib (.sslRead n) s).2 = true
  sslRead_failed : ∀ n s, 0 < n → (lib (.sslRead n) s).1.data = [] →
    (lib (.sslRead n) s).1.error = .none ∨ (lib (.sslRead n) s).1.error = .other →
    fromSslError (lib (.sslRead n) s).1.code ≠ 0
  /-- Once the close_notify has been seen, it takes nothing more. -/
  sslRead_closed : ∀ n s, v.closed s = true → (lib (.sslRead n) s).1.data = [] ∧
    (lib (.sslRead n) s).1.error = .zeroReturn ∧ v.room (lib (.sslRead n) s).2 = v.room s

/-- `BIO_write` is given some bytes. -/
def Filled : SslCall → Prop
  | .bioWrite data => data ≠ []
  | _ => True

/-- `BIO_write` is given some bytes, and they are not for the full pair of a session that
is closed. -/
def Taken (v : Intake σ) (c : SslCall) (s : σ) : Prop :=
  match c with
  | .bioWrite data => data ≠ [] ∧ (v.closed s = true → 0 < v.room s)
  | _ => True

theorem Taken.filled {v : Intake σ} {c : SslCall} {s : σ} (taken : Taken v c s) : Filled c := by
  cases c with
  | bioWrite data => exact taken.1
  | _ => trivial

variable {v : Intake σ} {t t' : TlsTunnel} {s s' : σ}

/-! ## The flushes -/

theorem Intake.Keeps.trans {s₁ s₂ s₃ : σ} (first : v.Keeps s₁ s₂) (second : v.Keeps s₂ s₃) : v.Keeps s₁ s₃ :=
  ⟨second.room.trans first.room, second.work.trans first.work, second.closed.trans first.closed⟩

/-- `FlushCipherBuffer` always returns. -/
theorem flushCipherBuffer_ok (progresses : Progresses lib v) (t : TlsTunnel) (s : σ) :
    ∃ more s', on lib t.flushCipherBuffer s = .ok ({ t with pendingReadCipher := t.pendingReadCipher ++ more }, s') ∧
      v.Keeps s s' := by
  unfold flushCipherBuffer
  simp only [call_bind, on_ask]
  split
  · refine ⟨[], _, ?_, progresses.bioPending s⟩
    rw [List.append_nil]
    rfl
  · refine ⟨(lib (.bioRead (lib .bioPending s).1.count) (lib .bioPending s).2).1.data, _, ?_,
      (progresses.bioPending s).trans (progresses.bioRead (lib .bioPending s).1.count _)⟩
    rw [on_ask, assert, if_pos (progresses.bioRead_pending s)]
    rfl

/-- What `FlushPlainBuffer` leads to, from a session with as much work as there was. -/
def Flushed (v : Intake σ) (s₀ : σ) (t : TlsTunnel) (s : σ) : Prop :=
  v.room s₀ ≤ v.room s ∧ (t.error ≠ 0 ∨ v.closed s = true ∨ 0 < v.room s ∨ v.work s < v.work s₀)

theorem readOnce_on (t : TlsTunnel) (s : σ) (short : (lib (.sslRead tlsReadSize) s).1.data.length ≤ tlsReadSize) :
    on lib t.readOnce s = .ok
      (let r := (lib (.sslRead tlsReadSize) s).1
       if r.data = [] then .inr (t.readStopped r)
       else if r.data.length < tlsReadSize then .inr { t with pendingReadPlain := t.pendingReadPlain ++ r.data }
       else .inl { t with pendingReadPlain := t.pendingReadPlain ++ r.data }, (lib (.sslRead tlsReadSize) s).2) := by
  unfold readOnce
  simp only [call_bind, on_ask]
  split
  · rfl
  · split
    · rfl
    · have exact_size : (lib (.sslRead tlsReadSize) s).1.data.length = tlsReadSize := by omega
      rw [if_pos exact_size]
      rfl

/-- An `SSL_read` that gives nothing. -/
theorem readStopped_flushed (progresses : Progresses lib v) {n : Nat} (positive : 0 < n) (nothing : (lib (.sslRead n) s).1.data = []) :
    (t.readStopped (lib (.sslRead n) s).1).error ≠ 0 ∨ v.closed (lib (.sslRead n) s).2 = true ∨
      0 < v.room (lib (.sslRead n) s).2 ∨ v.work (lib (.sslRead n) s).2 < v.work s := by
  unfold readStopped
  split
  · next want => exact Or.inr (Or.inr (progresses.sslRead_want n s nothing (Or.inl want)))
  · next want => exact Or.inr (Or.inr (progresses.sslRead_want n s nothing (Or.inr want)))
  · next zero => exact Or.inr (Or.inl (progresses.sslRead_zero n s nothing zero))
  · next none => exact Or.inl (progresses.sslRead_failed n s positive nothing (Or.inl none))
  · next other => exact Or.inl (progresses.sslRead_failed n s positive nothing (Or.inr other))

/-- `FlushPlainBuffer` returns. -/
theorem flushPlainBuffer_ok (progresses : Progresses lib v) (t : TlsTunnel) (s : σ) :
    ∃ n t' s', on lib (t.flushPlainBuffer n) s = .ok (t', s') ∧ Flushed v s t' s' := by
  obtain ⟨n, x, ran⟩ := @loop_returns _ _ _ _ σ TlsTunnel (answers lib) .endlessLoop (fun _ => readOnce) (fun _ _ => True)
    (fun _ _ => True) (InvImage (· < ·) fun x : TlsTunnel × σ => v.work x.2) (InvImage.wf _ Nat.lt_wfRel.wf)
    (fun _ => Below.refl _) (fun t s _ _ => by
      refine ⟨0, _, _, readOnce_on t s (progresses.sslRead _ _).1, fun t' again => ⟨trivial, ?_⟩⟩
      refine progresses.sslRead_data tlsReadSize s fun nothing => ?_
      rw [if_pos nothing] at again
      cases again) t s trivial (fun _ _ _ => trivial)
  refine ⟨n, x.1, x.2, ran, ?_⟩
  refine @loop_ends _ _ _ _ σ TlsTunnel (answers lib) .endlessLoop readOnce
    (fun _ s' => v.room s ≤ v.room s' ∧ v.work s' ≤ v.work s) (fun t' s' => Flushed v s t' s') ?_ n t s x ⟨Nat.le_refl _, Nat.le_refl _⟩ ran
  rintro t₁ s₁ r s₂ ⟨room, work⟩ passed
  have passed : on lib t₁.readOnce s₁ = .ok (r, s₂) := passed
  rw [readOnce_on t₁ s₁ (progresses.sslRead _ _).1] at passed
  cases passed
  have wider := (progresses.sslRead tlsReadSize s₁).2
  by_cases nothing : (lib (.sslRead tlsReadSize) s₁).1.data = []
  · rw [if_pos nothing]
    refine ⟨room.trans wider, ?_⟩
    rcases @readStopped_flushed _ _ _ t₁ _ progresses _ (by decide) nothing with error | closed | free | less
    · exact Or.inl error
    · exact Or.inr (Or.inl closed)
    · exact Or.inr (Or.inr (Or.inl free))
    · exact Or.inr (Or.inr (Or.inr (by omega)))
  · have less := progresses.sslRead_data tlsReadSize s₁ nothing
    rw [if_neg nothing]
    split
    · exact ⟨room.trans wider, Or.inr (Or.inr (Or.inr (by omega)))⟩
    · exact ⟨room.trans wider, by omega⟩

/-- `FlushPlainBuffer` of a session that is closed reads nothing. -/
theorem flushPlainBuffer_closed (progresses : Progresses lib v) (closed : v.closed s = true) {n : Nat}
    (ran : on lib (t.flushPlainBuffer n) s = .ok (t', s')) :
    t'.error = t.error ∧ v.closed s' = true ∧ v.room s' = v.room s := by
  obtain ⟨nothing, zero, room⟩ := progresses.sslRead_closed tlsReadSize s closed
  cases n with
  | zero => cases ran
  | succ n =>
    unfold flushPlainBuffer at ran
    rw [loop_succ, on_bind (readOnce_on t s (progresses.sslRead _ _).1)] at ran
    simp only [nothing, if_true] at ran
    cases ran
    refine ⟨?_, progresses.sslRead_zero _ s nothing zero, room⟩
    unfold readStopped
    rw [zero]

/-! ## One pass -/

/-- A `BIO_write` of a chunk. -/
theorem bioWrite_passed (progresses : Progresses lib v) {data : Bytes} (some : passed data ≠ []) (s : σ) :
    (lib (.bioWrite (passed data)) s).1.count ≤ data.length ∧
      v.room (lib (.bioWrite (passed data)) s).2 + (lib (.bioWrite (passed data)) s).1.count = v.room s ∧
      v.closed (lib (.bioWrite (passed data)) s).2 = v.closed s ∧
      ((lib (.bioWrite (passed data)) s).1.count = 0 → v.room s = 0 ∧
        (lib (.bioWrite (passed data)) s).1.shouldRetry = true ∧ v.work (lib (.bioWrite (passed data)) s).2 = v.work s) := by
  have few : (passed data).length < 2 ^ 31 := length_passed data ▸ intLength_lt _
  have positive := List.length_pos_of_ne_nil some
  have shorter : (passed data).length ≤ data.length := length_passed data ▸ intLength_le _
  obtain ⟨count, room, closed⟩ := progresses.bioWrite (passed data) s some few
  refine ⟨by omega, by omega, closed, fun none => ?_⟩
  have full : v.room s = 0 := by omega
  exact ⟨full, progresses.bioWrite_full (passed data) s some few full⟩

/-- The walk over short chunks gives some bytes to each `BIO_write`. -/
theorem writePieces_some {pieces : List Bytes} (filled : ∀ c ∈ pieces, c ≠ []) (short : ∀ c ∈ pieces, c.length < 2 ^ 31)
    (t : TlsTunnel) (processed : Nat) : (writePieces pieces t processed).Asks Filled := by
  induction pieces generalizing t processed with
  | nil => trivial
  | cons data rest ih =>
    have here : passed data ≠ [] := by
      rw [passed_eq (short data List.mem_cons_self)]
      exact filled data List.mem_cons_self
    unfold writePieces
    simp only [call_bind]
    refine Asks.ask here fun n => ?_
    split
    · split <;> trivial
    · split
      · exact ih (fun c member => filled c (List.mem_cons_of_mem _ member))
          (fun c member => short c (List.mem_cons_of_mem _ member)) _ _
      · trivial

/-- The walk returns, and either has taken bytes or found the pair full. -/
theorem writePieces_ok (progresses : Progresses lib v) {pieces : List Bytes} (t : TlsTunnel) (processed : Nat) (s : σ)
    (some : ∀ e ∈ calls lib (writePieces pieces t processed) s, Filled e.1) :
    ∃ t' processed' s', on lib (writePieces pieces t processed) s = .ok ((t', processed'), s') ∧ t'.error = t.error ∧
      processed ≤ processed' ∧ processed' ≤ processed + pieces.flatten.length ∧ v.closed s' = v.closed s ∧
      processed' + v.room s' = processed + v.room s ∧ (processed' = processed → pieces ≠ [] → v.room s = 0 ∧ v.room s' = 0 ∧ v.work s' = v.work s) := by
  induction pieces generalizing t processed s with
  | nil => exact ⟨t, processed, s, rfl, rfl, Nat.le_refl _, Nat.le_refl _, rfl, rfl, fun _ pieces => absurd rfl pieces⟩
  | cons data rest ih =>
    unfold writePieces at some ⊢
    simp only [call_bind, on_ask, calls_ask, List.flatten_cons, List.length_append] at some ⊢
    obtain ⟨count, room, closed, nothing⟩ := bioWrite_passed progresses (some _ List.mem_cons_self) s
    by_cases none : (lib (.bioWrite (passed data)) s).1.count = 0
    · obtain ⟨full, retry, work⟩ := nothing none
      rw [if_pos none, if_pos retry]
      exact ⟨_, _, _, rfl, rfl, Nat.le_refl _, by omega, closed, by omega, fun _ _ => ⟨full, by omega, work⟩⟩
    rw [if_neg none] at some ⊢
    by_cases whole : (lib (.bioWrite (passed data)) s).1.count = data.length
    · rw [if_pos whole] at some ⊢
      obtain ⟨t', processed', s', ran, error, le, bound, closed', room', -⟩ :=
        ih { t with needCipherInput := false } (processed + (lib (.bioWrite (passed data)) s).1.count)
          (lib (.bioWrite (passed data)) s).2 fun e member => some e (List.mem_cons_of_mem _ member)
      exact ⟨t', processed', s', ran, error, by omega, by omega, closed'.trans closed, by omega, by omega⟩
    · rw [if_neg whole]
      exact ⟨_, _, _, rfl, rfl, by omega, by omega, closed, by omega, by omega⟩

/-- Either what the walk asks is taken, or it stops at the full pair of a closed session. -/
theorem writePieces_taken (progresses : Progresses lib v) {pieces : List Bytes} (t : TlsTunnel) (processed : Nat) (s : σ)
    {t' : TlsTunnel} {processed' : Nat} {s' : σ} (some : ∀ e ∈ calls lib (writePieces pieces t processed) s, Filled e.1)
    (ran : on lib (writePieces pieces t processed) s = .ok ((t', processed'), s')) :
    (∀ e ∈ calls lib (writePieces pieces t processed) s, Taken v e.1 e.2) ∨
      (v.closed s' = true ∧ v.room s' = 0 ∧ processed' < processed + pieces.flatten.length) := by
  induction pieces generalizing t processed s with
  | nil => exact Or.inl nofun
  | cons data rest ih =>
    unfold writePieces at ran some ⊢
    simp only [call_bind, on_ask, calls_ask, List.mem_cons, List.flatten_cons, List.length_append] at ran some ⊢
    have here : passed data ≠ [] := some _ (Or.inl rfl)
    have positive := List.length_pos_of_ne_nil here
    have shorter : (passed data).length ≤ data.length := length_passed data ▸ intLength_le _
    obtain ⟨count, room, closed, nothing⟩ := bioWrite_passed progresses here s
    by_cases none : (lib (.bioWrite (passed data)) s).1.count = 0
    · obtain ⟨full, retry, -⟩ := nothing none
      rw [if_pos none, if_pos retry] at ran ⊢
      cases ran
      by_cases shut : v.closed s = true
      · exact Or.inr ⟨closed.trans shut, by omega, by omega⟩
      · left
        rintro e (rfl | never)
        · exact ⟨here, fun yes => absurd yes shut⟩
        · cases never
    · have taken : Taken v (.bioWrite (passed data)) s := ⟨here, fun _ => by omega⟩
      rw [if_neg none] at ran some ⊢
      split at ran
      · next whole =>
        rw [if_pos whole] at some ⊢
        rcases ih _ _ _ (fun e member => some e (Or.inr member)) ran with fit | ⟨shut, full, short⟩
        · left
          rintro e (rfl | later)
          · exact taken
          · exact fit e later
        · exact Or.inr ⟨shut, full, by omega⟩
      · next part =>
        rw [if_neg part]
        left
        rintro e (rfl | never)
        · exact taken
        · cases never

theorem flushCipherBuffer_asks (t : TlsTunnel) : t.flushCipherBuffer.Asks fun c => ∀ data, c ≠ .bioWrite data := by
  unfold flushCipherBuffer
  simp only [call_bind]
  refine Asks.ask nofun fun r => ?_
  split
  · trivial
  · refine Asks.ask nofun fun r => ?_
    unfold assert
    split <;> trivial

theorem flushPlainBuffer_asks (fuel : Nat) (t : TlsTunnel) :
    (t.flushPlainBuffer fuel).Asks fun c => ∀ data, c ≠ .bioWrite data := by
  refine Asks.loop (fun t => ?_) fuel t
  unfold readOnce
  simp only [call_bind]
  refine Asks.ask nofun fun r => ?_
  split
  · trivial
  · split
    · trivial
    · split <;> trivial

/-- The flushes write nothing to the pair. -/
theorem flushBuffer_taken (fuel : Nat) (t : TlsTunnel) (s : σ) :
    ∀ e ∈ calls lib (t.flushBuffer fuel) s, Taken v e.1 e.2 := by
  rintro ⟨c, s'⟩ member
  have other := ((flushCipherBuffer_asks t).bind (flushPlainBuffer_asks fuel)).asked s _ member
  cases c with
  | bioWrite data => exact absurd rfl (other data)
  | _ => trivial

theorem flushBuffer_ok (progresses : Progresses lib v) (t : TlsTunnel) (s : σ) :
    ∃ n t' s', on lib (t.flushBuffer n) s = .ok (t', s') ∧ Flushed v s t' s' ∧ (v.closed s = true → v.closed s' = true) := by
  obtain ⟨more, s₁, ran, keeps⟩ := flushCipherBuffer_ok progresses t s
  obtain ⟨n, t', s', ran', room, flushed⟩ := flushPlainBuffer_ok progresses
    { t with pendingReadCipher := t.pendingReadCipher ++ more } s₁
  refine ⟨n, t', s', ?_, ?_, fun closed => (flushPlainBuffer_closed progresses (keeps.closed.trans closed) ran').2.1⟩
  · rw [flushBuffer, on_bind ran]
    exact ran'
  · rw [keeps.room] at room
    rw [keeps.work] at flushed
    exact ⟨room, flushed⟩

/-- A flush of a closed session leaves everything where it is. -/
theorem flushBuffer_closed (progresses : Progresses lib v) (closed : v.closed s = true) {n : Nat}
    (ran : on lib (t.flushBuffer n) s = .ok (t', s')) :
    t'.error = t.error ∧ v.closed s' = true ∧ v.room s' = v.room s := by
  obtain ⟨more, s₁, ran₁, keeps⟩ := flushCipherBuffer_ok progresses t s
  rw [flushBuffer, on_bind ran₁] at ran
  obtain ⟨error, closed', room⟩ := flushPlainBuffer_closed progresses (keeps.closed.trans closed) ran
  exact ⟨error, closed', room.trans keeps.room⟩

theorem length_pieces {buffer : Chunks} {processed : Nat} (le : processed ≤ buffer.size) :
    processed + (Chunks.piecesFrom processed buffer.list).flatten.length = buffer.size := by
  rw [Chunks.flatten_piecesFrom, List.length_drop, ← buffer.length_bytes, Chunks.bytes] at *
  omega

theorem pieces_ne_nil {buffer : Chunks} {processed : Nat} (lt : processed < buffer.size) :
    Chunks.piecesFrom processed buffer.list ≠ [] := by
  intro none
  have := length_pieces (Nat.le_of_lt lt)
  rw [none] at this
  simp at this
  omega

/-- A session that is closed, with more bytes to write than the pair has room for. -/
def Stuck (v : Intake σ) (buffer : Chunks) (x : TlsTunnel × Nat) (s : σ) : Prop :=
  v.closed s = true ∧ x.2 + v.room s < buffer.size ∧ x.1.error = 0

/-- A pass that has bytes to write: it takes some, or flushes in front of a full pair. -/
theorem writePass_ok (progresses : Progresses lib v) {buffer : Chunks} {processed : Nat} (t : TlsTunnel) (s : σ)
    (lt : processed < buffer.size) (fine : t.error = 0)
    (some : ∀ e ∈ calls lib (writePieces (Chunks.piecesFrom processed buffer.list) t processed) s, Filled e.1) :
    ∃ n t' processed' s', on lib (writePass buffer n (t, processed)) s = .ok (.inl (t', processed'), s') ∧
      processed ≤ processed' ∧ processed' ≤ buffer.size ∧ (v.closed s = true → v.closed s' = true) ∧
      (processed' = processed → v.room s = 0 ∧ Flushed v s t' s') := by
  obtain ⟨t₁, processed', s₁, walked, error, le, bound, closed, -, full⟩ := writePieces_ok progresses t processed s some
  obtain ⟨n, t', s', flushed, after, still⟩ := flushBuffer_ok progresses t₁ s₁
  rw [length_pieces (Nat.le_of_lt lt)] at bound
  refine ⟨n, t', processed', s', ?_, le, bound, fun shut => still (closed.trans shut), fun same => ?_⟩
  · unfold writePass
    rw [if_pos ⟨Nat.ne_of_lt lt, fine⟩, on_bind walked]
    dsimp only
    rw [if_pos (error.trans fine), on_bind flushed]
    rfl
  · obtain ⟨room, room', work⟩ := full same (pieces_ne_nil lt)
    refine ⟨room, ?_⟩
    obtain ⟨wider, done⟩ := after
    rw [work] at done
    exact ⟨by omega, done⟩

/-! ## The loop -/

/-- What comes down with every pass: the bytes that are left, then whether the session may
still be closed, then what it has to do before there is room. -/
def rank (v : Intake σ) (buffer : Chunks) (x : (TlsTunnel × Nat) × σ) : Nat × Nat × Nat :=
  (if x.1.1.error ≠ 0 then 0 else buffer.size - x.1.2 + 1, if v.closed x.2 then 0 else 1,
    if v.room x.2 = 0 then v.work x.2 + 1 else 0)

theorem rank_wf (v : Intake σ) (buffer : Chunks) :
    WellFounded (InvImage (Prod.Lex (· < ·) (Prod.Lex (· < ·) (· < ·))) (rank v buffer)) :=
  InvImage.wf _ (Nat.lt_wfRel.wf.prod_lex (Nat.lt_wfRel.wf.prod_lex Nat.lt_wfRel.wf))

theorem writePass_below (buffer : Chunks) {n n' : Nat} {x : TlsTunnel × Nat} (le : n ≤ n') :
    Below (writePass buffer n x) (writePass buffer n' x) := by
  unfold writePass
  split
  · refine (Below.refl _).bind fun y => ?_
    dsimp only
    split
    · refine Below.bind ?_ fun _ => Below.refl _
      exact (Below.refl _).bind fun t => Below.loop (fun _ => Below.refl _) le t
    · exact Below.refl _
  · exact Below.refl _

theorem writeCipherTextData_below (buffer : Chunks) {n n' : Nat} (t : TlsTunnel) (le : n ≤ n') :
    Below (writeCipherTextData n buffer t) (writeCipherTextData n' buffer t) :=
  Below.loop (fun _ => writePass_below buffer le) le _

/-- A pass begins with the walk. -/
theorem writePass_walks {buffer : Chunks} (n : Nat) {t : TlsTunnel} {processed : Nat} {s : σ} (lt : processed < buffer.size)
    (fine : t.error = 0) {e : SslCall × σ}
    (member : e ∈ calls lib (writePieces (Chunks.piecesFrom processed buffer.list) t processed) s) :
    e ∈ calls lib (writePass buffer n (t, processed)) s := by
  unfold writePass
  rw [if_pos ⟨Nat.ne_of_lt lt, fine⟩]
  exact (asked_of_bind s).mem member

/-- And the walk begins with the session that it finds. -/
theorem writePieces_first (buffer : Chunks) (t : TlsTunnel) {processed : Nat} (s : σ) (lt : processed < buffer.size) :
    ∃ data, (.bioWrite data, s) ∈ calls lib (writePieces (Chunks.piecesFrom processed buffer.list) t processed) s := by
  cases pieces : Chunks.piecesFrom processed buffer.list with
  | nil => exact absurd pieces (pieces_ne_nil lt)
  | cons data rest => exact ⟨passed data, List.mem_cons_self⟩

/-- A pass that took nothing, or some bytes, comes down. -/
theorem rank_lt {buffer : Chunks} {t t' : TlsTunnel} {processed processed' : Nat} {s s' : σ} (lt : processed < buffer.size)
    (fine : t.error = 0) (le : processed ≤ processed') (bound : processed' ≤ buffer.size)
    (full : processed' = processed → v.closed s = false ∧ v.room s = 0 ∧ Flushed v s t' s') :
    InvImage (Prod.Lex (· < ·) (Prod.Lex (· < ·) (· < ·))) (rank v buffer) ((t', processed'), s') ((t, processed), s) := by
  unfold InvImage rank
  dsimp only
  rw [if_neg (not_not.mpr fine)]
  by_cases error : t'.error ≠ 0
  · rw [if_pos error]
    exact Prod.Lex.left _ _ (Nat.succ_pos _)
  rw [if_neg error]
  by_cases same : processed' = processed
  · obtain ⟨still_open, none, -, flushed⟩ := full same
    subst same
    refine Prod.Lex.right _ ?_
    rw [still_open, if_neg Bool.false_ne_true]
    by_cases closed : v.closed s' = true
    · rw [if_pos closed]
      exact Prod.Lex.left _ _ Nat.one_pos
    · rw [if_neg closed, if_pos none]
      refine Prod.Lex.right _ ?_
      rcases (flushed.resolve_left error).resolve_left closed with free | less
      · rw [if_neg (Nat.ne_of_gt free)]
        exact Nat.succ_pos _
      · split <;> omega
  · exact Prod.Lex.left _ _ (by omega)

/-- Where all that is written is taken, the call returns. -/
theorem returns_of_taken (progresses : Progresses lib v) {buffer : Chunks} {t : TlsTunnel} {s : σ}
    (taken : ∀ n, ∀ e ∈ calls lib (writeCipherTextData n buffer t) s, Taken v e.1 e.2) :
    ∃ n x, on lib (writeCipherTextData n buffer t) s = .ok x := by
  refine @loop_returns _ _ _ _ σ (TlsTunnel × Nat) (answers lib) .endlessLoop (writePass buffer)
    (fun x _ => x.2 ≤ buffer.size) (Taken v) _ (rank_wf v buffer) (fun le => writePass_below buffer le) ?_ (t, 0) s
    (Nat.zero_le _) taken
  rintro ⟨t, processed⟩ s le fit
  by_cases more : processed ≠ buffer.size ∧ t.error = 0
  · obtain ⟨fine, lt⟩ : t.error = 0 ∧ processed < buffer.size := ⟨more.2, by have := more.1; simp only at le; omega⟩
    obtain ⟨n, t', processed', s', ran, le', bound, still, full⟩ := writePass_ok progresses t s lt fine
      fun e member => (fit 0 e (writePass_walks 0 lt fine member)).filled
    refine ⟨n, _, s', ran, ?_⟩
    rintro _ ⟨⟩
    refine ⟨bound, rank_lt lt fine le' bound fun same => ?_⟩
    obtain ⟨room, flushed⟩ := full same
    obtain ⟨data, first⟩ := @writePieces_first σ lib buffer t processed s lt
    refine ⟨Bool.eq_false_iff.mpr fun closed => ?_, room, flushed⟩
    have free : 0 < v.room s := (fit 0 _ (writePass_walks 0 lt fine first)).2 closed
    omega
  · refine ⟨0, .inr t, s, ?_, nofun⟩
    unfold writePass
    rw [if_neg more]
    rfl

/-- The walk over what is left of a Buffer with short chunks. -/
theorem walk_some {buffer : Chunks} (short : ∀ c ∈ buffer.list, c.length < 2 ^ 31) (t : TlsTunnel) (processed : Nat)
    (s : σ) : ∀ e ∈ calls lib (writePieces (Chunks.piecesFrom processed buffer.list) t processed) s, Filled e.1 :=
  fun e member => (writePieces_some (Chunks.piecesFrom_filled buffer.filled processed)
    (Chunks.piecesFrom_short short processed) t processed).asked s e member

/-- A stuck pass is followed by another one. -/
theorem stuck_again (progresses : Progresses lib v) {buffer : Chunks} (short : ∀ c ∈ buffer.list, c.length < 2 ^ 31)
    {n : Nat} {x : TlsTunnel × Nat} {r : TlsTunnel × Nat ⊕ TlsTunnel}
    (stuck : Stuck v buffer x s) (ran : on lib (writePass buffer n x) s = .ok (r, s')) :
    ∃ x', r = .inl x' ∧ Stuck v buffer x' s' := by
  obtain ⟨t, processed⟩ := x
  obtain ⟨closed, more, fine⟩ := stuck
  dsimp only at more fine
  have lt : processed < buffer.size := by omega
  obtain ⟨t₁, processed₁, s₁, walked, error, -, -, closed₁, room, -⟩ :=
    writePieces_ok progresses t processed s (walk_some short t processed s)
  unfold writePass at ran
  rw [if_pos ⟨Nat.ne_of_lt lt, fine⟩, on_bind walked] at ran
  dsimp only at ran
  rw [if_pos (error.trans fine)] at ran
  obtain ⟨t', s₂, flushed, ran⟩ := on_bind_ok.mp ran
  cases ran
  obtain ⟨error', closed', room'⟩ := flushBuffer_closed progresses (closed₁.trans closed) flushed
  exact ⟨_, rfl, closed', by dsimp only; omega, error'.trans (error.trans fine)⟩

/-- What does not fit behind a close_notify is never taken. -/
theorem never_returns (progresses : Progresses lib v) {buffer : Chunks} (short : ∀ c ∈ buffer.list, c.length < 2 ^ 31)
    (closed : v.closed s = true)
    (more : v.room s < buffer.size) (fine : t.error = 0) (n : Nat) (x : TlsTunnel × σ) :
    on lib (writeCipherTextData n buffer t) s ≠ .ok x :=
  loop_endless (fun _ _ _ _ stuck passed => stuck_again progresses short stuck passed) n
    ⟨closed, by dsimp only; omega, fine⟩ x

/-- Where the call returns, all that was written was taken. -/
theorem taken_of_returns (progresses : Progresses lib v) {buffer : Chunks} (short : ∀ c ∈ buffer.list, c.length < 2 ^ 31)
    (inner : Nat) {n : Nat} {x : TlsTunnel × Nat}
    {s : σ} {y : TlsTunnel × σ} (le : x.2 ≤ buffer.size)
    (ran : on lib (.loop .endlessLoop (writePass buffer inner) n x) s = .ok y) :
    ∀ e ∈ calls lib (.loop .endlessLoop (writePass buffer inner) n x) s, Taken v e.1 e.2 := by
  induction n generalizing x s with
  | zero => cases ran
  | succ n ih =>
    obtain ⟨t, processed⟩ := x
    rw [loop_succ] at ran ⊢
    obtain ⟨r, s₁, passed, ran⟩ := on_bind_ok.mp ran
    rw [calls_bind passed]
    by_cases more : processed ≠ buffer.size ∧ t.error = 0
    · have lt : processed < buffer.size := by
        have := more.1
        simp only at le
        omega
      unfold writePass at passed ⊢
      rw [if_pos more] at passed ⊢
      obtain ⟨⟨t₁, processed₁⟩, s₂, walked, rest⟩ := on_bind_ok.mp passed
      rw [calls_bind walked]
      obtain ⟨t₂, processed₂, s₃, walked', error, -, bound, -⟩ :=
        writePieces_ok progresses t processed s (walk_some short t processed s)
      rw [walked'] at walked
      cases walked
      rw [length_pieces (Nat.le_of_lt lt)] at bound
      dsimp only at rest ⊢
      rw [if_pos (error.trans more.2)] at rest ⊢
      obtain ⟨t₃, s₄, flushed, rest⟩ := on_bind_ok.mp rest
      cases rest
      rw [calls_bind flushed]
      rcases writePieces_taken progresses t processed s (walk_some short t processed s) walked' with
        fit | ⟨shut, full, part⟩
      · intro e member
        rcases List.mem_append.mp member with inside | later
        · rcases List.mem_append.mp inside with walk | flush
          · exact fit e walk
          · rcases List.mem_append.mp flush with flush | nothing
            · exact flushBuffer_taken inner _ _ e flush
            · exact absurd nothing List.not_mem_nil
        · exact ih bound ran e later
      · -- the walk has stopped in front of the full pair, and every pass will
        rw [length_pieces (Nat.le_of_lt lt)] at part
        obtain ⟨error', closed', room'⟩ := flushBuffer_closed progresses shut flushed
        have stuck : Stuck v buffer (_, processed₁) _ :=
          ⟨closed', by dsimp only; omega, error'.trans (error.trans more.2)⟩
        exact absurd ran (loop_endless (fun _ _ _ _ stuck passed => stuck_again progresses short stuck passed) n stuck y)
    · unfold writePass at passed ⊢
      rw [if_neg more] at passed ⊢
      cases passed
      exact nofun

/-! ## Calls one after the other -/

/-- The Buffers are given to `WriteCipherTextData` in turn. -/
def writeAll (fuel : Nat) : List Chunks → TlsTunnel → Ssl TlsTunnel
  | [], t => .done t
  | buffer :: rest, t => t.writeCipherTextData fuel buffer >>= writeAll fuel rest

theorem writeAll_below (buffers : List Chunks) {n n' : Nat} (t : TlsTunnel) (le : n ≤ n') :
    Below (writeAll n buffers t) (writeAll n' buffers t) := by
  induction buffers generalizing t with
  | nil => rfl
  | cons buffer rest ih => exact (writeCipherTextData_below buffer t le).bind ih

/-- Calls that are given what is taken all return. -/
theorem returns_all (progresses : Progresses lib v) (buffers : List Chunks) (t : TlsTunnel) (s : σ)
    (taken : ∀ n, ∀ e ∈ calls lib (writeAll n buffers t) s, Taken v e.1 e.2) : ∃ n x, on lib (writeAll n buffers t) s = .ok x := by
  induction buffers generalizing t s with
  | nil => exact ⟨0, (t, s), rfl⟩
  | cons buffer rest ih =>
    obtain ⟨n, ⟨t₁, s₁⟩, first⟩ := @returns_of_taken _ _ _ progresses buffer t s fun n e member =>
      taken n e ((asked_of_bind s).mem member)
    have first_of : ∀ k, n ≤ k → on lib (writeCipherTextData k buffer t) s = .ok (t₁, s₁) :=
      fun k le => (writeCipherTextData_below buffer t le).run_ok first
    obtain ⟨m, x, second⟩ := ih t₁ s₁ fun m e member => taken (max n m) e (by
      rw [writeAll, calls_bind (first_of _ (Nat.le_max_left n m))]
      exact List.mem_append_right _ (((writeAll_below rest t₁ (Nat.le_max_right n m)).asked s₁).mem member))
    refine ⟨max n m, x, ?_⟩
    rw [writeAll, on_bind (first_of _ (Nat.le_max_left n m))]
    exact (writeAll_below rest t₁ (Nat.le_max_right n m)).run_ok second

/-- And what returns was given what is taken, as far as its chunks are short. -/
theorem taken_all (progresses : Progresses lib v) (buffers : List Chunks) (short : ∀ b ∈ buffers, ∀ c ∈ b.list, c.length < 2 ^ 31)
    (t : TlsTunnel) (s : σ) (returns : ∃ n x, on lib (writeAll n buffers t) s = .ok x) :
    ∀ n, ∀ e ∈ calls lib (writeAll n buffers t) s, Taken v e.1 e.2 := by
  induction buffers generalizing t s with
  | nil => exact nofun
  | cons buffer rest ih =>
    obtain ⟨n, x, ran⟩ := returns
    obtain ⟨t₁, s₁, first, second⟩ := on_bind_ok.mp ran
    have taken := taken_of_returns progresses (short buffer List.mem_cons_self) n (Nat.zero_le _) first
    have more := ih (fun b member => short b (List.mem_cons_of_mem _ member)) t₁ s₁ ⟨n, x, second⟩
    intro m e member
    have above := writeAll_below (buffer :: rest) t (Nat.le_max_left m n)
    have below := (writeAll_below (buffer :: rest) t (Nat.le_max_right m n)).asked_eq ran
    have member : e ∈ calls lib (writeAll n (buffer :: rest) t) s := by
      unfold calls
      rw [← below]
      exact (above.asked s).mem member
    rw [writeAll, calls_bind first] at member
    exact (List.mem_append.mp member).elim (taken e) (more n e)

/-- A sequence of calls returns when each `BIO_write` is given some bytes and none is made
into the full pair of a session that is closed, and of Buffers with chunks under 2^31
bytes, each of which is given whole, only then. -/
theorem returns_iff (lib : OpenSsl σ) (v : Intake σ) (progresses : Progresses lib v) (buffers : List Chunks) (t : TlsTunnel)
    (s : σ) :
    ((∀ n, ∀ e ∈ calls lib (writeAll n buffers t) s, Taken v e.1 e.2) → ∃ n x, on lib (writeAll n buffers t) s = .ok x) ∧
    ((∀ b ∈ buffers, ∀ c ∈ b.list, c.length < 2 ^ 31) →
      ((∃ n x, on lib (writeAll n buffers t) s = .ok x) ↔
        ∀ n, ∀ e ∈ calls lib (writeAll n buffers t) s, Taken v e.1 e.2)) :=
  ⟨returns_all progresses buffers t s,
    fun short => ⟨taken_all progresses buffers short t s, returns_all progresses buffers t s⟩⟩

/-! ## Records without encryption -/

/-- What a `PlainRecords` has still to do. -/
def plainIntake : Intake PlainRecords where
  room s := pairSize - s.held.length
  work s := 2 * (s.begun.length + s.held.length) + s.rest.length
  closed s := s.closed

theorem handOut_work {len : Nat} {s : PlainRecords} (some : (s.handOut len).1.data ≠ []) :
    (s.handOut len).2.rest.length < s.rest.length := by
  have taken := List.length_pos_of_ne_nil some
  simp only [PlainRecords.handOut, List.length_take, List.length_drop] at taken ⊢
  omega

theorem handOut_some {len : Nat} {s : PlainRecords} (positive : 0 < len) (some : s.rest ≠ []) :
    (s.handOut len).1.data ≠ [] := by
  have more := List.length_pos_of_ne_nil some
  intro none
  have := congrArg List.length none
  simp only [PlainRecords.handOut, List.length_take, List.length_nil] at this
  omega

/-- The ways in which an `SSL_read` ends. -/
inductive Read (n : Nat) (s : PlainRecords) : SslReply × PlainRecords → Prop where
  | shut (closed : s.closed = true) : Read n s ({ error := .zeroReturn }, s)
  | rest (still_open : s.closed = false) (some : s.rest ≠ []) : Read n s (s.handOut n)
  | waits (still_open : s.closed = false) (empty : s.rest = []) (part : nextRecord (s.begun ++ s.held) = none) :
      Read n s ({ error := .wantRead }, { s with begun := s.begun ++ s.held, held := [] })
  | notify (payload : Bytes) (size : Nat) (still_open : s.closed = false) (empty : s.rest = [])
      (found : nextRecord (s.begun ++ s.held) = some (alert, payload, size)) : Read n s ({ error := .zeroReturn },
        { s with begun := [], held := s.held.drop (size - s.begun.length), closed := true })
  | record (payload : Bytes) (size : Nat) (still_open : s.closed = false) (empty : s.rest = []) (filled : payload ≠ [])
      (found : nextRecord (s.begun ++ s.held) = some (applicationData, payload, size)) :
      Read n s (PlainRecords.handOut n { s with begun := [], held := s.held.drop (size - s.begun.length), rest := payload })
  | failed (still_open : s.closed = false) : Read n s ({ error := .other, code := 1 }, s)

theorem sslRead_read (n : Nat) (s : PlainRecords) : Read n s (s.sslRead n) := by
  unfold PlainRecords.sslRead
  split
  · next closed => exact .shut closed
  next still_open =>
  have still_open : s.closed = false := Bool.eq_false_iff.mpr still_open
  split
  · next some => exact .rest still_open some
  next empty =>
  have empty : s.rest = [] := not_not.mp empty
  split
  · next part => exact .waits still_open empty part
  next type payload size found =>
  dsimp only
  split
  · next last =>
    subst last
    exact .notify payload size still_open empty found
  split
  · next data =>
    obtain ⟨rfl, filled⟩ := data
    exact .record payload size still_open empty filled found
  · exact .failed still_open

theorem plain_progresses : Progresses PlainRecords.openSsl plainIntake where
  bioWrite data s _ _ := by
    refine ⟨rfl, ?_, rfl⟩
    simp only [PlainRecords.openSsl, PlainRecords.bioWrite, plainIntake, List.length_append, List.length_take]
    omega
  bioWrite_full data s _ _ full := by
    have none : min data.length (pairSize - s.held.length) = 0 := by
      rw [show pairSize - s.held.length = 0 from full, Nat.min_zero]
    refine ⟨decide_eq_true none, ?_⟩
    simp only [PlainRecords.openSsl, PlainRecords.bioWrite, none, List.take_zero, List.append_nil]
  bioPending s := ⟨rfl, rfl, rfl⟩
  bioRead n s := ⟨rfl, rfl, rfl⟩
  bioRead_pending s := by simp [PlainRecords.openSsl, PlainRecords.bioRead]
  sslRead n s := by
    show (s.sslRead n).1.data.length ≤ n ∧ plainIntake.room s ≤ plainIntake.room (s.sslRead n).2
    have read := sslRead_read n s
    revert read
    generalize s.sslRead n = x
    rintro (_ | _ | _ | _ | _ | _) <;>
      simp only [PlainRecords.handOut, plainIntake, List.length_nil, List.length_take, List.length_drop] <;> omega
  sslRead_data n s := by
    show (s.sslRead n).1.data ≠ [] → plainIntake.work (s.sslRead n).2 < plainIntake.work s
    have read := sslRead_read n s
    revert read
    generalize s.sslRead n = x
    rintro (_ | _ | _ | _ | ⟨payload, size, _, _, _, found⟩ | _) some <;> try exact absurd rfl some
    · have less := handOut_work some
      simp only [PlainRecords.handOut, plainIntake] at less ⊢
      omega
    · have less := handOut_work some
      have bounds := PlainRecords.nextRecord_size found
      rw [List.length_append] at bounds
      simp only [PlainRecords.handOut, plainIntake, List.length_drop, List.length_nil] at less ⊢
      omega
  sslRead_want n s := by
    show (s.sslRead n).1.data = [] → _ → 0 < plainIntake.room (s.sslRead n).2 ∨ plainIntake.work (s.sslRead n).2 < _
    have read := sslRead_read n s
    revert read
    show _ → _ → (s.sslRead n).1.error = .wantRead ∨ (s.sslRead n).1.error = .wantWrite → _
    generalize s.sslRead n = x
    rintro (_ | _ | _ | _ | _ | _) _ want <;> simp [PlainRecords.handOut] at want
    exact Or.inl (by simp [plainIntake, pairSize])
  sslRead_zero n s := by
    show _ → (s.sslRead n).1.error = .zeroReturn → (s.sslRead n).2.closed = true
    have read := sslRead_read n s
    revert read
    generalize s.sslRead n = x
    rintro (⟨closed⟩ | _ | _ | _ | _ | _) _ zero <;> simp [PlainRecords.handOut] at zero
    · exact closed
    · rfl
  sslRead_failed n s positive := by
    show (s.sslRead n).1.data = [] → (s.sslRead n).1.error = .none ∨ (s.sslRead n).1.error = .other →
      fromSslError (s.sslRead n).1.code ≠ 0
    have read := sslRead_read n s
    revert read
    generalize s.sslRead n = x
    rintro (_ | ⟨_, some⟩ | _ | _ | ⟨_, _, _, _, some⟩ | _) nothing failed <;> try simp at failed
    · exact absurd nothing (handOut_some positive some)
    · exact absurd nothing (handOut_some positive some)
    · exact (by decide : fromSslError 1 ≠ 0)
  sslRead_closed n s closed := by
    show (s.sslRead n).1.data = [] ∧ (s.sslRead n).1.error = .zeroReturn ∧ plainIntake.room (s.sslRead n).2 = _
    have closed : s.closed = true := closed
    unfold PlainRecords.sslRead
    rw [if_pos closed]
    exact ⟨rfl, rfl, rfl⟩

/-- A Buffer of one chunk. -/
def oneChunk (bytes : Bytes) (filled : bytes ≠ []) : Chunks := ⟨[bytes], by simpa using filled⟩

/-- A record and the close_notify, in one Buffer. -/
def farewell : Chunks := oneChunk (record applicationData [1, 2] ++ closeNotify) (by decide)

theorem farewell_short : ∀ b ∈ [farewell], ∀ c ∈ b.list, c.length < 2 ^ 31 := by decide

theorem returns_iff_farewell : (∃ n x, on PlainRecords.openSsl (writeAll n [farewell] {}) {} = .ok x) ∧
    ∀ n, ∀ e ∈ calls PlainRecords.openSsl (writeAll n [farewell] {}) {}, Taken plainIntake e.1 e.2 := by
  have returns : ∃ n x, on PlainRecords.openSsl (writeAll n [farewell] {}) {} = .ok x := ⟨3, _, rfl⟩
  have taken := ((returns_iff _ plainIntake plain_progresses [farewell] {} {}).2 farewell_short).mp returns
  exact ⟨(returns_iff _ plainIntake plain_progresses [farewell] {} {}).1 taken, taken⟩

/-- A byte more than the pair has room for. -/
def flood : Chunks := oneChunk (List.replicate (pairSize + 1) 0) (by simp)

/-- A peer that sends on behind its close_notify. -/
theorem flood_behind_close :
    ¬∃ n x, on PlainRecords.openSsl (writeAll n [oneChunk closeNotify (by decide), flood] {}) {} = .ok x := by
  rintro ⟨n, x, ran⟩
  obtain ⟨t, s, first, rest⟩ := on_bind_ok.mp ran
  obtain ⟨t', s', second, -⟩ := on_bind_ok.mp rest
  have known : on PlainRecords.openSsl (writeCipherTextData 3 (oneChunk closeNotify (by decide)) {}) {} =
      .ok ({ closed := true }, { closed := true }) := rfl
  have same := (writeCipherTextData_below (oneChunk closeNotify (by decide)) {} (Nat.le_max_left n 3)).run_ok first
  have same' := (writeCipherTextData_below (oneChunk closeNotify (by decide)) {} (Nat.le_max_right n 3)).run_ok known
  cases same.symm.trans same'
  refine never_returns plain_progresses ?_ rfl ?_ rfl n _ second
  · intro c member
    rw [List.mem_singleton.mp member, List.length_replicate]
    decide
  · simp [flood, oneChunk, Chunks.size, plainIntake]

end LibNekit.Guarantees.WriteReturns
