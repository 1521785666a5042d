import LibNekit.Guarantees.Socks5Greeting
import LibNekit.Source.DataFlow.Socks5Handshake
import LibNekit.Source.DataFlow.Socks5Request

/-!
# SOCKS5 request parsing under fragmentation

The verdict on the accumulated bytes is "more" on every proper prefix of a request
and the request itself on the whole of it, and a wrong byte among the first four is
seen as soon as ten bytes are there. So it does not matter where the bytes are cut.
-/
namespace LibNekit.Guarantees.Socks5Request

open LibNekit.Source LibNekit.Library LibNekit.Source.Buffer LibNekit.Source.Socks5Server
open LibNekit.Source.Socks5ServerDataFlow LibNekit.Source.Socks5Handshake
open LibNekit.Guarantees.Socks5Greeting

/-- The address type and the address. -/
def addressBytes : EndpointHost → Bytes
  | .addressV4 bytes => 1 :: bytes
  | .addressV6 bytes => 4 :: bytes
  | .host name => 3 :: UInt8.ofNat name.length :: name

/-- `05 01 00 atyp addr port` -/
def requestBytes (host : EndpointHost) (port : Nat) : Bytes :=
  [5, 1, 0] ++ addressBytes host ++ [UInt8.ofNat (port / 256), UInt8.ofNat (port % 256)]

/-- An address, or a domain of 3 to 121 bytes. -/
def Encodable : EndpointHost → Prop
  | .addressV4 bytes => bytes.length = 4
  | .addressV6 bytes => bytes.length = 16
  | .host name => 3 ≤ name.length ∧ name.length ≤ 121

/-- The error for the first wrong byte of version, command, reserved and address
type. -/
def firstError (bytes : Bytes) : Option Socks5ServerErrorCode :=
  if bytes.getD 0 0 ≠ 5 then some .unsupportedVersion
  else if bytes.getD 1 0 ≠ 1 then some .unsupportedCommand
  else if bytes.getD 2 0 ≠ 0 then some .illegalRequest
  else if bytes.getD 3 0 ∈ [1, 3, 4] then none
  else some .illegalRequest

/-- A flow that is about to read the request. -/
structure Fresh (flow : Socks5ServerDataFlow) : Prop where
  reading : flow.negotiationState = .readingRequest
  pending : flow.pendingAuth = []
  establishing : flow.stateMachine.state = .establishing

/-- The flow keeps reading on `chunks`, and tells the handler on `last`. -/
def Answers (flow : Socks5ServerDataFlow) (chunks : List Buffer) (last : Buffer)
    (done : Socks5ServerDataFlow) (result : OpenResult) : Prop :=
  ∃ waiting, KeepsReading flow chunks waiting ∧
    waiting.onNegotiateRead (some last) = .ok (done, .handler result)

/-! ## The verdict -/

variable {host : EndpointHost} {port : Nat} {pending rest : Bytes}

theorem getD_held {i : Nat} (inside : i < pending.length) :
    (pending ++ rest).getD i 0 = pending.getD i 0 := by
  rw [List.getD_eq_getElem?_getD, List.getD_eq_getElem?_getD, List.getElem?_append_left inside]

theorem toNat_ofNat_small {n : Nat} (small : n < 256) : (UInt8.ofNat n).toNat = n := by
  rw [UInt8.toNat_ofNat']
  omega

theorem length_requestBytes : (requestBytes host port).length = (addressBytes host).length + 5 := by
  simp [requestBytes]

theorem Encodable.length (encodable : Encodable host) :
    10 ≤ (requestBytes host port).length ∧ (requestBytes host port).length ≤ bufferSize := by
  rw [length_requestBytes]
  unfold bufferSize
  cases host <;> simp_all [Encodable, addressBytes]

/-- The port survives in the last two bytes. -/
theorem portAt_requestBytes (small : port < 65536) :
    portAt (requestBytes host port) ((addressBytes host).length + 3) = port := by
  have before : ([5, 1, 0] ++ addressBytes host : Bytes).length = (addressBytes host).length + 3 := by
    simp
  have high : (requestBytes host port).getD ((addressBytes host).length + 3) 0 =
      UInt8.ofNat (port / 256) := by
    rw [requestBytes, List.getD_eq_getElem?_getD, List.getElem?_append_right (by omega), before]
    simp
  have low : (requestBytes host port).getD ((addressBytes host).length + 3 + 1) 0 =
      UInt8.ofNat (port % 256) := by
    rw [requestBytes, List.getD_eq_getElem?_getD, List.getElem?_append_right (by omega), before]
    simp
  rw [portAt, high, low, toNat_ofNat_small (by omega), toNat_ofNat_small (by omega)]
  omega

/-- With ten bytes there, the verdict on part of a request is the one on its address. -/
theorem verdict_address (split : pending ++ rest = requestBytes host port) (enough : 10 ≤ pending.length) :
    verdict pending = addressVerdict pending ((requestBytes host port).getD 3 0) := by
  have byte : ∀ i, i < 10 → pending.getD i 0 = (requestBytes host port).getD i 0 := fun i inside => by
    rw [← split, getD_held (by omega)]
  unfold verdict
  rw [if_neg (by omega), byte 0 (by omega), byte 1 (by omega), byte 2 (by omega), byte 3 (by omega)]
  simp [requestBytes]

/-- What the verdict on part of a valid request depends on. -/
theorem verdict_eq (encodable : Encodable host) (small : port < 65536)
    (split : pending ++ rest = requestBytes host port) :
    verdict pending = if rest = [] then .request host port else .more := by
  have bound := @Encodable.length host port encodable
  have total := congrArg List.length split
  rw [List.length_append, length_requestBytes] at total
  have rest_nil : rest = [] ↔ rest.length = 0 := List.length_eq_zero_iff.symm
  by_cases short : pending.length < 10
  · rw [verdict, if_pos short, if_neg]
    rw [rest_nil]
    rw [length_requestBytes] at bound
    omega
  rw [verdict_address split (by omega)]
  have port_eq := @portAt_requestBytes host port small
  by_cases whole : rest = []
  · obtain rfl : pending = requestBytes host port := by rw [← split, whole, List.append_nil]
    rw [if_pos whole]
    cases host with
    | addressV4 bytes =>
      have length : bytes.length = 4 := encodable
      simp_all [requestBytes, addressBytes, addressVerdict, fixedVerdict]
    | addressV6 bytes =>
      have length : bytes.length = 16 := encodable
      simp_all [requestBytes, addressBytes, addressVerdict, fixedVerdict]
    | host name =>
      have length : name.length < 256 := by have := encodable.2; omega
      have count : (requestBytes (.host name) port).getD 4 0 = UInt8.ofNat name.length := rfl
      have bytes := @length_requestBytes (.host name) port
      have offset : (addressBytes (.host name)).length + 3 = 5 + name.length := by
        simp [addressBytes]
        omega
      rw [offset] at port_eq
      have type : (requestBytes (.host name) port).getD 3 0 = 3 := rfl
      rw [type, addressVerdict, if_neg (by decide), if_pos rfl, count, toNat_ofNat_small length]
      rw [if_neg (by omega), if_neg (by omega), port_eq]
      simp [requestBytes, addressBytes]
  · rw [if_neg whole]
    rw [rest_nil] at whole
    cases host with
    | addressV4 bytes =>
      have length : bytes.length = 4 := encodable
      simp [addressBytes] at total
      simp [requestBytes, addressBytes, addressVerdict, fixedVerdict]
      omega
    | addressV6 bytes =>
      have length : bytes.length = 16 := encodable
      simp [addressBytes] at total
      simp [requestBytes, addressBytes, addressVerdict, fixedVerdict]
      omega
    | host name =>
      have length : name.length < 256 := by have := encodable.2; omega
      have count : pending.getD 4 0 = UInt8.ofNat name.length := by
        rw [← @getD_held _ rest _ (by omega), split]
        rfl
      simp [addressBytes] at total
      simp only [requestBytes, addressBytes, addressVerdict]
      rw [count, toNat_ofNat_small length]
      simp
      omega

/-- A wrong byte is seen as soon as ten bytes are there. -/
theorem verdict_of_firstError {code : Socks5ServerErrorCode} (wrong : firstError pending = some code)
    (enough : 10 ≤ pending.length) : verdict pending = .error code := by
  unfold firstError at wrong
  unfold verdict addressVerdict
  rw [if_neg (by omega)]
  split at wrong
  · rename_i version
    cases wrong
    rw [if_pos version]
  rename_i version
  rw [if_neg version]
  split at wrong
  · rename_i command
    cases wrong
    rw [if_pos command]
  rename_i command
  rw [if_neg command]
  split at wrong
  · rename_i reserved
    cases wrong
    rw [if_pos reserved]
  rename_i reserved
  rw [if_neg reserved]
  split at wrong
  · cases wrong
  · rename_i type
    cases wrong
    simp only [List.mem_cons, List.not_mem_nil, or_false, not_or] at type
    rw [if_neg type.1, if_neg type.2.1, if_neg type.2.2]

theorem firstError_append (enough : 4 ≤ pending.length) :
    firstError (pending ++ rest) = firstError pending := by
  unfold firstError
  simp only [getD_held (show 0 < pending.length by omega), getD_held (show 1 < pending.length by omega),
    getD_held (show 2 < pending.length by omega), getD_held (show 3 < pending.length by omega)]

/-- The first byte of a port. -/
theorem port_high (high low : UInt8) : (high.toNat * 256 + low.toNat) / 256 = high.toNat := by
  have := low.toNat_lt
  omega

/-- A message is its first bytes, an address and two more bytes. -/
theorem split_message {start size : Nat} (length : pending.length = start + size + 2) :
    pending = pending.take start ++ (pending.drop start).take size ++
      [pending.getD (start + size) 0, pending.getD (start + size + 1) 0] := by
  have ends : pending.drop (start + size) =
      [pending.getD (start + size) 0, pending.getD (start + size + 1) 0] := by
    rw [List.drop_eq_getElem_cons (by omega), List.drop_eq_getElem_cons (by omega),
      List.drop_of_length_le (by omega)]
    simp [List.getD_eq_getElem?_getD, show start + size < pending.length by omega,
      show start + size + 1 < pending.length by omega]
  rw [← ends, List.append_assoc, ← List.drop_drop, List.take_append_drop, List.take_append_drop]

theorem take_four (enough : 4 ≤ pending.length) :
    pending.take 4 = [pending.getD 0 0, pending.getD 1 0, pending.getD 2 0, pending.getD 3 0] := by
  match pending, enough with
  | a :: b :: c :: d :: rest, _ => rfl

theorem take_five (enough : 5 ≤ pending.length) :
    pending.take 5 = [pending.getD 0 0, pending.getD 1 0, pending.getD 2 0, pending.getD 3 0,
      pending.getD 4 0] := by
  match pending, enough with
  | a :: b :: c :: d :: e :: rest, _ => rfl

/-- A request that is reported is spelled by all of the bytes and by nothing else. -/
theorem requestBytes_of_verdict (decided : verdict pending = .request host port) :
    requestBytes host port = pending := by
  unfold verdict addressVerdict fixedVerdict at decided
  split at decided
  · cases decided
  rename_i enough
  iterate 3
    split at decided
    · cases decided
  rename_i version command reserved
  rw [not_not] at version command reserved
  have four := @take_four pending (by omega)
  split at decided
  · rename_i type
    split at decided
    · cases decided
    cases decided
    conv_rhs => rw [@split_message pending 4 4 (by omega), four, version, command, reserved, type]
    simp only [requestBytes, addressBytes, portAt, port_high]
    simp
  split at decided
  · rename_i type
    dsimp only at decided
    split at decided
    · cases decided
    split at decided
    · cases decided
    cases decided
    conv_rhs => rw [@split_message pending 5 (pending.getD 4 0).toNat (by omega), take_five (by omega),
      version, command, reserved, type]
    have length : ((pending.drop 5).take (pending.getD 4 0).toNat).length =
        (pending.getD 4 0).toNat := by
      rw [List.length_take, List.length_drop]
      omega
    simp only [requestBytes, addressBytes, portAt, port_high, length]
    simp
  split at decided
  · rename_i type
    split at decided
    · cases decided
    split at decided
    · cases decided
    cases decided
    conv_rhs => rw [@split_message pending 4 16 (by omega), four, version, command, reserved, type]
    simp only [requestBytes, addressBytes, portAt, port_high]
    simp
  · cases decided

/-! ## Reading the pieces -/

variable {flow : Socks5ServerDataFlow} {chunk : Buffer}

/-- A flow that reads the request reacts to the verdict on what it has. -/
theorem onNegotiateRead_request (wf : chunk.WellFormed) (reading : flow.negotiationState = .readingRequest)
    (room : flow.pendingAuth.length + chunk.size ≤ bufferSize) :
    flow.onNegotiateRead (some chunk) =
      ({ flow with pendingAuth := flow.pendingAuth ++ chunk.content } : Socks5ServerDataFlow).react
        (verdict (flow.pendingAuth ++ chunk.content)) := by
  simp only [onNegotiateRead, if_neg (Nat.not_lt.mpr room), appendToAuthBuffer, boostAssert_of room,
    wf.walk_append, ok_bind, pure_eq_ok, reading]
  exact readRequest_eq

/-- On a proper prefix of a valid request the flow keeps reading. -/
theorem keepsReading_prefix (encodable : Encodable host) (small : port < 65536) (chunks : List Buffer)
    (delivered : ∀ b ∈ chunks, Delivered b) (proper : rest ≠ [])
    (reading : flow.negotiationState = .readingRequest)
    (split : flow.pendingAuth ++ chunks.flatMap content ++ rest = requestBytes host port) :
    KeepsReading flow chunks { flow with pendingAuth := flow.pendingAuth ++ chunks.flatMap content } := by
  induction chunks generalizing flow with
  | nil => simp [KeepsReading]
  | cons chunk chunks ih =>
    have first := (delivered chunk (by simp)).wf
    have bound := (@Encodable.length host port encodable).2
    have total := congrArg List.length split
    simp only [List.flatMap_cons, List.length_append, first.length_content] at total
    simp only [List.flatMap_cons, ← List.append_assoc] at split
    have split' : flow.pendingAuth ++ chunk.content ++ (chunks.flatMap content ++ rest) =
        requestBytes host port := by simpa only [List.append_assoc] using split
    refine ⟨{ flow with pendingAuth := flow.pendingAuth ++ chunk.content }, ?_, ?_⟩
    · rw [onNegotiateRead_request first reading (by omega), verdict_eq encodable small split',
        if_neg (by simp [proper])]
      rfl
    · have more := @ih { flow with pendingAuth := flow.pendingAuth ++ chunk.content }
        (fun b member => delivered b (by simp [member])) reading split
      simpa [List.append_assoc] using more

/-- The last piece of a valid request is answered with success. -/
theorem answers_valid (fresh : Fresh flow) (encodable : Encodable host) (small : port < 65536)
    (chunks : List Buffer) (last : Buffer) (delivered : ∀ b ∈ chunks ++ [last], Delivered b)
    (split : (chunks ++ [last]).flatMap content = requestBytes host port) :
    ∃ done, Answers flow chunks last done .success ∧ done.endpoint = some ⟨host, port⟩ := by
  have lastDelivered := delivered last (by simp)
  have nonempty : last.content ≠ [] := by
    rw [← List.length_pos_iff, lastDelivered.wf.length_content]
    exact lastDelivered.nonempty
  simp only [List.flatMap_append, List.flatMap_cons, List.flatMap_nil, List.append_nil] at split
  have bound := (@Encodable.length host port encodable).2
  have total := congrArg List.length split
  rw [List.length_append, lastDelivered.wf.length_content] at total
  have whole : flow.pendingAuth ++ chunks.flatMap content ++ last.content = requestBytes host port := by
    rw [fresh.pending]
    exact split
  have keeps := keepsReading_prefix encodable small chunks
    (fun b member => delivered b (by simp [member])) nonempty fresh.reading whole
  have answer := @onNegotiateRead_request
    { flow with pendingAuth := flow.pendingAuth ++ chunks.flatMap content } last lastDelivered.wf
    fresh.reading (by
      have := congrArg List.length whole
      simp only [List.length_append, lastDelivered.wf.length_content] at this ⊢
      omega)
  dsimp only at answer
  rw [whole, verdict_eq encodable small (List.append_nil _), if_pos rfl] at answer
  have connected : flow.stateMachine.connected =
      .ok { flow.stateMachine with state := .established } := by
    simp [FlowStateMachine.connected, fresh.establishing, boostAssert]
  rw [react, connected] at answer
  exact ⟨_, ⟨_, keeps, answer⟩, rfl⟩

/-- A malformed request is answered with its first error, by the piece that completes
ten bytes. -/
theorem answers_malformed {code : Socks5ServerErrorCode} (chunks : List Buffer)
    (delivered : ∀ b ∈ chunks, Delivered b) (reading : flow.negotiationState = .readingRequest)
    (short : flow.pendingAuth.length < 10)
    (enough : 10 ≤ (flow.pendingAuth ++ chunks.flatMap content).length)
    (fits : (flow.pendingAuth ++ chunks.flatMap content).length ≤ bufferSize)
    (wrong : firstError (flow.pendingAuth ++ chunks.flatMap content) = some code) :
    ∃ before last after done, chunks = before ++ last :: after ∧
      Answers flow before last done (.error code) := by
  induction chunks generalizing flow with
  | nil =>
    simp at enough
    omega
  | cons chunk chunks ih =>
    have first := (delivered chunk (by simp)).wf
    simp only [List.flatMap_cons, ← List.append_assoc] at enough fits wrong
    have length := first.length_content
    have total : (flow.pendingAuth ++ chunk.content).length ≤ bufferSize := by
      rw [List.length_append] at fits
      omega
    have answer := onNegotiateRead_request first reading
      (by rw [List.length_append, length] at total; exact total)
    by_cases reached : 10 ≤ (flow.pendingAuth ++ chunk.content).length
    · rw [firstError_append (by omega)] at wrong
      rw [verdict_of_firstError wrong reached] at answer
      exact ⟨[], chunk, chunks, _, rfl, flow, rfl, answer⟩
    · have more : verdict (flow.pendingAuth ++ chunk.content) = .more := by
        rw [verdict, if_pos (by omega)]
      rw [more] at answer
      obtain ⟨before, last, after, done, rfl, waiting, keeps, answered⟩ :=
        @ih { flow with pendingAuth := flow.pendingAuth ++ chunk.content }
          (fun b member => delivered b (by simp [member])) reading (by simp at reached ⊢; omega)
          enough fits wrong
      exact ⟨chunk :: before, last, after, done, rfl, waiting, ⟨_, answer, keeps⟩, answered⟩

/-! ## Every run -/

/-- The events of the negotiation. The Buffers may hold anything. -/
def Negotiation : Event → Prop
  | .callOpen | .nextOpened _ | .replyWritten _ | .read none => True
  | .read (some buffer) => buffer.WellFormed ∧ buffer.size < sizeRange
  | .callContinue | .responseWritten _ | .nextContinued _ => False

def negotiation (text : AddressText) : Machine Socks5Handshake Event Fault :=
  ⟨fun e h => h.Admits e ∧ Negotiation e, step text⟩

/-- The chunks since the last reply was written, put together. -/
def message (past : List Event) : Bytes :=
  past.foldl (fun held e =>
    match e with
    | .read (some buffer) => held ++ buffer.content
    | .replyWritten _ => []
    | _ => held) []

/-- While a message is being read, the pending bytes are its chunks; the request that
is reported is spelled by exactly these bytes. -/
structure Accumulated (past : List Event) (h : Socks5Handshake) : Prop where
  bound : h.flow.pendingAuth.length ≤ bufferSize
  reading : h.stage = .reading → h.flow.pendingAuth = message past
  opened : h.stage = .opened → h.flow.pendingAuth = message past ∧ ∃ host port,
    h.flow.endpoint = some ⟨host, port⟩ ∧ requestBytes host port = message past

/-- What carries `Accumulated` from step to step. -/
structure Negotiating (past : List Event) (h : Socks5Handshake) : Prop extends Accumulated past h where
  created : h.stage = .created → h.flow.stateMachine.state = .init
  early : h.stage = .created ∨ h.stage = .opening → h.flow.pendingAuth = message past
  replying : h.stage = .replying → h.flow.pendingAuth = []
  establishing : h.stage = .opening ∨ h.stage = .reading ∨ h.stage = .replying →
    h.flow.stateMachine.state = .establishing

theorem message_snoc (past : List Event) (e : Event) :
    message (past ++ [e]) =
      match e with
      | .read (some buffer) => message past ++ buffer.content
      | .replyWritten _ => []
      | _ => message past := by
  rw [message, List.foldl_append]
  rfl

/-! What each stage owes. -/

section Stages

variable {past : List Event} {flow : Socks5ServerDataFlow}

theorem negotiating_opening (bound : flow.pendingAuth.length ≤ bufferSize) (early : flow.pendingAuth = message past)
    (state : flow.stateMachine.state = .establishing) : Negotiating past ⟨flow, .opening⟩ :=
  ⟨⟨bound, nofun, nofun⟩, nofun, fun _ => early, nofun, fun _ => state⟩

theorem negotiating_reading (bound : flow.pendingAuth.length ≤ bufferSize) (held : flow.pendingAuth = message past)
    (state : flow.stateMachine.state = .establishing) : Negotiating past ⟨flow, .reading⟩ :=
  ⟨⟨bound, fun _ => held, nofun⟩, nofun, nofun, nofun, fun _ => state⟩

theorem negotiating_replying (empty : flow.pendingAuth = []) (state : flow.stateMachine.state = .establishing) :
    Negotiating past ⟨flow, .replying⟩ :=
  ⟨⟨empty ▸ Nat.zero_le _, nofun, nofun⟩, nofun, nofun, fun _ => empty, fun _ => state⟩

theorem negotiating_opened (bound : flow.pendingAuth.length ≤ bufferSize) (held : flow.pendingAuth = message past)
    (spelled : ∃ host port, flow.endpoint = some ⟨host, port⟩ ∧ requestBytes host port = message past) :
    Negotiating past ⟨flow, .opened⟩ :=
  ⟨⟨bound, nofun, fun _ => ⟨held, spelled⟩⟩, nofun, nofun, nofun, nofun⟩

theorem negotiating_failed (bound : flow.pendingAuth.length ≤ bufferSize) : Negotiating past ⟨flow, .failed⟩ :=
  ⟨⟨bound, nofun, nofun⟩, nofun, nofun, nofun, nofun⟩

end Stages

/-- The reply fits its Buffer or the assertion on the Buffer's size fails. -/
theorem methodReply_cases (wf : chunk.WellFormed) (fits : chunk.size < sizeRange) :
    (chunk.shrinkBack (sizeSub chunk.size 2) = .error .assertion ∧ methodReply chunk = .error .assertion) ∨
      ∃ reply, methodReply chunk = .ok reply := by
  by_cases short : chunk.size < 3
  · have refused := shrinkBack_short short
    exact Or.inl ⟨refused, methodReply_short short⟩
  · obtain ⟨c, here⟩ := wf.at (by omega : 1 < chunk.size)
    obtain ⟨reply, built, -⟩ := methodReply_content ⟨wf, by omega, fits⟩ (by omega) here
    exact Or.inr ⟨reply, built⟩

/-- Bytes that pass the tests of `ReadingVersion` are a greeting. -/
theorem greeting_of_accepted {bytes : Bytes} (enough : ¬bytes.length < 3) (bound : bytes.length ≤ bufferSize)
    (version : ¬bytes.getD 0 0 ≠ 5) (short : ¬bytes.length < (bytes.getD 1 0).toNat + 2)
    (long : ¬(bytes.getD 1 0).toNat + 2 < bytes.length)
    (noAuth : ¬¬(0 ∈ (bytes.drop 2).take (bytes.getD 1 0).toNat)) : Greeting bytes (bytes.drop 2) := by
  obtain ⟨first, rest, rfl⟩ := List.exists_cons_of_length_pos (show 0 < bytes.length by omega)
  obtain ⟨count, methods, rfl⟩ := List.exists_cons_of_length_pos
    (show 0 < rest.length by rw [List.length_cons] at enough; omega)
  simp only [List.length_cons, List.getD_cons_zero, List.getD_cons_succ, List.drop_succ_cons,
    List.drop_zero, not_not, bufferSize] at enough bound version short long noAuth ⊢
  have counted : methods.length = count.toNat := by omega
  refine ⟨?_, by omega, by omega, List.mem_of_mem_take noAuth⟩
  rw [counted, UInt8.ofNat_toNat, version]

/-- What the greeting can lead to. -/
theorem readVersion_cases (bound : flow.pendingAuth.length ≤ bufferSize) (wf : chunk.WellFormed)
    (fits : chunk.size < sizeRange) :
    ((∃ methods, Greeting flow.pendingAuth methods) ∧
        chunk.shrinkBack (sizeSub chunk.size 2) = .error .assertion ∧
        flow.readVersion chunk = .error .assertion) ∨
      flow.readVersion chunk = .ok (flow, .negotiateRead) ∨
      (∃ code, flow.readVersion chunk = .ok (flow.fail code)) ∨
      ∃ reply, flow.readVersion chunk = .ok ({ flow with pendingAuth := [] }, .write reply) := by
  unfold readVersion
  by_cases short : flow.pendingAuth.length < 3
  · rw [if_pos short]
    exact Or.inr (Or.inl rfl)
  rw [if_neg short, pendingAt_eq (by omega), ok_bind]
  split
  · exact Or.inr (Or.inr (Or.inl ⟨_, rfl⟩))
  rename_i version
  rw [pendingAt_eq (by omega), ok_bind]
  dsimp only
  split
  · exact Or.inr (Or.inl rfl)
  rename_i missing
  split
  · exact Or.inr (Or.inr (Or.inl ⟨_, rfl⟩))
  rename_i extra
  split
  · exact Or.inr (Or.inr (Or.inl ⟨_, rfl⟩))
  rename_i noAuth
  have greeting := greeting_of_accepted short bound version missing extra noAuth
  rcases methodReply_cases wf fits with ⟨refused, failed⟩ | ⟨reply, built⟩
  · rw [failed]
    exact Or.inl ⟨⟨_, greeting⟩, refused, rfl⟩
  · rw [built]
    exact Or.inr (Or.inr (Or.inr ⟨reply, rfl⟩))

/-- The one failure of a negotiation: the chunk completes a greeting, and the reply to
it cannot be cut out of that chunk. -/
structure ReplyFails (h : Socks5Handshake) (chunk : Buffer) : Prop where
  reading : h.stage = .reading
  version : h.flow.negotiationState = .readingVersion
  room : h.flow.pendingAuth.length + chunk.size ≤ bufferSize
  greeting : ∃ methods, Greeting (h.flow.pendingAuth ++ chunk.content) methods
  shrink : chunk.shrinkBack (sizeSub chunk.size 2) = .error .assertion

/-- The read of a chunk, as a step of the negotiation. -/
theorem negotiating_read {past : List Event} {h : Socks5Handshake} (held : Negotiating past h)
    (reading : h.stage = .reading) (wf : chunk.WellFormed) (fits : chunk.size < sizeRange) :
    (h.flow.onNegotiateRead (some chunk) = .error .assertion ∧ ReplyFails h chunk) ∨
      ∃ flow effect, h.flow.onNegotiateRead (some chunk) = .ok (flow, effect) ∧
        Negotiating (past ++ [.read (some chunk)]) ⟨flow, .after effect⟩ := by
  have pending := held.reading reading
  have establishing := held.establishing (Or.inr (Or.inl reading))
  by_cases room : h.flow.pendingAuth.length + chunk.size ≤ bufferSize
  · have length : (h.flow.pendingAuth ++ chunk.content).length ≤ bufferSize := by
      rw [List.length_append, wf.length_content]
      exact room
    have grown : h.flow.pendingAuth ++ chunk.content = message (past ++ [.read (some chunk)]) := by
      rw [message_snoc, pending]
    cases negotiation : h.flow.negotiationState with
    | readingVersion =>
      rw [onNegotiateRead_appends wf negotiation room]
      rcases @readVersion_cases { h.flow with pendingAuth := h.flow.pendingAuth ++ chunk.content } chunk
        length wf fits with ⟨greeting, refused, failed⟩ | more | ⟨code, wrong⟩ | ⟨reply, replied⟩
      · exact Or.inl ⟨failed, reading, negotiation, room, greeting, refused⟩
      · exact Or.inr ⟨_, _, more, negotiating_reading length grown establishing⟩
      · exact Or.inr ⟨_, _, wrong, negotiating_failed length⟩
      · exact Or.inr ⟨_, _, replied, negotiating_replying rfl establishing⟩
    | readingRequest =>
      rw [onNegotiateRead_request wf negotiation room]
      cases decided : verdict (h.flow.pendingAuth ++ chunk.content) with
      | more => exact Or.inr ⟨_, _, rfl, negotiating_reading length grown establishing⟩
      | error code => exact Or.inr ⟨_, _, rfl, negotiating_failed length⟩
      | request host port =>
        have connected : h.flow.stateMachine.connected =
            .ok { h.flow.stateMachine with state := .established } := by
          simp [FlowStateMachine.connected, establishing, boostAssert]
        have spelled := (requestBytes_of_verdict decided).trans grown
        rw [react, connected]
        exact Or.inr ⟨_, _, rfl, negotiating_opened length grown ⟨host, port, rfl, spelled⟩⟩
  · have refused : h.flow.onNegotiateRead (some chunk) = .ok (h.flow.fail .illegalRequest) := by
      rw [onNegotiateRead, if_pos (by omega)]
    exact Or.inr ⟨_, _, refused, negotiating_failed held.bound⟩

theorem negotiating_step (text : AddressText) (past : List Event) (e : Event) (h : Socks5Handshake)
    (held : Negotiating past h) (admits : (negotiation text).admits e h) :
    (∃ fault, (negotiation text).step e h = .error fault ∧
        fault = .assertion ∧ ∃ chunk, e = .read (some chunk) ∧ ReplyFails h chunk) ∨
      ∃ h', (negotiation text).step e h = .ok h' ∧ Negotiating (past ++ [e]) h' := by
  obtain ⟨admits, event⟩ := admits
  cases e with
  | callOpen =>
    have created : h.stage = .created := admits
    have begun : h.flow.stateMachine.connectBegin =
        .ok { h.flow.stateMachine with state := .establishing } := by
      simp [FlowStateMachine.connectBegin, held.created created, boostAssert]
    have pending := held.early (Or.inl created)
    refine Or.inr ⟨{ flow := { h.flow with stateMachine :=
      { h.flow.stateMachine with state := .establishing } }, stage := .opening }, ?_, ?_⟩
    · simp only [negotiation, step, callOpen, begun, ok_bind, pure_eq_ok]
    · refine negotiating_opening held.bound ?_ rfl
      rw [message_snoc]
      exact pending
  | nextOpened success =>
    have opening : h.stage = .opening := admits
    have pending := held.early (Or.inr opening)
    have establishing := held.establishing (Or.inl opening)
    cases success with
    | false => exact Or.inr ⟨_, rfl, negotiating_failed held.bound⟩
    | true =>
      have same : h.flow.pendingAuth = message (past ++ [.nextOpened true]) := by
        rw [message_snoc]
        exact pending
      exact Or.inr ⟨_, rfl, negotiating_reading held.bound same establishing⟩
  | read buffer =>
    cases buffer with
    | none => exact Or.inr ⟨_, rfl, negotiating_failed held.bound⟩
    | some chunk =>
      rcases negotiating_read held admits event.1 event.2 with ⟨failed, replyFails⟩ | ⟨flow, effect, read, more⟩
      · refine Or.inl ⟨.assertion, ?_, rfl, chunk, rfl, replyFails⟩
        simp only [negotiation, step, failed, error_bind]
      · refine Or.inr ⟨⟨flow, .after effect⟩, ?_, more⟩
        simp only [negotiation, step, read, ok_bind, pure_eq_ok]
  | replyWritten success =>
    have replying : h.stage = .replying := admits
    have pending := held.replying replying
    have establishing := held.establishing (Or.inr (Or.inr replying))
    cases success with
    | false => exact Or.inr ⟨_, rfl, negotiating_failed held.bound⟩
    | true =>
      have same : h.flow.pendingAuth = message (past ++ [.replyWritten true]) := by
        rw [message_snoc]
        exact pending
      exact Or.inr ⟨_, rfl, negotiating_reading held.bound same establishing⟩
  | callContinue => exact event.elim
  | responseWritten success => exact event.elim
  | nextContinued success => exact event.elim

/-- Whatever arrives, the pending bytes are the message so far, up to the chunk in which
the reply to the greeting fails its assertion. -/
theorem accumulates (text : AddressText) (events : List Event)
    (admitted : (negotiation text).Admitted events init) :
    (∃ before chunk after h, events = before ++ .read (some chunk) :: after ∧
        (negotiation text).run before init = .ok h ∧ Accumulated before h ∧ ReplyFails h chunk ∧
        (negotiation text).run events init = .error .assertion) ∨
      ∃ h, (negotiation text).run events init = .ok h ∧ Accumulated events h := by
  have initially : Negotiating [] init :=
    ⟨⟨Nat.zero_le _, fun _ => rfl, nofun⟩, fun _ => rfl, fun _ => rfl, fun _ => rfl, by decide⟩
  rcases Machine.run_history_cut (negotiating_step text) events [] init initially admitted with
    ⟨before, e, after, h, fault, cut, ran, held, ⟨rfl, chunk, rfl, replyFails⟩, failed⟩ | ⟨h, ran, held⟩
  · exact Or.inl ⟨before, chunk, after, h, cut, ran, held.toAccumulated, replyFails, failed⟩
  · exact Or.inr ⟨h, ran, held.toAccumulated⟩

/-- However a request is cut, a valid one is reported by its last piece with its address
and port, a malformed one by the piece that completes ten bytes with its first error,
and nothing but the pieces of the message is ever read, up to the end of the run or the
reply to the greeting that fails. -/
theorem request_ignores_fragmentation (text : AddressText) :
    (∀ flow host port chunks last, Fresh flow → Encodable host → port < 65536 →
      (∀ b ∈ chunks ++ [last], Delivered b) →
      (chunks ++ [last]).flatMap content = requestBytes host port →
      ∃ done, Answers flow chunks last done .success ∧ done.endpoint = some ⟨host, port⟩) ∧
    (∀ flow chunks code, Fresh flow → (∀ b ∈ chunks, Delivered b) →
      10 ≤ (chunks.flatMap content).length → (chunks.flatMap content).length ≤ bufferSize →
      firstError (chunks.flatMap content) = some code →
      ∃ before last after done, chunks = before ++ last :: after ∧
        Answers flow before last done (.error code)) ∧
    ∀ events, (negotiation text).Admitted events init →
      (∃ before chunk after h, events = before ++ .read (some chunk) :: after ∧
          (negotiation text).run before init = .ok h ∧ Accumulated before h ∧ ReplyFails h chunk ∧
          (negotiation text).run events init = .error .assertion) ∨
        ∃ h, (negotiation text).run events init = .ok h ∧ Accumulated events h := by
  refine ⟨?_, ?_, accumulates text⟩
  · intro flow host port chunks last fresh encodable small delivered split
    exact answers_valid fresh encodable small chunks last delivered split
  · intro flow chunks code fresh delivered enough fits wrong
    have whole : flow.pendingAuth ++ chunks.flatMap content = chunks.flatMap content := by
      rw [fresh.pending, List.nil_append]
    exact answers_malformed chunks delivered fresh.reading (by simp [fresh.pending])
      (by rwa [whole]) (by rwa [whole]) (by rwa [whole])

/-- A flow that has answered its greeting. -/
def freshFlow : Socks5ServerDataFlow :=
  { stateMachine := { type := .local, state := .establishing }, negotiationState := .readingRequest }

def pieceOf (addr : Nat) (bytes : Bytes) : Buffer := ⟨[⟨addr, bytes, 0, bytes.length⟩], some addr, bytes.length⟩

theorem pieceOf_delivered (addr : Nat) (bytes : Bytes) (nonempty : 0 < bytes.length)
    (fits : bytes.length < sizeRange) : Delivered (pieceOf addr bytes) :=
  ⟨⟨by simpa [pieceOf] using ⟨nonempty, by simp [Buf.capacity]⟩, by simp [pieceOf, addrs],
    by simp [pieceOf], rfl⟩, nonempty, fits⟩

/-- The greeting's two pieces, the second of one byte. -/
def greetingEvents : List Event :=
  [.callOpen, .nextOpened true, .read (some (pieceOf 0 [5, 1])), .read (some (pieceOf 1 [0]))]

/-- A request for 127.0.0.1:80 in two pieces, one for BIND, and the run of a greeting whose
last piece has one byte. -/
theorem request_ignores_fragmentation_pieces (text : AddressText) :
    (∃ done, Answers freshFlow [pieceOf 0 [5, 1, 0, 1, 127, 0]] (pieceOf 1 [0, 1, 0, 80]) done
      .success ∧ done.endpoint = some ⟨.addressV4 [127, 0, 0, 1], 80⟩) ∧
    (∃ before last after done, [pieceOf 0 [5, 2, 0, 1, 127, 0], pieceOf 1 [0, 1, 0, 80]] =
      before ++ last :: after ∧ Answers freshFlow before last done (.error .unsupportedCommand)) ∧
    ((∃ before chunk after h, greetingEvents = before ++ .read (some chunk) :: after ∧
        (negotiation text).run before init = .ok h ∧ Accumulated before h ∧ ReplyFails h chunk ∧
        (negotiation text).run greetingEvents init = .error .assertion) ∨
      ∃ h, (negotiation text).run greetingEvents init = .ok h ∧ Accumulated greetingEvents h) := by
  obtain ⟨valid, malformed, runs⟩ := request_ignores_fragmentation text
  have fresh : Fresh freshFlow := ⟨rfl, rfl, rfl⟩
  refine ⟨?_, ?_, ?_⟩
  · exact valid freshFlow (.addressV4 [127, 0, 0, 1]) 80 [pieceOf 0 [5, 1, 0, 1, 127, 0]]
      (pieceOf 1 [0, 1, 0, 80]) fresh rfl (by decide)
      (by
        intro b member
        simp only [List.cons_append, List.nil_append, List.mem_cons, List.not_mem_nil, or_false] at member
        rcases member with rfl | rfl
        · exact pieceOf_delivered _ _ (by decide) (by decide)
        · exact pieceOf_delivered _ _ (by decide) (by decide)) (by decide)
  · exact malformed freshFlow [pieceOf 0 [5, 2, 0, 1, 127, 0], pieceOf 1 [0, 1, 0, 80]]
      .unsupportedCommand fresh
      (by
        intro b member
        simp only [List.mem_cons, List.not_mem_nil, or_false] at member
        rcases member with rfl | rfl
        · exact pieceOf_delivered _ _ (by decide) (by decide)
        · exact pieceOf_delivered _ _ (by decide) (by decide)) (by decide) (by decide) (by decide)
  · refine runs _ ⟨⟨rfl, trivial⟩, fun h opened => ?_⟩
    cases opened
    refine ⟨⟨rfl, trivial⟩, fun h opened => ?_⟩
    cases opened
    have first := (pieceOf_delivered 0 [5, 1] (by decide) (by decide)).wf
    refine ⟨⟨rfl, first, by decide⟩, fun h read => ?_⟩
    cases read
    have second := (pieceOf_delivered 1 [0] (by decide) (by decide)).wf
    exact ⟨⟨rfl, second, by decide⟩, fun h read => trivial⟩

end LibNekit.Guarantees.Socks5Request
