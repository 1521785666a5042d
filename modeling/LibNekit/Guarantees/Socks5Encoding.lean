import LibNekit.Guarantees.Socks5HandshakeStates
import LibNekit.Guarantees.Socks5Request
import LibNekit.Source.Buffer.Straight
import LibNekit.Source.DataFlow.Socks5DataFlow

/-!
# The SOCKS5 request, encoded and decoded

`DoNegotiation` writes the bytes of the request for every target. The server flow
reads them back when there are between ten bytes, which it waits for, and 128, which
is all it keeps: for a domain, when its length is from 3 to 121.
-/
namespace LibNekit.Guarantees.Socks5Encoding

open LibNekit.Source LibNekit.Source.Buffer LibNekit.Source.Socks5Server
open LibNekit.Source.Socks5ServerDataFlow LibNekit.Source.Socks5DataFlow
open LibNekit.Guarantees.Socks5Greeting LibNekit.Guarantees.Socks5Request
open LibNekit.Guarantees.Socks5HandshakeStates

/-- An address, or a domain name that is not an IP literal. -/
def Target (text : AddressText) (e : Endpoint) : Prop :=
  e.port < 65536 ∧
    match e.type with
    | .domain => 1 ≤ e.domain.length ∧ text.fromString e.domain = none
    | .address => ∃ bytes, (e.address = some (.v4 bytes) ∧ bytes.length = 4) ∨
        (e.address = some (.v6 bytes) ∧ bytes.length = 16)

/-- The same kind, the same host or address, and the same port. -/
def SameTarget (a b : Endpoint) : Prop :=
  a.type = b.type ∧ a.port = b.port ∧
    match a.type with
    | .domain => a.domain = b.domain
    | .address => a.address = b.address

/-- The method reply `05 00` in chunks as a socket fills them. -/
structure MethodReply (next : Nat) (reply : Buffer) : Prop where
  wf : reply.WellFormed
  straight : reply.Straight
  below : reply.Below next
  content : reply.content = [5, 0]

/-- The bytes of the request are read back as the target it was made for. -/
def ReadsBack (text : AddressText) (target : Endpoint) (server : Socks5ServerDataFlow)
    (chunks : List Buffer) (last : Buffer) : Prop :=
  ∃ done, Answers server chunks last done .success ∧
    ∃ endpoint, done.endpoint = some endpoint ∧ SameTarget (endpoint.build text) target

/-- A domain of 3 to 121 bytes, or any address. -/
def FitsServer (target : Endpoint) : Prop :=
  target.type = .domain → 3 ≤ target.domain.length ∧ target.domain.length ≤ 121

/-- The host that the request names. -/
def hostOf (e : Endpoint) : EndpointHost :=
  match e.type, e.address with
  | .address, some (.v4 bytes) => .addressV4 bytes
  | .address, some (.v6 bytes) => .addressV6 bytes
  | _, _ => .host e.domain

/-! ## Building the request -/

variable {b : Buffer} {bytes : Bytes} {next : Nat}

/-- The bytes after the type and the address were put behind the first two bytes and
`gap`. -/
theorem set_address {gap address : Bytes} {type : UInt8} (length : gap.length = 1 + 1 + address.length + 2) :
    ∃ tail : Bytes, tail.length = 2 ∧ (([5, 1] ++ gap).set 3 type).take 4 ++ address ++
      (([5, 1] ++ gap).set 3 type).drop (4 + address.length) =
        [5, 1, gap.getD 0 0, type] ++ address ++ tail := by
  match gap, length with
  | first :: second :: rest, length =>
    refine ⟨rest.drop address.length, ?_, ?_⟩
    · simp at length ⊢
      omega
    · simp [Nat.add_comm 4]

theorem set_domain {gap name : Bytes} {length : UInt8} (size : gap.length = 1 + 1 + 1 + name.length + 2) :
    ∃ tail : Bytes, tail.length = 2 ∧ ((([5, 1] ++ gap).set 3 3).set 4 length).take 5 ++ name ++
      ((([5, 1] ++ gap).set 3 3).set 4 length).drop (5 + name.length) =
        [5, 1, gap.getD 0 0, 3] ++ (length :: name) ++ tail := by
  match gap, size with
  | [_, _], size => simp at size
  | first :: second :: third :: rest, size =>
    refine ⟨rest.drop name.length, ?_, ?_⟩
    · simp at size ⊢
      omega
    · simp [Nat.add_comm 5]

/-- `addressPart` puts type and address behind the third byte. -/
theorem addressPart_eq {text : AddressText} {target : Endpoint} (valid : Target text target)
    (built : Built b [5, 1]) (below : b.Below next) :
    ∃ b' third tail, addressPart next target b = .ok ((addressBytes (hostOf target)).length + 3, b') ∧
      tail.length = 2 ∧ Built b' ([5, 1, third] ++ addressBytes (hostOf target) ++ tail) := by
  obtain ⟨-, kind⟩ := valid
  unfold addressPart
  cases type : target.type with
  | domain =>
    have host : hostOf target = .host target.domain := by rw [hostOf, type]
    rw [type] at kind
    obtain ⟨next', b₁, gap, grown, size, built₁⟩ :=
      built.insertBackSize below (1 + 1 + 1 + target.domain.length + 2)
    obtain ⟨b₂, typed, built₂⟩ := built₁.setIndex (by simp; omega : 3 < _) 3
    obtain ⟨b₃, counted, built₃⟩ :=
      built₂.setIndex (by simp; omega : 4 < _) (UInt8.ofNat target.domain.length)
    obtain ⟨b₄, named, built₄⟩ := @Built.setData _ _ built₃ 5 target.domain
      (by simp; omega) (by simp; omega)
    obtain ⟨tail, tailLength, same⟩ := @set_domain gap target.domain (UInt8.ofNat target.domain.length) size
    refine ⟨b₄, gap.getD 0 0, tail, ?_, tailLength, ?_⟩
    · simp only [grown, typed, counted, named, ok_bind, pure_eq_ok, host, addressBytes, List.length_cons]
      congr 2
      omega
    · rw [same] at built₄
      simpa [host, addressBytes] using built₄
  | address =>
    rw [type] at kind
    obtain ⟨address, (⟨v4, length⟩ | ⟨v6, length⟩)⟩ := kind
    · have host : hostOf target = .addressV4 address := by rw [hostOf, type, v4]
      obtain ⟨next', b₁, gap, grown, size, built₁⟩ := built.insertBackSize below (1 + 1 + 4 + 2)
      obtain ⟨b₂, typed, built₂⟩ := built₁.setIndex (by simp; omega : 3 < _) 1
      obtain ⟨b₃, named, built₃⟩ := @Built.setData _ _ built₂ 4 address (by simp; omega) (by simp; omega)
      obtain ⟨tail, tailLength, same⟩ := @set_address gap address 1 (by rw [size, length])
      refine ⟨b₃, gap.getD 0 0, tail, ?_, tailLength, ?_⟩
      · simp only [v4, deref_some, grown, typed, named, ok_bind, pure_eq_ok, host, addressBytes,
          List.length_cons, length]
      · rw [same] at built₃
        simpa [host, addressBytes] using built₃
    · have host : hostOf target = .addressV6 address := by rw [hostOf, type, v6]
      obtain ⟨next', b₁, gap, grown, size, built₁⟩ := built.insertBackSize below (1 + 1 + 16 + 2)
      obtain ⟨b₂, typed, built₂⟩ := built₁.setIndex (by simp; omega : 3 < _) 4
      obtain ⟨b₃, named, built₃⟩ := @Built.setData _ _ built₂ 4 address (by simp; omega) (by simp; omega)
      obtain ⟨tail, tailLength, same⟩ := @set_address gap address 4 (by rw [size, length])
      refine ⟨b₃, gap.getD 0 0, tail, ?_, tailLength, ?_⟩
      · simp only [v6, deref_some, grown, typed, named, ok_bind, pure_eq_ok, host, addressBytes,
          List.length_cons, length]
      · rw [same] at built₃
        simpa [host, addressBytes] using built₃

/-- `DoNegotiation` writes the request for its target. -/
theorem request_eq {text : AddressText} {target : Endpoint} (valid : Target text target)
    {reply : Buffer} (method : MethodReply next reply) :
    ∃ buffer, request next target reply = .ok buffer ∧
      Built buffer (requestBytes (hostOf target) target.port) := by
  have started : Built reply [5, 0] := ⟨method.wf, method.straight, method.content⟩
  obtain ⟨b₁, ran₁, wf, straight, addrs, -, content⟩ :=
    method.straight.setIndex_eq method.wf (by rw [started.size_eq]; decide : 1 < reply.size) 1
  have connect : Built b₁ [5, 1] := ⟨wf, straight, by rw [content, method.content]; rfl⟩
  have below : b₁.Below next := by
    intro a member
    rw [addrs] at member
    exact method.below a member
  obtain ⟨b₂, third, tail, ran₂, tailLength, built₂⟩ := addressPart_eq valid connect below
  obtain ⟨b₃, ran₃, built₃⟩ := built₂.setIndex (by simp : 2 < _) 0
  have reserved : ([5, 1, third] ++ addressBytes (hostOf target) ++ tail).set 2 0 =
      [5, 1, 0] ++ addressBytes (hostOf target) ++ tail := by simp
  rw [reserved] at built₃
  obtain ⟨b₄, ran₄, built₄⟩ := @Built.setData _ _ built₃ ((addressBytes (hostOf target)).length + 3)
    [UInt8.ofNat (target.port / 256), UInt8.ofNat (target.port % 256)] (by simp; omega) (by simp; omega)
  refine ⟨b₄, ?_, ?_⟩
  · simp only [request, ran₁, ran₂, ran₃, ran₄, ok_bind]
  · have front : ([5, 1, 0] ++ addressBytes (hostOf target) : Bytes).length =
        (addressBytes (hostOf target)).length + 3 := by simp
    rw [← front, List.take_left, List.drop_of_length_le (by simp [tailLength]), List.append_nil] at built₄
    exact built₄

/-! ## Reading it back -/

variable {flow done : Socks5ServerDataFlow} {chunks : List Buffer} {last : Buffer}

/-- A chunk that is accepted while the request is read stays within the limit. -/
theorem accepted_request {effect : Effect} {chunk : Buffer} (wf : chunk.WellFormed)
    (reading : flow.negotiationState = .readingRequest)
    (read : flow.onNegotiateRead (some chunk) = .ok (done, effect))
    (expected : effect = .negotiateRead ∨ effect = .handler .success) :
    (flow.pendingAuth ++ chunk.content).length ≤ bufferSize ∧
      ({ flow with pendingAuth := flow.pendingAuth ++ chunk.content } : Socks5ServerDataFlow).react
        (verdict (flow.pendingAuth ++ chunk.content)) = .ok (done, effect) := by
  by_cases room : flow.pendingAuth.length + chunk.size ≤ bufferSize
  · rw [onNegotiateRead_request wf reading room] at read
    refine ⟨?_, read⟩
    rwa [List.length_append, wf.length_content]
  · rw [onNegotiateRead, if_pos (by omega)] at read
    cases read
    rcases expected with wrong | wrong <;> cases wrong

theorem keepsReading_request (wf : ∀ c ∈ chunks, c.WellFormed)
    (reading : flow.negotiationState = .readingRequest) (keeps : KeepsReading flow chunks done) :
    done = { flow with pendingAuth := flow.pendingAuth ++ chunks.flatMap content } := by
  induction chunks generalizing flow with
  | nil =>
    obtain rfl : done = flow := keeps
    simp
  | cons chunk chunks ih =>
    obtain ⟨next, read, keeps⟩ := keeps
    obtain ⟨-, reacted⟩ := accepted_request (wf chunk (by simp)) reading read (Or.inl rfl)
    have same : next = { flow with pendingAuth := flow.pendingAuth ++ chunk.content } := by
      generalize verdict (flow.pendingAuth ++ chunk.content) = decided at reacted
      cases decided with
      | more =>
        cases reacted
        rfl
      | error code => cases reacted
      | request host port =>
        obtain ⟨stateMachine, -, reacted⟩ := bind_eq_ok.mp reacted
        cases reacted
    subst same
    have more := @ih { flow with pendingAuth := flow.pendingAuth ++ chunk.content }
      (fun c member => wf c (by simp [member])) reading keeps
    simpa [List.append_assoc] using more

/-- What success says about the bytes. -/
theorem answers_success (fresh : Fresh flow) (wf : ∀ c ∈ chunks ++ [last], c.WellFormed)
    (answers : Answers flow chunks last done .success) :
    10 ≤ ((chunks ++ [last]).flatMap content).length ∧
      ((chunks ++ [last]).flatMap content).length ≤ bufferSize := by
  obtain ⟨waiting, keeps, answered⟩ := answers
  have same := keepsReading_request (fun c member => wf c (by simp [member])) fresh.reading keeps
  subst same
  obtain ⟨room, reacted⟩ := @accepted_request
    { flow with pendingAuth := flow.pendingAuth ++ chunks.flatMap content } done _ last (wf last (by simp))
    fresh.reading answered (Or.inr rfl)
  dsimp only at room reacted
  have whole : flow.pendingAuth ++ chunks.flatMap content ++ last.content =
      (chunks ++ [last]).flatMap content := by simp [fresh.pending]
  rw [whole] at room reacted
  refine ⟨?_, room⟩
  by_contra short
  rw [verdict, if_pos (by omega)] at reacted
  cases reacted

/-- A request for a target that fits is read back. -/
theorem readsBack_of_fits {text : AddressText} {target : Endpoint} (valid : Target text target)
    (fits : FitsServer target) (fresh : Fresh flow) (delivered : ∀ c ∈ chunks ++ [last], Delivered c)
    (split : (chunks ++ [last]).flatMap content = requestBytes (hostOf target) target.port) :
    ReadsBack text target flow chunks last := by
  obtain ⟨small, kind⟩ := valid
  have encodable : Encodable (hostOf target) := by
    cases type : target.type with
    | domain =>
      rw [hostOf, type]
      exact fits type
    | address =>
      rw [type] at kind
      obtain ⟨address, (⟨v4, length⟩ | ⟨v6, length⟩)⟩ := kind
      · rw [hostOf, type, v4]
        exact length
      · rw [hostOf, type, v6]
        exact length
  obtain ⟨done, answers, endpoint⟩ := answers_valid fresh encodable small chunks last delivered split
  refine ⟨done, answers, _, endpoint, ?_⟩
  cases type : target.type with
  | domain =>
    rw [type] at kind
    simp [hostOf, type, SessionEndpoint.build, Endpoint.ofHost, kind.2, SameTarget]
  | address =>
    rw [type] at kind
    obtain ⟨address, (⟨v4, length⟩ | ⟨v6, length⟩)⟩ := kind
    · simp [hostOf, type, v4, SessionEndpoint.build, Endpoint.ofAddress, SameTarget]
    · simp [hostOf, type, v6, SessionEndpoint.build, Endpoint.ofAddress, SameTarget]

/-- For every target, every chunking of the method reply and every cut of the request:
it is read back exactly when it fits the server's limits. -/
theorem request_reads_back_iff (text : AddressText) (next : Nat) (client : Socks5DataFlow) (reply : Buffer)
    (stage : client.stage = .posted .method reply) (valid : Target text client.targetEndpoint)
    (method : MethodReply next reply) (server : Socks5ServerDataFlow) (fresh : Fresh server) :
    ∃ buffer, client.step (.runTask next) = .ok { client with stage := .requesting buffer } ∧
      ∀ chunks last, (∀ c ∈ chunks ++ [last], Delivered c) →
        (chunks ++ [last]).flatMap content = buffer.content →
        (ReadsBack text client.targetEndpoint server chunks last ↔ FitsServer client.targetEndpoint) := by
  obtain ⟨buffer, built, holds⟩ := request_eq valid method
  refine ⟨buffer, ?_, fun chunks last delivered split => ⟨?_, ?_⟩⟩
  · have started : Built reply [5, 0] := ⟨method.wf, method.straight, method.content⟩
    have version := method.straight.index_eq method.wf (by rw [started.size_eq]; decide : 0 < reply.size)
    have chosen := method.straight.index_eq method.wf (by rw [started.size_eq]; decide : 1 < reply.size)
    rw [method.content] at version chosen
    simp only [step, stage, onTask, onMethod, version, chosen, built, ok_bind]
    rfl
  · rintro ⟨done, answers, -⟩ type
    obtain ⟨enough, room⟩ := answers_success fresh (fun c member => (delivered c member).wf) answers
    rw [split, holds.content, length_requestBytes, hostOf, type, addressBytes] at enough room
    simp only [List.length_cons, bufferSize] at enough room
    omega
  · intro fits
    exact readsBack_of_fits valid fits fresh delivered (split.trans holds.content)

/-- A client that has just got the method reply and is to connect to a domain. -/
def clientFor (domain : Bytes) : Socks5DataFlow where
  targetEndpoint := ⟨.domain, domain, none, 80⟩
  stateMachine := { type := .remote, state := .establishing }
  stage := .posted .method (pieceOf 0 [5, 0])

theorem pieceOf_methodReply : MethodReply 1 (pieceOf 0 [5, 0]) :=
  ⟨(pieceOf_delivered 0 [5, 0] (by decide) (by decide)).wf, by simp [Straight, pieceOf],
    by simp [Below, addrs, pieceOf], rfl⟩

/-- The domain `a.b`. -/
theorem request_reads_back_iff_shortest :
    ∃ buffer, (clientFor [97, 46, 98]).step (.runTask 1) =
        .ok { clientFor [97, 46, 98] with stage := .requesting buffer } ∧
      ∀ chunks last, (∀ c ∈ chunks ++ [last], Delivered c) →
        (chunks ++ [last]).flatMap content = buffer.content →
        (ReadsBack noText (clientFor [97, 46, 98]).targetEndpoint freshFlow chunks last ↔
          FitsServer (clientFor [97, 46, 98]).targetEndpoint) :=
  request_reads_back_iff noText 1 (clientFor [97, 46, 98]) (pieceOf 0 [5, 0]) rfl
    ⟨by decide, by decide, rfl⟩ pieceOf_methodReply freshFlow ⟨rfl, rfl, rfl⟩

/-- The request for the domain `a` has eight bytes, and the server waits for ten. -/
theorem one_letter_domain_is_not_read :
    ∃ buffer, (clientFor [97]).step (.runTask 1) = .ok { clientFor [97] with stage := .requesting buffer } ∧
      buffer.content = [5, 1, 0, 3, 1, 97, 0, 80] ∧
      freshFlow.onNegotiateRead (some buffer) =
        .ok ({ freshFlow with pendingAuth := [5, 1, 0, 3, 1, 97, 0, 80] }, .negotiateRead) ∧
      ¬ReadsBack noText (clientFor [97]).targetEndpoint freshFlow [] buffer := by
  refine ⟨⟨[⟨0, [5, 1], 0, 2⟩, ⟨1, [0, 3, 1, 97, 0, 80], 0, 6⟩], some 1, 8⟩, by decide +kernel,
    by decide +kernel, by decide +kernel, ?_⟩
  rintro ⟨done, ⟨waiting, rfl, answered⟩, -⟩
  cases answered

end LibNekit.Guarantees.Socks5Encoding
