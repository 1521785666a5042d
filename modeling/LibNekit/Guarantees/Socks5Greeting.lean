import LibNekit.Source.Buffer.Shrink
import LibNekit.Source.DataFlow.Socks5Server

/-!
# The SOCKS5 greeting under fragmentation

The decision is taken on the accumulated bytes and is right for every way of
cutting the greeting. The reply is built in the Buffer that arrived last, so it is
right only for the cuts whose last piece happens to have the shape of the reply.
-/
namespace LibNekit.Guarantees.Socks5Greeting

open LibNekit.Source LibNekit.Library.Rope LibNekit.Source.Buffer LibNekit.Source.Socks5Server
open LibNekit.Source.Socks5ServerDataFlow

/-- `05 n m1..mn` with `1 <= n <= 126` and 0 among the methods. -/
structure Greeting (greeting methods : Bytes) : Prop where
  layout : greeting = 5 :: UInt8.ofNat methods.length :: methods
  some_method : 1 ≤ methods.length
  bound : methods.length ≤ 126
  noAuth : 0 ∈ methods

/-- A Buffer as the next hop hands it over. -/
structure Delivered (b : Buffer) : Prop where
  wf : b.WellFormed
  nonempty : 0 < b.size
  fits : b.size < sizeRange

/-- The Buffers are accepted one after the other and each is answered by another
`NegotiateRead`. -/
def KeepsReading : Socks5ServerDataFlow → List Buffer → Socks5ServerDataFlow → Prop
  | flow, [], flow' => flow' = flow
  | flow, chunk :: rest, flow' => ∃ next,
      flow.onNegotiateRead (some chunk) = .ok (next, .negotiateRead) ∧ KeepsReading next rest flow'

/-- The flow keeps reading on `chunks`; on `last` it writes `05 00`, empties the
pending buffer and, once the write succeeds, reads the request. -/
def Negotiates (flow : Socks5ServerDataFlow) (chunks : List Buffer) (last : Buffer) : Prop :=
  ∃ waiting, KeepsReading flow chunks waiting ∧ ∃ replied reply,
    waiting.onNegotiateRead (some last) = .ok (replied, .write reply) ∧ reply.content = [5, 0] ∧
    replied.pendingAuth = [] ∧ ∃ reading,
      replied.onReplyWritten true = (reading, .negotiateRead) ∧
      reading.negotiationState = .readingRequest

/-- The shape of the last Buffer that makes the reply right. It has a byte to cut
off, it starts with 05, and the write of the second byte finds it: its chunk is
unshifted, or the byte is 0 already and the write does not hit the first. -/
def ReplyFits (last : Buffer) : Prop :=
  3 ≤ last.size ∧ last.content[0]? = some 5 ∧
    (Unshifted last 1 ∨ (last.content[1]? = some 0 ∧
      ¬∃ first rest, last.head = first :: rest ∧ 2 ≤ first.size ∧ first.offset = 1))

/-! ## The accumulated bytes -/

variable {flow : Socks5ServerDataFlow} {greeting methods seen : Bytes} {chunk last : Buffer}

theorem Greeting.length (valid : Greeting greeting methods) :
    greeting.length = methods.length + 2 := by
  simp [valid.layout]

/-- The length byte survives the round trip through `uint8_t`. -/
theorem Greeting.count (valid : Greeting greeting methods) :
    (UInt8.ofNat methods.length).toNat = methods.length := by
  have := valid.bound
  rw [UInt8.toNat_ofNat']
  omega

/-- The first two bytes of any prefix that has them. -/
theorem Greeting.header (valid : Greeting greeting methods) {rest : Bytes}
    (split : seen ++ rest = greeting) (enough : 3 ≤ seen.length) :
    seen[0]? = some 5 ∧ seen[1]? = some (UInt8.ofNat methods.length) := by
  have first : (seen ++ rest)[0]? = some 5 := by rw [split, valid.layout]; rfl
  have second : (seen ++ rest)[1]? = some (UInt8.ofNat methods.length) := by
    rw [split, valid.layout]; rfl
  rw [List.getElem?_append_left (by omega)] at first second
  exact ⟨first, second⟩

/-- Appending a Buffer that leaves the greeting within the limit. -/
theorem onNegotiateRead_appends (wf : chunk.WellFormed)
    (reading : flow.negotiationState = .readingVersion)
    (room : flow.pendingAuth.length + chunk.size ≤ bufferSize) :
    flow.onNegotiateRead (some chunk) =
      readVersion { flow with pendingAuth := flow.pendingAuth ++ chunk.content } chunk := by
  simp only [onNegotiateRead, if_neg (Nat.not_lt.mpr room), appendToAuthBuffer, boostAssert_of room,
    wf.walk_append, ok_bind, pure_eq_ok, reading]

/-- On a proper prefix the flow asks for more. -/
theorem readVersion_incomplete (valid : Greeting greeting methods) {rest : Bytes}
    (split : flow.pendingAuth ++ rest = greeting) (proper : rest ≠ []) (buffer : Buffer) :
    flow.readVersion buffer = .ok (flow, .negotiateRead) := by
  unfold readVersion
  by_cases short : flow.pendingAuth.length < 3
  · rw [if_pos short]
    rfl
  obtain ⟨first, second⟩ := valid.header split (by omega)
  have total := congrArg List.length split
  rw [List.length_append, valid.length] at total
  have := List.length_pos_iff.mpr proper
  have missing : flow.pendingAuth.length < (UInt8.ofNat methods.length).toNat + 2 := by
    rw [valid.count]
    omega
  rw [if_neg short]
  simp only [pendingAt, first, second, ok_bind, ne_eq, not_true_eq_false, if_false, if_pos missing,
    pure_eq_ok]

/-- On the whole greeting it answers in the Buffer that completed it. -/
theorem readVersion_whole (valid : Greeting greeting methods) (split : flow.pendingAuth = greeting)
    (buffer : Buffer) :
    flow.readVersion buffer =
      methodReply buffer >>= fun reply => .ok ({ flow with pendingAuth := [] }, .write reply) := by
  have length := valid.length
  have some_method := valid.some_method
  obtain ⟨first, second⟩ := valid.header (by simpa using split : flow.pendingAuth ++ [] = greeting)
    (by rw [split]; omega)
  have methods_eq : (flow.pendingAuth.drop 2).take methods.length = methods := by
    rw [split, valid.layout]
    simp
  unfold readVersion
  rw [if_neg (by rw [split]; omega)]
  simp only [pendingAt, first, second, ok_bind, ne_eq, not_true_eq_false, if_false, valid.count]
  rw [if_neg (by rw [split]; omega), if_neg (by rw [split]; omega), methods_eq]
  simp [valid.noAuth]

theorem keepsReading_before_end (valid : Greeting greeting methods) (chunks : List Buffer)
    (delivered : ∀ b ∈ chunks, Delivered b) {rest : Bytes} (proper : rest ≠ [])
    (reading : flow.negotiationState = .readingVersion)
    (split : flow.pendingAuth ++ chunks.flatMap content ++ rest = greeting) :
    ∃ waiting, KeepsReading flow chunks waiting ∧ waiting.negotiationState = .readingVersion ∧
      waiting.pendingAuth ++ rest = greeting ∧
      ∀ flow', KeepsReading flow chunks flow' → flow' = waiting := by
  induction chunks generalizing flow with
  | nil => exact ⟨flow, rfl, reading, by simpa using split, fun _ => id⟩
  | cons chunk chunks ih =>
    have first := (delivered chunk (by simp)).wf
    have total := congrArg List.length split
    simp only [List.flatMap_cons, List.length_append, first.length_content, valid.length] at total
    have bound := valid.bound
    simp only [List.flatMap_cons, ← List.append_assoc] at split
    have run : flow.onNegotiateRead (some chunk) =
        .ok ({ flow with pendingAuth := flow.pendingAuth ++ chunk.content }, .negotiateRead) := by
      rw [onNegotiateRead_appends first reading (by unfold bufferSize; omega)]
      exact readVersion_incomplete valid (by simpa only [List.append_assoc] using split :
        flow.pendingAuth ++ chunk.content ++ (chunks.flatMap content ++ rest) = greeting)
        (by simp [proper]) chunk
    obtain ⟨waiting, keeps, stillReading, held, unique⟩ :=
      @ih { flow with pendingAuth := flow.pendingAuth ++ chunk.content }
        (fun b member => delivered b (by simp [member])) reading split
    refine ⟨waiting, ⟨_, run, keeps⟩, stillReading, held, ?_⟩
    rintro flow' ⟨next, run', keeps'⟩
    cases run.symm.trans run'
    exact unique flow' keeps'

/-! ## The reply -/

/-- Cutting a short Buffer down to two bytes is a deletion of a huge number. -/
theorem shrinkBack_short (short : last.size < 3) :
    last.shrinkBack (sizeSub last.size 2) = .error .assertion := by
  have start : sizeSub last.size (sizeSub last.size 2) = 2 := by
    unfold sizeSub sizeRange
    omega
  rw [shrinkBack, start, shrink, boostAssert, if_neg (by omega)]
  rfl

theorem methodReply_short (short : last.size < 3) :
    methodReply last = .error .assertion := by
  rw [methodReply, shrinkBack_short short]
  rfl

/-- What the reply is when there is something to cut off. -/
theorem methodReply_content (delivered : Delivered last) (enough : 3 ≤ last.size)
    {c : Cursor Buf} (here : At last 1 c) :
    ∃ reply, methodReply last = .ok reply ∧ reply.content =
      if c.pos < c.current.offset then last.content.take 2
      else (last.content.take 2).set (1 - c.current.offset) 0 := by
  have fits := delivered.fits
  obtain ⟨shrunk, run, holds, keeps⟩ := shrinkBack_keeps 0 delivered.wf fits
    (by omega) (by omega : last.size - 2 ≤ last.size)
  rw [show last.size - (last.size - 2) = 2 by omega] at holds keeps
  obtain ⟨c', here', samePos, sameOffset⟩ := keeps 1 c (by omega) here
  have inside : 1 < shrunk.size := by
    rw [← holds.wf.length_content, holds.content, List.length_take, delivered.wf.length_content]
    omega
  obtain ⟨reply, wrote, -, -, -, written⟩ := setIndex_eq holds.wf here' inside 0
  refine ⟨reply, ?_, ?_⟩
  · rw [methodReply, sizeSub_eq fits (by omega), run]
    exact wrote
  · rw [written, samePos, sameOffset, holds.content]

/-- The second byte's chunk starts with both bytes and one spare byte in front. -/
theorem first_chunk_iff {c : Cursor Buf} (here : At last 1 c) :
    (∃ first rest, last.head = first :: rest ∧ 2 ≤ first.size ∧ first.offset = 1) ↔
      c.pos = 1 ∧ c.current.offset = 1 := by
  have sum := here.sum
  have bound := here.bound
  constructor
  · rintro ⟨first, rest, head, size, offset⟩
    have walked := here.walked
    rw [walkTo, head, ← List.nil_append (first :: rest), seek_cut (by simp)
      (by rw [total_nil]; omega)] at walked
    cases walked
    exact ⟨rfl, offset⟩
  · rintro ⟨pos, offset⟩
    have front : c.before = [] := (total_eq_zero_iff Buf.size fun d member =>
      (here.ok d (by simp [member])).nonempty).mp (by omega)
    exact ⟨c.current, c.after, by simpa [front] using here.split, by omega, offset⟩

theorem methodReply_iff (delivered : Delivered last) :
    (∃ reply, methodReply last = .ok reply ∧ reply.content = [5, 0]) ↔ ReplyFits last := by
  unfold ReplyFits
  by_cases short : last.size < 3
  · rw [methodReply_short short]
    simp only [reduceCtorEq, false_and, exists_false, false_iff]
    omega
  have length := delivered.wf.length_content
  obtain ⟨c, here⟩ := delivered.wf.at (by omega : 1 < last.size)
  obtain ⟨reply, run, content_eq⟩ := methodReply_content delivered (by omega) here
  have sum := here.sum
  rw [unshifted_iff here, first_chunk_iff here]
  -- Only the first two bytes matter.
  obtain ⟨b0, b1, rest, bytes⟩ : ∃ b0 b1 rest, last.content = b0 :: b1 :: rest := by
    match shape : last.content with
    | [] => rw [shape, List.length_nil] at length; omega
    | [_] => rw [shape, List.length_singleton] at length; omega
    | b0 :: b1 :: rest => exact ⟨b0, b1, rest, rfl⟩
  rw [bytes] at content_eq ⊢
  have iff_content : (∃ reply, methodReply last = .ok reply ∧ reply.content = [5, 0]) ↔
      reply.content = [5, 0] := by
    rw [run]
    simp
  rw [iff_content, content_eq]
  by_cases unshifted : c.current.offset = 0
  · simp [unshifted, show 3 ≤ last.size by omega]
  by_cases one : c.pos = 1 ∧ c.current.offset = 1
  · simp [one.1, one.2]
  · rw [if_pos (by omega)]
    simp [unshifted, one, show 3 ≤ last.size by omega]

/-! ## Every cut of every greeting -/

/-- For every valid greeting and every cut of it: the negotiation does what it
should exactly when the last piece has the shape of the reply. -/
theorem greeting_negotiates_iff (stateMachine : FlowStateMachine) (greeting methods : Bytes)
    (valid : Greeting greeting methods) (chunks : List Buffer) (last : Buffer)
    (delivered : ∀ b ∈ chunks ++ [last], Delivered b)
    (split : (chunks ++ [last]).flatMap content = greeting) :
    Negotiates { stateMachine } chunks last ↔ ReplyFits last := by
  have lastDelivered := delivered last (by simp)
  have lastLength := lastDelivered.wf.length_content
  have lastNonempty : last.content ≠ [] := by
    rw [← List.length_pos_iff, lastLength]
    exact lastDelivered.nonempty
  rw [List.flatMap_append] at split
  simp only [List.flatMap_cons, List.flatMap_nil, List.append_nil] at split
  obtain ⟨waiting, keeps, reading, held, unique⟩ :=
    @keepsReading_before_end { stateMachine } _ _ valid chunks
      (fun b member => delivered b (by simp [member])) _ lastNonempty rfl split
  have total := congrArg List.length held
  rw [List.length_append, lastLength, valid.length] at total
  have bound := valid.bound
  have answer : waiting.onNegotiateRead (some last) = methodReply last >>= fun reply =>
      .ok ({ waiting with pendingAuth := [] }, .write reply) := by
    rw [onNegotiateRead_appends lastDelivered.wf reading (by unfold bufferSize; omega)]
    exact readVersion_whole valid held last
  rw [← methodReply_iff lastDelivered]
  constructor
  · rintro ⟨waiting', keeps', replied, reply, wrote, content_eq, -⟩
    rw [unique waiting' keeps', answer] at wrote
    obtain ⟨reply', built, same⟩ := bind_eq_ok.mp wrote
    cases same
    exact ⟨reply, built, content_eq⟩
  · rintro ⟨reply, built, content_eq⟩
    refine ⟨waiting, keeps, _, reply, by rw [answer, built]; rfl, content_eq, rfl, _, rfl, rfl⟩

/-- A one-method greeting in one piece. -/
theorem greeting_negotiates_iff_whole :
    Negotiates { stateMachine := { type := .local } } [] ⟨[⟨0, [5, 1, 0], 0, 3⟩], some 0, 3⟩ ↔
      ReplyFits ⟨[⟨0, [5, 1, 0], 0, 3⟩], some 0, 3⟩ :=
  greeting_negotiates_iff _ [5, 1, 0] [0] ⟨rfl, by decide, by decide, by decide⟩ [] _
    (by
      simp only [List.nil_append, List.mem_singleton, forall_eq]
      exact ⟨⟨by simpa using ⟨by decide, by decide⟩, by decide, rfl, rfl⟩, by decide,
        by decide +kernel⟩) rfl

/-- The same greeting with its last byte alone: the size to cut off underflows. -/
theorem split_greeting_underflows :
    (∃ waiting, KeepsReading { stateMachine := { type := .local } }
        [⟨[⟨0, [5, 1], 0, 2⟩], some 0, 2⟩] waiting ∧
      waiting.onNegotiateRead (some ⟨[⟨1, [0], 0, 1⟩], some 1, 1⟩) = .error .assertion) ∧
    ¬Negotiates { stateMachine := { type := .local } } [⟨[⟨0, [5, 1], 0, 2⟩], some 0, 2⟩]
      ⟨[⟨1, [0], 0, 1⟩], some 1, 1⟩ := by
  refine ⟨⟨_, ⟨_, rfl, rfl⟩, by decide +kernel⟩, ?_⟩
  rintro ⟨waiting, ⟨next, run, rfl⟩, replied, reply, wrote, -⟩
  cases run
  cases wrote

end LibNekit.Guarantees.Socks5Greeting
