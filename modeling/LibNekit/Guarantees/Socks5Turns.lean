import LibNekit.Guarantees.Socks5EarlyData
import LibNekit.Source.DataFlow.Socks5Dialogue

/-!
# The turns of a SOCKS5 client and server

Each side on its own: where it stands is what it has sent and got, and each turn brings it
on, where no more than the other side's part is on the way.
-/
namespace LibNekit.Guarantees.Socks5Turns

open LibNekit.Source LibNekit.Library LibNekit.Source.Buffer LibNekit.Source.Socks5Dialogue
open LibNekit.Guarantees.Socks5Greeting LibNekit.Guarantees.Socks5Request LibNekit.Guarantees.Socks5Encoding

open Socks5EarlyData hiding init negotiation reads
open Socks5ServerDataFlow hiding fail
open Socks5Handshake (responseShape)
open Socks5DataFlow (Phase remaining)

/-! ## What is said -/

def greeting : Bytes := [5, 1, 0]

def request (target : Endpoint) : Bytes := requestBytes (hostOf target) target.port

/-- The response of `Continue`: all zeros behind the type. -/
def reply (target : Endpoint) : Bytes :=
  [5, 0, 0, (responseShape target).2, 0] ++ List.replicate ((responseShape target).1 - 5) 0

/-- Where the client stands: what it has sent, what it has got. -/
inductive ClientAt (target : Endpoint) : Bytes → Bytes → Socks5DataFlow → Prop
  | created : ClientAt target [] [] { targetEndpoint := target }
  | connecting {f : Socks5DataFlow} (goal : f.targetEndpoint = target) (stage : f.stage = .connecting)
      (empty : Built f.streamReader.buffer []) : ClientAt target [] [] f
  | greets {f : Socks5DataFlow} {b : Buffer} (goal : f.targetEndpoint = target) (stage : f.stage = .greeting b)
      (empty : Built f.streamReader.buffer []) : ClientAt target greeting [] f
  | readsMethod {f : Socks5DataFlow} {bytes : Bytes} (goal : f.targetEndpoint = target) (waits : Waits .method 2 bytes f) :
      ClientAt target greeting bytes f
  | hasMethod {f : Socks5DataFlow} (goal : f.targetEndpoint = target) (posts : Posts .method [5, 0] [] f) :
      ClientAt target greeting [5, 0] f
  | requesting {f : Socks5DataFlow} {b : Buffer} (stage : f.stage = .requesting b)
      (empty : Built f.streamReader.buffer []) : ClientAt target (greeting ++ request target) [5, 0] f
  | readsReply {f : Socks5DataFlow} {bytes : Bytes} (waits : Waits .reply 5 bytes f) :
      ClientAt target (greeting ++ request target) ([5, 0] ++ bytes) f
  | hasReply {f : Socks5DataFlow} {back : Bytes} (posts : Posts .reply ((reply target).take 5) back f) :
      ClientAt target (greeting ++ request target) ([5, 0] ++ ((reply target).take 5 ++ back)) f
  | readsRest {f : Socks5DataFlow} {bytes : Bytes} (waits : Waits .rest ((reply target).drop 5).length bytes f) :
      ClientAt target (greeting ++ request target) ([5, 0] ++ ((reply target).take 5 ++ bytes)) f
  | hasRest {f : Socks5DataFlow} {front : Bytes} (posts : Posts .rest front [] f) :
      ClientAt target (greeting ++ request target) ([5, 0] ++ reply target) f
  | finished {f : Socks5DataFlow} (stage : f.stage = .finished .success) :
      ClientAt target (greeting ++ request target) ([5, 0] ++ reply target) f

/-- Where the server stands: what it has got, what it has sent. -/
inductive ServerAt (target : Endpoint) : Bytes → Bytes → Socks5Handshake → Prop
  | created : ServerAt target [] [] .init
  | opening {h : Socks5Handshake} (stage : h.stage = .opening) (fresh : h.flow.pendingAuth = [])
      (version : h.flow.negotiationState = .readingVersion) (state : h.flow.stateMachine.state = .establishing) :
      ServerAt target [] [] h
  | readsGreeting {h : Socks5Handshake} (stage : h.stage = .reading) (version : h.flow.negotiationState = .readingVersion)
      (state : h.flow.stateMachine.state = .establishing) (short : h.flow.pendingAuth.length < 3) :
      ServerAt target h.flow.pendingAuth [] h
  | replying {h : Socks5Handshake} (stage : h.stage = .replying) (fresh : h.flow.pendingAuth = [])
      (state : h.flow.stateMachine.state = .establishing) : ServerAt target greeting [5, 0] h
  | readsRequest {h : Socks5Handshake} (stage : h.stage = .reading) (asked : h.flow.negotiationState = .readingRequest)
      (state : h.flow.stateMachine.state = .establishing) (short : h.flow.pendingAuth.length < (request target).length) :
      ServerAt target (greeting ++ h.flow.pendingAuth) [5, 0] h
  | opened {h : Socks5Handshake} (stage : h.stage = .opened) (named : h.flow.endpoint = some ⟨hostOf target, target.port⟩)
      (state : h.flow.stateMachine.state = .established) :
      ServerAt target (greeting ++ request target) [5, 0] h
  | responding {h : Socks5Handshake} (stage : h.stage = .responding)
      (named : h.flow.endpoint = some ⟨hostOf target, target.port⟩) (state : h.flow.stateMachine.state = .established) :
      ServerAt target (greeting ++ request target) ([5, 0] ++ reply target) h
  | continuing {h : Socks5Handshake} (stage : h.stage = .continuing)
      (named : h.flow.endpoint = some ⟨hostOf target, target.port⟩) (state : h.flow.stateMachine.state = .established) :
      ServerAt target (greeting ++ request target) ([5, 0] ++ reply target) h

/-! ## The reply -/

variable {text : AddressText} {target endpoint : Endpoint} {sent got way bytes : Bytes} {f f' : Socks5DataFlow}
  {h h' : Socks5Handshake} {phase : Phase} {n next : Nat} {b : Buffer}

theorem responseShape_cases (e : Endpoint) : responseShape e = (10, 1) ∨ responseShape e = (22, 4) := by
  unfold responseShape
  split
  · exact Or.inr rfl
  · exact Or.inl rfl

theorem responseShape_same (same : SameTarget endpoint target) : responseShape endpoint = responseShape target := by
  obtain ⟨type, -, host⟩ := same
  unfold responseShape
  cases kind : endpoint.type with
  | domain => rw [← type, kind]
  | address =>
    rw [kind] at host
    rw [← type, kind, host]

/-- What `Continue` writes. -/
theorem response_eq (e : Endpoint) : ∃ next b, Socks5Handshake.response 0 e = .ok (next, b) ∧ b.content = reply e := by
  unfold Socks5Handshake.response reply
  rcases responseShape_cases e with shape | shape
  · rw [shape]
    exact ⟨1, _, rfl, by decide⟩
  · rw [shape]
    exact ⟨1, _, rfl, by decide⟩

theorem reply_same (same : SameTarget endpoint target) : reply endpoint = reply target := by
  rw [reply, reply, responseShape_same same]

/-- The client expects as much as the server sends. -/
theorem reply_remaining (target : Endpoint) :
    remaining (responseShape target).2 0 = some ((reply target).drop 5).length := by
  unfold reply
  rcases responseShape_cases target with shape | shape
  · rw [shape]
    rfl
  · rw [shape]
    rfl

theorem reply_length (target : Endpoint) : 5 < (reply target).length ∧ (reply target).length ≤ 22 := by
  unfold reply
  rcases responseShape_cases target with shape | shape
  · rw [shape]
    decide
  · rw [shape]
    decide

theorem request_encodable (valid : Target text target) (fits : FitsServer target) : Encodable (hostOf target) := by
  obtain ⟨-, kind⟩ := valid
  cases type : target.type with
  | domain =>
    rw [hostOf, type]
    exact fits type
  | address =>
    rw [type] at kind
    obtain ⟨address, ⟨v4, length⟩ | ⟨v6, length⟩⟩ := kind
    · rw [hostOf, type, v4]
      exact length
    · rw [hostOf, type, v6]
      exact length

/-- What is read out of the request is the client's target. -/
theorem build_same (valid : Target text target) :
    SameTarget ((⟨hostOf target, target.port⟩ : SessionEndpoint).build text) target := by
  obtain ⟨-, kind⟩ := valid
  cases type : target.type with
  | domain =>
    rw [type] at kind
    simp [hostOf, type, SessionEndpoint.build, Endpoint.ofHost, kind.2, SameTarget]
  | address =>
    rw [type] at kind
    obtain ⟨address, ⟨v4, -⟩ | ⟨v6, -⟩⟩ := kind
    · simp [hostOf, type, v4, SessionEndpoint.build, Endpoint.ofAddress, SameTarget]
    · simp [hostOf, type, v6, SessionEndpoint.build, Endpoint.ofAddress, SameTarget]

/-! ## One turn of the client -/

/-- What is ahead of a client: its stages, and the bytes that it has not sent. -/
def clientRank (target : Endpoint) : Socks5DataFlow.Stage → Nat
  | .created => 13 + (request target).length
  | .connecting => 12 + (request target).length
  | .greeting _ => 8 + (request target).length
  | .reading .method => 7 + (request target).length
  | .posted .method _ => 6 + (request target).length
  | .requesting _ => 5
  | .reading .reply => 4
  | .posted .reply _ => 3
  | .reading .rest => 2
  | .posted .rest _ => 1
  | .finished _ => 0

/-- Reads are the flow's own matter: it waits for more, or it has enough. -/
theorem client_reads (waits : Waits phase n bytes f) (admits : f.Admits (.read next (some b))) (arrives : Arrives b way) :
    ∃ f', f.step (.read next (some b)) = .ok f' ∧ f'.targetEndpoint = f.targetEndpoint ∧
      if (bytes ++ b.content).length < n then Waits phase n (bytes ++ b.content) f'
      else Posts phase ((bytes ++ b.content).take n) ((bytes ++ b.content).drop n) f' := by
  have size := waits.built.size_eq
  have length := arrives.wf.length_content
  simp only [Socks5DataFlow.Admits, waits.stage] at admits
  obtain ⟨below, new⟩ := admits
  obtain ⟨-, belowB, apart, room⟩ := new b rfl
  have delivered : Delivered b := ⟨arrives.wf, arrives.nonempty, by omega⟩
  have welcome : Welcome next bytes f [b] := by
    refine ⟨⟨?_, ?_, ?_, List.pairwise_singleton _ _, ?_⟩, below, ?_, ?_⟩
    · simpa using delivered
    · simpa using arrives.straight
    · simpa using belowB
    · simp only [List.flatMap_cons, List.flatMap_nil, List.append_nil]
      omega
    · simpa using apart
    · simp only [List.flatMap_cons, List.flatMap_nil, List.append_nil]
      omega
  by_cases short : (bytes ++ b.content).length < n
  · obtain ⟨-, f', stepped, waits', goal, -⟩ := read_short waits welcome short
    exact ⟨f', stepped, goal, by rwa [if_pos short]⟩
  · obtain ⟨-, f', stepped, posts, follows⟩ := read_enough waits welcome (Nat.le_of_not_lt short)
    exact ⟨f', stepped, follows.target, by rwa [if_neg short]⟩

/-- A client that has got all it can get while it waits has not got enough. -/
theorem client_waits_short (waits : Waits phase n bytes f) (admits : f.Admits (.read next (some b)))
    (arrives : Arrives b way) {all : Bytes} (within : bytes ++ b.content <+: all) (enough : all.length = n) :
    ∃ f', f.step (.read next (some b)) = .ok f' ∧ f'.targetEndpoint = f.targetEndpoint ∧
      (Waits phase n (bytes ++ b.content) f' ∨ bytes ++ b.content = all ∧ Posts phase all [] f') := by
  obtain ⟨f', stepped, goal, reached⟩ := client_reads waits admits arrives
  refine ⟨f', stepped, goal, ?_⟩
  by_cases short : (bytes ++ b.content).length < n
  · rw [if_pos short] at reached
    exact Or.inl reached
  · have whole : bytes ++ b.content = all := within.eq_of_length_le (by omega)
    rw [if_neg short, whole, ← enough, List.take_length, List.drop_length] at reached
    exact Or.inr ⟨whole, reached⟩

/-- The event that each stage waits for. -/
theorem client_event {e : Socks5DataFlow.Event} (admits : f.Admits e) :
    match f.stage with
    | .created => e = .callConnect
    | .connecting => ∃ next success, e = .nextConnected next success
    | .greeting _ | .requesting _ => ∃ next success, e = .written next success
    | .reading _ => ∃ next data, e = .read next data
    | .posted _ _ => ∃ next, e = .runTask next
    | .finished _ => False := by
  unfold Socks5DataFlow.Admits at admits
  cases e <;> cases stage : f.stage <;> simp_all

/-- A turn of the client: what it writes and reads, and that it gets on. -/
def ClientMoves (target : Endpoint) (sent got : Bytes) (e : Socks5DataFlow.Event) (f : Socks5DataFlow) : Prop :=
  ∃ f', f.step e = .ok f' ∧ ClientAt target (sent ++ clientWrites f') (got ++ clientReads e) f' ∧
    clientRank target f'.stage + (clientWrites f').length < clientRank target f.stage + (clientReads e).length

/-- The greeting is built. -/
theorem client_greets (goal : f.targetEndpoint = target) (stage : f.stage = .connecting) (empty : Built f.streamReader.buffer [])
    (next : Nat) : ClientMoves target [] [] (.nextConnected next true) f := by
  obtain ⟨b₁, ran₁, built₁⟩ := (make_built next 3).setIndex (by decide : 0 < _) 5
  obtain ⟨b₂, ran₂, built₂⟩ := built₁.setIndex (by decide : 1 < _) 1
  obtain ⟨b₃, ran₃, built₃⟩ := built₂.setIndex (by decide : 2 < _) 0
  have ran : f.step (.nextConnected next true) = .ok { f with stage := .greeting b₃ } := by
    simp only [Socks5DataFlow.step, stage, Socks5DataFlow.onNextConnected, if_pos]
    simp only [Socks5DataFlow.doNegotiation, ran₁, ran₂, ran₃, ok_bind, pure_eq_ok]
  have writes : clientWrites { f with stage := .greeting b₃ } = greeting := built₃.content
  refine ⟨_, ran, ?_, ?_⟩
  · rw [writes]
    exact .greets goal rfl empty
  · rw [writes, stage]
    have three : greeting.length = 3 := rfl
    simp only [clientRank, clientReads, three, List.length_nil]
    omega

/-- The request is built in the Buffer of the method reply. -/
theorem client_asks (valid : Target text target) (goal : f.targetEndpoint = target) (posts : Posts .method [5, 0] [] f)
    (admits : f.Admits (.runTask next)) : ClientMoves target greeting [5, 0] (.runTask next) f := by
  obtain ⟨b, stage, built, left⟩ := posts
  have below : b.Below next := by
    intro a member
    simp only [Socks5DataFlow.Admits, stage] at admits
    exact admits a (by simp [Socks5DataFlow.held, stage, member])
  obtain ⟨buffer, made, holds⟩ := request_eq valid ⟨built.wf, built.straight, below, built.content⟩
  have ran : f.step (.runTask next) = .ok { f with stage := .requesting buffer } := by
    have version := built.index (by decide : 0 < _)
    have chosen := built.index (by decide : 1 < _)
    simp only [Socks5DataFlow.step, stage, Socks5DataFlow.onTask, Socks5DataFlow.onMethod, version, chosen, goal, made, ok_bind]
    rfl
  have writes : clientWrites { f with stage := .requesting buffer } = request target := holds.content
  refine ⟨_, ran, ?_, ?_⟩
  · rw [writes]
    exact .requesting rfl left
  · rw [writes, stage]
    simp only [clientRank, clientReads, List.length_nil]
    omega

/-- The length of the rest is settled by the first five bytes. -/
theorem client_settles {back : Bytes} (posts : Posts .reply ((reply target).take 5) back f) (admits : f.Admits (.runTask next))
    (few : back.length ≤ ((reply target).drop 5).length)
    (same : back.length = ((reply target).drop 5).length → (reply target).take 5 ++ back = reply target) :
    ClientMoves target (greeting ++ request target) ([5, 0] ++ ((reply target).take 5 ++ back)) (.runTask next) f := by
  have few' : ((reply target).drop 5).length ≤ 22 := by
    have length := (reply_length target).2
    rw [List.length_drop]
    omega
  have below : ∀ a ∈ f.held, a < next := by
    obtain ⟨b, stage, -, -⟩ := posts
    simpa only [Socks5DataFlow.Admits, stage] using admits
  obtain ⟨-, f', stepped, -, settled⟩ := settles (reply_remaining target) posts below
    (by unfold sizeRange; omega)
  obtain ⟨b, stage, -, -⟩ := posts
  by_cases short : back.length < ((reply target).drop 5).length
  · rw [if_pos short] at settled
    have none : clientWrites f' = [] := by rw [clientWrites, settled.stage]
    refine ⟨f', stepped, ?_, ?_⟩
    · rw [none, List.append_nil]
      exact (List.append_nil _).symm ▸ .readsRest settled
    · rw [none, stage, settled.stage]
      exact Nat.lt_succ_self _
  · have whole : back.length = ((reply target).drop 5).length := Nat.le_antisymm few (Nat.le_of_not_lt short)
    rw [if_neg short, ← whole, List.take_length, List.drop_length] at settled
    have none : clientWrites f' = [] := by
      obtain ⟨b, stage, -, -⟩ := settled
      rw [clientWrites, stage]
    refine ⟨f', stepped, ?_, ?_⟩
    · rw [none, List.append_nil, same whole]
      exact (List.append_nil _).symm ▸ .hasRest settled
    · obtain ⟨b', stage', -, -⟩ := settled
      rw [none, stage, stage']
      exact Nat.lt_of_succ_lt (Nat.lt_succ_self _)

theorem client_finishes {front : Bytes} (posts : Posts .rest front [] f) :
    ClientMoves target (greeting ++ request target) ([5, 0] ++ reply target) (.runTask next) f := by
  obtain ⟨b, stage, -, keeps⟩ := posts
  have size := keeps.size_eq
  have ended : (f.onRest).stage = .finished .success := by
    simp only [Socks5DataFlow.onRest, StreamReader.consumeRemainData, Buffer.move, size]
    rfl
  have none : clientWrites f.onRest = [] := by rw [clientWrites, ended]
  refine ⟨f.onRest, by simp only [Socks5DataFlow.step, stage, Socks5DataFlow.onTask], ?_, ?_⟩
  · rw [none, List.append_nil]
    exact (List.append_nil _).symm ▸ .finished ended
  · rw [none, stage, ended]
    exact Nat.lt_succ_self _

/-- A turn that reads, and stays in its stage or has enough. -/
theorem client_got (stage : f.stage = .reading phase) (arrives : Arrives b way)
    (stepped : f.step (.read next (some b)) = .ok f')
    (moved : (f'.stage = .reading phase ∨ ∃ buffer, f'.stage = .posted phase buffer) ∧
      ClientAt target sent (got ++ b.content) f') : ClientMoves target sent got (.read next (some b)) f := by
  have length := arrives.wf.length_content
  have some_byte := arrives.nonempty
  obtain ⟨staged, here⟩ := moved
  refine ⟨f', stepped, ?_, ?_⟩
  · have none : clientWrites f' = [] := by
      rcases staged with same | ⟨buffer, posted⟩
      · rw [clientWrites, same]
      · rw [clientWrites, posted]
    rw [none, List.append_nil]
    exact here
  · rcases staged with same | ⟨buffer, posted⟩
    · rw [clientWrites, same, stage]
      simp only [clientReads, List.length_nil]
      omega
    · rw [clientWrites, posted, stage]
      cases phase <;> simp only [clientRank, clientReads, List.length_nil] <;> omega

/-- What has come behind the first five bytes of the reply. -/
theorem rest_within {back : Bytes} (within : [5, 0] ++ ((reply target).take 5 ++ back) <+: [5, 0] ++ reply target) :
    back <+: (reply target).drop 5 := by
  rw [List.prefix_append_right_inj] at within
  nth_rewrite 2 [← List.take_append_drop 5 (reply target)] at within
  rwa [List.prefix_append_right_inj] at within

/-- One turn of the client, where no more than the server has said is on the way. -/
theorem client_moves {e : Socks5DataFlow.Event} (valid : Target text target) (here : ClientAt target sent got f)
    (admits : f.Admits e) (hears : ClientHears way e) (soon : got ++ way <+: [5, 0] ++ reply target)
    (early : sent = greeting → (got ++ way).length ≤ 2) : ClientMoves target sent got e f := by
  have event := client_event admits
  have within : ∀ {b : Buffer}, Arrives b way → got ++ b.content <+: [5, 0] ++ reply target := fun arrives =>
    ((List.prefix_append_right_inj got).mpr arrives.first).trans soon
  cases here with
  | created =>
    obtain rfl := event
    refine ⟨_, rfl, .connecting rfl rfl empty_built, ?_⟩
    simp only [clientRank, clientReads, clientWrites, List.length_nil]
    omega
  | connecting goal stage empty =>
    rw [stage] at event
    obtain ⟨next, success, rfl⟩ := event
    obtain rfl : success = true := hears
    exact client_greets goal stage empty next
  | greets goal stage empty =>
    rw [stage] at event
    obtain ⟨next, success, rfl⟩ := event
    obtain rfl : success = true := hears
    refine ⟨{ f with streamReader := { f.streamReader with lengthToRead := 2 }, stage := .reading .method }, ?_, ?_, ?_⟩
    · simp only [Socks5DataFlow.step, stage, Socks5DataFlow.onGreetingWritten, readToLength_empty empty (by decide : 2 ≠ 0)]
      rfl
    · exact (List.append_nil greeting).symm ▸ .readsMethod goal ⟨rfl, rfl, empty, Nat.zero_lt_succ 1⟩
    · rw [stage]
      simp only [clientRank, clientReads, clientWrites, List.length_nil]
      omega
  | readsMethod goal waits =>
    rw [waits.stage] at event
    obtain ⟨next, data, rfl⟩ := event
    obtain ⟨b, rfl, arrives⟩ := hears
    have all : got ++ b.content <+: [5, 0] := by
      have length := (((List.prefix_append_right_inj got).mpr arrives.first).length_le).trans (early rfl)
      exact List.prefix_of_prefix_length_le (within arrives) (List.prefix_append _ _) length
    obtain ⟨f', stepped, goal', moved⟩ := client_waits_short waits admits arrives all rfl
    refine client_got waits.stage arrives stepped ?_
    rcases moved with waits' | ⟨whole, posts⟩
    · exact ⟨Or.inl waits'.stage, .readsMethod (goal'.trans goal) waits'⟩
    · obtain ⟨buffer, stage, -⟩ := id posts
      rw [whole]
      exact ⟨Or.inr ⟨buffer, stage⟩, .hasMethod (goal'.trans goal) posts⟩
  | hasMethod goal posts =>
    obtain ⟨b, stage, -⟩ := id posts
    rw [stage] at event
    obtain ⟨next, rfl⟩ := event
    exact client_asks valid goal posts admits
  | requesting stage empty =>
    rw [stage] at event
    obtain ⟨next, success, rfl⟩ := event
    obtain rfl : success = true := hears
    refine ⟨{ f with streamReader := { f.streamReader with lengthToRead := 5 }, stage := .reading .reply }, ?_, ?_, ?_⟩
    · simp only [Socks5DataFlow.step, stage, Socks5DataFlow.onRequestWritten, readToLength_empty empty (by decide : 5 ≠ 0)]
      rfl
    · exact (List.append_nil (greeting ++ request target)).symm ▸ .readsReply ⟨rfl, rfl, empty, Nat.zero_lt_succ 4⟩
    · rw [stage]
      exact Nat.lt_succ_self _
  | @readsReply _ bytes waits =>
    rw [waits.stage] at event
    obtain ⟨next, data, rfl⟩ := event
    obtain ⟨b, rfl, arrives⟩ := hears
    have soon' : bytes ++ b.content <+: reply target := by
      have all := within arrives
      rwa [List.append_assoc, List.prefix_append_right_inj] at all
    obtain ⟨f', stepped, -, reached⟩ := client_reads waits admits arrives
    refine client_got waits.stage arrives stepped ?_
    rw [List.append_assoc]
    by_cases short : (bytes ++ b.content).length < 5
    · rw [if_pos short] at reached
      exact ⟨Or.inl reached.stage, .readsReply reached⟩
    · have front : (bytes ++ b.content).take 5 = (reply target).take 5 := by
        rw [List.prefix_iff_eq_take.mp soon', List.take_take, Nat.min_eq_left (Nat.le_of_not_lt short)]
      rw [if_neg short, front] at reached
      obtain ⟨buffer, stage, -⟩ := id reached
      rw [← List.take_append_drop 5 (bytes ++ b.content), front]
      exact ⟨Or.inr ⟨buffer, stage⟩, .hasReply reached⟩
  | @hasReply _ back posts =>
    obtain ⟨b, stage, -⟩ := id posts
    rw [stage] at event
    obtain ⟨next, rfl⟩ := event
    have behind : back <+: (reply target).drop 5 := rest_within ((List.prefix_append _ way).trans soon)
    exact client_settles posts admits behind.length_le fun same => by
      rw [behind.eq_of_length same, List.take_append_drop]
  | @readsRest _ bytes waits =>
    rw [waits.stage] at event
    obtain ⟨next, data, rfl⟩ := event
    obtain ⟨b, rfl, arrives⟩ := hears
    have behind : bytes ++ b.content <+: (reply target).drop 5 := by
      have all := within arrives
      rw [List.append_assoc, List.append_assoc] at all
      exact rest_within all
    obtain ⟨f', stepped, -, moved⟩ := client_waits_short waits admits arrives behind rfl
    refine client_got waits.stage arrives stepped ?_
    rw [List.append_assoc, List.append_assoc]
    rcases moved with waits' | ⟨whole, posts⟩
    · exact ⟨Or.inl waits'.stage, .readsRest waits'⟩
    · obtain ⟨buffer, stage, -⟩ := id posts
      rw [whole, List.take_append_drop]
      exact ⟨Or.inr ⟨buffer, stage⟩, .hasRest posts⟩
  | hasRest posts =>
    obtain ⟨b, stage, -⟩ := id posts
    rw [stage] at event
    obtain ⟨next, rfl⟩ := event
    exact client_finishes posts
  | finished stage =>
    rw [stage] at event
    exact event.elim

/-! ## One turn of the server -/

/-- What is ahead of a server: its stages, and the bytes that it has not sent. -/
def serverRank (target : Endpoint) (h : Socks5Handshake) : Nat :=
  match h.stage with
  | .created => 9 + (reply target).length
  | .opening => 8 + (reply target).length
  | .reading =>
    match h.flow.negotiationState with
    | .readingVersion => 7 + (reply target).length
    | .readingRequest => 3 + (reply target).length
  | .replying => 4 + (reply target).length
  | .opened => 2 + (reply target).length
  | .responding => 1
  | .continuing | .continued | .failed => 0

theorem server_event {e : Socks5Handshake.Event} (admits : h.Admits e) :
    match h.stage with
    | .created => e = .callOpen
    | .opening => ∃ success, e = .nextOpened success
    | .reading => ∃ data, e = .read data
    | .replying => ∃ success, e = .replyWritten success
    | .opened => e = .callContinue
    | .responding => ∃ success, e = .responseWritten success
    | .continuing => ∃ success, e = .nextContinued success
    | .continued | .failed => False := by
  unfold Socks5Handshake.Admits at admits
  cases e <;> simp_all

/-- A turn of the server. -/
def ServerMoves (text : AddressText) (target : Endpoint) (got sent : Bytes) (e : Socks5Handshake.Event) (h : Socks5Handshake) :
    Prop :=
  ∃ writes h', serverWrites text e h = .ok writes ∧ h.step text e = .ok h' ∧
    ServerAt target (got ++ serverReads e) (sent ++ writes) h' ∧
      serverRank target h' + writes.length < serverRank target h + (serverReads e).length

/-- A read, by what the negotiation makes of it. -/
theorem server_reads {flow : Socks5ServerDataFlow} {effect : Socks5Server.Effect}
    (read : h.flow.onNegotiateRead (some b) = .ok (flow, effect)) :
    serverWrites text (.read (some b)) h = .ok (effectWrites effect) ∧
      h.step text (.read (some b)) = .ok ⟨flow, .after effect⟩ := by
  constructor
  · rw [serverWrites, read]
    rfl
  · rw [Socks5Handshake.step, read]
    rfl

theorem greeting_valid : Greeting greeting [0] := ⟨rfl, by decide, by decide, by decide⟩

/-- The greeting is answered if it comes in one piece. If its last piece is a shorter one,
that is where an assertion fails. -/
theorem server_greeted (stage : h.stage = .reading) (version : h.flow.negotiationState = .readingVersion)
    (state : h.flow.stateMachine.state = .establishing) (arrives : Arrives b way)
    (within : h.flow.pendingAuth ++ b.content <+: greeting) :
    (b.size < 3 ∧ serverWrites text (.read (some b)) h = .error .assertion) ∨
      ServerMoves text target h.flow.pendingAuth [] (.read (some b)) h := by
  have length := arrives.wf.length_content
  have some_byte := arrives.nonempty
  have all : greeting.length = 3 := rfl
  have few := within.length_le
  rw [List.length_append, all] at few
  have appends := onNegotiateRead_appends arrives.wf version (by unfold bufferSize; omega)
  by_cases short : (h.flow.pendingAuth ++ b.content).length < 3
  · obtain ⟨rest, split⟩ := within
    have proper : rest ≠ [] := by
      intro none
      rw [none, List.append_nil] at split
      rw [split] at short
      exact absurd short (by decide)
    rw [readVersion_incomplete greeting_valid split proper] at appends
    obtain ⟨wrote, stepped⟩ := @server_reads text h b _ _ appends
    have reads := @ServerAt.readsGreeting target
      ⟨{ h.flow with pendingAuth := h.flow.pendingAuth ++ b.content }, .reading⟩ rfl version state short
    refine Or.inr ⟨[], _, wrote, stepped, reads, ?_⟩
    simp only [serverRank, serverReads, Socks5Handshake.Stage.after, stage, version, List.length_nil]
    omega
  · have whole : h.flow.pendingAuth ++ b.content = greeting := within.eq_of_length_le (by omega)
    rw [readVersion_whole greeting_valid whole] at appends
    by_cases cut : b.size < 3
    · rw [methodReply_short cut] at appends
      refine Or.inl ⟨cut, ?_⟩
      rw [serverWrites, appends]
      rfl
    · have none : h.flow.pendingAuth = [] := List.length_eq_zero_iff.mp (by omega)
      have content : b.content = greeting := by rwa [none, List.nil_append] at whole
      obtain ⟨made, built, answer⟩ := (methodReply_iff ⟨arrives.wf, some_byte, by unfold sizeRange; omega⟩).mpr
        ⟨by omega, by rw [content]; rfl, Or.inl (arrives.straight.unshifted 1)⟩
      rw [built, ok_bind] at appends
      obtain ⟨wrote, stepped⟩ := @server_reads text h b _ _ appends
      rw [effectWrites, answer] at wrote
      refine Or.inr ⟨[5, 0], _, wrote, stepped, ?_, ?_⟩
      · rw [serverReads, whole]
        exact .replying rfl rfl state
      · simp only [serverRank, serverReads, Socks5Handshake.Stage.after, stage, version, List.length_cons, List.length_nil]
        omega

/-- A piece of the request is kept, and the last piece names the endpoint. -/
theorem server_asked (valid : Target text target) (fits : FitsServer target) (stage : h.stage = .reading)
    (asked : h.flow.negotiationState = .readingRequest) (state : h.flow.stateMachine.state = .establishing)
    (arrives : Arrives b way) (within : h.flow.pendingAuth ++ b.content <+: request target) :
    ServerMoves text target (greeting ++ h.flow.pendingAuth) [5, 0] (.read (some b)) h := by
  have length := arrives.wf.length_content
  have encodable := request_encodable valid fits
  have bound : (request target).length ≤ bufferSize := encodable.length.2
  have few := within.length_le
  rw [List.length_append] at few
  have appends := onNegotiateRead_request arrives.wf asked (by omega)
  obtain ⟨rest, split⟩ := within
  rw [verdict_eq encodable valid.1 split] at appends
  by_cases last : rest = []
  · rw [last, List.append_nil] at split
    have connected : h.flow.stateMachine.connected = .ok { h.flow.stateMachine with state := .established } :=
      FlowStateMachine.connected_ok.mpr ⟨Or.inl state, rfl⟩
    rw [if_pos last, react, connected, ok_bind] at appends
    obtain ⟨wrote, stepped⟩ := @server_reads text h b _ _ appends
    refine ⟨[], _, wrote, stepped, ?_, ?_⟩
    · rw [serverReads, List.append_assoc, split]
      exact .opened rfl rfl rfl
    · simp only [serverRank, serverReads, Socks5Handshake.Stage.after, stage, asked, List.length_nil]
      omega
  · have short : (h.flow.pendingAuth ++ b.content).length < (request target).length := by
      have total := congrArg List.length split
      have more := List.length_pos_iff.mpr last
      rw [List.length_append] at total
      omega
    rw [if_neg last, react] at appends
    obtain ⟨wrote, stepped⟩ := @server_reads text h b _ _ appends
    refine ⟨[], _, wrote, stepped, ?_, ?_⟩
    · rw [serverReads, List.append_assoc]
      exact @ServerAt.readsRequest target ⟨{ h.flow with pendingAuth := h.flow.pendingAuth ++ b.content }, .reading⟩
        rfl asked state short
    · have some_byte := arrives.nonempty
      simp only [serverRank, serverReads, Socks5Handshake.Stage.after, stage, asked, List.length_nil]
      omega

/-- One turn of the server, where no more than the client has said is on the way. It was
Established before `Continue`, so the end of `Continue` fails an assertion. -/
theorem server_moves {e : Socks5Handshake.Event} (valid : Target text target) (fits : FitsServer target)
    (here : ServerAt target got sent h) (admits : h.Admits e) (hears : ServerHears way e)
    (soon : got ++ way <+: greeting ++ request target) (early : sent = [] → (got ++ way).length ≤ 3) :
    (∃ b, e = .read (some b) ∧ h.flow.negotiationState = .readingVersion ∧ b.size < 3 ∧ serverWrites text e h = .error .assertion) ∨
      (∃ success, e = .nextContinued success ∧ h.step text e = .error .assertion) ∨
      ServerMoves text target got sent e h := by
  have event := server_event admits
  have within : ∀ {b : Buffer}, Arrives b way → got ++ b.content <+: greeting ++ request target := fun arrives =>
    ((List.prefix_append_right_inj got).mpr arrives.first).trans soon
  cases here with
  | created =>
    obtain rfl := event
    refine Or.inr (Or.inr ⟨[], _, rfl, rfl, .opening rfl rfl rfl rfl, ?_⟩)
    simp only [serverRank, serverReads, Socks5Handshake.init, List.length_nil]
    omega
  | opening stage fresh version state =>
    rw [stage] at event
    obtain ⟨success, rfl⟩ := event
    obtain rfl : success = true := hears
    refine Or.inr (Or.inr ⟨[], { h with stage := .reading }, rfl, rfl, ?_, ?_⟩)
    · have reads := @ServerAt.readsGreeting target { h with stage := .reading } rfl version state (by rw [fresh]; decide)
      rwa [fresh] at reads
    · simp only [serverRank, serverReads, stage, version, List.length_nil]
      omega
  | readsGreeting stage version state short =>
    rw [stage] at event
    obtain ⟨data, rfl⟩ := event
    obtain ⟨b, rfl, arrives⟩ := hears
    have all : h.flow.pendingAuth ++ b.content <+: greeting := by
      have length := ((List.prefix_append_right_inj h.flow.pendingAuth).mpr arrives.first).length_le.trans (early rfl)
      exact List.prefix_of_prefix_length_le (within arrives) (List.prefix_append _ _) length
    rcases server_greeted stage version state arrives all with ⟨cut, failed⟩ | moves
    · exact Or.inl ⟨b, rfl, version, cut, failed⟩
    · exact Or.inr (Or.inr moves)
  | replying stage fresh state =>
    rw [stage] at event
    obtain ⟨success, rfl⟩ := event
    obtain rfl : success = true := hears
    have reads := @ServerAt.readsRequest target ⟨{ h.flow with negotiationState := .readingRequest }, .reading⟩ rfl rfl state
      (by
        have length := (@Encodable.length (hostOf target) target.port (request_encodable valid fits)).1
        rw [fresh]
        exact Nat.lt_of_lt_of_le (by decide) length)
    rw [fresh] at reads
    refine Or.inr (Or.inr ⟨[], _, rfl, rfl, reads, ?_⟩)
    simp only [serverRank, serverReads, Socks5Handshake.Stage.after, stage, List.length_nil]
    omega
  | readsRequest stage asked state short =>
    rw [stage] at event
    obtain ⟨data, rfl⟩ := event
    obtain ⟨b, rfl, arrives⟩ := hears
    have all : h.flow.pendingAuth ++ b.content <+: request target := by
      have all := within arrives
      rwa [List.append_assoc, List.prefix_append_right_inj] at all
    exact Or.inr (Or.inr (server_asked valid fits stage asked state arrives all))
  | opened stage named state =>
    rw [stage] at event
    obtain rfl := event
    obtain ⟨next, b, made, content⟩ := response_eq ((⟨hostOf target, target.port⟩ : SessionEndpoint).build text)
    rw [reply_same (build_same valid)] at content
    refine Or.inr (Or.inr ⟨reply target, { h with stage := .responding }, ?_, ?_, ?_, ?_⟩)
    · rw [serverWrites, named, ← content]
      simp only [deref_some, made, ok_bind, pure_eq_ok]
    · simp only [Socks5Handshake.step, Socks5Handshake.callContinue, named, deref_some, made, ok_bind, pure_eq_ok]
    · show ServerAt target (greeting ++ request target ++ []) _ _
      rw [List.append_nil]
      exact .responding rfl named state
    · simp only [serverRank, serverReads, stage, List.length_nil]
      omega
  | responding stage named state =>
    rw [stage] at event
    obtain ⟨success, rfl⟩ := event
    obtain rfl : success = true := hears
    refine Or.inr (Or.inr ⟨[], { h with stage := .continuing }, rfl, rfl, ?_, ?_⟩)
    · show ServerAt target (greeting ++ request target ++ []) _ _
      rw [List.append_nil, List.append_nil]
      exact .continuing rfl named state
    · simp only [serverRank, serverReads, stage, List.length_nil]
      omega
  | continuing stage named state =>
    rw [stage] at event
    obtain ⟨success, rfl⟩ := event
    obtain rfl : success = true := hears
    have again : h.flow.stateMachine.connected = .error .assertion := by
      rw [FlowStateMachine.connected, boostAssert, if_neg (by simp [state])]
      rfl
    refine Or.inr (Or.inl ⟨true, rfl, ?_⟩)
    rw [Socks5Handshake.step, Socks5Handshake.onNextContinued, if_neg (by simp), again]
    rfl

end LibNekit.Guarantees.Socks5Turns
