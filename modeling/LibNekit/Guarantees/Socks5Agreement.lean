import LibNekit.Guarantees.Socks5Turns
import LibNekit.Library.Ranked

/-!
# A SOCKS5 client and server agree

However the turns of the two flows interleave and however the stream is cut, the client's
target becomes the server's endpoint, and the client's Connect succeeds after a bounded
number of turns. Only the greeting must come in one piece: a server that gets it in more
fails an assertion. And the server never comes to the end of `Continue`: it was Established
before, and fails an assertion there.
-/
namespace LibNekit.Guarantees.Socks5Agreement

open LibNekit.Source LibNekit.Library LibNekit.Source.Buffer LibNekit.Source.Socks5Dialogue
open LibNekit.Guarantees.Socks5Request LibNekit.Guarantees.Socks5Encoding LibNekit.Guarantees.Socks5Turns

open Socks5EarlyData (Waits)
open Socks5DataFlow (Phase)

variable {text : AddressText} {target : Endpoint} {sent got way : Bytes} {f : Socks5DataFlow} {h : Socks5Handshake}
  {phase : Phase} {next : Nat} {b : Buffer}

/-! ## The dialogue -/

/-- What one side has sent is what the other has got and what is on the way. -/
def Talks (target : Endpoint) (d : Socks5Dialogue) : Prop :=
  ∃ asked heard taken told, ClientAt target asked heard d.client ∧ ServerAt target taken told d.server ∧
    asked = taken ++ d.toServer ∧ told = heard ++ d.toClient

/-- The end of the server's `Continue`. -/
def Continued (turn : Turn) : Prop := ∃ success, turn = .server (.nextContinued success)

/-- The greeting comes in one piece, and the server does not come to the end of `Continue`. -/
structure Unbroken (turn : Turn) (d : Socks5Dialogue) : Prop where
  greeting : ∀ b, turn = .server (.read (some b)) → d.server.flow.negotiationState = .readingVersion → 3 ≤ b.size
  goesOn : ¬Continued turn

/-- Both sides mean the same endpoint, and the client is through once the server has answered. -/
structure Agrees (text : AddressText) (target : Endpoint) (d : Socks5Dialogue) : Prop where
  alive : d.server.stage ≠ .failed
  opened : d.server.stage ∈ [.opened, .responding, .continuing] →
    ∃ endpoint, d.server.flow.endpoint = some endpoint ∧ SameTarget (endpoint.build text) target
  finished : ∀ result, d.client.stage = .finished result → result = .success ∧
    d.server.stage ∈ [.responding, .continuing] ∧ d.toServer = [] ∧ d.toClient = []

/-- What is ahead of both sides and on the way. -/
def rank (target : Endpoint) (d : Socks5Dialogue) : Nat :=
  clientRank target d.client.stage + serverRank target d.server + d.toServer.length + d.toClient.length

theorem client_said (here : ClientAt target sent got f) : sent = [] ∧ got = [] ∨ sent = greeting ∨
    sent = greeting ++ request target ∧ 2 ≤ got.length := by
  cases here with
  | created | connecting => exact Or.inl ⟨rfl, rfl⟩
  | greets | readsMethod | hasMethod => exact Or.inr (Or.inl rfl)
  | requesting => exact Or.inr (Or.inr ⟨rfl, Nat.le_refl 2⟩)
  | _ =>
    refine Or.inr (Or.inr ⟨rfl, ?_⟩)
    rw [List.length_append]
    exact Nat.le_add_right _ _

theorem server_said (here : ServerAt target got sent h) : sent = [] ∨ sent = [5, 0] ∨
    sent = [5, 0] ++ reply target ∧ got = greeting ++ request target := by
  cases here with
  | created | opening | readsGreeting => exact Or.inl rfl
  | replying | readsRequest | opened => exact Or.inr (Or.inl rfl)
  | responding | continuing => exact Or.inr (Or.inr ⟨rfl, rfl⟩)

theorem request_nonempty (target : Endpoint) : 0 < (request target).length := by
  rw [request, length_requestBytes]
  omega

section Talk

variable {asked heard taken told toServer toClient : Bytes}

/-- No more than the server's part is on the way to the client. -/
theorem toClient_bounds (server : ServerAt target taken told h)
    (sent : asked = taken ++ toServer) (answered : told = heard ++ toClient) :
    heard ++ toClient <+: [5, 0] ++ reply target ∧ (asked = greeting → (heard ++ toClient).length ≤ 2) := by
  rw [← answered]
  rcases server_said server with rfl | rfl | ⟨rfl, rfl⟩
  · exact ⟨List.nil_prefix, fun _ => Nat.zero_le 2⟩
  · exact ⟨List.prefix_append _ _, fun _ => Nat.le_refl 2⟩
  · refine ⟨List.prefix_refl _, fun early => ?_⟩
    have some_byte := request_nonempty target
    have lengths := congrArg List.length (sent.symm.trans early)
    simp only [List.length_append] at lengths
    omega

/-- No more than the client's part is on the way to the server. -/
theorem toServer_bounds (client : ClientAt target asked heard f)
    (sent : asked = taken ++ toServer) (answered : told = heard ++ toClient) :
    taken ++ toServer <+: greeting ++ request target ∧ (told = [] → (taken ++ toServer).length ≤ 3) := by
  rw [← sent]
  rcases client_said client with ⟨rfl, rfl⟩ | rfl | ⟨rfl, some_heard⟩
  · exact ⟨List.nil_prefix, fun _ => Nat.zero_le 3⟩
  · exact ⟨List.prefix_append _ _, fun _ => Nat.le_refl 3⟩
  · refine ⟨List.prefix_refl _, fun early => ?_⟩
    have lengths := congrArg List.length (answered.symm.trans early)
    rw [List.length_append, List.length_nil] at lengths
    omega

end Talk

/-- What is read off a stream is its first bytes. -/
theorem read_off {bytes way taken : Bytes} (first : bytes <+: way) : taken ++ bytes ++ way.drop bytes.length = taken ++ way := by
  obtain ⟨rest, rfl⟩ := first
  rw [List.drop_left, List.append_assoc]

theorem clientReads_first {e : Socks5DataFlow.Event} (hears : ClientHears way e) : clientReads e <+: way := by
  cases e with
  | read next data =>
    obtain ⟨b, rfl, arrives⟩ := hears
    exact arrives.first
  | _ => exact List.nil_prefix

theorem serverReads_first {e : Socks5Handshake.Event} (hears : ServerHears way e) : serverReads e <+: way := by
  cases e with
  | read data =>
    obtain ⟨b, rfl, arrives⟩ := hears
    exact arrives.first
  | _ => exact List.nil_prefix

/-- One turn of either side. -/
theorem talks_step {turn : Turn} {d : Socks5Dialogue} (valid : Target text target) (fits : FitsServer target)
    (talks : Talks target d) (admits : Admits turn d) :
    (step text turn d = .error .assertion ∧ ¬Unbroken turn d) ∨
      ∃ d', step text turn d = .ok d' ∧ Talks target d' ∧ rank target d' < rank target d := by
  obtain ⟨asked, heard, taken, told, client, server, sent, answered⟩ := talks
  cases turn with
  | client e =>
    obtain ⟨admits, hears⟩ := admits
    obtain ⟨soon, early⟩ := toClient_bounds server sent answered
    obtain ⟨f', stepped, here, falls⟩ := client_moves valid client admits hears soon early
    have first := clientReads_first hears
    have length := first.length_le
    refine Or.inr ⟨⟨f', d.server, d.toServer ++ clientWrites f', d.toClient.drop (clientReads e).length⟩, ?_,
      ⟨asked ++ clientWrites f', heard ++ clientReads e, taken, told, here, server, ?_, ?_⟩, ?_⟩
    · rw [step, stepped]
      rfl
    · rw [sent, List.append_assoc]
    · rw [read_off first, answered]
    · simp only [rank, List.length_append, List.length_drop]
      omega
  | server e =>
    obtain ⟨admits, hears⟩ := admits
    obtain ⟨soon, early⟩ := toServer_bounds client sent answered
    rcases server_moves valid fits server admits hears soon early with
      ⟨b, rfl, version, cut, failed⟩ | ⟨success, rfl, failed⟩ | ⟨writes, h', wrote, stepped, here, falls⟩
    · refine Or.inl ⟨?_, fun unbroken => absurd (unbroken.greeting b rfl version) (Nat.not_le.mpr cut)⟩
      rw [step, failed]
      rfl
    · refine Or.inl ⟨?_, fun unbroken => unbroken.goesOn ⟨success, rfl⟩⟩
      have silent : serverWrites text (.nextContinued success) d.server = .ok [] := rfl
      rw [step, silent, ok_bind, failed]
      rfl
    · have first := serverReads_first hears
      have length := first.length_le
      refine Or.inr ⟨⟨d.client, h', d.toServer.drop (serverReads e).length, d.toClient ++ writes⟩, ?_,
        ⟨asked, heard, taken ++ serverReads e, told ++ writes, client, here, ?_, ?_⟩, ?_⟩
      · simp only [step, wrote, stepped, ok_bind, pure_eq_ok]
      · rw [read_off first, sent]
      · rw [answered, List.append_assoc]
      · simp only [rank, List.length_append, List.length_drop]
        omega

theorem client_over {result : Socks5DataFlow.ConnectResult} (here : ClientAt target sent got f)
    (ended : f.stage = .finished result) : result = .success ∧ sent = greeting ++ request target ∧ got = [5, 0] ++ reply target := by
  cases here with
  | created => cases ended
  | connecting goal stage | greets goal stage | requesting stage =>
    rw [stage] at ended
    cases ended
  | readsMethod goal waits | readsReply waits | readsRest waits =>
    rw [waits.stage] at ended
    cases ended
  | hasMethod goal posts | hasReply posts | hasRest posts =>
    obtain ⟨b, stage, -⟩ := posts
    rw [stage] at ended
    cases ended
  | finished stage =>
    rw [stage] at ended
    cases ended
    exact ⟨rfl, rfl, rfl⟩

theorem server_over (here : ServerAt target got sent h) (all : sent = [5, 0] ++ reply target) :
    h.stage = .responding ∨ h.stage = .continuing := by
  have long := (reply_length target).1
  cases here with
  | responding stage => exact Or.inl stage
  | continuing stage => exact Or.inr stage
  | _ =>
    have lengths := congrArg List.length all
    rw [List.length_append] at lengths
    simp only [List.length_cons, List.length_nil] at lengths
    omega

theorem server_named (here : ServerAt target got sent h) : h.stage ≠ .failed ∧
    (h.stage ∈ [.opened, .responding, .continuing] → h.flow.endpoint = some ⟨hostOf target, target.port⟩) := by
  cases here with
  | created => exact ⟨by decide, fun opened => absurd opened (by decide)⟩
  | opened stage named | responding stage named | continuing stage named =>
    rw [stage]
    exact ⟨by decide, fun _ => named⟩
  | opening stage | readsGreeting stage | replying stage | readsRequest stage =>
    rw [stage]
    exact ⟨by decide, fun opened => absurd opened (by decide)⟩

theorem Talks.agrees {d : Socks5Dialogue} (valid : Target text target) (talks : Talks target d) : Agrees text target d := by
  obtain ⟨asked, heard, taken, told, client, server, sent, answered⟩ := talks
  obtain ⟨alive, named⟩ := server_named server
  refine ⟨alive, fun opened => ⟨_, named opened, build_same valid⟩, fun result ended => ?_⟩
  obtain ⟨rfl, rfl, rfl⟩ := client_over client ended
  have told_length := congrArg List.length answered
  have long := (reply_length target).1
  rcases server_said server with rfl | rfl | ⟨rfl, rfl⟩
  · simp only [List.length_append, List.length_cons, List.length_nil] at told_length
    omega
  · simp only [List.length_append, List.length_cons, List.length_nil] at told_length
    omega
  · refine ⟨rfl, ?_, List.self_eq_append_right.mp sent, List.self_eq_append_right.mp answered⟩
    rcases server_over server rfl with stage | stage
    · rw [stage]
      decide
    · rw [stage]
      decide

/-! ## Somebody can go on -/

theorem exists_above (addrs : List Nat) : ∃ next, ∀ a ∈ addrs, a < next := by
  induction addrs with
  | nil => exact ⟨0, nofun⟩
  | cons first rest ih =>
    obtain ⟨next, above⟩ := ih
    refine ⟨max next (first + 1), fun a member => ?_⟩
    rcases List.mem_cons.mp member with rfl | later
    · omega
    · have := above a later
      omega

/-- All that is on the way, in one Buffer at a new address. -/
theorem pieceOf_arrives (addr : Nat) (some_bytes : 0 < way.length) : Arrives (pieceOf addr way) way where
  wf := ⟨by simpa [pieceOf] using ⟨some_bytes, by simp [Buf.capacity]⟩, by simp [pieceOf, addrs], by simp [pieceOf], rfl⟩
  straight := by simp [Straight, pieceOf]
  nonempty := some_bytes
  first := by
    have content : (pieceOf addr way).content = way := by simp [pieceOf, content, Buf.bytes]
    rw [content]

/-- A read at a new address is admitted. -/
theorem reads_admitted (stage : f.stage = .reading phase) (above : ∀ a ∈ f.held, a < next) (some_bytes : 0 < way.length)
    (room : f.streamReader.buffer.size + way.length < sizeRange) :
    f.Admits (.read (next + 1) (some (pieceOf next way))) := by
  simp only [Socks5DataFlow.Admits, stage]
  refine ⟨fun a member => Nat.lt_succ_of_lt (above a member), ?_⟩
  rintro _ ⟨⟩
  refine ⟨(@pieceOf_arrives way next some_bytes).wf, by simp [Below, addrs, pieceOf], fun a member => ?_, room⟩
  have := above a member
  simp only [addrs, pieceOf, List.map_cons, List.map_nil, List.mem_singleton]
  omega

theorem writes_admitted {success : Bool} (stage : f.stage = .greeting b ∨ f.stage = .requesting b)
    (above : ∀ a ∈ f.held, a < next) : f.Admits (.written next success) := by
  rcases stage with stage | stage <;> simpa only [Socks5DataFlow.Admits, stage] using above

theorem tasks_admitted (stage : f.stage = .posted phase b) (above : ∀ a ∈ f.held, a < next) : f.Admits (.runTask next) := by
  simpa only [Socks5DataFlow.Admits, stage] using above

/-- A client that waits for its server to speak. -/
def Listens (f : Socks5DataFlow) (toClient : Bytes) : Prop := toClient = [] ∧ ∃ phase, f.stage = .reading phase

theorem client_goes_on (here : ClientAt target sent got f) (few : way.length < 2 ^ 32) :
    f.stage = .finished .success ∨ Listens f way ∨ ∃ e, f.Admits e ∧ ClientHears way e := by
  obtain ⟨next, above⟩ := exists_above f.held
  have reading : ∀ {phase n bytes}, Waits phase n bytes f → n < 2 ^ 32 →
      f.stage = .finished .success ∨ Listens f way ∨ ∃ e, f.Admits e ∧ ClientHears way e := by
    intro phase n bytes waits small
    by_cases nothing : way = []
    · exact Or.inr (Or.inl ⟨nothing, phase, waits.stage⟩)
    · have some_bytes := List.length_pos_iff.mpr nothing
      have size := waits.built.size_eq
      have short := waits.short
      exact Or.inr (Or.inr ⟨.read (next + 1) (some (pieceOf next way)),
        reads_admitted waits.stage above some_bytes (by unfold sizeRange; omega), _, rfl, pieceOf_arrives next some_bytes⟩)
  cases here with
  | created => exact Or.inr (Or.inr ⟨.callConnect, trivial, trivial⟩)
  | connecting goal stage =>
    refine Or.inr (Or.inr ⟨.nextConnected next true, ?_, rfl⟩)
    simp only [Socks5DataFlow.Admits, stage]
  | greets goal stage => exact Or.inr (Or.inr ⟨.written next true, writes_admitted (Or.inl stage) above, rfl⟩)
  | requesting stage => exact Or.inr (Or.inr ⟨.written next true, writes_admitted (Or.inr stage) above, rfl⟩)
  | readsMethod goal waits => exact reading waits (by decide)
  | readsReply waits => exact reading waits (by decide)
  | readsRest waits =>
    have length := (reply_length target).2
    refine reading waits ?_
    rw [List.length_drop]
    omega
  | hasMethod goal posts | hasReply posts | hasRest posts =>
    obtain ⟨b, stage, -⟩ := posts
    exact Or.inr (Or.inr ⟨.runTask next, tasks_admitted stage above, trivial⟩)
  | finished stage => exact Or.inl stage

/-- A client that listens has not heard all that there is to hear. -/
theorem listens_said (here : ClientAt target sent got f) (listens : Listens f way) :
    sent = greeting ∧ got.length < 2 ∨ sent = greeting ++ request target ∧ got.length < 2 + (reply target).length := by
  obtain ⟨-, phase, stage⟩ := listens
  have long := (reply_length target).1
  cases here with
  | created => cases stage
  | connecting goal other | greets goal other | requesting other | finished other =>
    rw [other] at stage
    cases stage
  | hasMethod goal posts | hasReply posts | hasRest posts =>
    obtain ⟨b, other, -⟩ := posts
    rw [other] at stage
    cases stage
  | readsMethod goal waits => exact Or.inl ⟨rfl, waits.short⟩
  | readsReply waits =>
    have short := waits.short
    refine Or.inr ⟨rfl, ?_⟩
    simp only [List.length_append, List.length_cons, List.length_nil]
    omega
  | readsRest waits =>
    have short := waits.short
    refine Or.inr ⟨rfl, ?_⟩
    simp only [List.length_drop, List.length_append, List.length_cons, List.length_nil, List.length_take] at short ⊢
    omega

/-- A server that has nothing to do has not heard all there is to hear, or has answered. -/
theorem server_goes_on (here : ServerAt target got sent h) :
    (∃ e, h.Admits e ∧ ServerHears way e ∧ ¬Continued (.server e)) ∨
    way = [] ∧ (sent = [] ∧ got.length < 3 ∨ sent = [5, 0] ∧ got.length < (greeting ++ request target).length) ∨
    sent = [5, 0] ++ reply target := by
  have reads : h.stage = .reading → way ≠ [] → ∃ e, h.Admits e ∧ ServerHears way e ∧ ¬Continued (.server e) :=
    fun stage some_bytes => ⟨.read (some (pieceOf 0 way)), stage,
      ⟨_, rfl, pieceOf_arrives 0 (List.length_pos_iff.mpr some_bytes)⟩, nofun⟩
  cases here with
  | created => exact Or.inl ⟨.callOpen, rfl, trivial, nofun⟩
  | opening stage => exact Or.inl ⟨.nextOpened true, stage, rfl, nofun⟩
  | readsGreeting stage version state short =>
    by_cases nothing : way = []
    · exact Or.inr (Or.inl ⟨nothing, Or.inl ⟨rfl, short⟩⟩)
    · exact Or.inl (reads stage nothing)
  | replying stage => exact Or.inl ⟨.replyWritten true, stage, rfl, nofun⟩
  | readsRequest stage asked state short =>
    by_cases nothing : way = []
    · refine Or.inr (Or.inl ⟨nothing, Or.inr ⟨rfl, ?_⟩⟩)
      rw [List.length_append, List.length_append]
      exact Nat.add_lt_add_left short _
    · exact Or.inl (reads stage nothing)
  | opened stage => exact Or.inl ⟨.callContinue, stage, trivial, nofun⟩
  | responding stage | continuing stage => exact Or.inr (Or.inr rfl)

/-- Until the client is through, it is somebody's turn, and not only the last of the server. -/
theorem Talks.goes_on {d : Socks5Dialogue} (talks : Talks target d) :
    d.client.stage = .finished .success ∨ ∃ turn, Admits turn d ∧ ¬Continued turn := by
  obtain ⟨asked, heard, taken, told, client, server, sent, answered⟩ := talks
  have few : d.toClient.length < 2 ^ 32 := by
    have within := (toClient_bounds server sent answered).1.length_le
    have length := (reply_length target).2
    simp only [List.length_append, List.length_cons, List.length_nil] at within
    omega
  rcases client_goes_on client few with ended | listens | ⟨e, admits, hears⟩
  · exact Or.inl ended
  · rcases @server_goes_on target told taken d.toServer d.server server with ⟨e, admits, hears, other⟩ | stuck
    · exact Or.inr ⟨.server e, ⟨admits, hears⟩, other⟩
    · have said := listens_said client listens
      rw [listens.1, List.append_nil] at answered
      obtain rfl := answered
      have three : greeting.length = 3 := rfl
      rcases stuck with ⟨nothing, silent⟩ | rfl
      · rw [nothing, List.append_nil] at sent
        obtain rfl := sent
        rcases said with ⟨rfl, short⟩ | ⟨rfl, -⟩
        · rcases silent with ⟨-, less⟩ | ⟨rfl, -⟩
          · exact absurd less (by decide)
          · exact absurd short (by decide)
        · have some_byte := request_nonempty target
          rcases silent with ⟨-, less⟩ | ⟨-, less⟩
          · rw [List.length_append] at less
            omega
          · exact absurd less (Nat.lt_irrefl _)
      · rcases said with ⟨-, short⟩ | ⟨-, short⟩
        · rw [List.length_append] at short
          exact absurd short (Nat.not_lt.mpr (Nat.le_add_right _ _))
        · rw [List.length_append] at short
          exact absurd short (Nat.lt_irrefl _)
  · exact Or.inr ⟨.client e, ⟨admits, hears⟩, nofun⟩

theorem talks_init (target : Endpoint) : Talks target (init target) :=
  ⟨[], [], [], [], .created, .created, rfl, rfl⟩

/-- Every interleaving of the two flows and every cut of the stream: no assertion fails unless the
greeting is cut or the server comes to the end of `Continue`, where one always does; both mean the
same endpoint, the turns are bounded, and there is always another one to take until the client's
Connect has succeeded. -/
theorem dialogue_agrees (text : AddressText) (target : Endpoint) (turns : List Turn) (valid : Target text target)
    (fits : FitsServer target) (admitted : (machine text).Admitted turns (init target)) :
    ((machine text).run turns (init target) = .error .assertion ∧ ¬(machine text).Along Unbroken turns (init target)) ∨
      ∃ d, (machine text).run turns (init target) = .ok d ∧ Agrees text target d ∧
        turns.length ≤ (request target).length + (reply target).length + 22 ∧
          (d.client.stage = .finished .success ∨ ∃ turn, Admits turn d ∧ ¬Continued turn) := by
  rcases Machine.run_invariant_or_breaks (Talks target) (· = .assertion) Unbroken
    (fun turn d talks admits => by
      rcases talks_step valid fits talks admits with ⟨failed, cut⟩ | ⟨d', stepped, talks', -⟩
      · exact Or.inl ⟨_, failed, rfl, cut⟩
      · exact Or.inr ⟨d', stepped, talks'⟩)
    turns (init target) (talks_init target) admitted with ⟨e, failed, rfl, cut⟩ | ⟨d, ran, talks⟩
  · exact Or.inl ⟨failed, cut⟩
  · refine Or.inr ⟨d, ran, talks.agrees valid, ?_, talks.goes_on⟩
    have used := Machine.run_uses (Talks target) (rank target)
      (fun turn d d' talks admits stepped => by
        rcases talks_step valid fits talks admits with ⟨failed, -⟩ | ⟨d₁, stepped₁, talks', falls⟩
        · exact absurd (failed.symm.trans stepped) nofun
        · obtain rfl := Except.ok.inj (stepped₁.symm.trans stepped)
          exact ⟨talks', falls⟩)
      turns (init target) d (talks_init target) admitted ran
    have start : rank target (init target) = 13 + (request target).length + (9 + (reply target).length) := rfl
    omega

/-- The domain `a.b`, port 80. -/
def shortTarget : Endpoint := ⟨.domain, [97, 46, 98], none, 80⟩

/-- The server answers before the client hears that its greeting is written, and the method
reply is read in two pieces. -/
def shortDialogue : List Turn :=
  [.client .callConnect, .client (.nextConnected 0 true), .server .callOpen, .server (.nextOpened true),
    .server (.read (some (pieceOf 0 greeting))), .client (.written 1 true), .client (.read 2 (some (pieceOf 1 [5]))),
    .server (.replyWritten true), .client (.read 3 (some (pieceOf 2 [0]))), .client (.runTask 3),
    .server (.read (some (pieceOf 0 (request shortTarget)))), .client (.written 9 true), .server .callContinue,
    .client (.read 11 (some (pieceOf 10 (reply shortTarget)))), .client (.runTask 12), .client (.runTask 13)]

theorem shortDialogue_runs : (machine Socks5HandshakeStates.noText).Runs shortDialogue (init shortTarget) fun d =>
    d.client.stage = .finished .success := by
  have arrives : ∀ addr (way rest : Bytes), 0 < way.length → Arrives (pieceOf addr way) (way ++ rest) := fun addr way rest some_bytes =>
    have whole := @pieceOf_arrives way addr some_bytes
    ⟨whole.wf, whole.straight, whole.nonempty, whole.first.trans (List.prefix_append _ _)⟩
  refine .cons ⟨trivial, trivial⟩ rfl ?_
  refine .cons ⟨trivial, rfl⟩ rfl ?_
  refine .cons ⟨rfl, trivial⟩ rfl ?_
  refine .cons ⟨rfl, rfl⟩ rfl ?_
  refine .cons ⟨rfl, _, rfl, arrives 0 greeting [] (by decide)⟩ rfl ?_
  refine .cons ⟨writes_admitted (Or.inl rfl) (by decide +kernel), rfl⟩ rfl ?_
  refine .cons ⟨reads_admitted rfl (by decide +kernel) (by decide) (by decide +kernel), _, rfl, arrives 1 [5] [0] (by decide)⟩ rfl ?_
  refine .cons ⟨rfl, rfl⟩ rfl ?_
  refine .cons ⟨reads_admitted rfl (by decide +kernel) (by decide) (by decide +kernel), _, rfl, arrives 2 [0] [] (by decide)⟩ rfl ?_
  refine .cons ⟨tasks_admitted rfl (by decide +kernel), trivial⟩ rfl ?_
  refine .cons ⟨rfl, _, rfl, arrives 0 (request shortTarget) [] (by decide)⟩ rfl ?_
  refine .cons ⟨writes_admitted (Or.inr rfl) (by decide +kernel), rfl⟩ rfl ?_
  refine .cons ⟨rfl, trivial⟩ rfl ?_
  refine .cons ⟨reads_admitted rfl (by decide +kernel) (by decide) (by decide +kernel), _, rfl,
    arrives 10 (reply shortTarget) [] (by decide)⟩ rfl ?_
  refine .cons ⟨tasks_admitted rfl (by decide +kernel), trivial⟩ rfl ?_
  exact .cons ⟨tasks_admitted rfl (by decide +kernel), trivial⟩ rfl ⟨trivial, _, rfl, rfl⟩

theorem dialogue_agrees_short : ∃ d, (machine Socks5HandshakeStates.noText).run shortDialogue (init shortTarget) = .ok d ∧
    d.client.stage = .finished .success ∧ Agrees Socks5HandshakeStates.noText shortTarget d := by
  obtain ⟨admitted, d, ran, ended⟩ := shortDialogue_runs
  rcases dialogue_agrees Socks5HandshakeStates.noText shortTarget shortDialogue ⟨by decide, by decide, rfl⟩
    (fun _ => by decide) admitted with ⟨failed, -⟩ | ⟨d', ran', agrees, -, -⟩
  · exact absurd (failed.symm.trans ran) nofun
  · obtain rfl := Except.ok.inj (ran.symm.trans ran')
    exact ⟨d, ran, ended, agrees⟩

end LibNekit.Guarantees.Socks5Agreement
