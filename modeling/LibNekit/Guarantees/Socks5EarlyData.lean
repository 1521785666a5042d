import LibNekit.Guarantees.Socks5Encoding
import Mathlib.Data.List.Flatten

/-!
# What the SOCKS5 client does with the first bytes of the server

The reader takes whole reads. What came behind the connect reply in its last read is
in the reader when the negotiation ends, and the flow then gives up. So the bytes of
the application arrive exactly when the reply ends where a read ends.
-/
namespace LibNekit.Guarantees.Socks5EarlyData

open LibNekit.Source LibNekit.Library LibNekit.Source.Buffer LibNekit.Source.Socks5DataFlow
open LibNekit.Guarantees.Socks5Greeting LibNekit.Guarantees.Socks5Encoding
open LibNekit.Guarantees.Socks5Request LibNekit.Guarantees.Socks5HandshakeStates

/-- `05 00 00`, an address type with the bytes that belong to it, and a port. -/
def ConnectReply (reply : Bytes) : Prop :=
  ∃ type length rest, reply = [5, 0, 0, type, length] ++ rest ∧ remaining type length = some rest.length

/-- Reads of a socket: new straight Buffers, none of them empty, that fit together. -/
structure Received (next : Nat) (reads : List Buffer) : Prop where
  delivered : ∀ b ∈ reads, Delivered b
  straight : ∀ b ∈ reads, b.Straight
  below : ∀ b ∈ reads, b.Below next
  apart : reads.Pairwise fun a b => ∀ x ∈ a.addrs, x ∉ b.addrs
  fits : (reads.flatMap content).length < sizeRange

def reads (next : Nat) (buffers : List Buffer) : List Event :=
  buffers.map fun b => .read next (some b)

/-- The run of `Connect` until the request is written, with the reads of the method
reply. -/
def opening (next : Nat) (method : List Buffer) : List Event :=
  [.callConnect, .nextConnected next true, .written next true] ++
    (reads next method ++ [.runTask (next + 1), .written (next + 1) true])

/-- The reads that the last two calls of `ReadToLength` get. -/
def negotiation (next : Nat) (method first second : List Buffer) : List Event :=
  opening next method ++ (reads (next + 1) first ++ .runTask (next + 2) ::
    (reads (next + 3) second ++ [.runTask (next + 4)]))

def init (target : Endpoint) : Socks5DataFlow := { targetEndpoint := target }

/-- Connect succeeds with some of the reads, and those that are left to `Read` deliver
exactly `data`. -/
def LosesNothing (next : Nat) (target : Endpoint) (method received : List Buffer) (data : Bytes) : Prop :=
  ∃ first second later f, received = first ++ second ++ later ∧
    machine.Admitted (negotiation next method first second) (init target) ∧
    machine.run (negotiation next method first second) (init target) = .ok f ∧
    f.stage = .finished .success ∧ later.flatMap content = data

/-! ## Reading to a length -/

/-- `ReadToLength` waits for more. -/
structure Waits (phase : Phase) (n : Nat) (bytes : Bytes) (f : Socks5DataFlow) : Prop where
  stage : f.stage = .reading phase
  length : f.streamReader.lengthToRead = n
  built : Built f.streamReader.buffer bytes
  short : bytes.length < n

/-- It has handed `front` over and keeps `back`. -/
def Posts (phase : Phase) (front back : Bytes) (f : Socks5DataFlow) : Prop :=
  ∃ b, f.stage = .posted phase b ∧ Built b front ∧ Built f.streamReader.buffer back

/-- The last of the reads, and no other, completes `n` bytes. -/
def Reaches (n : Nat) : Bytes → List Buffer → Prop
  | _, [] => False
  | bytes, b :: rest =>
    if n ≤ (bytes ++ b.content).length then rest = [] else Reaches n (bytes ++ b.content) rest

/-- The reads can go to the flow: they are new to it. -/
structure Welcome (next : Nat) (bytes : Bytes) (f : Socks5DataFlow) (buffers : List Buffer) : Prop where
  received : Received next buffers
  below : ∀ a ∈ f.held, a < next
  new : ∀ b ∈ buffers, ∀ a ∈ f.held, a ∉ b.addrs
  room : bytes.length + (buffers.flatMap content).length < sizeRange

/-- Where the chunks that `f'` holds come from. -/
structure Follows (f : Socks5DataFlow) (buffers : List Buffer) (next : Nat) (f' : Socks5DataFlow) :
    Prop where
  target : f'.targetEndpoint = f.targetEndpoint
  origin : ∀ a ∈ f'.held, a ∈ f.held ∨ (∃ b ∈ buffers, a ∈ b.addrs) ∨ a = next

variable {f : Socks5DataFlow} {phase : Phase} {n next : Nat} {bytes : Bytes} {b : Buffer}
  {buffers : List Buffer}

theorem held_reading (stage : f.stage = .reading phase) : f.held = f.streamReader.buffer.addrs := by
  simp [held, stage]

theorem Reaches.enough (reaches : Reaches n bytes buffers) :
    n ≤ (bytes ++ buffers.flatMap content).length := by
  induction buffers generalizing bytes with
  | nil => exact reaches.elim
  | cons b rest ih =>
    by_cases reached : n ≤ (bytes ++ b.content).length
    · rw [Reaches, if_pos reached] at reaches
      subst reaches
      simpa using reached
    · rw [Reaches, if_neg reached] at reaches
      simpa [List.append_assoc] using ih reaches

theorem Received.part {parts : List Buffer} (received : Received next buffers)
    (part : parts.Sublist buffers) {next' : Nat} (later : next ≤ next') : Received next' parts where
  delivered := fun b member => received.delivered b (part.subset member)
  straight := fun b member => received.straight b (part.subset member)
  below := fun b member a inB => Nat.lt_of_lt_of_le (received.below b (part.subset member) a inB) later
  apart := received.apart.sublist part
  fits := Nat.lt_of_le_of_lt (part.flatMap content).length_le received.fits

/-- Reads of enough bytes begin with some that reach the length. -/
theorem exists_reaches (enough : n ≤ (bytes ++ buffers.flatMap content).length)
    (short : bytes.length < n) : ∃ front back, buffers = front ++ back ∧ Reaches n bytes front := by
  induction buffers generalizing bytes with
  | nil =>
    simp at enough
    omega
  | cons b rest ih =>
    by_cases reached : n ≤ (bytes ++ b.content).length
    · exact ⟨[b], rest, rfl, by rw [Reaches, if_pos reached]⟩
    · obtain ⟨front, back, rfl, reaches⟩ := @ih (bytes ++ b.content)
        (by simpa [List.append_assoc] using enough) (by omega)
      exact ⟨b :: front, back, rfl, by rwa [Reaches, if_neg reached]⟩

theorem Welcome.built {rest : List Buffer} (welcome : Welcome next bytes f (b :: rest)) :
    Built b b.content :=
  ⟨(welcome.received.delivered b (by simp)).wf, welcome.received.straight b (by simp), rfl⟩

/-- A read is admitted and adds its bytes to those that wait. -/
theorem read_eq {rest : List Buffer} (waits : Waits phase n bytes f)
    (welcome : Welcome next bytes f (b :: rest)) :
    machine.admits (.read next (some b)) f ∧ ∃ buffer,
      machine.step (.read next (some b)) f =
        (do return f.follow phase (← StreamReader.doReadLength next { f.streamReader with buffer })) ∧
      Built buffer (bytes ++ b.content) ∧ ∀ a ∈ buffer.addrs, a ∈ f.held ∨ a ∈ b.addrs := by
  have heldEq := held_reading waits.stage
  have new := welcome.new b (by simp)
  have built := welcome.built
  have room := welcome.room
  simp only [List.flatMap_cons, List.length_append, built.wf.length_content] at room
  obtain ⟨buffer, ran, grown, addrs⟩ := @StreamReader.onData_eq next f.streamReader bytes b.content b
    waits.built built (by rwa [← heldEq])
  refine ⟨?_, buffer, ?_, grown, by rwa [heldEq]⟩
  · simp only [machine, Admits, waits.stage]
    refine ⟨welcome.below, ?_⟩
    rintro _ ⟨⟩
    have size := waits.built.size_eq
    exact ⟨built.wf, welcome.received.below b (by simp), new, by omega⟩
  · simp only [machine, step, waits.stage, onRead, ran]

/-- One read that is not enough. -/
theorem read_short {rest : List Buffer} (waits : Waits phase n bytes f)
    (welcome : Welcome next bytes f (b :: rest)) (short : (bytes ++ b.content).length < n) :
    machine.admits (.read next (some b)) f ∧ ∃ f', machine.step (.read next (some b)) f = .ok f' ∧
      Waits phase n (bytes ++ b.content) f' ∧ f'.targetEndpoint = f.targetEndpoint ∧
      ∀ a ∈ f'.held, a ∈ f.held ∨ a ∈ b.addrs := by
  obtain ⟨admits, buffer, ran, grown, addrs⟩ := read_eq waits welcome
  have waited := @StreamReader.doReadLength_short next { f.streamReader with buffer } _ grown
    (by rw [waits.length]; exact short)
  refine ⟨admits, f.follow phase ({ f.streamReader with buffer }, .read), ?_, ⟨rfl, waits.length, grown, short⟩,
    rfl, fun a member => ?_⟩
  · rw [ran, waited]
    rfl
  · rw [held_reading rfl] at member
    exact addrs a member

/-- The read that completes the length. -/
theorem read_enough {rest : List Buffer} (waits : Waits phase n bytes f)
    (welcome : Welcome next bytes f (b :: rest)) (enough : n ≤ (bytes ++ b.content).length) :
    machine.admits (.read next (some b)) f ∧ ∃ f', machine.step (.read next (some b)) f = .ok f' ∧
      Posts phase ((bytes ++ b.content).take n) ((bytes ++ b.content).drop n) f' ∧ Follows f [b] next f' := by
  obtain ⟨admits, buffer, ran, grown, addrs⟩ := read_eq waits welcome
  have room := welcome.room
  have length := waits.length
  have short := waits.short
  have below : buffer.Below next := by
    intro a member
    rcases addrs a member with old | new
    · exact welcome.below a old
    · exact welcome.received.below b (by simp) a new
  obtain ⟨front, back, posted, frontBuilt, backBuilt, origin⟩ :=
    @StreamReader.doReadLength_enough next { f.streamReader with buffer } _ grown below
      (by simp at room ⊢; omega) (by dsimp only; omega) (by rw [length]; exact enough)
  rw [length] at frontBuilt backBuilt
  refine ⟨admits, f.follow phase ({ f.streamReader with buffer := back }, .post front), ?_,
    ⟨front, rfl, frontBuilt, backBuilt⟩, rfl, fun a member => ?_⟩
  · rw [ran, posted]
    rfl
  · rcases origin a member with inBuffer | new
    · rcases addrs a inBuffer with old | inRead
      · exact Or.inl old
      · exact Or.inr (Or.inl ⟨b, by simp, inRead⟩)
    · exact Or.inr (Or.inr new)

/-- What is left of the reads is still new. -/
theorem Welcome.rest {rest : List Buffer} {f' : Socks5DataFlow} (welcome : Welcome next bytes f (b :: rest))
    (follows : ∀ a ∈ f'.held, a ∈ f.held ∨ a ∈ b.addrs) :
    Welcome next (bytes ++ b.content) f' rest := by
  have apart := List.pairwise_cons.mp welcome.received.apart
  have room := welcome.room
  have fits := welcome.received.fits
  simp only [List.flatMap_cons, List.length_append] at room fits
  refine ⟨⟨fun c member => welcome.received.delivered c (by simp [member]),
    fun c member => welcome.received.straight c (by simp [member]),
    fun c member => welcome.received.below c (by simp [member]), apart.2, by omega⟩, ?_, ?_,
    by rw [List.length_append]; omega⟩
  · intro a member
    rcases follows a member with old | new
    · exact welcome.below a old
    · exact welcome.received.below b (by simp) a new
  · intro c later a member
    rcases follows a member with old | new
    · exact welcome.new c (by simp [later]) a old
    · exact apart.1 c later a new

/-- Reads that reach the length are admitted, and their bytes are split at it. -/
theorem reads_reach (waits : Waits phase n bytes f) (welcome : Welcome next bytes f buffers)
    (reaches : Reaches n bytes buffers) :
    machine.Runs (reads next buffers) f fun f' =>
      Posts phase ((bytes ++ buffers.flatMap content).take n) ((bytes ++ buffers.flatMap content).drop n) f' ∧
        Follows f buffers next f' := by
  induction buffers generalizing f bytes with
  | nil => exact reaches.elim
  | cons b rest ih =>
    by_cases enough : n ≤ (bytes ++ b.content).length
    · obtain ⟨admits, f', stepped, posts, follows⟩ := read_enough waits welcome enough
      rw [Reaches, if_pos enough] at reaches
      subst reaches
      exact Machine.Runs.cons admits stepped ⟨trivial, f', rfl, by simpa using posts, follows⟩
    · rw [Reaches, if_neg enough] at reaches
      obtain ⟨admits, f₁, stepped, waits₁, target, origin⟩ := read_short waits welcome (by omega)
      obtain ⟨admitted, f', ran, posts, follows'⟩ := ih waits₁ (welcome.rest origin) reaches
      refine Machine.Runs.cons admits stepped ⟨admitted, f', ran, by simpa [List.append_assoc] using posts,
        follows'.target.trans target, fun a member => ?_⟩
      rcases follows'.origin a member with old | ⟨c, inRest, inC⟩ | new
      · rcases origin a old with older | inB
        · exact Or.inl older
        · exact Or.inr (Or.inl ⟨b, by simp, inB⟩)
      · exact Or.inr (Or.inl ⟨c, by simp [inRest], inC⟩)
      · exact Or.inr (Or.inr new)

/-! ## The negotiation -/

variable {target : Endpoint} {method received first second later : List Buffer} {data reply front back : Bytes}

theorem readToLength_empty {r : StreamReader} (built : Built r.buffer []) (positive : n ≠ 0) :
    r.readToLength next n = .ok ({ r with lengthToRead := n }, .read) := by
  rw [StreamReader.readToLength, boostAssert_of positive, ok_bind]
  exact @StreamReader.doReadLength_short next { r with lengthToRead := n } [] built
    (by simpa using Nat.pos_of_ne_zero positive)

/-- Up to the read of the method reply. -/
theorem greets (next : Nat) (target : Endpoint) :
    machine.Runs [.callConnect, .nextConnected next true, .written next true] (init target) fun f =>
      Waits .method 2 [] f ∧ f.targetEndpoint = target ∧ f.held = [] := by
  obtain ⟨b₁, ran₁, built₁⟩ := (make_built next 3).setIndex (by decide : 0 < _) 5
  obtain ⟨b₂, ran₂, built₂⟩ := built₁.setIndex (by decide : 1 < _) 1
  obtain ⟨b₃, ran₃, -⟩ := built₂.setIndex (by decide : 2 < _) 0
  let connecting : Socks5DataFlow :=
    { init target with stateMachine := { type := .remote, state := .establishing }, stage := .connecting }
  have connected : machine.step (.nextConnected next true) connecting =
      .ok { connecting with stage := .greeting b₃ } := by
    show connecting.doNegotiation next = _
    simp only [doNegotiation, ran₁, ran₂, ran₃, ok_bind, pure_eq_ok]
  have wrote : machine.step (.written next true) { connecting with stage := .greeting b₃ } =
      .ok { connecting with streamReader := { lengthToRead := 2 }, stage := .reading .method } := by
    show onGreetingWritten next true _ = _
    rw [onGreetingWritten, if_neg (by decide), readToLength_empty empty_built (by decide)]
    rfl
  exact .cons trivial rfl (.cons trivial connected (.cons (by simp [machine, Admits, held, connecting, init])
    wrote ⟨trivial, _, rfl, ⟨rfl, rfl, empty_built, by decide⟩, rfl, rfl⟩))

/-- From the method reply to the read of the connect reply. -/
theorem asks {text : AddressText} (valid : Target text f.targetEndpoint)
    (posts : Posts .method [5, 0] [] f) (below : ∀ a ∈ f.held, a < next) :
    machine.Runs [.runTask next, .written next true] f fun f' => Waits .reply 5 [] f' ∧ f'.held = [] := by
  obtain ⟨b, stage, built, left⟩ := posts
  have heldEq : f.held = f.streamReader.buffer.addrs ++ b.addrs := by rw [held, stage]
  have belowB : b.Below next := by
    intro a member
    exact below a (by simp [heldEq, member])
  obtain ⟨buffer, made, -⟩ := request_eq valid ⟨built.wf, built.straight, belowB, built.content⟩
  have ran : machine.step (.runTask next) f = .ok { f with stage := .requesting buffer } := by
    have version := built.index (by decide : 0 < _)
    have chosen := built.index (by decide : 1 < _)
    simp only [machine, step, stage, onTask, onMethod, version, chosen, made, ok_bind]
    rfl
  have wrote : machine.step (.written next true) { f with stage := .requesting buffer } =
      .ok { f with streamReader := { f.streamReader with lengthToRead := 5 }, stage := .reading .reply } := by
    show onRequestWritten next true _ = _
    rw [onRequestWritten, if_neg (by decide), readToLength_empty left (by decide)]
    rfl
  refine .cons ?_ ran (.cons ?_ wrote ⟨trivial, _, rfl, ⟨rfl, rfl, left, by decide⟩, ?_⟩)
  · simp only [machine, Admits, stage]
    exact below
  · show ∀ a ∈ held _, a < next
    simp [held, left.addrs_nil]
  · rw [held_reading rfl]
    exact left.addrs_nil

/-- The rest of the connect reply is read, or is there already. -/
theorem settles {type length : UInt8} {rest : Bytes} (left : remaining type length = some rest.length)
    (posts : Posts .reply [5, 0, 0, type, length] back f) (below : ∀ a ∈ f.held, a < next)
    (fits : back.length < sizeRange) :
    machine.admits (.runTask next) f ∧ ∃ f', machine.step (.runTask next) f = .ok f' ∧
      (∀ a ∈ f'.held, a ∈ f.held ∨ a = next) ∧
      (if back.length < rest.length then Waits .rest rest.length back f'
      else Posts .rest (back.take rest.length) (back.drop rest.length) f') := by
  obtain ⟨b, stage, built, keeps⟩ := posts
  have heldEq : f.held = f.streamReader.buffer.addrs ++ b.addrs := by rw [held, stage]
  have positive : rest.length ≠ 0 := by
    intro zero
    rw [zero] at left
    unfold remaining at left
    split_ifs at left <;> simp at left
  have belowLeft : f.streamReader.buffer.Below next := by
    intro a member
    exact below a (by simp [heldEq, member])
  have ran : machine.step (.runTask next) f =
      (do return f.follow .rest (← f.streamReader.readToLength next rest.length)) := by
    have byte : ∀ i, i < 5 → b.index i = .ok (([5, 0, 0, type, length] : Bytes).getD i 0) :=
      fun i inside => built.index inside
    simp only [machine, step, stage, onTask, onReply, byte 0 (by decide), byte 1 (by decide),
      byte 2 (by decide), byte 3 (by decide), byte 4 (by decide), ok_bind]
    simp [left]
  refine ⟨by simp only [machine, Admits, stage]; exact below, ?_⟩
  rw [ran, StreamReader.readToLength, boostAssert_of positive, ok_bind]
  by_cases short : back.length < rest.length
  · rw [@StreamReader.doReadLength_short next { f.streamReader with lengthToRead := rest.length } _ keeps short]
    refine ⟨_, rfl, fun a member => Or.inl ?_, ?_⟩
    · rw [held_reading rfl] at member
      rw [heldEq]
      exact List.mem_append_left _ member
    · rw [if_pos short]
      exact ⟨rfl, rfl, keeps, short⟩
  · obtain ⟨front, more, posted, frontBuilt, moreBuilt, origin⟩ :=
      @StreamReader.doReadLength_enough next { f.streamReader with lengthToRead := rest.length } _ keeps
        belowLeft fits positive (Nat.le_of_not_lt short)
    rw [posted]
    refine ⟨_, rfl, fun a member => ?_, ?_⟩
    · rcases origin a member with old | new
      · exact Or.inl (by rw [heldEq]; exact List.mem_append_left _ old)
      · exact Or.inr new
    · rw [if_neg short]
      exact ⟨front, rfl, frontBuilt, moreBuilt⟩

/-- The handler is told success if the reader is empty, and an error otherwise. -/
theorem finishes (posts : Posts .rest front back f) (below : ∀ a ∈ f.held, a < next) :
    machine.Runs [.runTask next] f fun f' =>
      f'.stage = .finished (if back = [] then .success else .error .invalidResponse) := by
  obtain ⟨b, stage, -, keeps⟩ := posts
  have size := keeps.size_eq
  have admits : machine.admits (.runTask next) f := by
    simp only [machine, Admits, stage]
    exact below
  have ran : machine.step (.runTask next) f = .ok f.onRest := by simp only [machine, step, stage, onTask]
  refine .cons admits ran ⟨trivial, _, rfl, ?_⟩
  simp only [onRest, StreamReader.consumeRemainData, Buffer.move, size]
  by_cases none_left : back = []
  · simp [none_left]
  · simp [none_left, fail]

/-! ## Where the reply ends -/

theorem none_of_no_bytes {reads : List Buffer} (nonempty : ∀ b ∈ reads, Delivered b)
    (nothing : reads.flatMap content = []) : reads = [] := by
  match reads with
  | [] => rfl
  | b :: rest =>
    have delivered := nonempty b (by simp)
    rw [List.flatMap_cons, List.append_eq_nil_iff] at nothing
    have length := delivered.wf.length_content
    have some_byte := delivered.nonempty
    rw [nothing.1, List.length_nil] at length
    omega

/-- The reads up to the end of the reply: five bytes, and then the rest if it is not
there yet. -/
theorem split_reads {reads : List Buffer} (nonempty : ∀ b ∈ reads, Delivered b)
    {header rest : Bytes} (five : header.length = 5) (content_eq : reads.flatMap content = header ++ rest) :
    ∃ first second back, reads = first ++ second ∧ Reaches 5 [] first ∧ first.flatMap content = header ++ back ∧
      (if back.length < rest.length then Reaches rest.length back second else second = []) ∧
      back ++ second.flatMap content = rest := by
  have total := congrArg List.length content_eq
  rw [List.length_append] at total
  obtain ⟨first, later, rfl, reaches⟩ := @exists_reaches 5 [] reads (by simp only [List.nil_append]; omega)
    (by decide)
  have enough := reaches.enough
  rw [List.nil_append] at enough
  rw [List.flatMap_append] at content_eq total
  obtain ⟨back, begins, ends⟩ : ∃ back, first.flatMap content = header ++ back ∧
      rest = back ++ later.flatMap content := by
    rcases List.append_eq_append_iff.mp content_eq with ⟨more, header_eq, later_eq⟩ | ⟨back, begins, ends⟩
    · have lengths := congrArg List.length header_eq
      rw [List.length_append] at lengths
      obtain rfl : more = [] := List.length_eq_zero_iff.mp (by omega)
      exact ⟨[], by simpa using header_eq.symm, by simpa using later_eq.symm⟩
    · exact ⟨back, begins, ends⟩
  have lengths := congrArg List.length ends
  rw [List.length_append] at lengths
  by_cases short : back.length < rest.length
  · obtain ⟨second, extra, rfl, reaches'⟩ := @exists_reaches rest.length back later
      (by rw [List.length_append]; omega) short
    have enough' := reaches'.enough
    rw [List.flatMap_append, List.length_append] at lengths
    rw [List.length_append] at enough'
    have nothing : extra.flatMap content = [] := List.length_eq_zero_iff.mp (by omega)
    obtain rfl := none_of_no_bytes (fun b member => nonempty b (by simp [member])) nothing
    refine ⟨first, second, back, by simp, reaches, begins, by rwa [if_pos short], ?_⟩
    simpa using ends.symm
  · have nothing : later.flatMap content = [] := List.length_eq_zero_iff.mp (by omega)
    obtain rfl := none_of_no_bytes (fun b member => nonempty b (by simp [member])) nothing
    refine ⟨first, [], back, rfl, reaches, begins, by rw [if_neg short], ?_⟩
    simpa using ends.symm

/-- Until the request is written. The method reply comes in reads of its own. -/
theorem opens {text : AddressText} (valid : Target text target) (received : Received next method)
    (greeted : method.flatMap content = [5, 0]) :
    machine.Runs (opening next method) (init target) fun f => Waits .reply 5 [] f ∧ f.held = [] := by
  have reaches : Reaches 2 [] method := by
    obtain ⟨front, extra, rfl, reachesFront⟩ := @exists_reaches 2 [] method (by rw [greeted]; decide) (by decide)
    have enough := reachesFront.enough
    have lengths := congrArg List.length greeted
    rw [List.flatMap_append, List.length_append] at lengths
    have nothing : extra.flatMap content = [] := List.length_eq_zero_iff.mp (by
      simp only [List.nil_append] at enough
      simp only [List.length_cons, List.length_nil] at lengths
      omega)
    obtain rfl := none_of_no_bytes (fun b member => received.delivered b (by simp [member])) nothing
    simpa using reachesFront
  refine (greets next target).append fun f₀ ⟨waits, target_eq, none_held⟩ => ?_
  have welcome : Welcome next [] f₀ method :=
    ⟨received, by simp [none_held], by simp [none_held], by simpa using received.fits⟩
  refine (reads_reach waits welcome reaches).append fun f₁ ⟨posts, follows⟩ => ?_
  rw [List.nil_append, greeted] at posts
  refine asks (by rw [follows.target, target_eq]; exact valid) posts fun a member => ?_
  rcases follows.origin a member with old | ⟨b, inMethod, inB⟩ | new
  · simp [none_held] at old
  · have := received.below b inMethod a inB
    omega
  · omega

/-- The two calls that read the connect reply. -/
theorem concludes {type length : UInt8} {tail : Bytes} (left : remaining type length = some tail.length)
    (waits : Waits .reply 5 [] f) (none_held : f.held = []) (received : Received next (first ++ second))
    (reaches : Reaches 5 [] first) (begins : first.flatMap content = [5, 0, 0, type, length] ++ back)
    (completes : if back.length < tail.length then Reaches tail.length back second else second = [])
    (whole : back ++ second.flatMap content = tail) :
    machine.Runs (reads (next + 1) first ++ .runTask (next + 2) ::
      (reads (next + 3) second ++ [.runTask (next + 4)])) f fun f' => f'.stage = .finished .success := by
  have fits := received.fits
  rw [List.flatMap_append, List.length_append, begins, List.length_append] at fits
  have apart := (List.pairwise_append.mp received.apart).2.2
  have firstReads : Received (next + 1) first :=
    received.part (List.sublist_append_left first second) (Nat.le_succ next)
  have secondReads : Received next second :=
    received.part (List.sublist_append_right first second) (Nat.le_refl next)
  have welcome : Welcome (next + 1) [] f first :=
    ⟨firstReads, by simp [none_held], by simp [none_held], by
      rw [begins, List.length_append, List.length_nil]
      omega⟩
  refine (reads_reach waits welcome reaches).append fun f₁ ⟨posts, follows⟩ => ?_
  rw [List.nil_append, begins] at posts
  change Posts .reply [5, 0, 0, type, length] back f₁ at posts
  have origin : ∀ a ∈ f₁.held, (∃ b ∈ first, a ∈ b.addrs) ∨ a = next + 1 := by
    intro a member
    rcases follows.origin a member with old | read | new
    · simp [none_held] at old
    · exact Or.inl read
    · exact Or.inr new
  obtain ⟨admits, f₂, stepped, follows₂, settled⟩ := @settles f₁ (next + 2) back type length tail left posts
    (fun a member => by
      rcases origin a member with ⟨b, inFirst, inB⟩ | new
      · have := firstReads.below b inFirst a inB
        omega
      · omega) (by omega)
  refine .cons admits stepped ?_
  have origin₂ : ∀ a ∈ f₂.held, (∃ b ∈ first, a ∈ b.addrs) ∨ next < a ∧ a < next + 3 := by
    intro a member
    rcases follows₂ a member with old | new
    · rcases origin a old with read | broken
      · exact Or.inl read
      · exact Or.inr (by omega)
    · exact Or.inr (by omega)
  have below₂ : ∀ a ∈ f₂.held, a < next + 3 := by
    intro a member
    rcases origin₂ a member with ⟨b, inFirst, inB⟩ | new
    · have := firstReads.below b inFirst a inB
      omega
    · omega
  by_cases short : back.length < tail.length
  · rw [if_pos short] at settled completes
    have welcome₂ : Welcome (next + 3) back f₂ second := by
      refine ⟨received.part (List.sublist_append_right first second) (by omega), below₂, ?_, by omega⟩
      intro b inSecond a member inB
      rcases origin₂ a member with ⟨c, inFirst, inC⟩ | new
      · exact apart c inFirst b inSecond a inC inB
      · have := secondReads.below b inSecond a inB
        omega
    refine (reads_reach settled welcome₂ completes).append fun f₃ ⟨posts₃, follows₃⟩ => ?_
    rw [whole, List.drop_length] at posts₃
    refine finishes posts₃ fun a member => ?_
    rcases follows₃.origin a member with old | ⟨b, inSecond, inB⟩ | new
    · have := below₂ a old
      omega
    · have := secondReads.below b inSecond a inB
      omega
    · omega
  · rw [if_neg short] at settled completes
    subst completes
    simp only [List.flatMap_nil, List.append_nil] at whole
    subst whole
    rw [List.drop_length] at settled
    exact finishes settled fun a member => Nat.lt_succ_of_lt (below₂ a member)

/-- With a reply that ends where a read ends, nothing is lost. -/
theorem losesNothing_of_boundary {text : AddressText} {before : List Buffer} (valid : Target text target)
    (received : Received next (method ++ (before ++ later))) (greeted : method.flatMap content = [5, 0])
    (replied : ConnectReply (before.flatMap content)) (rest : later.flatMap content = data) :
    LosesNothing next target method (before ++ later) data := by
  obtain ⟨type, length, tail, content_eq, left⟩ := replied
  obtain ⟨first, second, back, rfl, reaches, begins, completes, whole⟩ :=
    @split_reads before (fun b member => received.delivered b (by simp [member])) [5, 0, 0, type, length]
      tail rfl content_eq
  have methodReads := received.part (List.sublist_append_left method _) (Nat.le_refl next)
  have replyReads : Received next (first ++ second) := received.part
    ((List.sublist_append_left _ later).trans (List.sublist_append_right method _)) (Nat.le_refl next)
  obtain ⟨admitted, f, ran, success⟩ := (opens valid methodReads greeted).append fun f ⟨waits, none_held⟩ =>
    concludes left waits none_held replyReads reaches begins completes whole
  exact ⟨first, second, later, f, rfl, admitted, ran, success, rest⟩

theorem boundary_of_losesNothing (stream : received.flatMap content = reply ++ data)
    (nothing_lost : LosesNothing next target method received data) :
    ∃ before later, received = before ++ later ∧ before.flatMap content = reply := by
  obtain ⟨first, second, later, f, rfl, -, -, -, rest⟩ := nothing_lost
  refine ⟨first ++ second, later, rfl, ?_⟩
  rw [List.flatMap_append, rest] at stream
  exact List.append_cancel_right stream

/-- For every target, server stream and split of it into reads: Connect succeeds and
the following reads deliver exactly the data exactly when the connect reply ends where a
read ends. -/
theorem early_data_arrives_iff (text : AddressText) (next : Nat) (target : Endpoint)
    (method received : List Buffer) (reply data : Bytes) (valid : Target text target)
    (reads : Received next (method ++ received)) (greeted : method.flatMap content = [5, 0])
    (replied : ConnectReply reply) (stream : received.flatMap content = reply ++ data) :
    LosesNothing next target method received data ↔
      ∃ before later, received = before ++ later ∧ before.flatMap content = reply := by
  constructor
  · exact boundary_of_losesNothing stream
  · rintro ⟨before, later, rfl, ends⟩
    rw [List.flatMap_append, ends] at stream
    exact losesNothing_of_boundary valid reads greeted (by rwa [ends]) (List.append_cancel_left stream)

/-- A reply for 0.0.0.0:0. -/
def plainReply : Bytes := [5, 0, 0, 1, 0, 0, 0, 0, 0, 0]

theorem plainReply_valid : ConnectReply plainReply := ⟨1, 0, [0, 0, 0, 0, 0], rfl, rfl⟩

/-- The reply and a byte of data, in two reads. -/
theorem early_data_arrives_iff_apart :
    LosesNothing 3 (clientFor [97, 46, 98]).targetEndpoint [pieceOf 0 [5, 0]]
        [pieceOf 1 plainReply, pieceOf 2 [7]] [7] ↔
      ∃ before later, [pieceOf 1 plainReply, pieceOf 2 [7]] = before ++ later ∧
        before.flatMap content = plainReply := by
  have pieces : ∀ b ∈ [pieceOf 0 [5, 0]] ++ [pieceOf 1 plainReply, pieceOf 2 [7]],
      ∃ addr bytes, b = pieceOf addr bytes ∧ addr < 3 ∧ 0 < bytes.length ∧ bytes.length < sizeRange := by
    simp only [List.cons_append, List.nil_append, List.mem_cons, List.not_mem_nil, or_false]
    rintro b (rfl | rfl | rfl)
    · exact ⟨_, _, rfl, by decide, by decide, by decide⟩
    · exact ⟨_, _, rfl, by decide, by decide, by decide⟩
    · exact ⟨_, _, rfl, by decide, by decide, by decide⟩
  refine early_data_arrives_iff noText 3 (clientFor [97, 46, 98]).targetEndpoint [pieceOf 0 [5, 0]]
    [pieceOf 1 plainReply, pieceOf 2 [7]] plainReply [7] ⟨by decide, by decide, rfl⟩
    ⟨?_, ?_, ?_, by decide, by decide⟩ rfl plainReply_valid rfl
  · intro b member
    obtain ⟨addr, bytes, rfl, -, nonempty, fits⟩ := pieces b member
    exact pieceOf_delivered addr bytes nonempty fits
  · intro b member
    obtain ⟨addr, bytes, rfl, -⟩ := pieces b member
    simp [Straight, pieceOf]
  · intro b member
    obtain ⟨addr, bytes, rfl, small, -⟩ := pieces b member
    simpa [Below, addrs, pieceOf] using small

/-- The same in one read: Connect gives up. -/
theorem early_byte_fails_connect :
    ((machine.run (negotiation 2 [pieceOf 0 [5, 0]] [pieceOf 1 (plainReply ++ [7])] [])
        (init (clientFor [97, 46, 98]).targetEndpoint)).map fun f => f.stage) =
        .ok (.finished (.error .invalidResponse)) ∧
      ¬LosesNothing 2 (clientFor [97, 46, 98]).targetEndpoint [pieceOf 0 [5, 0]]
        [pieceOf 1 (plainReply ++ [7])] [7] := by
  refine ⟨by decide +kernel, fun nothing_lost => ?_⟩
  obtain ⟨before, later, split, ends⟩ := @boundary_of_losesNothing _ _ _ _ [7] plainReply rfl nothing_lost
  match before, split with
  | [], _ => cases ends
  | [_], split =>
    cases split
    exact absurd ends (by decide)

end LibNekit.Guarantees.Socks5EarlyData
