import Mathlib.Data.List.Nodup
import LibNekit.Source.DataFlow.Operations

/-!
# Cancellation is final

Every callback of an operation looks at the operation's own flag before the handler comes,
either itself or through the next hop that handed the flag out. The negotiation of the
two servers is the exception: the flag that `Open` returns belongs to the next hop's
`Open`, and nothing that is started after that looks at it.
-/
namespace LibNekit.Guarantees.Cancellation

open LibNekit.Source LibNekit.Library LibNekit.Source.Operations

variable {s s' : Operations} {c : Callback} {op : Operation}

/-- No handler is invoked after its operation was cancelled. -/
def Final (s : Operations) : Prop := ∀ op ∈ s.operations, op.late = 0

/-- Nobody cancels the `Open` of a server once the next hop is open. -/
def Undisturbed (e : Event) (s : Operations) : Prop :=
  match e with
  | .cancel i => ∀ op, s.operations[i]? = some op → op.call = .open → s.kind.isServer = true →
      ∀ c ∈ s.pending, c.operation = i → c.link = .nextOpened
  | _ => True

/-! ## Which callback looks at what -/

/-- Callbacks that wait for an operation of the next hop whose `Cancelable` the caller has. -/
def handed : Link → Bool
  | .nextRead | .nextWritten | .nextWriteClosed | .nextOpened | .response | .nextContinued => true
  | _ => false

def negotiating : Link → Bool
  | .negotiateRead | .methodReply => true
  | _ => false

def opening : Link → Bool
  | .nextOpened | .negotiateRead | .methodReply => true
  | _ => false

def continuing : Link → Bool
  | .response | .nextContinued => true
  | _ => false

def connecting : Link → Bool
  | .nextConnected | .greeting | .method | .request | .reply | .rest | .connectRequest | .connectResponse => true
  | _ => false

/-- A callback that waits for an operation. -/
structure Kept (s : Operations) (c : Callback) (op : Operation) : Prop where
  guarded : c.captured = some op.cancelable ∨ (handed c.link = true ∧ c.own = some op.cancelable) ∨
    (negotiating c.link = true ∧ op.withdrawn = false)
  unanswered : op.answers = 0
  opens : opening c.link = true → op.call = .open ∧ s.kind.isServer = true ∧
    (c.link = .nextOpened ∧ s.kind ≠ .httpServer ∨ s.handler = some c.operation)
  continues : continuing c.link = true → (∃ b, op.call = .continue b) ∧
    (s.kind = .socks5Server → s.handler = some c.operation) ∧
    (c.link = .response → op.cancelable = s.members.openCancelable)
  connects : connecting c.link = true → (∃ path, op.call = .connect path) ∧
    op.cancelable = s.members.connectCancelable

structure Sound (s : Operations) : Prop where
  pending : ∀ c ∈ s.pending, ∃ op, s.operations[c.operation]? = some op ∧ Kept s c op
  alone : (s.pending.map Callback.operation).Nodup
  flags : ∀ op ∈ s.operations, op.cancelable < s.canceled.length ∧
    (op.withdrawn = true → s.isCanceled op.cancelable = true)
  final : Final s
  once : ∀ (i j : Nat) (a b : Operation), s.operations[i]? = some a → s.operations[j]? = some b →
    a.call = .open → b.call = .open → i = j
  order : ∀ op ∈ s.operations, (∃ b, op.call = .continue b) →
    ∃ o ∈ s.operations, o.call = .open ∧ o.answers ≠ 0
  member : s.members.connectCancelable < s.canceled.length

theorem start_sound (kind : Operations.Class) : Sound { kind } := by
  refine ⟨nofun, List.nodup_nil, nofun, nofun, nofun, nofun, ?_⟩
  show (3 : Nat) < 4
  omega

/-! ## Flags -/

theorem isCanceled_cancelFlag (flag other : Nat) (canceled : s.isCanceled other = true) :
    (s.cancelFlag flag).isCanceled other = true := by
  simp only [isCanceled, cancelFlag, List.getD_eq_getElem?_getD, List.getElem?_set] at canceled ⊢
  split
  · split
    · rfl
    · next same beyond =>
      subst same
      rw [List.getElem?_eq_none (Nat.le_of_not_lt beyond)] at canceled
      exact canceled
  · exact canceled

theorem isCanceled_cancelFlag_self {flag : Nat} (known : flag < s.canceled.length) :
    (s.cancelFlag flag).isCanceled flag = true := by
  simp [isCanceled, cancelFlag, known]

/-- New flags leave the others as they are. -/
theorem isCanceled_grown {more : List Bool} (grown : s'.canceled = s.canceled ++ more) (flag : Nat)
    (canceled : s.isCanceled flag = true) : s'.isCanceled flag = true := by
  simp only [isCanceled, grown, List.getD_eq_getElem?_getD] at canceled ⊢
  rcases Nat.lt_or_ge flag s.canceled.length with lt | ge
  · rwa [List.getElem?_append_left lt]
  · rw [List.getElem?_eq_none ge] at canceled
    exact absurd canceled (by simp)

/-- A callback that gets through belongs to an operation that nobody cancelled. -/
theorem Kept.live (kept : Kept s c op) (flags : op.withdrawn = true → s.isCanceled op.cancelable = true)
    (own : ∀ own, c.own = some own → s.isCanceled own = false) (captured : c.captured.any s.isCanceled = false) :
    op.withdrawn = false := by
  rw [Bool.eq_false_iff]
  intro withdrawn
  have canceled := flags withdrawn
  rcases kept.guarded with looks | ⟨-, hands⟩ | ⟨-, not⟩
  · rw [looks, Option.any_some, canceled] at captured
    cases captured
  · rw [own _ hands] at canceled
    cases canceled
  · rw [withdrawn] at not
    cases not

/-! ## Calls -/

/-- A callback is kept while the members it relies on stay. -/
theorem Kept.carry (kept : Kept s c op) (kind : s'.kind = s.kind)
    (handler : s'.handler = s.handler ∨ opening c.link = false ∧ continuing c.link = false)
    (opened : s'.members.openCancelable = s.members.openCancelable ∨ continuing c.link = false)
    (connected : s'.members.connectCancelable = s.members.connectCancelable ∨ connecting c.link = false) :
    Kept s' c op := by
  refine ⟨kept.guarded, kept.unanswered, fun isOpening => ?_, fun isContinuing => ?_, fun isConnecting => ?_⟩
  · rw [kind]
    rcases handler with same | ⟨no, -⟩
    · rw [same]
      exact kept.opens isOpening
    · rw [no] at isOpening
      cases isOpening
  · rw [kind]
    rcases handler with same | ⟨-, no⟩
    · rcases opened with same' | no
      · rw [same, same']
        exact kept.continues isContinuing
      · rw [no] at isContinuing
        cases isContinuing
    · rw [no] at isContinuing
      cases isContinuing
  · rcases connected with same | no
    · rw [same]
      exact kept.connects isConnecting
    · rw [no] at isConnecting
      cases isConnecting

/-- What a call makes of the flow: an operation, with at most one callback that waits. -/
structure Begun (s s' : Operations) (op : Operation) (cs : List Callback) : Prop where
  kind : s'.kind = s.kind
  operations : s'.operations = s.operations ++ [op]
  fresh : op.withdrawn = false ∧ op.late = 0
  cancelable : op.cancelable < s'.canceled.length
  grown : s.canceled.length ≤ s'.canceled.length
  canceled : ∀ flag, s.isCanceled flag = true → s'.isCanceled flag = true
  pending : s'.pending = s.pending ++ cs
  waiting : cs = [] ∨ ∃ c, cs = [c] ∧ c.operation = s.operations.length ∧ Kept s' c op
  member : s'.members.connectCancelable < s'.canceled.length

/-- A call keeps what it does not overwrite. -/
theorem Sound.begun (sound : Sound s) {cs : List Callback} (begun : Begun s s' op cs)
    (others : ∀ c ∈ s.pending, ∀ o, Kept s c o → Kept s' c o)
    (onlyOpen : op.call = .open → ∀ o ∈ s.operations, o.call ≠ .open)
    (afterOpen : (∃ b, op.call = .continue b) → ∃ o ∈ s.operations, o.call = .open ∧ o.answers ≠ 0) :
    Sound s' := by
  have old {i : Nat} {o : Operation} (here : s.operations[i]? = some o) : s'.operations[i]? = some o := by
    rw [begun.operations, List.getElem?_append_left (List.getElem?_eq_some_iff.mp here).1]
    exact here
  have before : ∀ c ∈ s.pending, c.operation < s.operations.length := by
    intro c member
    obtain ⟨o, here, -⟩ := sound.pending c member
    exact (List.getElem?_eq_some_iff.mp here).1
  refine ⟨?_, ?_, ?_, ?_, ?_, ?_, begun.member⟩
  · intro c member
    rw [begun.pending] at member
    rcases List.mem_append.mp member with inOld | inNew
    · obtain ⟨o, here, kept⟩ := sound.pending c inOld
      exact ⟨o, old here, others c inOld o kept⟩
    · rcases begun.waiting with none | ⟨c', only, place, kept⟩
      · rw [none] at inNew
        exact absurd inNew List.not_mem_nil
      · rw [only] at inNew
        obtain rfl := List.mem_singleton.mp inNew
        exact ⟨op, by rw [begun.operations, place]; simp, kept⟩
  · rw [begun.pending, List.map_append]
    rcases begun.waiting with none | ⟨c', only, place, -⟩
    · rw [none, List.map_nil, List.append_nil]
      exact sound.alone
    · rw [only]
      refine List.nodup_append.mpr ⟨sound.alone, by simp, ?_⟩
      simp only [List.map_cons, List.map_nil, List.mem_singleton, List.mem_map]
      rintro _ ⟨c, member, rfl⟩ _ rfl
      rw [place]
      exact Nat.ne_of_lt (before c member)
  · intro o member
    rw [begun.operations] at member
    rcases List.mem_append.mp member with inOld | inNew
    · obtain ⟨bound, flagged⟩ := sound.flags o inOld
      exact ⟨Nat.lt_of_lt_of_le bound begun.grown, fun withdrawn => begun.canceled _ (flagged withdrawn)⟩
    · obtain rfl := List.mem_singleton.mp inNew
      exact ⟨begun.cancelable, fun withdrawn => by rw [begun.fresh.1] at withdrawn; cases withdrawn⟩
  · intro o member
    rw [begun.operations] at member
    rcases List.mem_append.mp member with inOld | inNew
    · exact sound.final o inOld
    · rw [List.mem_singleton.mp inNew]
      exact begun.fresh.2
  · have place {i : Nat} {a : Operation} (here : s'.operations[i]? = some a) :
        s.operations[i]? = some a ∨ i = s.operations.length ∧ a = op := by
      rw [begun.operations] at here
      rcases Nat.lt_trichotomy i s.operations.length with lt | rfl | gt
      · rw [List.getElem?_append_left lt] at here
        exact Or.inl here
      · exact Or.inr ⟨rfl, by simpa using here.symm⟩
      · rw [List.getElem?_eq_none (by rw [List.length_append]; exact gt)] at here
        cases here
    intro i j a b atI atJ openA openB
    rcases place atI with oldA | ⟨rfl, rfl⟩
    · rcases place atJ with oldB | ⟨rfl, rfl⟩
      · exact sound.once i j a b oldA oldB openA openB
      · exact absurd openA (onlyOpen openB a (List.mem_of_getElem? oldA))
    · rcases place atJ with oldB | ⟨rfl, rfl⟩
      · exact absurd openB (onlyOpen openA b (List.mem_of_getElem? oldB))
      · rfl
  · intro o member continued
    rw [begun.operations] at member ⊢
    have kept : ∃ o ∈ s.operations, o.call = .open ∧ o.answers ≠ 0 := by
      rcases List.mem_append.mp member with inOld | inNew
      · exact sound.order o inOld continued
      · rw [List.mem_singleton.mp inNew] at continued
        exact afterOpen continued
    obtain ⟨o', inOld, answered⟩ := kept
    exact ⟨o', List.mem_append_left _ inOld, answered⟩

/-- A call that waits for one callback, by what it makes of the flow. -/
theorem Sound.call (sound : Sound s) {more : List Bool} (begun : s'.kind = s.kind ∧
      s'.operations = s.operations ++ [op] ∧ s'.canceled = s.canceled ++ more ∧ s'.pending = s.pending ++ [c])
    (fresh : op.withdrawn = false ∧ op.late = 0 ∧ op.cancelable < s'.canceled.length)
    (place : c.operation = s.operations.length) (kept : Kept s' c op)
    (handler : s'.handler = s.handler ∨ ∀ c ∈ s.pending, ∀ o, Kept s c o → opening c.link = false ∧ continuing c.link = false)
    (opened : s'.members.openCancelable = s.members.openCancelable ∨
      ∀ c ∈ s.pending, ∀ o, Kept s c o → continuing c.link = false)
    (connected : s'.members.connectCancelable = s.members.connectCancelable ∨
      (∀ c ∈ s.pending, ∀ o, Kept s c o → connecting c.link = false) ∧
        s'.members.connectCancelable < s'.canceled.length)
    (onlyOpen : op.call = .open → ∀ o ∈ s.operations, o.call ≠ .open)
    (afterOpen : (∃ b, op.call = .continue b) → ∃ o ∈ s.operations, o.call = .open ∧ o.answers ≠ 0) :
    Sound s' := by
  obtain ⟨kind, operations, canceled, pending⟩ := begun
  have grown : s.canceled.length ≤ s'.canceled.length := by
    rw [canceled, List.length_append]
    exact Nat.le_add_right _ _
  refine sound.begun ⟨kind, operations, ⟨fresh.1, fresh.2.1⟩, fresh.2.2, grown, isCanceled_grown canceled, pending,
    Or.inr ⟨c, rfl, place, kept⟩, ?_⟩ ?_ onlyOpen afterOpen
  · rcases connected with same | ⟨-, bound⟩
    · rw [same]
      exact Nat.lt_of_lt_of_le sound.member grown
    · exact bound
  · intro c member o kept
    exact kept.carry kind (handler.imp_right fun no => no c member o kept) (opened.imp_right fun no => no c member o kept)
      (connected.imp_right fun no => no.1 c member o kept)

/-- Nothing of a server's `Open` is under way before it is called. -/
theorem not_opening (notYet : ∀ o ∈ s.operations, o.call ≠ .open) (sound : Sound s) :
    ∀ c ∈ s.pending, opening c.link = false ∧ continuing c.link = false := by
  intro c member
  obtain ⟨o, here, kept⟩ := sound.pending c member
  have belongs := List.mem_of_getElem? here
  constructor
  · rw [Bool.eq_false_iff]
    exact fun isOpening => notYet o belongs (kept.opens isOpening).1
  · rw [Bool.eq_false_iff]
    intro isContinuing
    obtain ⟨o', member', isOpen, -⟩ := sound.order o belongs (kept.continues isContinuing).1
    exact notYet o' member' isOpen

theorem open_sound (sound : Sound s) (admits : Admits (.call .open) s) : Sound s.open := by
  have quiet := not_opening admits.2 sound
  by_cases socket : s.kind = .tcpSocket
  · have called : s.open = { s with
        canceled := s.canceled ++ [false]
        pending := s.pending ++ [⟨.posted, s.operations.length, none, some s.canceled.length⟩]
        operations := s.operations ++ [{ call := .open, cancelable := s.canceled.length }] } := by
      simp [Operations.open, socket, newFlag, post, hand]
    rw [called]
    exact sound.call ⟨rfl, rfl, rfl, rfl⟩ ⟨rfl, rfl, by simp⟩ rfl ⟨Or.inl rfl, rfl, nofun, nofun, nofun⟩
      (Or.inl rfl) (Or.inl rfl) (Or.inl rfl) (fun _ => admits.2) nofun
  · have server := admits.1.resolve_left socket
    have called : s.open = { s with
        canceled := s.canceled ++ [false]
        pending := s.pending ++ [⟨.nextOpened, s.operations.length, some s.canceled.length, none⟩]
        operations := s.operations ++ [{ call := .open, cancelable := s.canceled.length }]
        members.openCancelable := s.canceled.length
        handler := if s.kind = .httpServer then some s.operations.length else s.handler } := by
      simp [Operations.open, socket, newFlag, await, hand]
    rw [called]
    refine sound.call ⟨rfl, rfl, rfl, rfl⟩ ⟨rfl, rfl, by simp⟩ rfl
      ⟨Or.inr (Or.inl ⟨rfl, rfl⟩), rfl, fun _ => ⟨rfl, server, ?_⟩, nofun, nofun⟩
      (Or.inr fun c member _ _ => quiet c member) (Or.inr fun c member _ _ => (quiet c member).2) (Or.inl rfl)
      (fun _ => admits.2) nofun
    by_cases http : s.kind = .httpServer
    · exact Or.inr (if_pos http)
    · exact Or.inl ⟨rfl, http⟩

/-- A server that is opened negotiates no more. -/
theorem opened_quiet {isConnect : Bool} (sound : Sound s) (admits : Admits (.call (.continue isConnect)) s) :
    ∀ c ∈ s.pending, opening c.link = false ∧ continuing c.link = false := by
  obtain ⟨-, notYet, o, openMember, isOpen, answered⟩ := admits
  intro c member
  obtain ⟨o', here, kept⟩ := sound.pending c member
  constructor
  · rw [Bool.eq_false_iff]
    intro isOpening
    obtain ⟨i, place⟩ := List.getElem?_of_mem openMember
    obtain rfl := sound.once i c.operation o o' place here isOpen (kept.opens isOpening).1
    obtain rfl : o = o' := Option.some.inj (place.symm.trans here)
    exact answered kept.unanswered
  · rw [Bool.eq_false_iff]
    intro isContinuing
    obtain ⟨b, isContinue⟩ := (kept.continues isContinuing).1
    exact notYet o' (List.mem_of_getElem? here) b isContinue

theorem continue_sound {isConnect : Bool} (sound : Sound s) (admits : Admits (.call (.continue isConnect)) s) :
    Sound (s.continue isConnect) := by
  have quiet := opened_quiet sound admits
  have afterOpen := admits.2.2
  by_cases socket : s.kind = .tcpSocket
  · have called : s.continue isConnect = { s with
        canceled := s.canceled ++ [false]
        pending := s.pending ++ [⟨.posted, s.operations.length, none, some s.canceled.length⟩]
        operations := s.operations ++ [{ call := .continue isConnect, cancelable := s.canceled.length }] } := by
      simp [Operations.continue, socket, newFlag, post, hand]
    rw [called]
    exact sound.call ⟨rfl, rfl, rfl, rfl⟩ ⟨rfl, rfl, by simp⟩ rfl ⟨Or.inl rfl, rfl, nofun, nofun, nofun⟩
      (Or.inl rfl) (Or.inl rfl) (Or.inl rfl) nofun fun _ => afterOpen
  · by_cases responds : s.kind = .socks5Server ∨ isConnect = true
    · have called : s.continue isConnect = { s with
          canceled := s.canceled ++ [false]
          pending := s.pending ++ [⟨.response, s.operations.length, some s.canceled.length, none⟩]
          operations := s.operations ++ [{ call := .continue isConnect, cancelable := s.canceled.length }]
          members.openCancelable := s.canceled.length
          handler := if s.kind = .socks5Server then some s.operations.length else s.handler } := by
        by_cases socks : s.kind = .socks5Server
        · simp [Operations.continue, socks, await, newFlag, hand]
        · simp [Operations.continue, socket, socks, responds.resolve_left socks, newFlag, await, hand]
      rw [called]
      exact sound.call ⟨rfl, rfl, rfl, rfl⟩ ⟨rfl, rfl, by simp⟩ rfl
        ⟨Or.inr (Or.inl ⟨rfl, rfl⟩), rfl, nofun, fun _ => ⟨⟨isConnect, rfl⟩, fun socks => if_pos socks, fun _ => rfl⟩, nofun⟩
        (Or.inr fun c member _ _ => quiet c member) (Or.inr fun c member _ _ => (quiet c member).2) (Or.inl rfl) nofun
        fun _ => afterOpen
    · obtain ⟨notSocks, plain⟩ := not_or.mp responds
      have called : s.continue isConnect = { s with
          canceled := s.canceled ++ [false]
          pending := s.pending ++
            [⟨.nextContinued, s.operations.length, some s.canceled.length, some s.members.openCancelable⟩]
          operations := s.operations ++ [{ call := .continue isConnect, cancelable := s.canceled.length }]
          members.openCancelable := s.canceled.length } := by
        simp [Operations.continue, socket, notSocks, plain, newFlag, await, hand]
      rw [called]
      exact sound.call ⟨rfl, rfl, rfl, rfl⟩ ⟨rfl, rfl, by simp⟩ rfl
        ⟨Or.inr (Or.inl ⟨rfl, rfl⟩), rfl, nofun,
          fun _ => ⟨⟨isConnect, rfl⟩, fun socks => absurd socks notSocks, nofun⟩, nofun⟩
        (Or.inl rfl) (Or.inr fun c member _ _ => (quiet c member).2) (Or.inl rfl) nofun fun _ => afterOpen

/-- Nothing of a `Connect` is under way before it is called. -/
theorem not_connecting {path : ConnectPath} (sound : Sound s) (admits : Admits (.call (.connect path)) s) :
    ∀ c ∈ s.pending, connecting c.link = false := by
  intro c member
  obtain ⟨o, here, kept⟩ := sound.pending c member
  rw [Bool.eq_false_iff]
  intro isConnecting
  obtain ⟨path', isConnect⟩ := (kept.connects isConnecting).1
  exact admits.2 o (List.mem_of_getElem? here) path' isConnect

theorem connect_sound {path : ConnectPath} (sound : Sound s) (admits : Admits (.call (.connect path)) s) :
    Sound (s.connect path) := by
  have quiet := not_connecting sound admits
  cases kind : s.kind with
  | socks5 =>
    have called : s.connect path = { s with
        canceled := s.canceled ++ [false]
        pending := s.pending ++
          [⟨.nextConnected, s.operations.length, some s.canceled.length, some s.members.connectCancelable⟩]
        operations := s.operations ++ [{ call := .connect path, cancelable := s.members.connectCancelable }] } := by
      simp [Operations.connect, kind, newFlag, await, hand]
    rw [called]
    exact sound.call ⟨rfl, rfl, rfl, rfl⟩ ⟨rfl, rfl, by simpa using Nat.lt_succ_of_lt sound.member⟩ rfl
      ⟨Or.inl rfl, rfl, nofun, nofun, fun _ => ⟨⟨path, rfl⟩, rfl⟩⟩ (Or.inl rfl) (Or.inl rfl) (Or.inl rfl) nofun nofun
  | http =>
    have called : s.connect path = { s with
        canceled := s.canceled ++ [false, false]
        pending := s.pending ++
          [⟨.nextConnected, s.operations.length, some (s.canceled.length + 1), some s.canceled.length⟩]
        operations := s.operations ++ [{ call := .connect path, cancelable := s.canceled.length }]
        members.connectCancelable := s.canceled.length } := by
      simp [Operations.connect, kind, newFlag, await, hand]
    rw [called]
    exact sound.call ⟨rfl, rfl, rfl, rfl⟩ ⟨rfl, rfl, by simp⟩ rfl
      ⟨Or.inl rfl, rfl, nofun, nofun, fun _ => ⟨⟨path, rfl⟩, rfl⟩⟩ (Or.inl rfl) (Or.inl rfl)
      (Or.inr ⟨fun c member _ _ => quiet c member, by simp⟩) nofun nofun
  | socks5Server => exact absurd admits.1 (by simp [kind, Operations.Class.isServer])
  | httpServer => exact absurd admits.1 (by simp [kind, Operations.Class.isServer])
  | tcpSocket =>
    cases path with
    | resolve =>
      have called : s.connect .resolve = { s with
          canceled := s.canceled ++ [false, false]
          pending := s.pending ++
            [⟨.resolved, s.operations.length, some (s.canceled.length + 1), some s.canceled.length⟩]
          operations := s.operations ++ [{ call := .connect .resolve, cancelable := s.canceled.length }]
          members.connectCancelable := s.canceled.length } := by
        simp [Operations.connect, kind, newFlag, await, hand]
      rw [called]
      exact sound.call ⟨rfl, rfl, rfl, rfl⟩ ⟨rfl, rfl, by simp⟩ rfl ⟨Or.inl rfl, rfl, nofun, nofun, nofun⟩
        (Or.inl rfl) (Or.inl rfl) (Or.inr ⟨fun c member _ _ => quiet c member, by simp⟩) nofun nofun
    | unresolvable =>
      have called : s.connect .unresolvable = { s with
          canceled := s.canceled ++ [false]
          pending := s.pending ++ [⟨.posted, s.operations.length, none, some s.canceled.length⟩]
          operations := s.operations ++ [{ call := .connect .unresolvable, cancelable := s.canceled.length }]
          members.connectCancelable := s.canceled.length } := by
        simp [Operations.connect, kind, newFlag, post, hand]
      rw [called]
      exact sound.call ⟨rfl, rfl, rfl, rfl⟩ ⟨rfl, rfl, by simp⟩ rfl ⟨Or.inl rfl, rfl, nofun, nofun, nofun⟩
        (Or.inl rfl) (Or.inl rfl) (Or.inr ⟨fun c member _ _ => quiet c member, by simp⟩) nofun nofun
    | attempt =>
      have called : s.connect .attempt = { s with
          canceled := s.canceled ++ [false]
          pending := s.pending ++ [⟨.attempted, s.operations.length, none, some s.canceled.length⟩]
          operations := s.operations ++ [{ call := .connect .attempt, cancelable := s.canceled.length }]
          members.connectCancelable := s.canceled.length } := by
        simp [Operations.connect, kind, newFlag, post, hand]
      rw [called]
      exact sound.call ⟨rfl, rfl, rfl, rfl⟩ ⟨rfl, rfl, by simp⟩ rfl ⟨Or.inl rfl, rfl, nofun, nofun, nofun⟩
        (Or.inl rfl) (Or.inl rfl) (Or.inr ⟨fun c member _ _ => quiet c member, by simp⟩) nofun nofun
    | exhausted =>
      have called : s.connect .exhausted = { s with
          canceled := s.canceled ++ [false]
          operations := s.operations ++ [{ call := .connect .exhausted, cancelable := s.canceled.length, answers := 1 }]
          members.connectCancelable := s.canceled.length } := by
        simp [Operations.connect, kind, newFlag, hand, answer, List.modify_eq_take_cons_drop]
      rw [called]
      refine @Sound.begun s _ _ sound [] ⟨rfl, rfl, ⟨rfl, rfl⟩, by simp, by simp, isCanceled_grown rfl, by simp,
        Or.inl rfl, by simp⟩ (fun c member o kept => ?_) nofun nofun
      exact kept.carry rfl (Or.inl rfl) (Or.inl rfl) (Or.inr (quiet c member))

theorem read_sound (sound : Sound s) (firstHeader : Bool) : Sound (s.read firstHeader) := by
  by_cases posts : s.kind = .tcpSocket ∨ s.kind = .httpServer ∧ firstHeader = true
  · have called : s.read firstHeader = { s with
        canceled := s.canceled ++ [false]
        pending := s.pending ++ [⟨if s.kind = .tcpSocket then .socketRead else .posted, s.operations.length, none,
          some s.canceled.length⟩]
        operations := s.operations ++ [{ call := .read firstHeader, cancelable := s.canceled.length }]
        members.readCancelable := s.canceled.length } := by
      simp [Operations.read, posts, newFlag, post, hand]
      rfl
    rw [called]
    refine sound.call ⟨rfl, rfl, rfl, rfl⟩ ⟨rfl, rfl, by simp⟩ rfl ⟨Or.inl rfl, rfl, ?_, ?_, ?_⟩
      (Or.inl rfl) (Or.inl rfl) (Or.inl rfl) nofun nofun
    all_goals
      by_cases socket : s.kind = .tcpSocket <;> simp [socket, opening, continuing, connecting]
  · have called : s.read firstHeader = { s with
        canceled := s.canceled ++ [false]
        pending := s.pending ++ [⟨.nextRead, s.operations.length, some s.canceled.length, none⟩]
        operations := s.operations ++ [{ call := .read firstHeader, cancelable := s.canceled.length }]
        members.readCancelable := s.canceled.length } := by
      simp [Operations.read, posts, newFlag, await, hand]
    rw [called]
    exact sound.call ⟨rfl, rfl, rfl, rfl⟩ ⟨rfl, rfl, by simp⟩ rfl
      ⟨Or.inr (Or.inl ⟨rfl, rfl⟩), rfl, nofun, nofun, nofun⟩ (Or.inl rfl) (Or.inl rfl) (Or.inl rfl) nofun nofun

/-- `Write` and `CloseWrite`. -/
theorem write_sound (sound : Sound s) {call : Call} {socketLink nextLink : Link}
    (other : call ≠ .open ∧ ∀ b, call ≠ .continue b)
    (socket : opening socketLink = false ∧ continuing socketLink = false ∧ connecting socketLink = false)
    (next : opening nextLink = false ∧ continuing nextLink = false ∧ connecting nextLink = false)
    (hands : handed nextLink = true) : Sound (s.write call socketLink nextLink) := by
  by_cases isSocket : s.kind = .tcpSocket
  · have called : s.write call socketLink nextLink = { s with
        canceled := s.canceled ++ [false]
        pending := s.pending ++ [⟨socketLink, s.operations.length, none, some s.canceled.length⟩]
        operations := s.operations ++ [{ call, cancelable := s.canceled.length }]
        members.writeCancelable := s.canceled.length } := by
      simp [Operations.write, isSocket, newFlag, post, hand]
    rw [called]
    exact sound.call ⟨rfl, rfl, rfl, rfl⟩ ⟨rfl, rfl, by simp⟩ rfl
      ⟨Or.inl rfl, rfl, by simp [socket], by simp [socket], by simp [socket]⟩
      (Or.inl rfl) (Or.inl rfl) (Or.inl rfl) (fun isOpen => absurd isOpen other.1)
      fun ⟨b, isContinue⟩ => absurd isContinue (other.2 b)
  · have called : s.write call socketLink nextLink = { s with
        canceled := s.canceled ++ [false]
        pending := s.pending ++ [⟨nextLink, s.operations.length, some s.canceled.length, none⟩]
        operations := s.operations ++ [{ call, cancelable := s.canceled.length }]
        members.writeCancelable := s.canceled.length } := by
      simp [Operations.write, isSocket, newFlag, await, hand]
    rw [called]
    exact sound.call ⟨rfl, rfl, rfl, rfl⟩ ⟨rfl, rfl, by simp⟩ rfl
      ⟨Or.inr (Or.inl ⟨hands, rfl⟩), rfl, by simp [next], by simp [next], by simp [next]⟩
      (Or.inl rfl) (Or.inl rfl) (Or.inl rfl) (fun isOpen => absurd isOpen other.1)
      fun ⟨b, isContinue⟩ => absurd isContinue (other.2 b)

theorem call_sound (sound : Sound s) {call : Call} (admits : Admits (.call call) s) : Sound (s.call call) := by
  cases call with
  | «open» => exact open_sound sound admits
  | «continue» isConnect => exact continue_sound sound admits
  | connect path => exact connect_sound sound admits
  | read firstHeader => exact read_sound sound firstHeader
  | write => exact write_sound sound ⟨nofun, nofun⟩ ⟨rfl, rfl, rfl⟩ ⟨rfl, rfl, rfl⟩ rfl
  | closeWrite => exact write_sound sound ⟨nofun, nofun⟩ ⟨rfl, rfl, rfl⟩ ⟨rfl, rfl, rfl⟩ rfl

/-! ## Completions -/

/-- A callback that runs: it waits no more, and its operation was not cancelled. -/
structure Running (s : Operations) (c : Callback) (op : Operation) : Prop where
  sound : Sound s
  here : s.operations[c.operation]? = some op
  kept : Kept s c op
  live : op.withdrawn = false
  last : ∀ other ∈ s.pending, other.operation ≠ c.operation

theorem Sound.erase (sound : Sound s) (k : Nat) : Sound { s with pending := s.pending.eraseIdx k } := by
  have sub : (s.pending.eraseIdx k).Sublist s.pending := List.eraseIdx_sublist _ _
  refine ⟨fun c member => ?_, (sub.map _).nodup sound.alone, sound.flags, sound.final, sound.once, sound.order,
    sound.member⟩
  obtain ⟨o, here, kept⟩ := sound.pending c (sub.subset member)
  exact ⟨o, here, kept.carry rfl (Or.inl rfl) (Or.inl rfl) (Or.inl rfl)⟩

/-- Cancelling any flag keeps everything. -/
theorem Sound.cancelFlag (sound : Sound s) (flag : Nat) : Sound (s.cancelFlag flag) := by
  have length : (s.cancelFlag flag).canceled.length = s.canceled.length := List.length_set
  refine ⟨fun c member => ?_, sound.alone, fun o member => ?_, sound.final, sound.once, sound.order, ?_⟩
  · obtain ⟨o, here, kept⟩ := sound.pending c member
    exact ⟨o, here, kept.carry rfl (Or.inl rfl) (Or.inl rfl) (Or.inl rfl)⟩
  · obtain ⟨bound, flagged⟩ := sound.flags o member
    exact ⟨by rw [length]; exact bound, fun withdrawn => isCanceled_cancelFlag flag _ (flagged withdrawn)⟩
  · rw [length]
    exact sound.member

theorem Running.cancelFlag (running : Running s c op) (flag : Nat) : Running (s.cancelFlag flag) c op :=
  ⟨running.sound.cancelFlag flag, running.here, running.kept.carry rfl (Or.inl rfl) (Or.inl rfl) (Or.inl rfl),
    running.live, running.last⟩

theorem Running.sideEffect (running : Running s c op) (outcome : Outcome) :
    Running (s.sideEffect c.link outcome) c op := by
  rw [Operations.sideEffect.eq_def]
  split
  case h_1 | h_2 => exact running.cancelFlag _
  case h_3 | h_4 =>
    split
    · exact running.cancelFlag _
    · exact running
  case h_5 => exact running

/-- The handler that comes is the operation's own. -/
theorem Running.invoke (running : Running s c op) : s.invoke c = .ok (s.answer c.operation) := by
  have kept := running.kept
  rw [Operations.invoke.eq_def]
  cases link : c.link with
  | negotiateRead =>
    have handler := (kept.opens (by rw [link]; rfl)).2.2.resolve_left (by simp [link])
    simp [handler]
  | methodReply =>
    have handler := (kept.opens (by rw [link]; rfl)).2.2.resolve_left (by simp [link])
    simp [handler]
  | nextOpened =>
    by_cases http : s.kind = .httpServer
    · have handler := (kept.opens (by rw [link]; rfl)).2.2.resolve_left (by simp [http])
      simp [handler, http]
    · simp [http]
  | response =>
    have continues := (kept.continues (by rw [link]; rfl)).2.1
    by_cases socks : s.kind = .socks5Server
    · simp [continues socks, socks]
    · simp [socks]
  | nextContinued =>
    have continues := (kept.continues (by rw [link]; rfl)).2.1
    by_cases socks : s.kind = .socks5Server
    · simp [continues socks, socks]
    · simp [socks]
  | _ => rfl

theorem answer_at (i j : Nat) : (s.answer i).operations[j]? = s.operations[j]?.map fun op =>
    if i = j then { op with answers := op.answers + 1, late := if op.withdrawn then op.late + 1 else op.late }
    else op := by
  rw [answer, List.getElem?_modify]
  rfl

/-- An operation before and after an answer. -/
theorem of_answered {i j : Nat} {o : Operation} (there : (s.answer i).operations[j]? = some o) :
    ∃ before, s.operations[j]? = some before ∧ o.call = before.call ∧ o.cancelable = before.cancelable ∧
      o.withdrawn = before.withdrawn ∧ before.answers ≤ o.answers ∧
      (o.late = before.late ∨ i = j ∧ before.withdrawn = true) ∧ (i ≠ j → o = before) := by
  rw [answer_at] at there
  obtain ⟨before, was, rfl⟩ := Option.map_eq_some_iff.mp there
  refine ⟨before, was, ?_⟩
  by_cases its : i = j
  · cases before.withdrawn <;> simp [its]
  · simp [its]

theorem Running.answer (running : Running s c op) : Sound (s.answer c.operation) := by
  have sound := running.sound
  refine ⟨fun other member => ?_, sound.alone, fun o member => ?_, fun o member => ?_, ?_, fun o member continued => ?_,
    sound.member⟩
  · obtain ⟨o, here, kept⟩ := sound.pending other member
    refine ⟨o, ?_, kept.carry rfl (Or.inl rfl) (Or.inl rfl) (Or.inl rfl)⟩
    rw [answer_at, here]
    simp [(running.last other member).symm]
  · obtain ⟨j, there⟩ := List.getElem?_of_mem member
    obtain ⟨before, was, -, cancelable, withdrawn, -⟩ := of_answered there
    rw [cancelable, withdrawn]
    exact sound.flags before (List.mem_of_getElem? was)
  · obtain ⟨j, there⟩ := List.getElem?_of_mem member
    obtain ⟨before, was, -, -, -, -, late, -⟩ := of_answered there
    rcases late with same | ⟨rfl, withdrawn⟩
    · rw [same]
      exact sound.final before (List.mem_of_getElem? was)
    · obtain rfl : op = before := Option.some.inj (running.here.symm.trans was)
      exact absurd (running.live.symm.trans withdrawn) Bool.false_ne_true
  · intro i j a b atI atJ openA openB
    obtain ⟨a', wasA, callA, -⟩ := of_answered atI
    obtain ⟨b', wasB, callB, -⟩ := of_answered atJ
    exact sound.once i j a' b' wasA wasB (callA ▸ openA) (callB ▸ openB)
  · obtain ⟨j, there⟩ := List.getElem?_of_mem member
    obtain ⟨before, was, call, -⟩ := of_answered there
    rw [call] at continued
    obtain ⟨o', openMember, isOpen, answered⟩ := sound.order before (List.mem_of_getElem? was) continued
    obtain ⟨i, place⟩ := List.getElem?_of_mem openMember
    have after := @answer_at s c.operation i
    rw [place] at after
    refine ⟨_, List.mem_of_getElem? after, ?_, ?_⟩
    · split <;> exact isOpen
    · split
      · simp
      · exact answered

/-- Where the links lead, by what the next callback looks at. -/
theorem react_start {kind : Operations.Class} {link next : Link} {outcome : Outcome}
    (started : react kind link outcome = .start next) :
    (next = .attempted ∧ (link = .resolved ∨ link = .attempted)) ∨
    ((next = .method ∨ next = .request ∨ next = .reply ∨ next = .rest ∨ next = .connectRequest) ∧
      connecting link = true) ∨
    ((next = .greeting ∨ next = .connectResponse) ∧ connecting link = true) ∨
    (next = .nextContinued ∧ link = .response) ∨
    ((next = .negotiateRead ∨ next = .methodReply) ∧ opening link = true) := by
  cases link <;> cases outcome <;> simp only [react, reduceCtorEq, Reaction.start.injEq] at started <;>
    first
    | exact absurd started id
    | (subst started; simp [connecting, opening])
    | (split at started <;> simp only [reduceCtorEq, Reaction.start.injEq] at started <;>
        first | exact absurd started id | (subst started; simp [connecting, opening]))

/-- The next callback of an operation takes the place of the one that runs. -/
theorem Running.next (running : Running s c op) {c' : Callback} {more : List Bool} (made : s'.kind = s.kind ∧
      s'.operations = s.operations ∧ s'.canceled = s.canceled ++ more ∧ s'.pending = s.pending ++ [c'])
    (place : c'.operation = c.operation) (kept : Kept s' c' op)
    (handler : s'.handler = s.handler ∨ ∀ other ∈ s.pending, opening other.link = false ∧ continuing other.link = false)
    (opened : s'.members.openCancelable = s.members.openCancelable)
    (connected : s'.members.connectCancelable = s.members.connectCancelable) : Sound s' := by
  obtain ⟨kind, operations, canceled, pending⟩ := made
  have sound := running.sound
  have grown : s.canceled.length ≤ s'.canceled.length := by
    rw [canceled, List.length_append]
    exact Nat.le_add_right _ _
  refine ⟨fun other member => ?_, ?_, fun o member => ?_, ?_, ?_, ?_, ?_⟩
  · rw [operations]
    rw [pending] at member
    rcases List.mem_append.mp member with old | new
    · obtain ⟨o, here, waits⟩ := sound.pending other old
      exact ⟨o, here, waits.carry kind (handler.imp_right fun no => no other old) (Or.inl opened) (Or.inl connected)⟩
    · obtain rfl := List.mem_singleton.mp new
      exact ⟨op, place ▸ running.here, kept⟩
  · rw [pending, List.map_append]
    refine List.nodup_append.mpr ⟨sound.alone, by simp, ?_⟩
    simp only [List.map_cons, List.map_nil, List.mem_singleton, List.mem_map]
    rintro _ ⟨other, member, rfl⟩ _ rfl
    rw [place]
    exact running.last other member
  · rw [operations] at member
    obtain ⟨bound, flagged⟩ := sound.flags o member
    exact ⟨Nat.lt_of_lt_of_le bound grown, fun withdrawn => isCanceled_grown canceled _ (flagged withdrawn)⟩
  · rw [Final, operations]
    exact sound.final
  · rw [operations]
    exact sound.once
  · rw [operations]
    exact sound.order
  · rw [connected]
    exact Nat.lt_of_lt_of_le sound.member grown

/-- While a server opens, no other callback uses `handler_`. -/
theorem Running.alone (running : Running s c op) (isOpening : opening c.link = true) :
    ∀ other ∈ s.pending, opening other.link = false ∧ continuing other.link = false := by
  intro other member
  have isOpen := (running.kept.opens isOpening).1
  obtain ⟨o, here, kept⟩ := running.sound.pending other member
  constructor
  · rw [Bool.eq_false_iff]
    intro too
    exact running.last other member (running.sound.once _ _ o op here running.here (kept.opens too).1 isOpen)
  · rw [Bool.eq_false_iff]
    intro too
    obtain ⟨o', member', isOpen', answered⟩ :=
      running.sound.order o (List.mem_of_getElem? here) (kept.continues too).1
    obtain ⟨j, there⟩ := List.getElem?_of_mem member'
    obtain rfl := running.sound.once _ _ o' op there running.here isOpen' isOpen
    obtain rfl : o' = op := Option.some.inj (there.symm.trans running.here)
    exact answered running.kept.unanswered

/-- A callback that neither the next hop nor the negotiation guards looks at its operation's flag. -/
theorem Kept.captured (kept : Kept s c op) (handed : handed c.link = false) (negotiating : negotiating c.link = false) :
    c.captured = some op.cancelable := by
  rcases kept.guarded with looks | ⟨yes, -⟩ | ⟨yes, -⟩
  · exact looks
  · rw [handed] at yes
    cases yes
  · rw [negotiating] at yes
    cases yes

theorem connecting_guards {link : Link} (isConnecting : connecting link = true) :
    handed link = false ∧ negotiating link = false := by
  cases link <;> first | exact ⟨rfl, rfl⟩ | exact absurd isConnecting Bool.false_ne_true

/-- A step of `Connect` that looks at the flag of `Connect`. -/
theorem Running.connects (running : Running s c op) (isConnecting : connecting c.link = true) {link : Link}
    (next : connecting link = true ∧ opening link = false ∧ continuing link = false) :
    Sound (s.await link c.operation (some op.cancelable)).2 := by
  refine @Running.next s _ c op running ⟨link, c.operation, some s.canceled.length, some op.cancelable⟩ [false]
    ⟨rfl, rfl, rfl, rfl⟩ rfl ⟨Or.inl rfl, running.kept.unanswered, ?_, ?_, fun _ => running.kept.connects isConnecting⟩
    (Or.inl rfl) rfl rfl
  · simp [next]
  · simp [next]

/-- A step of a server's negotiation. -/
theorem Running.negotiates (running : Running s c op) (isOpening : opening c.link = true) {link : Link}
    (next : negotiating link = true ∧ opening link = true) (reads writes : Nat) (handler : Option Nat)
    (handled : handler = some c.operation) :
    Sound { (s.await link c.operation none).2 with
      members := { s.members with readCancelable := reads, writeCancelable := writes }, handler } := by
  have opens := running.kept.opens isOpening
  refine @Running.next s _ c op running ⟨link, c.operation, some s.canceled.length, none⟩ [false]
    ⟨rfl, rfl, rfl, rfl⟩ rfl ⟨Or.inr (Or.inr ⟨next.1, running.live⟩), running.kept.unanswered, fun _ => ?_, ?_, ?_⟩
    (Or.inr (running.alone isOpening)) rfl rfl
  · exact ⟨opens.1, opens.2.1, Or.inr handled⟩
  · cases link <;> simp_all [negotiating, continuing]
  · cases link <;> simp_all [negotiating, connecting]

theorem Running.goOn (running : Running s c op) {link : Link} {outcome : Outcome}
    (started : react s.kind c.link outcome = .start link) : Sound (s.goOn c link) := by
  have kept := running.kept
  rcases react_start started with ⟨rfl, tries⟩ | ⟨goes, isConnecting⟩ | ⟨goes, isConnecting⟩ | ⟨rfl, answers⟩ |
    ⟨goes, isOpening⟩
  · have captured := kept.captured (by rcases tries with h | h <;> rw [h] <;> rfl)
      (by rcases tries with h | h <;> rw [h] <;> rfl)
    exact @Running.next s _ c op running ⟨.attempted, c.operation, none, c.captured⟩ []
      ⟨rfl, rfl, (List.append_nil _).symm, rfl⟩ rfl ⟨Or.inl captured, kept.unanswered, nofun, nofun, nofun⟩
      (Or.inl rfl) rfl rfl
  · have unguarded := connecting_guards isConnecting
    have captured := kept.captured unguarded.1 unguarded.2
    have going : s.goOn c link = (s.await link c.operation (some op.cancelable)).2 := by
      rw [← captured]
      rcases goes with rfl | rfl | rfl | rfl | rfl <;> rfl
    rw [going]
    exact running.connects isConnecting (by rcases goes with rfl | rfl | rfl | rfl | rfl <;> exact ⟨rfl, rfl, rfl⟩)
  · have same := (kept.connects isConnecting).2
    have going : s.goOn c link = (s.await link c.operation (some op.cancelable)).2 := by
      rw [same]
      rcases goes with rfl | rfl <;> rfl
    rw [going]
    exact running.connects isConnecting (by rcases goes with rfl | rfl <;> exact ⟨rfl, rfl, rfl⟩)
  · have continues := kept.continues (by rw [answers]; rfl)
    have same := continues.2.2 answers
    exact @Running.next s (s.goOn c .nextContinued) c op running
      ⟨.nextContinued, c.operation, some s.canceled.length, some s.members.openCancelable⟩ [false]
      ⟨rfl, rfl, rfl, rfl⟩ rfl
      ⟨Or.inl (by rw [same]), kept.unanswered, nofun, fun _ => ⟨continues.1, continues.2.1, nofun⟩, nofun⟩
      (Or.inl rfl) rfl rfl
  · have handler := (kept.opens isOpening).2.2
    rcases goes with rfl | rfl
    · by_cases sets : c.link = .nextOpened ∧ s.kind = .socks5Server
      · have going : s.goOn c .negotiateRead = { (s.await .negotiateRead c.operation none).2 with
            members := { s.members with readCancelable := s.canceled.length, writeCancelable := s.members.writeCancelable }
            handler := some c.operation } := by
          simp [Operations.goOn, sets, await, newFlag]
        rw [going]
        exact @Running.negotiates _ _ _ running isOpening .negotiateRead ⟨rfl, rfl⟩ _ _ _ rfl
      · have going : s.goOn c .negotiateRead = { (s.await .negotiateRead c.operation none).2 with
            members := { s.members with readCancelable := s.canceled.length, writeCancelable := s.members.writeCancelable }
            handler := s.handler } := by
          simp [Operations.goOn, sets, await, newFlag]
        rw [going]
        refine @Running.negotiates _ _ _ running isOpening .negotiateRead ⟨rfl, rfl⟩ _ _ _ (handler.resolve_left fun ⟨opens, other⟩ => ?_)
        have server := (kept.opens isOpening).2.1
        cases kind : s.kind <;> simp_all [Operations.Class.isServer]
    · have going : s.goOn c .methodReply = { (s.await .methodReply c.operation none).2 with
          members := { s.members with readCancelable := s.members.readCancelable, writeCancelable := s.canceled.length }
          handler := s.handler } := rfl
      rw [going]
      refine @Running.negotiates _ _ _ running isOpening .methodReply ⟨rfl, rfl⟩ _ _ _ (handler.resolve_left fun ⟨opens, other⟩ => ?_)
      rw [opens] at started
      cases outcome <;> simp [react] at started

/-! ## Steps -/

@[simp] theorem sideEffect_kind (link : Link) (outcome : Outcome) : (s.sideEffect link outcome).kind = s.kind := by
  rw [Operations.sideEffect.eq_def]
  repeat' split
  all_goals rfl

@[simp] theorem goOn_kind (link : Link) : (s.goOn c link).kind = s.kind := by
  cases link <;> simp only [Operations.goOn] <;> try rfl
  split <;> rfl

theorem call_kind (call : Call) : (s.call call).kind = s.kind := by
  cases call with
  | «open» =>
    rw [Operations.call, Operations.open]
    split <;> rfl
  | «continue» isConnect =>
    cases isConnect <;> simp only [Operations.call, Operations.continue] <;> split <;> first | rfl | (split <;> rfl)
  | connect path =>
    rw [Operations.call, Operations.connect.eq_def]
    split
    · rfl
    · rfl
    · cases path <;> rfl
  | read firstHeader =>
    rw [Operations.call, Operations.read]
    split <;> rfl
  | write | closeWrite =>
    rw [Operations.call, Operations.write]
    split <;> rfl

/-- The callback that completes is that of a live operation. -/
theorem Sound.runs (sound : Sound s) {k : Nat} (there : s.pending[k]? = some c)
    (own : ∀ own, c.own = some own → s.isCanceled own = false) (captured : c.captured.any s.isCanceled = false) :
    ∃ op, Running { s with pending := s.pending.eraseIdx k } c op := by
  obtain ⟨bound, atK⟩ := List.getElem?_eq_some_iff.mp there
  obtain ⟨op, here, kept⟩ := sound.pending c (List.mem_of_getElem? there)
  refine ⟨op, sound.erase k, here, kept.carry rfl (Or.inl rfl) (Or.inl rfl) (Or.inl rfl),
    kept.live (sound.flags op (List.mem_of_getElem? here)).2 own captured, fun other member same => ?_⟩
  -- no two callbacks wait for one operation
  obtain ⟨j, inBounds, far, atJ⟩ := List.mem_eraseIdx_iff_getElem.mp member
  have inMapped : j < (s.pending.map Callback.operation).length := by simpa using inBounds
  have place : (s.pending.map Callback.operation)[j]? = (s.pending.map Callback.operation)[k]? := by
    rw [List.getElem?_map, List.getElem?_map, List.getElem?_eq_getElem inBounds, there, atJ, Option.map_some,
      Option.map_some, same]
  exact far ((List.getElem?_inj inMapped sound.alone).mp place)

theorem complete_sound (sound : Sound s) {k : Nat} {outcome : Outcome} (admits : Admits (.complete k outcome) s) :
    ∃ s', s.complete k outcome = .ok s' ∧ Sound s' ∧ s'.kind = s.kind := by
  obtain ⟨c, there, own⟩ := admits
  rw [complete, there, deref_some, ok_bind]
  by_cases canceled : c.captured.any { s with pending := s.pending.eraseIdx k }.isCanceled = true
  · exact ⟨_, if_pos canceled, sound.erase k, rfl⟩
  · obtain ⟨op, running⟩ := sound.runs there own (Bool.eq_false_iff.mpr canceled)
    have running' := running.sideEffect outcome
    dsimp only
    rw [if_neg canceled]
    split
    · exact ⟨_, running'.invoke, running'.answer, sideEffect_kind _ _⟩
    · next link started => exact ⟨_, rfl, running'.goOn started, (goOn_kind _).trans (sideEffect_kind _ _)⟩
    · exact ⟨_, rfl, running'.sound, sideEffect_kind _ _⟩

theorem negotiating_opens {link : Link} (negotiates : negotiating link = true) : opening link = true := by
  cases link <;> first | rfl | exact absurd negotiates Bool.false_ne_true

/-- The operation that is cancelled, and nothing else, is withdrawn. -/
theorem cancel_sound (sound : Sound s) {i : Nat} (admits : i < s.operations.length)
    (undisturbed : Undisturbed (.cancel i) s) : ∃ s', s.cancel i = .ok s' ∧ Sound s' ∧ s'.kind = s.kind := by
  obtain ⟨op, here⟩ : ∃ op, s.operations[i]? = some op := ⟨_, List.getElem?_eq_getElem admits⟩
  have bound := (sound.flags op (List.mem_of_getElem? here)).1
  have flagged := sound.cancelFlag op.cancelable
  let s₁ : Operations := { s.cancelFlag op.cancelable with operations := s.operations.set i { op with withdrawn := true } }
  have canceled : s.cancel i = .ok s₁ := by
    rw [cancel, here]
    rfl
  -- an operation of before, and what became of it
  have became {j : Nat} {o : Operation} (there : s.operations[j]? = some o) :
      s₁.operations[j]? = some (if i = j then { o with withdrawn := true } else o) := by
    show (s.operations.set i _)[j]? = _
    rw [List.getElem?_set]
    split
    · next same =>
      subst same
      obtain rfl : op = o := Option.some.inj (here.symm.trans there)
      simp
    · exact there
  have was {j : Nat} {o : Operation} (there : s₁.operations[j]? = some o) : ∃ before, s.operations[j]? = some before ∧
      o.call = before.call ∧ o.cancelable = before.cancelable ∧ o.late = before.late ∧ o.answers = before.answers ∧
      (o.withdrawn = before.withdrawn ∨ before = op) := by
    have bounded : j < s.operations.length := by
      have := (List.getElem?_eq_some_iff.mp there).1
      rwa [List.length_set] at this
    refine ⟨s.operations[j], List.getElem?_eq_getElem bounded, ?_⟩
    have after := became (List.getElem?_eq_getElem bounded)
    rw [there] at after
    obtain rfl := Option.some.inj after
    split
    · next same =>
      subst same
      have : s.operations[i] = op := Option.some.inj ((List.getElem?_eq_getElem bounded).symm.trans here)
      exact ⟨rfl, rfl, rfl, rfl, Or.inr this⟩
    · exact ⟨rfl, rfl, rfl, rfl, Or.inl rfl⟩
  refine ⟨s₁, canceled, ?_, rfl⟩
  refine ⟨fun c member => ?_, sound.alone, fun o member => ?_, fun o member => ?_, ?_,
    fun o member continued => ?_, flagged.member⟩
  · obtain ⟨o, there, kept⟩ := sound.pending c member
    refine ⟨_, became there, ?_⟩
    split
    · next same =>
      -- its callback looks at its flag, since it does not negotiate
      obtain rfl : op = o := Option.some.inj (here.symm.trans (same ▸ there))
      refine ⟨?_, kept.unanswered, kept.opens, kept.continues, kept.connects⟩
      rcases kept.guarded with looks | hands | ⟨negotiates, -⟩
      · exact Or.inl looks
      · exact Or.inr (Or.inl hands)
      · have opens := kept.opens (negotiating_opens negotiates)
        have only := undisturbed op here opens.1 opens.2.1 c member same.symm
        rw [only] at negotiates
        cases negotiates
    · exact kept.carry rfl (Or.inl rfl) (Or.inl rfl) (Or.inl rfl)
  · obtain ⟨j, there⟩ := List.getElem?_of_mem member
    obtain ⟨before, place, -, cancelable, -, -, withdrawn⟩ := was there
    obtain ⟨bound', already⟩ := flagged.flags before (List.mem_of_getElem? place)
    rw [cancelable]
    refine ⟨bound', fun now => ?_⟩
    rcases withdrawn with same | rfl
    · exact already (same ▸ now)
    · exact isCanceled_cancelFlag_self bound
  · obtain ⟨j, there⟩ := List.getElem?_of_mem member
    obtain ⟨before, place, -, -, late, -, -⟩ := was there
    rw [late]
    exact sound.final before (List.mem_of_getElem? place)
  · intro j k a b atJ atK openA openB
    obtain ⟨a', wasA, callA, -⟩ := was atJ
    obtain ⟨b', wasB, callB, -⟩ := was atK
    exact sound.once j k a' b' wasA wasB (callA ▸ openA) (callB ▸ openB)
  · obtain ⟨j, there⟩ := List.getElem?_of_mem member
    obtain ⟨before, place, call, -⟩ := was there
    rw [call] at continued
    obtain ⟨o', openMember, isOpen, answered⟩ := sound.order before (List.mem_of_getElem? place) continued
    obtain ⟨k, at'⟩ := List.getElem?_of_mem openMember
    refine ⟨_, List.mem_of_getElem? (became at'), ?_⟩
    split <;> exact ⟨isOpen, answered⟩

theorem step_sound (sound : Sound s) {e : Event} (admits : Admits e s) (undisturbed : Undisturbed e s) :
    ∃ s', step e s = .ok s' ∧ Sound s' ∧ s'.kind = s.kind := by
  cases e with
  | call call => exact ⟨_, rfl, call_sound sound admits, call_kind call⟩
  | complete k outcome => exact complete_sound sound admits
  | cancel i => exact cancel_sound sound admits undisturbed

/-- While nobody cancels the `Open` of a server that negotiates, cancellation is final. -/
theorem cancellation_is_final (kind : Operations.Class) (events : List Event) (admitted : machine.Admitted events { kind })
    (undisturbed : machine.Along Undisturbed events { kind }) :
    machine.AllSteps (fun _ _ s' => Final s') events { kind } := by
  refine @Machine.allSteps_of_along _ _ _ machine Sound _ _ ?_ events _ (start_sound kind) admitted undisturbed
  intro e s sound admits undisturbed
  obtain ⟨s', stepped, after, -⟩ := step_sound sound admits undisturbed
  exact ⟨s', stepped, after.final, after⟩

/-- The flow of a SOCKS5 client, cancelled between two of its steps. -/
theorem cancellation_is_final_socks5 :
    machine.AllSteps (fun _ _ s' => Final s')
      [.call (.connect .attempt), .complete 0 .goesOn, .cancel 0, .complete 0 .goesOn] { kind := .socks5 } := by
  have admitted : machine.Admitted
      [.call (.connect .attempt), .complete 0 .goesOn, .cancel 0, .complete 0 .goesOn] { kind := .socks5 } := by
    refine ⟨⟨rfl, nofun⟩, fun s stepped => ?_⟩
    cases stepped
    refine ⟨⟨_, rfl, by rintro _ ⟨⟩; rfl⟩, fun s stepped => ?_⟩
    cases stepped
    refine ⟨Nat.zero_lt_one, fun s stepped => ?_⟩
    cases stepped
    exact ⟨⟨_, rfl, by rintro _ ⟨⟩; rfl⟩, fun _ _ => trivial⟩
  refine cancellation_is_final .socks5 _ admitted ⟨trivial, fun s stepped => ?_⟩
  cases stepped
  refine ⟨trivial, fun s stepped => ?_⟩
  cases stepped
  refine ⟨fun op there isOpen => ?_, fun s stepped => ⟨trivial, fun _ _ => trivial⟩⟩
  cases there
  cases isOpen

/-- The next hop is open, the caller cancels, and the next read fails: the handler still comes. -/
theorem negotiation_ignores_cancel :
    machine.Admitted [.call .open, .complete 0 .goesOn, .cancel 0, .complete 0 .failed] { kind := .httpServer } ∧
    ∃ s, machine.run [.call .open, .complete 0 .goesOn, .cancel 0, .complete 0 .failed] { kind := .httpServer } = .ok s ∧
      ¬ Final s := by
  constructor
  · refine ⟨⟨Or.inr rfl, nofun⟩, fun s stepped => ?_⟩
    cases stepped
    refine ⟨⟨_, rfl, by rintro _ ⟨⟩; rfl⟩, fun s stepped => ?_⟩
    cases stepped
    refine ⟨Nat.zero_lt_one, fun s stepped => ?_⟩
    cases stepped
    exact ⟨⟨_, rfl, by rintro _ ⟨⟩; rfl⟩, fun _ _ => trivial⟩
  · refine ⟨_, rfl, fun final => ?_⟩
    have late := final ⟨.open, 4, true, 1, 1⟩ (List.mem_singleton.mpr rfl)
    cases late

/-- On a socket or a client of a proxy, cancellation is final in every run. -/
theorem final_without_negotiation {kind : Operations.Class} (noServer : kind.isServer = false) (events : List Event)
    (admitted : machine.Admitted events { kind }) : machine.AllSteps (fun _ _ s' => Final s') events { kind } := by
  refine @Machine.allSteps_of_inputs _ _ _ machine (fun s => Sound s ∧ s.kind.isServer = false) _ (fun _ => True) ?_
    events _ ⟨start_sound kind, noServer⟩ admitted fun _ _ => trivial
  rintro e s ⟨sound, noServer⟩ admits -
  have undisturbed : Undisturbed e s := by
    cases e with
    | cancel i => exact fun op _ _ server => absurd (server.symm.trans noServer) Bool.noConfusion
    | _ => trivial
  obtain ⟨s', stepped, after, kind⟩ := step_sound sound admits undisturbed
  exact ⟨s', stepped, after.final, after, by rw [kind]; exact noServer⟩

end LibNekit.Guarantees.Cancellation
