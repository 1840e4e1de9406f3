import LinuxZero.Net.SocketServerAccept

/-! # The descriptors of the server with an accept thread

What holds of both threads in every order of their steps: a connection whose descriptor has not been
closed has it for itself, an event of the epoll set belongs to such a connection, and it was put there
by `add_eool`. Numbers of the manager and descriptors may be used again.
-/

namespace LinuxZero

/-- The connection that the epoll thread is ending. -/
def EpollThread.Ends (thread : EpollThread) (p : ℕ) : Prop :=
  (∃ sock, thread = .ended p sock ∨ thread = .closed p sock) ∨ thread = .unregistered p

namespace SocketServerAccept

variable {ρ : Type} {s t : SocketServerAccept ρ}

/-- A connection that has been accepted and not closed. -/
def Open (s : SocketServerAccept ρ) (p : ℕ) : Prop :=
  0 < p ∧ p < s.manager.infos.next ∧ s.closed p = false

/-- The handler has been called with `on_connected` for `p`. -/
def Told (s : SocketServerAccept ρ) (p : ℕ) : Prop := .onConnected ∈ callsOf s.calls p

/-- The handler has been told about the end of `p`. -/
def Over (s : SocketServerAccept ρ) (p : ℕ) : Prop := ∃ last ∈ callsOf s.calls p, Callback.Ends last

structure Descriptors (s : SocketServerAccept ρ) : Prop where
  opened : ∀ p, Open s p → s.kernel.files (s.info p).fd = some .connection
  apart : ∀ p q, Open s p → Open s q → (s.info p).fd = (s.info q).fd → p = q
  fresh : ∀ p, s.manager.infos.next ≤ p → callsOf s.calls p = []
  instance_ : s.epoller ≠ .starting → s.kernel.files s.epfd = some .epoll ∨ s.epfd < 0
  entries : s.epoller ≠ .starting → ∀ fd interest p, s.kernel.epoll s.epfd fd = some ⟨interest, p⟩ →
    Open s p ∧ s.added p = true ∧ (s.info p).fd = fd
  ended : ∀ p sock, s.epoller = .ended p sock → Open s p ∧ s.added p = true ∧ (s.info p).fd = sock
  reported : ∀ p, s.closed p = true ∨ EpollThread.Ends s.epoller p → Over s p
  accepted : ∀ p, s.acceptor = .accepted p → Open s p ∧ s.added p = false
  adding : ∀ p, s.acceptor = .added p → s.added p = true ∧ ¬ Told s p
  told : ∀ p, Told s p → s.added p = true
  added : ∀ p, s.added p = true → 0 < p ∧ p < s.manager.infos.next ∧ (s.acceptor = .added p ∨ Told s p)

/-- The two servers agree on everything but buffers, numbers and the registrations of other sets. -/
structure Alike (s t : SocketServerAccept ρ) : Prop where
  next : t.manager.infos.next = s.manager.infos.next
  fd : ∀ p, (t.info p).fd = (s.info p).fd
  closed : t.closed = s.closed
  added : t.added = s.added
  calls : t.calls = s.calls
  accepted : ∀ p, t.acceptor = .accepted p ↔ s.acceptor = .accepted p
  adding : ∀ p, t.acceptor = .added p ↔ s.acceptor = .added p
  epoller : t.epoller = s.epoller
  epfd : t.epfd = s.epfd
  files : ∀ fd, s.kernel.files fd ≠ none → t.kernel.files fd = s.kernel.files fd
  epoll : s.epoller ≠ .starting → ∀ fd, t.kernel.epoll s.epfd fd = s.kernel.epoll s.epfd fd

theorem Alike.open_iff (alike : Alike s t) (p : ℕ) : Open t p ↔ Open s p := by
  rw [Open, alike.next, alike.closed, Open]

theorem Alike.told_iff (alike : Alike s t) (p : ℕ) : Told t p ↔ Told s p := by
  rw [Told, alike.calls, Told]

theorem Descriptors.alike (descriptors : Descriptors s) (alike : Alike s t) : Descriptors t where
  opened p isOpen := by
    have before := descriptors.opened p ((alike.open_iff p).mp isOpen)
    rw [alike.fd, alike.files _ (by rw [before]; exact Option.some_ne_none _), before]
  apart p q openP openQ same := by
    rw [alike.fd, alike.fd] at same
    exact descriptors.apart p q ((alike.open_iff p).mp openP) ((alike.open_iff q).mp openQ) same
  fresh := by
    rw [alike.next, alike.calls]
    exact descriptors.fresh
  instance_ started := by
    rw [alike.epoller] at started
    rw [alike.epfd]
    rcases descriptors.instance_ started with isSet | negative
    · exact Or.inl ((alike.files _ (by rw [isSet]; exact Option.some_ne_none _)).trans isSet)
    · exact Or.inr negative
  entries started fd interest p present := by
    rw [alike.epoller] at started
    rw [alike.epfd, alike.epoll started] at present
    obtain ⟨isOpen, isAdded, isFd⟩ := descriptors.entries started fd interest p present
    exact ⟨(alike.open_iff p).mpr isOpen, alike.added ▸ isAdded, (alike.fd p).trans isFd⟩
  ended p sock ends := by
    rw [alike.epoller] at ends
    obtain ⟨isOpen, isAdded, isFd⟩ := descriptors.ended p sock ends
    exact ⟨(alike.open_iff p).mpr isOpen, alike.added ▸ isAdded, (alike.fd p).trans isFd⟩
  reported p := by
    rw [alike.closed, alike.epoller, Over, alike.calls]
    exact descriptors.reported p
  accepted p isAccepted := by
    rw [alike.accepted] at isAccepted
    rw [alike.open_iff, alike.added]
    exact descriptors.accepted p isAccepted
  adding p isAdding := by
    rw [alike.adding] at isAdding
    rw [alike.told_iff, alike.added]
    exact descriptors.adding p isAdding
  told p isTold := by
    rw [alike.told_iff] at isTold
    rw [alike.added]
    exact descriptors.told p isTold
  added p isAdded := by
    rw [alike.added] at isAdded
    rw [alike.next, alike.adding, alike.told_iff]
    exact descriptors.added p isAdded

/-- The accept thread's epoll set is another one. -/
theorem Descriptors.epoll_enterAccept (descriptors : Descriptors s)
    (started : s.epoller ≠ .starting) (fd other : ℤ) :
    (s.enterAccept fd).kernel.epoll s.epfd other = s.kernel.epoll s.epfd other := by
  have created : (s.kernel.epollCreate fd).2.epoll = s.kernel.epoll := by
    rw [Kernel.epollCreate]
    split <;> rfl
  rcases descriptors.instance_ started with isSet | negative
  · have apart := (s.kernel.epollCreate_other (by rw [isSet]; exact Option.some_ne_none _) fd).2
    exact (Kernel.epollAdd_other fun here => apart here.1.symm).trans (congrFun (congrFun created _) _)
  · have none_ : ∀ k : Kernel ℕ, k.epoll s.epfd other = none := fun k =>
      Kernel.no_registration (by rw [Kernel.files_negative negative]; rintro ⟨⟩) _
    exact (none_ _).trans (none_ _).symm

theorem Descriptors.enterAccept (descriptors : Descriptors s)
    (starting : s.acceptor = .starting) (fd : ℤ) :
    Descriptors (s.enterAccept fd) := by
  refine descriptors.alike ⟨rfl, fun _ => rfl, rfl, rfl, rfl, fun p => ?_, fun p => ?_, rfl, rfl,
    fun other isOpen => ?_, fun started => descriptors.epoll_enterAccept started fd⟩
  · rw [starting]
    exact ⟨fun impossible => (nomatch impossible), fun impossible => (nomatch impossible)⟩
  · rw [starting]
    exact ⟨fun impossible => (nomatch impossible), fun impossible => (nomatch impossible)⟩
  · exact (congrFun (Kernel.files_epollAdd ..) _).trans (s.kernel.epollCreate_other isOpen fd).1

theorem Descriptors.enterEpoll (descriptors : Descriptors s)
    (fd : ℤ) : Descriptors (s.enterEpoll fd) where
  opened p isOpen := by
    have before := descriptors.opened p isOpen
    have created := (s.kernel.epollCreate_other (by rw [before]; exact Option.some_ne_none _) fd).1
    exact created.trans before
  apart := descriptors.apart
  fresh := descriptors.fresh
  instance_ _ := s.kernel.epollCreate_instance fd
  entries _ other interest p present := by
    have present : (s.kernel.epollCreate fd).2.epoll (s.kernel.epollCreate fd).1 other =
      some ⟨interest, p⟩ := present
    rw [Kernel.epollCreate_empty] at present
    contradiction
  ended p sock ends := nomatch ends
  reported p isOver := by
    rcases isOver with isClosed | ⟨⟨_, ended | closed⟩ | unregistered⟩
    · exact descriptors.reported p (Or.inl isClosed)
    all_goals contradiction
  accepted := descriptors.accepted
  adding := descriptors.adding
  told := descriptors.told
  added := descriptors.added

section Calls

variable {p : ℕ} {callback : Callback}

theorem told_call (other : callback ≠ .onConnected) (q : ℕ) : Told (s.call p callback) q ↔ Told s q := by
  rcases eq_or_ne q p with rfl | apart
  · rw [Told, callsOf_call, List.mem_append, List.mem_singleton, or_iff_left other.symm, Told]
  · rw [Told, callsOf_call_other s apart, Told]

theorem over_call {q : ℕ} (reported : Over s q) : Over (s.call p callback) q := by
  obtain ⟨last, member, isEnd⟩ := reported
  refine ⟨last, ?_, isEnd⟩
  rcases eq_or_ne q p with rfl | apart
  · rw [callsOf_call]
    exact List.mem_append_left _ member
  · rwa [callsOf_call_other s apart]

/-- Calls other than `on_connected` change nothing that the threads depend on. -/
theorem Descriptors.call (descriptors : Descriptors s) (other : callback ≠ .onConnected)
    (old : p < s.manager.infos.next) : Descriptors (s.call p callback) where
  opened := descriptors.opened
  apart := descriptors.apart
  fresh q bound := by
    have bound : s.manager.infos.next ≤ q := bound
    rw [callsOf_call_other s (by omega)]
    exact descriptors.fresh q bound
  instance_ := descriptors.instance_
  entries := descriptors.entries
  ended := descriptors.ended
  reported q isOver := over_call (descriptors.reported q isOver)
  accepted := descriptors.accepted
  adding q isAdding := by
    rw [told_call other]
    exact descriptors.adding q isAdding
  told q isTold := descriptors.told q ((told_call other q).mp isTold)
  added q isAdded := by
    rw [told_call other]
    exact descriptors.added q isAdded

end Calls

/-- The end of a connection is reported. -/
theorem Descriptors.endConnection (descriptors : Descriptors s) {p : ℕ} (started : s.epoller ≠ .starting)
    (isOpen : Open s p) (isAdded : s.added p = true) {callback : Callback} (isEnd : callback.Ends) :
    Descriptors { s.call p callback with epoller := .ended p (s.info p).fd } := by
  have other : callback ≠ .onConnected := by
    rintro rfl
    exact absurd isEnd (by decide)
  have called := descriptors.call other isOpen.2.1
  refine ⟨called.opened, called.apart, called.fresh, fun _ => called.instance_ started,
    fun _ => called.entries started, fun q sock ends => ?_, fun q isOver => ?_, called.accepted,
    called.adding, called.told, called.added⟩
  · obtain ⟨rfl, rfl⟩ := EpollThread.ended.inj ends
    exact ⟨isOpen, isAdded, rfl⟩
  · rcases isOver with isClosed | ⟨⟨sock, ends | ends⟩ | ends⟩
    · exact called.reported q (Or.inl isClosed)
    · obtain ⟨rfl, rfl⟩ := EpollThread.ended.inj ends
      refine ⟨callback, ?_, isEnd⟩
      have calls := callsOf_call s p callback
      exact calls ▸ List.mem_append_right _ (List.mem_singleton.mpr rfl)
    all_goals contradiction

theorem fd_setData (s : SocketServerAccept ρ) (p q : ℕ) (f : SocketData ρ → SocketData ρ) :
    ((s.setData p f).info q).fd = (s.info q).fd := by
  change SocketInfo.fd (Function.update s.manager.infos.content p _ q) = _
  rcases eq_or_ne q p with rfl | apart
  · rw [Function.update_self]
  · rw [Function.update_of_ne apart]

theorem fd_receive (s : SocketServerAccept ρ) (p q : ℕ) (bytes : List UInt8) (buff : Memory)
    (useLen : ℤ) :
    ((s.receive p bytes buff useLen).info q).fd = (s.info q).fd :=
  (fd_setData (call _ p .onRecvData) p q _).trans
    (fd_setData { s with kernel := s.kernel.recv (s.info p).fd bytes } p q fun d => d.received bytes)

theorem Descriptors.handle (descriptors : Descriptors s) {p : ℕ} {event : ReadyEvent}
    (idle : s.epoller = .idle) (ready : s.Ready p event) : Descriptors (s.handle p event) := by
  have started : s.epoller ≠ .starting := by
    rw [idle]
    exact fun impossible => nomatch impossible
  obtain ⟨interest, present, _⟩ := ready
  obtain ⟨isOpen, isAdded, _⟩ := descriptors.entries started _ _ p present
  have used : Descriptors (s.useInfo p) := descriptors.alike
    ⟨rfl, fun _ => rfl, rfl, rfl, rfl, fun _ => Iff.rfl, fun _ => Iff.rfl, rfl, rfl, fun _ _ => rfl,
    fun _ _ => rfl⟩
  cases event with
  | out => exact used.endConnection started isOpen isAdded (Or.inr rfl)
  | again => exact used
  | error => exact used.endConnection started isOpen isAdded (Or.inr rfl)
  | eof => exact used.endConnection started isOpen isAdded (Or.inl rfl)
  | data bytes buff useLen =>
    have called : Descriptors ((s.useInfo p).call p .onRecvData) :=
      used.call (fun impossible => nomatch impossible) isOpen.2.1
    exact called.alike ⟨rfl, fun q => (s.useInfo p).fd_receive p q bytes buff useLen, rfl, rfl, rfl,
      fun _ => Iff.rfl, fun _ => Iff.rfl, rfl, rfl, fun _ _ => rfl, fun _ _ => rfl⟩

/-- The other open connections have other descriptors than the one that is closed. -/
theorem Descriptors.open_closeFd (descriptors : Descriptors s) {p q : ℕ} {sock : ℤ}
    (ends : s.epoller = .ended p sock) (openQ : Open (s.closeFd p sock) q) : Open s q ∧
    (s.info q).fd ≠ sock := by
  obtain ⟨isOpen, _, isFd⟩ := descriptors.ended p sock ends
  obtain ⟨positive, old, notClosed⟩ := openQ
  have notClosed : Function.update s.closed p true q = false := notClosed
  rcases eq_or_ne q p with rfl | apart
  · rw [Function.update_self] at notClosed
    contradiction
  · rw [Function.update_of_ne apart] at notClosed
    have openQ : Open s q := ⟨positive, old, notClosed⟩
    exact ⟨openQ, fun same => apart (descriptors.apart q p openQ isOpen (same.trans isFd.symm))⟩

/-- `::close` of the connection that is ending. -/
theorem Descriptors.closeFd (descriptors : Descriptors s) {p : ℕ} {sock : ℤ}
    (ends : s.epoller = .ended p sock) :
    Descriptors { s.closeFd p sock with epoller := .closed p sock } := by
  obtain ⟨isOpen, isAdded, isFd⟩ := descriptors.ended p sock ends
  have started : s.epoller ≠ .starting := by
    rw [ends]
    exact fun impossible => nomatch impossible
  have isConnection : s.kernel.files sock = some .connection := isFd ▸ descriptors.opened p isOpen
  have remains : ∀ q, Open (s.closeFd p sock) q → Open s q ∧ (s.info q).fd ≠ sock :=
    fun q => descriptors.open_closeFd ends
  have stays : ∀ q, q ≠ p → Open s q → Open { s.closeFd p sock with epoller := .closed p sock } q := by
    rintro q apart ⟨positive, old, notClosed⟩
    exact ⟨positive, old, (Function.update_of_ne apart ..).trans notClosed⟩
  refine ⟨fun q openQ => ?_, fun q r openQ openR => ?_, descriptors.fresh, fun _ => ?_,
    fun _ fd interest q present => ?_, fun q fd ended => (nomatch ended), fun q isOver => ?_,
    fun q accepted => ?_, descriptors.adding, descriptors.told, descriptors.added⟩
  · obtain ⟨openQ, apart⟩ := remains q openQ
    exact (Function.update_of_ne apart ..).trans (descriptors.opened q openQ)
  · exact descriptors.apart q r (remains q openQ).1 (remains r openR).1
  · rcases descriptors.instance_ started with isSet | negative
    · have apart : s.epfd ≠ sock := by
        intro same
        rw [same, isConnection] at isSet
        contradiction
      exact Or.inl ((Function.update_of_ne apart ..).trans isSet)
    · exact Or.inr negative
  · have present : (if s.epfd = sock ∨ fd = sock then none else s.kernel.epoll s.epfd fd) =
      some ⟨interest, q⟩ := present
    split_ifs at present with dropped
    obtain ⟨openQ, addedQ, fdQ⟩ := descriptors.entries started fd interest q present
    refine ⟨stays q ?_ openQ, addedQ, fdQ⟩
    rintro rfl
    exact dropped (Or.inr (fdQ.symm.trans isFd))
  · have reported := descriptors.reported p (Or.inr (Or.inl ⟨sock, Or.inl ends⟩))
    rcases isOver with isClosed | ⟨⟨fd, ended | closed⟩ | unregistered⟩
    · have isClosed : Function.update s.closed p true q = true := isClosed
      rcases eq_or_ne q p with rfl | apart
      · exact reported
      · rw [Function.update_of_ne apart] at isClosed
        exact descriptors.reported q (Or.inl isClosed)
    · contradiction
    · obtain ⟨rfl, rfl⟩ := EpollThread.closed.inj closed
      exact reported
    · contradiction
  · obtain ⟨openQ, notAdded⟩ := descriptors.accepted q accepted
    refine ⟨stays q ?_ openQ, notAdded⟩
    rintro rfl
    rw [isAdded] at notAdded
    contradiction

/-- `EPOLL_CTL_DEL` drops a registration at most. -/
theorem Descriptors.unregister (descriptors : Descriptors s) {p : ℕ} {sock : ℤ}
    (closed : s.epoller = .closed p sock) :
    Descriptors { s.unregister sock with epoller := .unregistered p } := by
  have started : s.epoller ≠ .starting := by
    rw [closed]
    exact fun impossible => nomatch impossible
  refine ⟨descriptors.opened, descriptors.apart, descriptors.fresh,
    fun _ => descriptors.instance_ started, fun _ fd interest q present => ?_,
    fun q fd ended => (nomatch ended), fun q isOver => ?_, descriptors.accepted, descriptors.adding,
    descriptors.told, descriptors.added⟩
  · have present : (if s.epfd = s.epfd ∧ fd = sock then none else s.kernel.epoll s.epfd fd) =
      some ⟨interest, q⟩ := present
    split_ifs at present
    exact descriptors.entries started fd interest q present
  · rcases isOver with isClosed | ⟨⟨fd, ends | ends⟩ | ends⟩
    · exact descriptors.reported q (Or.inl isClosed)
    · contradiction
    · contradiction
    · obtain rfl := EpollThread.unregistered.inj ends
      exact descriptors.reported p (Or.inr (Or.inl ⟨sock, Or.inr closed⟩))

theorem Descriptors.delClinetInfo (descriptors : Descriptors s) {p : ℕ}
    (unregistered : s.epoller = .unregistered p) :
    Descriptors { s.delClinetInfo p with epoller := .idle } := by
  obtain ⟨content, next⟩ := s.manager.content_delClinetInfo p
  have started : s.epoller ≠ .starting := by
    rw [unregistered]
    exact fun impossible => nomatch impossible
  have idle : Descriptors { s with epoller := .idle } := by
    refine ⟨descriptors.opened, descriptors.apart, descriptors.fresh,
      fun _ => descriptors.instance_ started, fun _ => descriptors.entries started,
      fun q fd ended => (nomatch ended), fun q isOver => ?_, descriptors.accepted,
      descriptors.adding, descriptors.told, descriptors.added⟩
    rcases isOver with isClosed | ⟨⟨fd, ends | ends⟩ | ends⟩
    · exact descriptors.reported q (Or.inl isClosed)
    all_goals contradiction
  exact idle.alike ⟨next, fun q => congrArg SocketInfo.fd (congrFun content q), rfl, rfl, rfl,
    fun _ => Iff.rfl, fun _ => Iff.rfl, rfl, rfl, fun _ _ => rfl, fun _ _ => rfl⟩

/-- A connection is accepted under a descriptor that was not open. -/
theorem Descriptors.acceptAt (descriptors : Descriptors s) (idle : s.acceptor = .idle) {fd : ℤ}
    (available : s.kernel.Available fd) :
    Descriptors { s with
      kernel := s.kernel.openAt fd .connection available
      manager := (s.manager.getClinetInfo fd).2
      acceptor := .accepted s.manager.infos.next } := by
  obtain ⟨new, old⟩ := s.manager.info_getClinetInfo fd
  have silent := descriptors.fresh s.manager.infos.next le_rfl
  have notClosed : s.closed s.manager.infos.next = false := by
    by_contra isClosed
    obtain ⟨last, member, _⟩ := descriptors.reported _ (Or.inl (eq_true_of_ne_false isClosed))
    rw [silent] at member
    exact absurd member List.not_mem_nil
  have notAdded : s.added s.manager.infos.next = false := by
    by_contra isAdded
    exact lt_irrefl _ (descriptors.added _ (eq_true_of_ne_false isAdded)).2.1
  have newOpen : 0 < s.manager.infos.next ∧ s.manager.infos.next < s.manager.infos.next + 1 ∧
      s.closed s.manager.infos.next = false := ⟨s.manager.infos.positive, Nat.lt_succ_self _, notClosed⟩
  have newFd : ((s.manager.getClinetInfo fd).2.info s.manager.infos.next).fd = fd :=
    congrArg SocketInfo.fd new
  have oldFd : ∀ q, q < s.manager.infos.next → ((s.manager.getClinetInfo fd).2.info q).fd =
    (s.info q).fd :=
    fun q bound => congrArg SocketInfo.fd (old q (Nat.ne_of_lt bound))
  have grow : ∀ q, Open s q → 0 < q ∧ q < s.manager.infos.next + 1 ∧ s.closed q = false :=
    fun q openQ => ⟨openQ.1, Nat.lt_succ_of_lt openQ.2.1, openQ.2.2⟩
  have apartFd : ∀ q, Open s q → (s.info q).fd ≠ fd := by
    intro q openQ
    refine available.ne ?_
    rw [descriptors.opened q openQ]
    exact Option.some_ne_none _
  have cases_ : ∀ q, 0 < q ∧ q < s.manager.infos.next + 1 ∧ s.closed q = false →
    q = s.manager.infos.next ∨ Open s q := by
    rintro q ⟨positive, bound, isOpen⟩
    rcases Nat.lt_succ_iff_lt_or_eq.mp bound with before | same
    · exact Or.inr ⟨positive, before, isOpen⟩
    · exact Or.inl same
  refine ⟨fun q openQ => ?_, fun q r openQ openR same => ?_, fun q bound => ?_, fun started => ?_,
    fun started other interest q present => ?_, fun q sock ends => ?_, descriptors.reported,
    fun q isAccepted => ?_, fun q isAdding => (nomatch isAdding), descriptors.told,
    fun q isAdded => ?_⟩
  · rcases cases_ q openQ with rfl | openQ
    · exact (congrArg (Function.update s.kernel.files fd (some .connection)) newFd).trans
        (Function.update_self ..)
    · refine (congrArg (Function.update s.kernel.files fd (some .connection))
        (oldFd q openQ.2.1)).trans ?_
      exact (Function.update_of_ne (apartFd q openQ) ..).trans (descriptors.opened q openQ)
  · rcases cases_ q openQ with rfl | openQ <;> rcases cases_ r openR with rfl | openR
    · rfl
    · exact absurd ((oldFd r openR.2.1).symm.trans (same.symm.trans newFd)) (apartFd r openR)
    · exact absurd ((oldFd q openQ.2.1).symm.trans (same.trans newFd)) (apartFd q openQ)
    · exact descriptors.apart q r openQ openR
        ((oldFd q openQ.2.1).symm.trans (same.trans (oldFd r openR.2.1)))
  · have bound : s.manager.infos.next + 1 ≤ q := bound
    exact descriptors.fresh q (by omega)
  · rcases descriptors.instance_ started with isSet | negative
    · have apart : s.epfd ≠ fd := available.ne (by rw [isSet]; exact Option.some_ne_none _)
      exact Or.inl ((Function.update_of_ne apart ..).trans isSet)
    · exact Or.inr negative
  · obtain ⟨openQ, addedQ, fdQ⟩ := descriptors.entries started other interest q present
    exact ⟨grow q openQ, addedQ, (oldFd q openQ.2.1).trans fdQ⟩
  · obtain ⟨openQ, addedQ, fdQ⟩ := descriptors.ended q sock ends
    exact ⟨grow q openQ, addedQ, (oldFd q openQ.2.1).trans fdQ⟩
  · obtain rfl := AcceptThread.accepted.inj isAccepted
    exact ⟨newOpen, notAdded⟩
  · obtain ⟨positive, old, busy | isTold⟩ := descriptors.added q isAdded
    · rw [idle] at busy
      contradiction
    · exact ⟨positive, Nat.lt_succ_of_lt old, Or.inr isTold⟩

theorem Descriptors.accept (descriptors : Descriptors s) (idle : s.acceptor = .idle) (newSocket : ℤ) :
    Descriptors (s.accept newSocket) := by
  rw [SocketServerAccept.accept, acceptSocket]
  rcases s.kernel.accept_cases s.serverFd newSocket with refused | ⟨available, accepted⟩
  · rw [refused]
    exact descriptors
  · rw [accepted]
    dsimp only
    rw [if_neg (not_lt.mpr available.1)]
    exact (descriptors.acceptAt idle available).call (by rintro ⟨⟩) (Nat.lt_succ_self _)

theorem fd_registerInfo (s : SocketServerAccept ρ) (p q : ℕ) : ((s.registerInfo p).info q).fd =
    (s.info q).fd := by
  change SocketInfo.fd (Function.update s.manager.infos.content p _ q) = _
  rcases eq_or_ne q p with rfl | apart
  · rw [Function.update_self]
  · rw [Function.update_of_ne apart]

/-- `EPOLL_CTL_ADD` for the accepted connection. -/
theorem Descriptors.registerInfo (descriptors : Descriptors s) {p : ℕ}
    (accepted : s.acceptor = .accepted p) :
    Descriptors { s.registerInfo p with acceptor := .added p } := by
  obtain ⟨isOpen, notAdded⟩ := descriptors.accepted p accepted
  have files : (s.registerInfo p).kernel.files = s.kernel.files := Kernel.files_epollAdd ..
  have fd := s.fd_registerInfo p
  have own : (s.registerInfo p).added p = true := Function.update_self ..
  have stays : ∀ q, s.added q = true → (s.registerInfo p).added q = true := by
    intro q isAdded
    rcases eq_or_ne q p with rfl | apart
    · exact own
    · exact (Function.update_of_ne apart ..).trans isAdded
  have notTold : ¬ Told s p := fun isTold => by
    rw [descriptors.told p isTold] at notAdded
    contradiction
  refine ⟨fun q openQ => ?_, fun q r openQ openR same => ?_, descriptors.fresh, fun started => ?_,
    fun started other interest q present => ?_, fun q sock ends => ?_, descriptors.reported,
    fun q isAccepted => (nomatch isAccepted), fun q isAdding => ?_,
    fun q isTold => stays q (descriptors.told q isTold), fun q isAdded => ?_⟩
  · exact (congrArg (s.registerInfo p).kernel.files (fd q)).trans
      ((congrFun files _).trans (descriptors.opened q openQ))
  · exact descriptors.apart q r openQ openR ((fd q).symm.trans (same.trans (fd r)))
  · exact (descriptors.instance_ started).imp_left fun isSet => (congrFun files _).trans isSet
  · rcases Kernel.epollAdd_some present with ⟨_, rfl, entry, _⟩ | before
    · obtain ⟨rfl, rfl⟩ := Registration.mk.inj entry
      exact ⟨isOpen, own, fd q⟩
    · obtain ⟨openQ, addedQ, fdQ⟩ := descriptors.entries started other interest q before
      exact ⟨openQ, stays q addedQ, (fd q).trans fdQ⟩
  · obtain ⟨openQ, addedQ, fdQ⟩ := descriptors.ended q sock ends
    exact ⟨openQ, stays q addedQ, (fd q).trans fdQ⟩
  · obtain rfl := AcceptThread.added.inj isAdding
    exact ⟨own, notTold⟩
  · have isAdded : Function.update s.added p true q = true := isAdded
    rcases eq_or_ne q p with rfl | apart
    · exact ⟨isOpen.1, isOpen.2.1, Or.inl rfl⟩
    · rw [Function.update_of_ne apart] at isAdded
      obtain ⟨positive, old, busy | isTold⟩ := descriptors.added q isAdded
      · rw [accepted] at busy
        contradiction
      · exact ⟨positive, old, Or.inr isTold⟩

/-- `on_connected` for the registered connection. -/
theorem Descriptors.connected (descriptors : Descriptors s) {p : ℕ} (adding : s.acceptor = .added p) :
    Descriptors { s.call p .onConnected with acceptor := .idle } := by
  obtain ⟨isAdded, _⟩ := descriptors.adding p adding
  obtain ⟨_, old, _⟩ := descriptors.added p isAdded
  have own : Told (s.call p .onConnected) p := by
    rw [Told, callsOf_call]
    exact List.mem_append_right _ (List.mem_singleton.mpr rfl)
  have other : ∀ q, q ≠ p → (Told (s.call p .onConnected) q ↔ Told s q) := by
    intro q apart
    rw [Told, callsOf_call_other s apart, Told]
  refine ⟨descriptors.opened, descriptors.apart, fun q bound => ?_, descriptors.instance_,
    descriptors.entries, descriptors.ended,
    fun q isOver => over_call (descriptors.reported q isOver), fun q isAccepted =>
    (nomatch isAccepted), fun q isAdding => (nomatch isAdding), fun q isTold => ?_,
    fun q addedQ => ?_⟩
  · have bound : s.manager.infos.next ≤ q := bound
    exact (callsOf_call_other s (by omega) .onConnected).trans (descriptors.fresh q bound)
  · rcases eq_or_ne q p with rfl | apart
    · exact isAdded
    · exact descriptors.told q ((other q apart).mp isTold)
  · obtain ⟨positive, bound, busy | isTold⟩ := descriptors.added q addedQ
    · rw [adding] at busy
      obtain rfl := AcceptThread.added.inj busy
      exact ⟨positive, bound, Or.inr own⟩
    · rcases eq_or_ne q p with rfl | apart
      · exact ⟨positive, bound, Or.inr own⟩
      · exact ⟨positive, bound, Or.inr ((other q apart).mpr isTold)⟩

/-- A connection that the handler knows and that has not ended is open. -/
theorem Descriptors.open_of_enabled (descriptors : Descriptors s) {p : ℕ}
    (enabled : s.Enabled (.closeSocket p)) :
    Open s p ∧ s.added p = true := by
  obtain ⟨known, notEnded⟩ := enabled
  have isAdded := descriptors.told p known
  obtain ⟨positive, old, _⟩ := descriptors.added p isAdded
  refine ⟨⟨positive, old, ?_⟩, isAdded⟩
  by_contra isClosed
  obtain ⟨last, member, isEnd⟩ := descriptors.reported p (Or.inl (eq_true_of_ne_false isClosed))
  exact notEnded last member isEnd

theorem Descriptors.closeSocket (descriptors : Descriptors s) {p : ℕ}
    (enabled : s.Enabled (.closeSocket p)) :
    Descriptors (s.closeSocket p) := by
  obtain ⟨isOpen, isAdded⟩ := descriptors.open_of_enabled enabled
  have files : (s.closeSocket p).kernel.files = s.kernel.files := Kernel.files_epollMod ..
  refine ⟨fun q openQ => (congrFun files _).trans (descriptors.opened q openQ), descriptors.apart,
    descriptors.fresh, fun started => (descriptors.instance_ started).imp_left fun isSet =>
    (congrFun files _).trans isSet, fun started other interest q present => ?_, descriptors.ended,
    descriptors.reported, descriptors.accepted, descriptors.adding, descriptors.told,
    descriptors.added⟩
  rcases Kernel.epollMod_some present with ⟨_, rfl, entry, _⟩ | before
  · obtain ⟨rfl, rfl⟩ := Registration.mk.inj entry
    exact ⟨isOpen, isAdded, rfl⟩
  · exact descriptors.entries started other interest q before

theorem Descriptors.step {event : AcceptServerEvent} (descriptors : Descriptors s)
    (step : Step s event t) :
    Descriptors t := by
  obtain ⟨enabled, rfl⟩ := step
  have same : ∀ u : SocketServerAccept ρ, u.manager.infos = s.manager.infos → u.closed = s.closed →
    u.added = s.added →
      u.calls = s.calls → u.acceptor = s.acceptor → u.epoller = s.epoller → u.epfd = s.epfd →
      u.kernel = s.kernel →
      Descriptors u := by
    intro u infos closed added calls acceptor epoller epfd kernel
    refine descriptors.alike ⟨by rw [infos], fun p => ?_, closed, added, calls, by simp [acceptor],
      by simp [acceptor], epoller, epfd, by simp [kernel], by simp [kernel]⟩
    rw [info, SocketManager.info, infos]
  cases event with
  | takeIdx => exact same _ rfl rfl rfl rfl rfl rfl rfl rfl
  | enterAccept fd => exact descriptors.enterAccept enabled fd
  | enterEpoll fd => exact descriptors.enterEpoll fd
  | accept fd => exact descriptors.accept enabled fd
  | acceptor =>
    rw [apply, advanceAcceptor]
    split
    · exact descriptors
    · exact descriptors
    · next accepted => exact descriptors.registerInfo accepted
    · next adding => exact descriptors.connected adding
  | epoll p event => exact descriptors.handle enabled.1 enabled.2.1
  | epoller =>
    rw [apply, advanceEpoller]
    split
    · exact descriptors
    · exact descriptors
    · next ends => exact descriptors.closeFd ends
    · next closed => exact descriptors.unregister closed
    · next unregistered => exact descriptors.delClinetInfo unregistered
  | closeSocket p => exact descriptors.closeSocket enabled
  | peerClose p => exact same _ rfl rfl rfl rfl rfl rfl rfl rfl

theorem descriptors_initial (kernel : Kernel ℕ) (serverFd : ℤ) (idx : UInt32) :
    Descriptors (initial kernel serverFd idx : SocketServerAccept ρ) := by
  have none_ : ∀ p, ¬ Open (initial kernel serverFd idx : SocketServerAccept ρ) p := by
    rintro p ⟨positive, old, _⟩
    have old : p < 1 := old
    omega
  refine ⟨fun p isOpen => absurd isOpen (none_ p), fun p q isOpen => absurd isOpen (none_ p),
    fun _ _ => rfl, fun started => absurd rfl started, fun started => absurd rfl started,
    fun p sock ends => (nomatch ends), ?_, fun p accepted => (nomatch accepted),
    fun p adding => (nomatch adding), fun p isTold => absurd isTold List.not_mem_nil,
    fun p isAdded => (nomatch isAdded)⟩
  rintro p (isClosed | ⟨⟨sock, ends | ends⟩ | ends⟩) <;> contradiction

end SocketServerAccept

end LinuxZero
