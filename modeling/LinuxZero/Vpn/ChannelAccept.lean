import LinuxZero.Vpn.DataChannel

/-! # What accepting a connection changes

A round of `run_accept` changes nothing, puts the new connection into the queue of its listener, or
pairs it with the front of the other queue. The two lemmas below describe the last two outcomes
completely, so that nothing else unfolds `date_socket_accept`.
-/

namespace LinuxZero.Vpn

namespace DataChannelServer

variable {s : DataChannelServer}

/-- What every accepted connection changes. -/
structure Accepts (s : DataChannelServer) (w : ℕ) (fd : ℤ) (t : DataChannelServer) : Prop where
  available : s.kernel.Available fd
  files : t.kernel.files = Function.update s.kernel.files fd (some .connection)
  received : t.kernel.received = Function.update s.kernel.received fd []
  sent : t.kernel.sent = Function.update s.kernel.sent fd []
  acceptEpfd : t.acceptEpfd = s.acceptEpfd
  epfd : t.epfd = s.epfd
  channelMap : t.channelMap = s.channelMap
  serversNext : t.servers.next = s.servers.next
  serversLive : t.servers.live = s.servers.live
  next : t.sockets.next = s.sockets.next + 1
  live : t.sockets.live = Function.update s.sockets.live s.sockets.next true
  shFd2SocketInfo : t.shFd2SocketInfo = Function.update s.shFd2SocketInfo s.idx (some s.sockets.next)
  accepted : t.trace.accepted =
    Function.update s.trace.accepted w (s.trace.accepted w ++ [s.sockets.next])

theorem Accepts.live_iff {t : DataChannelServer} {w : ℕ} {fd : ℤ} (accepts : Accepts s w fd t) (p : ℕ) :
    t.sockets.live p = true ↔ p = s.sockets.next ∨ s.sockets.live p = true := by
  rw [accepts.live]
  rcases eq_or_ne p s.sockets.next with rfl | apart
  · simp
  · simp [apart]

/-- The new connection waits. -/
structure Waits (s : DataChannelServer) (w : ℕ) (fd : ℤ) (t : DataChannelServer) : Prop where
  accepts : Accepts s w fd t
  epoll : t.kernel.epoll = s.kernel.epoll
  server : t.server w = { s.server w with freeSocket := (s.server w).freeSocket ++ [s.sockets.next] }
  servers : ∀ v, v ≠ w → t.server v = s.server v
  socket : t.socket s.sockets.next =
    { fd := fd, shFd := s.idx, data := { ptr := some s.sockets.next } }
  sockets : ∀ p, p ≠ s.sockets.next → t.socket p = s.socket p
  fault : t.sockets.fault = s.sockets.fault
  eool : t.trace.eool = s.trace.eool

/-- The new connection is paired with `reInfo`. -/
structure Pairs (s : DataChannelServer) (w reInfo : ℕ) (fd : ℤ) (t : DataChannelServer) : Prop where
  accepts : Accepts s w fd t
  epoll : s.kernel.files s.epfd = some .epoll → s.kernel.files (s.socket reInfo).fd = some .connection →
    s.kernel.epoll s.epfd (s.socket reInfo).fd = none →
    t.kernel.epoll s.epfd fd = some ⟨.epollIn, .socket s.sockets.next⟩ ∧
      t.kernel.epoll s.epfd (s.socket reInfo).fd = some ⟨.epollIn, .socket reInfo⟩
  epollOther : ∀ e f, ¬ (e = s.epfd ∧ (f = fd ∨ f = (s.socket reInfo).fd)) →
    t.kernel.epoll e f = s.kernel.epoll e f
  server : t.server w = { s.server w with busySocket := (s.server w).busySocket ++ [s.sockets.next] }
  removte : t.server (s.server w).removte =
    { s.server (s.server w).removte with
      freeSocket := (s.server (s.server w).removte).freeSocket.tail
      busySocket := (s.server (s.server w).removte).busySocket ++ [reInfo] }
  servers : ∀ v, v ≠ w → v ≠ (s.server w).removte → t.server v = s.server v
  socket : t.socket s.sockets.next =
    { fd := fd, epfd := s.epfd, shFd := s.idx, data := { ptr := some reInfo } }
  peer : t.socket reInfo =
    { s.socket reInfo with
      epfd := s.epfd
      data := { (s.socket reInfo).data with ptr := some s.sockets.next } }
  sockets : ∀ p, p ≠ s.sockets.next → p ≠ reInfo → t.socket p = s.socket p
  fault : s.sockets.live reInfo = true → t.sockets.fault = s.sockets.fault
  eool : t.trace.eool = s.trace.eool ++
    if (s.server w).type = 1 then
      [⟨reInfo, some s.sockets.next, some reInfo⟩, ⟨s.sockets.next, some reInfo, some s.sockets.next⟩]
    else [⟨s.sockets.next, some reInfo, some s.sockets.next⟩, ⟨reInfo, some s.sockets.next, some reInfo⟩]

/-- The state in which `run_accept` calls `date_socket_accept`. -/
def accepted (s : DataChannelServer) (w : ℕ) (fd : ℤ) (available : s.kernel.Available fd) :
    DataChannelServer :=
  { s with
    kernel := s.kernel.openAt fd .connection available
    servers := s.servers.use w
    sockets := s.sockets.new { fd := fd, shFd := s.idx, data := { ptr := some s.sockets.next } }
    shFd2SocketInfo := Function.update s.shFd2SocketInfo s.idx (some s.sockets.next)
    sh2Fd := Function.update s.sh2Fd s.idx (some fd)
    idx := s.idx + 1
    trace := { s.trace with
      accepted := Function.update s.trace.accepted w (s.trace.accepted w ++ [s.sockets.next]) } }

/-- `accept` fails, or its connection is handed to `date_socket_accept`. -/
theorem runAccept_eq (s : DataChannelServer) (w : ℕ) (fd : ℤ) :
    s.runAccept w fd = s.useServer w ∨
      ∃ available, s.kernel.files (s.server w).fd = some .listening ∧
        s.runAccept w fd = (s.accepted w fd available).dateSocketAccept w s.sockets.next := by
  by_cases listening : s.kernel.files (s.server w).fd = some .listening ∧ s.kernel.Available fd
  · right
    have accepts : s.kernel.accept (s.server w).fd fd =
        (fd, s.kernel.openAt fd .connection listening.2) := dif_pos listening
    refine ⟨listening.2, listening.1, ?_⟩
    rw [runAccept]
    dsimp only [useServer, server, Heap.content_use] at accepts ⊢
    rw [accepts]
    exact if_neg (not_lt_of_ge listening.2.1)
  · left
    have refuses : s.kernel.accept (s.server w).fd fd = (-1, s.kernel) := dif_neg listening
    rw [runAccept]
    dsimp only [useServer, server, Heap.content_use] at refuses ⊢
    rw [refuses]
    exact if_pos (show (-1 : ℤ) < 0 by decide)

/-- The announcement changes neither listeners nor connections. -/
structure Announced (s t : DataChannelServer) : Prop where
  kernel : t.kernel = s.kernel
  acceptEpfd : t.acceptEpfd = s.acceptEpfd
  epfd : t.epfd = s.epfd
  channelMap : t.channelMap = s.channelMap
  serversNext : t.servers.next = s.servers.next
  serversLive : t.servers.live = s.servers.live
  servers : t.servers.content = s.servers.content
  sockets : t.sockets = s.sockets
  shFd2SocketInfo : t.shFd2SocketInfo = s.shFd2SocketInfo
  accepted : t.trace.accepted = s.trace.accepted
  eool : t.trace.eool = s.trace.eool

theorem announced (s : DataChannelServer) (w : ℕ) : Announced s (s.announce w) := by
  rw [announce]
  split <;> exact ⟨rfl, rfl, rfl, rfl, rfl, rfl, rfl, rfl, rfl, rfl, rfl⟩

/-- With no connection waiting on the other side, the new one waits. -/
theorem runAccept_waits {w : ℕ} {fd : ℤ} (available : s.kernel.Available fd)
    (empty : (s.server (s.server w).removte).freeSocket = []) :
    Waits s w fd ((s.accepted w fd available).dateSocketAccept w s.sockets.next) := by
  have same := announced (s.accepted w fd available) w
  have next : (s.accepted w fd available).servers.content = s.servers.content := rfl
  have none_ : (((s.accepted w fd available).announce w).server
      (((s.accepted w fd available).announce w).server w).removte).freeSocket = [] := by
    simp only [server, same.servers, next]
    exact empty
  rw [dateSocketAccept]
  simp only [none_]
  refine ⟨⟨available, congrArg Kernel.files same.kernel, congrArg Kernel.received same.kernel,
    congrArg Kernel.sent same.kernel, same.acceptEpfd, same.epfd, same.channelMap, same.serversNext,
    same.serversLive, congrArg Heap.next same.sockets, congrArg Heap.live same.sockets,
    same.shFd2SocketInfo, same.accepted⟩, (congrArg Kernel.epoll same.kernel).trans rfl, ?_, ?_, ?_, ?_,
    (congrArg Heap.fault same.sockets).trans rfl, same.eool⟩
  · refine (Function.update_self ..).trans ?_
    rw [same.servers]
    rfl
  · intro v apart
    exact (Function.update_of_ne apart ..).trans (congrFun same.servers v)
  · exact (congrFun (congrArg Heap.content same.sockets) _).trans (Function.update_self ..)
  · intro p apart
    exact (congrFun (congrArg Heap.content same.sockets) p).trans (Function.update_of_ne apart ..)

/-- The queues and pointers of `pairSockets`, before the two calls of `add_eool`. -/
private def linked (s : DataChannelServer) (w info reInfo : ℕ) : DataChannelServer :=
  ((((s.popFree (s.server w).removte).setPtr info (some reInfo)).setPtr reInfo (some info)).pushBusy w
    info).pushBusy (s.server w).removte reInfo

private theorem linked_fields (s : DataChannelServer) {w info reInfo : ℕ} (others : info ≠ reInfo)
    (sides : (s.server w).removte ≠ w) :
    let t := s.linked w info reInfo
    t.server w = { s.server w with busySocket := (s.server w).busySocket ++ [info] } ∧
      t.server (s.server w).removte = { s.server (s.server w).removte with
        freeSocket := (s.server (s.server w).removte).freeSocket.tail
        busySocket := (s.server (s.server w).removte).busySocket ++ [reInfo] } ∧
      (∀ v, v ≠ w → v ≠ (s.server w).removte → t.server v = s.server v) ∧
      t.socket info = { s.socket info with data := { (s.socket info).data with ptr := some reInfo } } ∧
      t.socket reInfo = { s.socket reInfo with
      data := { (s.socket reInfo).data with ptr := some info } } ∧
      ∀ p, p ≠ info → p ≠ reInfo → t.socket p = s.socket p := by
  refine ⟨?_, ?_, fun v first second => ?_, ?_, ?_, fun p first second => ?_⟩
  · simp [linked, popFree, setPtr, pushBusy, modifyServer, server, sides.symm]
  · simp [linked, popFree, setPtr, pushBusy, modifyServer, server, sides]
  · simp [linked, popFree, setPtr, pushBusy, modifyServer, server, first, second]
  · simp [linked, popFree, setPtr, pushBusy, modifyServer, socket, others]
  · simp [linked, popFree, setPtr, pushBusy, modifyServer, socket, others.symm]
  · simp [linked, popFree, setPtr, pushBusy, modifyServer, socket, first, second]

/-- What two calls of `add_eool` for two connections change, apart from the order of the calls. -/
private structure Registers (s : DataChannelServer) (p q : ℕ) (t : DataChannelServer) : Prop where
  accepts : ∀ {r : DataChannelServer} {w : ℕ} {fd : ℤ}, Accepts r w fd s → Accepts r w fd t
  servers : t.servers = s.servers
  left : t.socket p = { s.socket p with epfd := s.epfd }
  right : t.socket q = { s.socket q with epfd := s.epfd }
  others : ∀ r, r ≠ p → r ≠ q → t.socket r = s.socket r
  untouched : ∀ e f, ¬ (e = s.epfd ∧ (f = (s.socket p).fd ∨ f = (s.socket q).fd)) →
    t.kernel.epoll e f = s.kernel.epoll e f
  registered : s.kernel.files s.epfd = some .epoll → s.kernel.files (s.socket p).fd = some .connection →
    s.kernel.files (s.socket q).fd = some .connection → s.kernel.epoll s.epfd (s.socket p).fd = none →
    s.kernel.epoll s.epfd (s.socket q).fd = none →
    t.kernel.epoll s.epfd (s.socket p).fd = some ⟨.epollIn, .socket p⟩ ∧
      t.kernel.epoll s.epfd (s.socket q).fd = some ⟨.epollIn, .socket q⟩
  fault : s.sockets.live p = true → s.sockets.live q = true → t.sockets.fault = s.sockets.fault

private theorem Registers.symm {t : DataChannelServer} {p q : ℕ} (registers : Registers s p q t) :
    Registers s q p t where
  accepts := registers.accepts
  servers := registers.servers
  left := registers.right
  right := registers.left
  others r first second := registers.others r second first
  untouched e f elsewhere := registers.untouched e f fun here => elsewhere ⟨here.1, here.2.symm⟩
  registered instance_ qOpen pOpen qAbsent pAbsent :=
    (registers.registered instance_ pOpen qOpen pAbsent qAbsent).symm
  fault qLive pLive := registers.fault pLive qLive

private theorem epoll_addEool_twice (s : DataChannelServer) {p q : ℕ} (others : p ≠ q)
    (apart : (s.socket p).fd ≠ (s.socket q).fd) :
    let t := (s.addEool p).addEool q
    (∀ e f, ¬ (e = s.epfd ∧ (f = (s.socket p).fd ∨ f = (s.socket q).fd)) →
      t.kernel.epoll e f = s.kernel.epoll e f) ∧
    (s.kernel.files s.epfd = some .epoll → s.kernel.files (s.socket p).fd = some .connection →
      s.kernel.files (s.socket q).fd = some .connection → s.kernel.epoll s.epfd (s.socket p).fd = none →
      s.kernel.epoll s.epfd (s.socket q).fd = none →
      t.kernel.epoll s.epfd (s.socket p).fd = some ⟨.epollIn, .socket p⟩ ∧
        t.kernel.epoll s.epfd (s.socket q).fd = some ⟨.epollIn, .socket q⟩) := by
  have second : ((s.addEool p).socket q).fd = (s.socket q).fd := by simp [addEool, socket, others.symm]
  have kernel : ((s.addEool p).addEool q).kernel =
      (s.kernel.epollAdd s.epfd (s.socket p).fd ⟨.epollIn, .socket p⟩).epollAdd s.epfd (s.socket q).fd
        ⟨.epollIn, .socket q⟩ := by
    rw [← second]
    rfl
  dsimp only
  rw [kernel]
  constructor
  · intro e f elsewhere
    rw [Kernel.epollAdd_other fun here => elsewhere ⟨here.1, Or.inr here.2⟩,
      Kernel.epollAdd_other fun here => elsewhere ⟨here.1, Or.inl here.2⟩]
  · intro instance_ pOpen qOpen pAbsent qAbsent
    have instanceApart : ∀ fd, s.kernel.files fd = some .connection → s.epfd ≠ fd := by
      rintro fd isOpen rfl
      rw [instance_] at isOpen
      contradiction
    have first : (s.kernel.epollAdd s.epfd (s.socket p).fd ⟨.epollIn, .socket p⟩).epoll s.epfd
        (s.socket p).fd = some ⟨.epollIn, .socket p⟩ :=
      Kernel.epollAdd_self instance_ (by simp [pOpen]) (instanceApart _ pOpen) pAbsent
    constructor
    · rw [Kernel.epollAdd_other fun here => apart here.2, first]
    · apply Kernel.epollAdd_self
      · rwa [Kernel.files_epollAdd]
      · rw [Kernel.files_epollAdd, qOpen]
        simp
      · exact instanceApart _ qOpen
      · rwa [Kernel.epollAdd_other fun here => apart.symm here.2]

private theorem registers_addEool (s : DataChannelServer) {p q : ℕ} (others : p ≠ q)
    (apart : (s.socket p).fd ≠ (s.socket q).fd) : Registers s p q ((s.addEool p).addEool q) where
  accepts before := by
    refine { before with files := ?_, received := ?_, sent := ?_ }
    all_goals
      simp only [addEool, Kernel.files_epollAdd, Kernel.received_epollAdd, Kernel.sent_epollAdd]
    · exact before.files
    · exact before.received
    · exact before.sent
  servers := rfl
  left := by simp [addEool, socket, others]
  right := by simp [addEool, socket, others.symm]
  others r first second := by simp [addEool, socket, first, second]
  untouched := (epoll_addEool_twice s others apart).1
  registered := (epoll_addEool_twice s others apart).2
  fault pLive qLive := by simp [addEool, pLive, qLive]

/-- The calls see two connections that point at each other. -/
private theorem eool_addEool_twice (s : DataChannelServer) {p q : ℕ} (others : p ≠ q)
    (forth : (s.socket p).data.ptr = some q) (back : (s.socket q).data.ptr = some p) :
    ((s.addEool p).addEool q).trace.eool =
    s.trace.eool ++ [⟨p, some q, some p⟩, ⟨q, some p, some q⟩] := by
  simp only [socket] at forth back
  simp [addEool, socket, others.symm, forth, back]

/-- The new connection and the one that has waited point at each other, and neither is registered. -/
private structure Linked (s : DataChannelServer) (w reInfo : ℕ) (fd : ℤ)
    (t : DataChannelServer) : Prop where
  accepts : Accepts s w fd t
  epoll : t.kernel.epoll = s.kernel.epoll
  server : t.server w = { s.server w with busySocket := (s.server w).busySocket ++ [s.sockets.next] }
  removte : t.server (s.server w).removte =
    { s.server (s.server w).removte with
      freeSocket := (s.server (s.server w).removte).freeSocket.tail
      busySocket := (s.server (s.server w).removte).busySocket ++ [reInfo] }
  servers : ∀ v, v ≠ w → v ≠ (s.server w).removte → t.server v = s.server v
  socket : t.socket s.sockets.next = { fd := fd, shFd := s.idx, data := { ptr := some reInfo } }
  peer : t.socket reInfo =
    { s.socket reInfo with data := { (s.socket reInfo).data with ptr := some s.sockets.next } }
  sockets : ∀ p, p ≠ s.sockets.next → p ≠ reInfo → t.socket p = s.socket p
  fault : s.sockets.live reInfo = true → t.sockets.fault = s.sockets.fault
  eool : t.trace.eool = s.trace.eool

private theorem linked_accepted {u : DataChannelServer} {w reInfo : ℕ} {fd : ℤ}
    (available : s.kernel.Available fd) (sides : (s.server w).removte ≠ w)
    (others : s.sockets.next ≠ reInfo) (same : Announced (s.accepted w fd available) u) :
    Linked s w reInfo fd (u.linked w s.sockets.next reInfo) := by
  have listener : ∀ v, u.server v = s.server v := fun v => congrFun same.servers v
  have infoSocket : u.socket s.sockets.next =
    { fd := fd, shFd := s.idx, data := { ptr := some s.sockets.next } } :=
    (congrFun (congrArg Heap.content same.sockets) _).trans (Function.update_self ..)
  have oldSocket : ∀ p, p ≠ s.sockets.next → u.socket p = s.socket p := fun p new =>
    (congrFun (congrArg Heap.content same.sockets) _).trans (Function.update_of_ne new ..)
  have facts := u.linked_fields (w := w) others (by rwa [listener])
  simp only [listener, infoSocket, oldSocket reInfo others.symm] at facts
  obtain ⟨server, removte, elsewhere, info, peer, sockets⟩ := facts
  refine ⟨⟨available, congrArg Kernel.files same.kernel, congrArg Kernel.received same.kernel,
    congrArg Kernel.sent same.kernel, same.acceptEpfd, same.epfd, same.channelMap, same.serversNext,
    same.serversLive, congrArg Heap.next same.sockets, congrArg Heap.live same.sockets,
    same.shFd2SocketInfo, same.accepted⟩, (congrArg Kernel.epoll same.kernel).trans rfl, server,
    removte, elsewhere, info, peer, fun p new old => (sockets p new old).trans (oldSocket p new),
    fun live => ?_, same.eool⟩
  have alive : u.sockets.live s.sockets.next = true ∧ u.sockets.live reInfo = true := by
    rw [same.sockets]
    simp [accepted, others.symm, live]
  have fault : u.sockets.fault = s.sockets.fault := (congrArg Heap.fault same.sockets).trans rfl
  simp [linked, popFree, setPtr, pushBusy, modifyServer, alive.1, alive.2, fault]

private theorem Linked.pairs {t u : DataChannelServer} {w reInfo : ℕ} {fd : ℤ}
    (linked : Linked s w reInfo fd t) (isOpen : s.kernel.files (s.socket reInfo).fd ≠ none)
    (registers : Registers t s.sockets.next reInfo u)
    (eool : u.trace.eool = t.trace.eool ++ if (s.server w).type = 1 then
      [⟨reInfo, some s.sockets.next, some reInfo⟩, ⟨s.sockets.next, some reInfo, some s.sockets.next⟩]
      else [⟨s.sockets.next, some reInfo, some s.sockets.next⟩,
      ⟨reInfo, some s.sockets.next, some reInfo⟩]) :
    Pairs s w reInfo fd u := by
  have available := linked.accepts.available
  have epfd := linked.accepts.epfd
  have infoFd : (t.socket s.sockets.next).fd = fd := by rw [linked.socket]
  have peerFd : (t.socket reInfo).fd = (s.socket reInfo).fd := by rw [linked.peer]
  have old : ∀ f, s.kernel.files f ≠ none → t.kernel.files f = s.kernel.files f := by
    intro f before
    rw [linked.accepts.files, Function.update_of_ne (available.ne before)]
  have new : t.kernel.files fd = some .connection := by rw [linked.accepts.files, Function.update_self]
  have servers : ∀ v, u.server v = t.server v := fun v =>
    congrFun (congrArg Heap.content registers.servers) v
  refine ⟨registers.accepts linked.accepts, fun isEpoll connection absent => ?_, fun e f elsewhere => ?_,
    (servers _).trans linked.server, (servers _).trans linked.removte,
    fun v first second => (servers v).trans (linked.servers v first second), ?_, ?_,
    fun p first second => (registers.others p first second).trans (linked.sockets p first second),
    fun live => ?_, ?_⟩
  · have both := registers.registered
    rw [epfd, infoFd, peerFd, linked.epoll, old _ isOpen, new,
      old _ (by rw [isEpoll]; exact Option.some_ne_none _)] at both
    exact both isEpoll rfl connection (Kernel.unregistered_of_closed available.2.2 _) absent
  · rw [registers.untouched e f (by rwa [epfd, infoFd, peerFd]), linked.epoll]
  · rw [registers.left, linked.socket, epfd]
  · rw [registers.right, linked.peer, epfd]
  · refine (registers.fault ?_ ?_).trans (linked.fault live)
    · exact (linked.accepts.live_iff _).mpr (Or.inl rfl)
    · exact (linked.accepts.live_iff _).mpr (Or.inr live)
  · rw [eool, linked.eool]

/-- With a connection waiting on the other side, the two are paired and registered. -/
theorem runAccept_pairs {w reInfo : ℕ} {fd : ℤ} {rest : List ℕ} (available : s.kernel.Available fd)
    (sides : (s.server w).removte ≠ w) (allocated : reInfo < s.sockets.next)
    (isOpen : s.kernel.files (s.socket reInfo).fd ≠ none)
    (front : (s.server (s.server w).removte).freeSocket = reInfo :: rest) :
    Pairs s w reInfo fd ((s.accepted w fd available).dateSocketAccept w s.sockets.next) := by
  have same := announced (s.accepted w fd available) w
  have others : s.sockets.next ≠ reInfo := by omega
  have servers : ((s.accepted w fd available).announce w).servers.content = s.servers.content :=
    same.servers
  have branch : (s.accepted w fd available).dateSocketAccept w s.sockets.next =
      ((s.accepted w fd available).announce w).pairSockets w s.sockets.next reInfo := by
    have nonempty : (((s.accepted w fd available).announce w).server
        (((s.accepted w fd available).announce w).server w).removte).freeSocket = reInfo :: rest := by
      simp only [server, servers]
      exact front
    rw [dateSocketAccept]
    simp only [nonempty]
  rw [branch]
  generalize (s.accepted w fd available).announce w = u at *
  have linked := linked_accepted available sides others same
  have type : (u.server w).type = (s.server w).type := by rw [server, servers, server]
  rw [pairSockets, type]
  change Pairs s w reInfo fd (if (s.server w).type = 1 then
    ((u.linked w s.sockets.next reInfo).addEool reInfo).addEool s.sockets.next
    else ((u.linked w s.sockets.next reInfo).addEool s.sockets.next).addEool reInfo)
  have apart : ((u.linked w s.sockets.next reInfo).socket s.sockets.next).fd ≠
      ((u.linked w s.sockets.next reInfo).socket reInfo).fd := by
    rw [linked.socket, linked.peer]
    exact (available.ne isOpen).symm
  have forth : ((u.linked w s.sockets.next reInfo).socket s.sockets.next).data.ptr =
    some reInfo := by rw [linked.socket]
  have back : ((u.linked w s.sockets.next reInfo).socket reInfo).data.ptr =
    some s.sockets.next := by rw [linked.peer]
  split_ifs with out
  · refine linked.pairs isOpen (registers_addEool _ others.symm apart.symm).symm ?_
    rw [if_pos out]
    exact eool_addEool_twice _ others.symm back forth
  · refine linked.pairs isOpen (registers_addEool _ others apart) ?_
    rw [if_neg out]
    exact eool_addEool_twice _ others forth back

end DataChannelServer

end LinuxZero.Vpn
