import LinuxZero.Vpn.RelayRuns

/-! # Peers of relayed connections

`on_recv_data` and `on_disconnected` follow the `m_ptr` of a connection to its peer. The pointer is
good as long as every connection that ends is unlinked from its peer first. `on_disconnected` does
so, `on_a_disconnected` does not, neither for a failed `recv` nor for a scheduled close; and
`del_clinet_info` finds the object to delete by its number, so that a number in use must not be given
out again. Whom the relay itself schedules for closing it has unlinked before.
-/

namespace LinuxZero.Vpn

namespace DataChannelServer

variable {s t : DataChannelServer} {p q : ℕ}

/-- The step unlinks whom it deletes: `recv` fails, and a scheduled close is carried out, only on a
connection without a peer, and a new connection gets a number that no other one has. -/
def Unlinks (s : DataChannelServer) : RelayEvent → Prop
  | .accept _ _ => s.shFd2SocketInfo s.idx = none
  | .epoll p .out => (s.socket p).data.ptr = none
  | .epoll p .error => (s.socket p).data.ptr = none
  | _ => True

def UnlinkingStep (s : DataChannelServer) (event : RelayEvent) (t : DataChannelServer) : Prop :=
  RelayStep s event t ∧ s.Unlinks event

/-- Peers are allocated and point at each other, except for the connection `x` that is being ended. -/
structure Coupled (s : DataChannelServer) (x : ℕ) : Prop where
  fault : s.sockets.fault = false
  served : ∀ fd interest p, s.kernel.epoll s.epfd fd = some ⟨interest, .socket p⟩ →
    s.sockets.live p = true
  mutual_ : ∀ p q, s.sockets.live p = true → p ≠ x → (s.socket p).data.ptr = some q →
    s.sockets.live q = true ∧ (s.socket q).data.ptr = some p
  numbered : ∀ p, s.sockets.live p = true → s.shFd2SocketInfo (s.socket p).shFd = some p

theorem Started.not_live (started : Started s) (p : ℕ) : s.sockets.live p ≠ true := by
  rw [started.state]
  exact Bool.false_ne_true

theorem Started.coupled (started : Started s) : Coupled s 0 := by
  refine ⟨by rw [started.state]; rfl, fun fd interest p present => ?_,
    fun p q alive => absurd alive (started.not_live p), fun p alive => absurd alive (started.not_live p)⟩
  rw [started.empty] at present
  contradiction

/-- Without exception, every connection may be the one to end. -/
theorem Coupled.ending (coupled : Coupled s 0) (x : ℕ) : Coupled s x :=
  { coupled with mutual_ := fun p q alive _ => coupled.mutual_ p q alive (Heap.ne_null alive) }

theorem Coupled.useSocket (coupled : Coupled s q) (alive : s.sockets.live p = true) :
    Coupled (s.useSocket p) q :=
  { coupled with fault := by simp [DataChannelServer.useSocket, coupled.fault, alive] }

/-- Scheduling a connection for closing leaves its peer. -/
theorem Coupled.closeSocket (coupled : Coupled s q) (alive : s.sockets.live p = true) :
    Coupled (s.closeSocket p) q where
  fault := by simp [DataChannelServer.closeSocket, coupled.fault, alive]
  served fd interest r present := by
    rcases Kernel.epollMod_some present with ⟨_, _, same, _⟩ | before
    · cases same
      exact alive
    · exact coupled.served fd interest r before
  mutual_ := coupled.mutual_
  numbered := coupled.numbered

/-- The end of a connection that `del_clinet_info` finds under its number. -/
theorem endConnection_eq (number : s.shFd2SocketInfo (s.socket p).shFd = some p) (sock : ℤ) :
    s.endConnection p sock =
      { s with
        kernel := (s.kernel.close sock).epollDel s.epfd sock
        shFd2SocketInfo := Function.update s.shFd2SocketInfo (s.socket p).shFd none
        sh2Fd := Function.update s.sh2Fd (s.socket p).shFd none
        sockets := s.sockets.delete p } := by
  rw [DataChannelServer.endConnection, delClinetInfo]
  simp only [socket, number]

/-- A connection that nobody points at can be closed and deleted. -/
theorem Coupled.endConnection (coupled : Coupled s p) (layout : Layout s)
    (alive : s.sockets.live p = true)
    (unlinked : ∀ q, s.sockets.live q = true → q ≠ p → (s.socket q).data.ptr ≠ some p) :
    Coupled (s.endConnection p (s.socket p).fd) 0 := by
  have others := fun q => (s.sockets.live_delete_iff p q).mp
  have survives : ∀ q, q ≠ p → s.sockets.live q = true → (s.sockets.delete p).live q = true :=
    fun q apart aliveQ => (s.sockets.live_delete_iff p q).mpr ⟨apart, aliveQ⟩
  have kept : ∀ e fd event, ((s.kernel.close (s.socket p).fd).epollDel s.epfd (s.socket p).fd).epoll
    e fd = some event →
      fd ≠ (s.socket p).fd ∧ s.kernel.epoll e fd = some event := by
    intro e fd event present
    rw [Kernel.epoll_epollDel, Kernel.epoll_close] at present
    split_ifs at present with _ touched
    exact ⟨fun same => touched (Or.inr same), present⟩
  rw [endConnection_eq (coupled.numbered p alive)]
  refine ⟨?_, ?_, ?_, ?_⟩
  · simp [coupled.fault, alive]
  · intro fd interest q present
    obtain ⟨apart, before⟩ := kept _ _ _ present
    refine survives q ?_ (coupled.served fd interest q before)
    rintro rfl
    exact apart (layout.connection before).1.symm
  · intro q r aliveQ _ ptr
    obtain ⟨apart, before⟩ := others q aliveQ
    obtain ⟨aliveR, back⟩ := coupled.mutual_ q r before apart ptr
    refine ⟨survives r ?_ aliveR, back⟩
    rintro rfl
    exact unlinked q before apart ptr
  · intro q aliveQ
    obtain ⟨apart, before⟩ := others q aliveQ
    have number := coupled.numbered q before
    have apartNumber : (s.socket q).shFd ≠ (s.socket p).shFd := by
      intro same
      rw [same, coupled.numbered p alive] at number
      exact apart (Option.some.inj number).symm
    exact (Function.update_of_ne apartNumber ..).trans number

/-- A connection without a peer has nobody who points at it. -/
theorem Coupled.unlinked_of_none (coupled : Coupled s 0) (ptr : (s.socket p).data.ptr = none) :
    ∀ q, s.sockets.live q = true → q ≠ p → (s.socket q).data.ptr ≠ some p := by
  intro q aliveQ _ points
  have back := (coupled.mutual_ q p aliveQ (Heap.ne_null aliveQ) points).2
  rw [ptr] at back
  contradiction

/-- `on_disconnected` takes the pointer from the peer and leaves the other connections alone. -/
theorem socket_detached_self (s : DataChannelServer) (p q : ℕ) :
    (((s.useSocket p).setPtr q none).closeSocket q).socket q =
      { s.socket q with data := { (s.socket q).data with ptr := none } } :=
  Function.update_self ..

theorem socket_detached_other (s : DataChannelServer) (p : ℕ) {q r : ℕ} (apart : r ≠ q) :
    (((s.useSocket p).setPtr q none).closeSocket q).socket r = s.socket r :=
  Function.update_of_ne apart ..

/-- `on_disconnected` leaves nobody pointing at the connection that ends. -/
theorem Coupled.onDisconnected (coupled : Coupled s 0) (alive : s.sockets.live p = true) :
    Coupled (s.onDisconnected p) p ∧ (s.onDisconnected p).sockets.live p = true ∧
      ∀ q, (s.onDisconnected p).sockets.live q = true → q ≠ p →
        ((s.onDisconnected p).socket q).data.ptr ≠ some p := by
  cases ptr : (s.socket p).data.ptr with
  | none =>
    rw [onDisconnected_none ptr]
    exact ⟨(coupled.useSocket alive).ending p, alive, coupled.unlinked_of_none ptr⟩
  | some q =>
    obtain ⟨aliveQ, back⟩ := coupled.mutual_ p q alive (Heap.ne_null alive) ptr
    rw [onDisconnected_some ptr]
    have own := s.socket_detached_self p q
    have other := fun r (apart : r ≠ q) => s.socket_detached_other p apart
    refine ⟨⟨?_, ?_, ?_, ?_⟩, alive, ?_⟩
    · simp [DataChannelServer.useSocket, setPtr, DataChannelServer.closeSocket, coupled.fault,
        alive, aliveQ]
    · intro fd interest r present
      rcases Kernel.epollMod_some present with ⟨_, _, same, _⟩ | before
      · cases same
        exact aliveQ
      · exact coupled.served fd interest r before
    · intro r u aliveR apart points
      rcases eq_or_ne r q with rfl | apartR
      · rw [own] at points
        contradiction
      · rw [other r apartR] at points
        obtain ⟨aliveU, backU⟩ := coupled.mutual_ r u aliveR (Heap.ne_null aliveR) points
        refine ⟨aliveU, ?_⟩
        rcases eq_or_ne u q with rfl | apartU
        · exact absurd (Option.some.inj (backU.symm.trans back)) apart
        · rw [other u apartU]
          exact backU
    · intro r aliveR
      have fields : (((s.useSocket p).setPtr q none).closeSocket q).socket r =
          { s.socket r with data := ((((s.useSocket p).setPtr q none).closeSocket q).socket r).data } := by
        rcases eq_or_ne r q with rfl | apart
        · rw [own]
        · rw [other r apart]
      rw [fields]
      exact coupled.numbered r aliveR
    · intro r aliveR apart points
      rcases eq_or_ne r q with rfl | apartR
      · rw [own] at points
        contradiction
      · rw [other r apartR] at points
        have same := (coupled.mutual_ r p aliveR (Heap.ne_null aliveR) points).2
        exact apartR (Option.some.inj (same.symm.trans ptr))

/-- What every reported chunk of data changes, apart from the descriptors. -/
structure Handles (s : DataChannelServer) (p : ℕ) (t : DataChannelServer) : Prop where
  epfd : t.epfd = s.epfd
  live : t.sockets.live = s.sockets.live
  numbers : t.shFd2SocketInfo = s.shFd2SocketInfo
  sockets : ∀ q, q ≠ p → t.socket q = s.socket q
  fd : (t.socket p).fd = (s.socket p).fd
  shFd : (t.socket p).shFd = (s.socket p).shFd
  ptr : (t.socket p).data.ptr = (s.socket p).data.ptr

theorem Handles.fd_eq (handles : Handles s p t) (r : ℕ) : (t.socket r).fd = (s.socket r).fd := by
  rcases eq_or_ne r p with rfl | apart
  · exact handles.fd
  · rw [handles.sockets r apart]

theorem Handles.shFd_eq (handles : Handles s p t) (r : ℕ) : (t.socket r).shFd = (s.socket r).shFd := by
  rcases eq_or_ne r p with rfl | apart
  · exact handles.shFd
  · rw [handles.sockets r apart]

theorem Handles.ptr_eq (handles : Handles s p t) (r : ℕ) :
    (t.socket r).data.ptr = (s.socket r).data.ptr := by
  rcases eq_or_ne r p with rfl | apart
  · exact handles.ptr
  · rw [handles.sockets r apart]

/-- A chunk of a connection without a peer is dropped and the connection is scheduled to end. -/
structure Drops (s : DataChannelServer) (p : ℕ) (bytes : List UInt8) (t : DataChannelServer) : Prop where
  handles : Handles s p t
  fault : s.sockets.live p = true → t.sockets.fault = s.sockets.fault
  files : t.kernel.files = s.kernel.files
  registrations : ∀ e f event, t.kernel.epoll e f = some event →
    event.data = .socket p ∨ s.kernel.epoll e f = some event
  received : t.kernel.received =
    Function.update s.kernel.received (s.socket p).fd (s.kernel.received (s.socket p).fd ++ bytes)
  sent : t.kernel.sent = s.kernel.sent

/-- A chunk is sent on to the peer `q`, and what `send` took leaves the buffer. -/
structure Relays (s : DataChannelServer) (p q : ℕ) (bytes : List UInt8) (result : ℤ)
    (t : DataChannelServer) : Prop where
  handles : Handles s p t
  fault : s.sockets.live p = true → s.sockets.live q = true → t.sockets.fault = s.sockets.fault
  files : t.kernel.files = s.kernel.files
  epoll : t.kernel.epoll = s.kernel.epoll
  received : t.kernel.received =
    Function.update s.kernel.received (s.socket p).fd (s.kernel.received (s.socket p).fd ++ bytes)
  sent : t.kernel.sent =
    (s.kernel.send (s.socket q).fd ((s.socket p).data.received bytes).content result).2.sent
  data : (t.socket p).data = ((s.socket p).data.received bytes).consume
    (if 0 < (s.kernel.send (s.socket q).fd ((s.socket p).data.received bytes).content result).1 then
      (s.kernel.send (s.socket q).fd ((s.socket p).data.received bytes).content result).1
    else ((s.socket p).data.received bytes).buffLen)

/-- Storing what `recv` returned and dropping what was used touches the buffer alone. -/
private theorem socket_consume {v : DataChannelServer} {bytes : List UInt8} {useLen : ℤ}
    (sockets : v.sockets.content = ((s.useSocket p).recvInto p bytes).sockets.content) :
    (v.setData p fun d => d.consume useLen).socket p =
      { s.socket p with data := ((s.socket p).data.received bytes).consume useLen } := by
  have before : v.socket p = { s.socket p with data := (s.socket p).data.received bytes } := by
    rw [socket, sockets]
    exact Function.update_self ..
  have after : (v.setData p fun d => d.consume useLen).socket p =
      { v.socket p with data := (v.socket p).data.consume useLen } := Function.update_self ..
  rw [after, before]

private theorem handles_consume {v : DataChannelServer} {bytes : List UInt8} {useLen : ℤ}
    (sockets : v.sockets.content = ((s.useSocket p).recvInto p bytes).sockets.content)
    (live : v.sockets.live = s.sockets.live) (numbers : v.shFd2SocketInfo = s.shFd2SocketInfo)
    (epfd : v.epfd = s.epfd) : Handles s p (v.setData p fun d => d.consume useLen) where
  epfd := epfd
  live := live
  numbers := numbers
  sockets q apart := by
    refine (Function.update_of_ne apart ..).trans ?_
    rw [sockets]
    exact Function.update_of_ne apart ..
  fd := by rw [socket_consume sockets]
  shFd := by rw [socket_consume sockets]
  ptr := by
    rw [socket_consume sockets]
    exact SocketData.ptr_consume ..

theorem runEpoll_drops (ptr : (s.socket p).data.ptr = none) (bytes : List UInt8) (result : ℤ) :
    Drops s p bytes (s.runEpoll p (.data bytes result)) := by
  have own : ((s.useSocket p).recvInto p bytes).socket p =
      { s.socket p with data := (s.socket p).data.received bytes } := Function.update_self ..
  have ptr' : (((s.useSocket p).recvInto p bytes).socket p).data.ptr = none := by
    rw [own]
    exact ptr
  rw [runEpoll_data, onRecvData_none ptr']
  refine ⟨handles_consume rfl rfl rfl rfl, fun alive => ?_, Kernel.files_epollMod .., ?_,
    Kernel.received_epollMod .., Kernel.sent_epollMod ..⟩
  · simp [setData, closeSocket, DataChannelServer.useSocket, recvInto, alive]
  · intro e f event present
    rcases Kernel.epollMod_some present with ⟨_, _, rfl, _⟩ | before
    · exact Or.inl rfl
    · exact Or.inr before

theorem runEpoll_relays (ptr : (s.socket p).data.ptr = some q) (bytes : List UInt8) (result : ℤ) :
    Relays s p q bytes result (s.runEpoll p (.data bytes result)) := by
  have own : ((s.useSocket p).recvInto p bytes).socket p =
      { s.socket p with data := (s.socket p).data.received bytes } := Function.update_self ..
  have peer : (((s.useSocket p).recvInto p bytes).socket q).fd = (s.socket q).fd := by
    rcases eq_or_ne q p with rfl | apart
    · rw [own]
    · exact congrArg SocketInfo.fd (Function.update_of_ne apart ..)
  have ptr' : (((s.useSocket p).recvInto p bytes).socket p).data.ptr = some q := by
    rw [own]
    exact ptr
  obtain ⟨len, sent⟩ := s.kernel.send_recv (s.socket p).fd (s.socket q).fd bytes
    ((s.socket p).data.received bytes).content result
  have kernel : ((s.useSocket p).recvInto p bytes).kernel = s.kernel.recv (s.socket p).fd bytes := rfl
  rw [runEpoll_data, onRecvData_some ptr', peer, own, kernel]
  dsimp only
  rw [len]
  refine ⟨handles_consume rfl rfl rfl rfl, fun alive aliveQ => ?_, ?_, ?_, ?_, ?_,
    congrArg SocketInfo.data (socket_consume rfl)⟩
  · simp [setData, DataChannelServer.useSocket, recvInto, alive, aliveQ]
  · exact Kernel.files_send ..
  · exact Kernel.epoll_send ..
  · exact Kernel.received_send ..
  · exact sent

/-- A chunk of data leaves peers, numbers and allocated connections as they are. -/
theorem Coupled.handles (coupled : Coupled s 0) (handles : Handles s p t)
    (alive : s.sockets.live p = true) (fault : t.sockets.fault = s.sockets.fault)
    (registrations : ∀ fd event, t.kernel.epoll s.epfd fd = some event →
      event.data = .socket p ∨ s.kernel.epoll s.epfd fd = some event) : Coupled t 0 := by
  refine ⟨fault.trans coupled.fault, ?_, ?_, ?_⟩
  · intro fd interest r present
    rw [handles.epfd] at present
    rw [handles.live]
    rcases registrations fd _ present with data | before
    · cases data
      exact alive
    · exact coupled.served fd interest r before
  · intro r u aliveR apart points
    rw [handles.live] at aliveR ⊢
    rw [handles.ptr_eq] at points ⊢
    exact coupled.mutual_ r u aliveR apart points
  · intro r aliveR
    rw [handles.live] at aliveR
    rw [handles.numbers, handles.shFd_eq]
    exact coupled.numbered r aliveR

/-- Whatever epoll reports about a connection that is unlinked when it is deleted, peers stay coupled. -/
theorem Coupled.runEpoll (coupled : Coupled s 0) (layout : Layout s) {fd : ℤ} {interest : Interest}
    {event : EpollEvent} (present : s.kernel.epoll s.epfd fd = some ⟨interest, .socket p⟩)
    (unlinks : s.Unlinks (.epoll p event)) : Coupled (s.runEpoll p event) 0 := by
  have alive := coupled.served fd interest p present
  have use := coupled.useSocket alive
  have layoutUse := layout.shrinks (s.shrinks_use p)
  have ends : (s.socket p).data.ptr = none →
    Coupled ((s.useSocket p).endConnection p (s.socket p).fd) 0 :=
    fun ptr => (use.ending p).endConnection layoutUse alive (coupled.unlinked_of_none ptr)
  cases event with
  | out => exact ends unlinks
  | again => exact use
  | error => exact ends unlinks
  | eof =>
    obtain ⟨_, below, unqueued⟩ := layout.connection present
    obtain ⟨detached, aliveP, unlinked⟩ := use.onDisconnected alive
    have shrinks := shrinks_onDisconnected layoutUse below
      (fun queued => unqueued (((s.shrinks_use p).queued_iff p).mp queued))
    have closed := detached.endConnection (layoutUse.shrinks shrinks) aliveP unlinked
    rw [shrinks.fds] at closed
    exact closed
  | data bytes result =>
    cases ptr : (s.socket p).data.ptr with
    | none =>
      have drops := runEpoll_drops ptr bytes result
      exact coupled.handles drops.handles alive (drops.fault alive) (drops.registrations _)
    | some q =>
      have relays := runEpoll_relays ptr bytes result
      have aliveQ := (coupled.mutual_ p q alive (Heap.ne_null alive) ptr).1
      refine coupled.handles relays.handles alive (relays.fault alive aliveQ) fun f event isEvent => ?_
      rw [relays.epoll] at isEvent
      exact Or.inr isEvent

/-- Creating a channel touches neither connections nor the epoll set of the relay. -/
theorem Coupled.createChannelServer (coupled : Coupled s 0) (layout : Layout s)
    (channelInfo : VpnChannelInfo) (calls : ChannelCalls) :
    Coupled (s.createChannelServer channelInfo calls).2 0 := by
  have system : ∀ k h, Grows s k h → Coupled (s.withSystem k h) 0 := by
    intro k h grows
    have kept : ∀ fd event, k.epoll s.epfd fd = some event → s.kernel.epoll s.epfd fd = some event := by
      intro fd event present
      rcases grows.registrations _ _ _ present with before | ⟨isAccept, _⟩
      · exact before
      · exact absurd isAccept.symm layout.epfds
    exact { coupled with
      served := fun fd interest p present => coupled.served fd interest p (kept fd _ present) }
  refine createChannelServer_keeps (P := fun t => Coupled t 0) channelInfo calls system
    fun t key w grown => ?_
  rw [insertChannel]
  split
  · exact { grown with }
  · exact grown

/-- The new connection is allocated under a number that was free. -/
private theorem numbered_of_accepts {w : ℕ} {fd : ℤ} (coupled : Coupled s 0) (accepts : Accepts s w fd t)
    (free : s.shFd2SocketInfo s.idx = none) (newNumber : (t.socket s.sockets.next).shFd = s.idx)
    (numbers : ∀ r, r ≠ s.sockets.next → (t.socket r).shFd = (s.socket r).shFd) :
    ∀ r, t.sockets.live r = true → t.shFd2SocketInfo (t.socket r).shFd = some r := by
  intro r aliveR
  rw [accepts.shFd2SocketInfo]
  rcases eq_or_ne r s.sockets.next with rfl | apart
  · rw [newNumber, Function.update_self]
  · rw [accepts.live, Function.update_of_ne apart] at aliveR
    have number := coupled.numbered r aliveR
    rw [numbers r apart, Function.update_of_ne ?_, number]
    intro same
    rw [same, free] at number
    contradiction

theorem Coupled.waits {w : ℕ} {fd : ℤ} (coupled : Coupled s 0) (waits : Waits s w fd t)
    (free : s.shFd2SocketInfo s.idx = none) : Coupled t 0 := by
  have accepts := waits.accepts
  have live := accepts.live_iff
  refine ⟨waits.fault.trans coupled.fault, ?_, ?_, ?_⟩
  · intro f interest r present
    rw [accepts.epfd, waits.epoll] at present
    exact (live r).mpr (Or.inr (coupled.served f interest r present))
  · intro r u aliveR _ points
    rcases eq_or_ne r s.sockets.next with rfl | apart
    · rw [waits.socket] at points
      obtain rfl := Option.some.inj points
      exact ⟨aliveR, by rw [waits.socket]⟩
    · rw [waits.sockets r apart] at points
      have before := ((live r).mp aliveR).resolve_left apart
      obtain ⟨aliveU, back⟩ := coupled.mutual_ r u before (Heap.ne_null before) points
      exact ⟨(live u).mpr (Or.inr aliveU), by rw [waits.sockets u (Heap.ne_next aliveU), back]⟩
  · exact numbered_of_accepts coupled accepts free (by rw [waits.socket])
      fun r apart => by rw [waits.sockets r apart]

/-- A registration after a pairing is one of the two new ones, or of a connection that the step leaves
alone. -/
theorem Layout.registered_of_pairs {w reInfo : ℕ} {fd f : ℤ} {interest : Interest} {r : ℕ}
    (layout : Layout s) (pairs : Pairs s w reInfo fd t) (waiting : s.Waiting reInfo)
    (present : t.kernel.epoll s.epfd f = some ⟨interest, .socket r⟩) :
    interest = .epollIn ∧ (r = s.sockets.next ∨ r = reInfo) ∨
      s.kernel.epoll s.epfd f = some ⟨interest, .socket r⟩ ∧ t.socket r = s.socket r := by
  obtain ⟨newEntry, reEntry⟩ := pairs.epoll layout.instance_ waiting.isOpen (waiting.unregistered _)
  rcases eq_or_ne f fd with rfl | apartNew
  · cases newEntry.symm.trans present
    exact Or.inl ⟨rfl, Or.inl rfl⟩
  · rcases eq_or_ne f (s.socket reInfo).fd with rfl | apartPeer
    · cases reEntry.symm.trans present
      exact Or.inl ⟨rfl, Or.inr rfl⟩
    · rw [pairs.epollOther _ _ fun here => here.2.elim apartNew apartPeer] at present
      obtain ⟨isFd, below, _⟩ := layout.connection present
      refine Or.inr ⟨present, pairs.sockets r (Nat.ne_of_lt below) ?_⟩
      rintro rfl
      exact apartPeer isFd.symm

theorem Coupled.pairs {w reInfo : ℕ} {fd : ℤ} (coupled : Coupled s 0) (layout : Layout s)
    (pairs : Pairs s w reInfo fd t) (waiting : s.Waiting reInfo) (free : s.shFd2SocketInfo s.idx = none) :
    Coupled t 0 := by
  have accepts := pairs.accepts
  have live := accepts.live_iff
  refine ⟨(pairs.fault waiting.live).trans coupled.fault, ?_, ?_, ?_⟩
  · intro f interest r present
    rw [accepts.epfd] at present
    rcases layout.registered_of_pairs pairs waiting present with ⟨_, rfl | rfl⟩ | ⟨before, _⟩
    · exact (live _).mpr (Or.inl rfl)
    · exact (live _).mpr (Or.inr waiting.live)
    · exact (live r).mpr (Or.inr (coupled.served f interest r before))
  · intro r u aliveR _ points
    rcases eq_or_ne r s.sockets.next with rfl | apart
    · rw [pairs.socket] at points
      obtain rfl := Option.some.inj points
      exact ⟨(live _).mpr (Or.inr waiting.live), by rw [pairs.peer]⟩
    · rcases eq_or_ne r reInfo with rfl | apartPeer
      · rw [pairs.peer] at points
        obtain rfl := Option.some.inj points
        exact ⟨(live _).mpr (Or.inl rfl), by rw [pairs.socket]⟩
      · rw [pairs.sockets r apart apartPeer] at points
        have before := ((live r).mp aliveR).resolve_left apart
        obtain ⟨aliveU, back⟩ := coupled.mutual_ r u before (Heap.ne_null before) points
        have apartU : u ≠ reInfo := by
          rintro rfl
          exact apartPeer (Option.some.inj (back.symm.trans waiting.ptr))
        exact ⟨(live u).mpr (Or.inr aliveU), by rw [pairs.sockets u (Heap.ne_next aliveU) apartU, back]⟩
  · refine numbered_of_accepts coupled accepts free (by rw [pairs.socket]) fun r apart => ?_
    rcases eq_or_ne r reInfo with rfl | apartPeer
    · rw [pairs.peer]
    · rw [pairs.sockets r apart apartPeer]

/-- Peers stay coupled in every step that unlinks whom it deletes. -/
theorem Coupled.step {event : RelayEvent} (coupled : Coupled s 0) (layout : Layout s)
    (step : UnlinkingStep s event t) : Coupled t 0 := by
  obtain ⟨⟨enabled, rfl⟩, unlinks⟩ := step
  cases event with
  | takeIdx => exact { coupled with }
  | create channelInfo calls => exact coupled.createChannelServer layout channelInfo calls
  | accept w fd =>
    obtain ⟨_, _, present⟩ := enabled
    have known := layout.listeners _ _ _ present
    have outcome : s.apply (.accept w fd) = s.runAccept w fd := rfl
    rw [outcome]
    rcases layout.runAccept_cases known fd with same | ⟨waits, _⟩ | ⟨reInfo, rest, pairs, front⟩
    · rw [same]
      exact { coupled with }
    · exact coupled.waits waits unlinks
    · have queued : s.Queued reInfo := ⟨_, (layout.removte w known).1, front ▸ List.mem_cons_self ..⟩
      exact coupled.pairs layout pairs (layout.waiting reInfo queued) unlinks
  | epoll p event =>
    obtain ⟨_, _, present, _⟩ := enabled
    exact coupled.runEpoll layout present unlinks
  | close p => exact coupled.closeSocket enabled

/-! Whom the relay schedules for closing. -/

/-- A connection that waits for its scheduled close has no peer. -/
def Scheduled (s : DataChannelServer) : Prop :=
  ∀ fd p, s.kernel.epoll s.epfd fd = some ⟨.epollOut, .socket p⟩ → (s.socket p).data.ptr = none

/-- The close is asked for by the relay itself, or the connection has no peer. -/
def ClosesUnlinked (s : DataChannelServer) : RelayEvent → Prop
  | .close p => (s.socket p).data.ptr = none
  | _ => True

/-- What is scheduled after a step was scheduled before, or has no peer. -/
theorem Scheduled.keeps (scheduled : Scheduled s) (epfd : t.epfd = s.epfd)
    (later : ∀ fd p, t.kernel.epoll s.epfd fd = some ⟨.epollOut, .socket p⟩ →
      (t.socket p).data.ptr = none ∨
      s.kernel.epoll s.epfd fd = some ⟨.epollOut, .socket p⟩ ∧
        ((t.socket p).data.ptr = (s.socket p).data.ptr ∨ (t.socket p).data.ptr = none)) :
    Scheduled t := by
  intro fd p present
  rw [epfd] at present
  rcases later fd p present with unlinked | ⟨before, same | unlinked⟩
  · exact unlinked
  · rw [same]
    exact scheduled fd p before
  · exact unlinked

theorem Scheduled.closeSocket (scheduled : Scheduled s) (unlinked : (s.socket p).data.ptr = none) :
    Scheduled (s.closeSocket p) := by
  refine scheduled.keeps rfl fun fd q present => ?_
  rcases Kernel.epollMod_some present with ⟨_, _, same, _⟩ | before
  · cases same
    exact Or.inl unlinked
  · exact Or.inr ⟨before, Or.inl rfl⟩

theorem Scheduled.endConnection (scheduled : Scheduled s) {sock : ℤ}
    (epfd : (s.endConnection p sock).epfd = s.epfd) :
    Scheduled (s.endConnection p sock) := by
  refine scheduled.keeps epfd fun fd q present => Or.inr ⟨s.epoll_endConnection present, Or.inl ?_⟩
  rw [socket_endConnection]

/-- `on_disconnected` schedules the peer after it has taken its pointer. -/
theorem Scheduled.onDisconnected (scheduled : Scheduled s) : Scheduled (s.onDisconnected p) := by
  cases ptr : (s.socket p).data.ptr with
  | none =>
    rw [onDisconnected_none ptr]
    exact scheduled
  | some q =>
    rw [onDisconnected_some ptr]
    have own : ((((s.useSocket p).setPtr q none).closeSocket q).socket q).data.ptr = none := by
      rw [s.socket_detached_self p q]
    refine scheduled.keeps rfl fun fd r present => ?_
    rcases Kernel.epollMod_some present with ⟨_, _, same, _⟩ | before
    · cases same
      exact Or.inl own
    · rcases eq_or_ne r q with rfl | apart
      · exact Or.inl own
      · rw [s.socket_detached_other p apart]
        exact Or.inr ⟨before, Or.inl rfl⟩

theorem Scheduled.runEpoll (scheduled : Scheduled s) (event : EpollEvent) :
    Scheduled (s.runEpoll p event) := by
  have use : Scheduled (s.useSocket p) := scheduled
  have ends : ∀ u : DataChannelServer, Scheduled u → Scheduled (u.endConnection p (s.socket p).fd) :=
    fun u scheduledU => scheduledU.endConnection (u.epfd_endConnection p _)
  cases event with
  | out => exact ends _ use
  | again => exact use
  | error => exact ends _ use
  | eof => exact ends _ use.onDisconnected
  | data bytes result =>
    cases ptr : (s.socket p).data.ptr with
    | none =>
      have drops := runEpoll_drops ptr bytes result
      refine scheduled.keeps drops.handles.epfd fun f r isEvent => ?_
      rw [drops.handles.ptr_eq]
      rcases drops.registrations _ f _ isEvent with data | before
      · cases data
        exact Or.inl ptr
      · exact Or.inr ⟨before, Or.inl rfl⟩
    | some q =>
      have relays := runEpoll_relays ptr bytes result
      refine scheduled.keeps relays.handles.epfd fun f r isEvent => ?_
      rw [relays.epoll] at isEvent
      exact Or.inr ⟨isEvent, Or.inl (relays.handles.ptr_eq r)⟩

theorem Scheduled.createChannelServer (scheduled : Scheduled s) (layout : Layout s)
    (channelInfo : VpnChannelInfo) (calls : ChannelCalls) :
    Scheduled (s.createChannelServer channelInfo calls).2 := by
  refine createChannelServer_keeps channelInfo calls (fun k h grows => ?_) fun t key w grown => ?_
  · refine scheduled.keeps rfl fun fd p present => ?_
    rcases grows.registrations _ _ _ present with before | ⟨isAccept, _⟩
    · exact Or.inr ⟨before, Or.inl rfl⟩
    · exact absurd isAccept.symm layout.epfds
  · rw [insertChannel]
    split
    · exact grown
    · exact grown

theorem Scheduled.runAccept (scheduled : Scheduled s) (layout : Layout s) {w : ℕ}
    (known : s.Known w) (fd : ℤ) :
    Scheduled (s.runAccept w fd) := by
  rcases layout.runAccept_cases known fd with same | ⟨waits, _⟩ | ⟨reInfo, rest, pairs, front⟩
  · rw [same]
    exact scheduled
  · refine scheduled.keeps waits.accepts.epfd fun f r present => ?_
    rw [waits.epoll] at present
    rw [waits.sockets r (Nat.ne_of_lt (layout.connection present).2.1)]
    exact Or.inr ⟨present, Or.inl rfl⟩
  · have queued : s.Queued reInfo := ⟨_, (layout.removte w known).1, front ▸ List.mem_cons_self ..⟩
    refine scheduled.keeps pairs.accepts.epfd fun f r present => ?_
    rcases layout.registered_of_pairs pairs (layout.waiting reInfo queued) present with ⟨isIn, _⟩ |
        ⟨before, same⟩
    · contradiction
    · rw [same]
      exact Or.inr ⟨before, Or.inl rfl⟩

/-- Only another thread's close of a linked connection makes a scheduled close meet a peer: the relay
unlinks whom it schedules. -/
theorem scheduled_unlinked {s₀ : DataChannelServer} {events : List RelayEvent} (started : Started s₀)
    (run : Run (fun s event t => RelayStep s event t ∧ s.ClosesUnlinked event) s₀ events s)
    (enabled : s.Enabled (.epoll p .out)) : s.Unlinks (.epoll p .out) := by
  have first : Scheduled s₀ := by
    intro fd p present
    rw [started.empty] at present
    contradiction
  obtain ⟨_, scheduled⟩ := run.invariant_with Layout Scheduled
    (fun _ event _ layout step => layout.step event step.1) (fun u event _ layout scheduled step => by
      obtain ⟨⟨enabled, rfl⟩, closes⟩ := step
      cases event with
      | takeIdx => exact scheduled
      | create channelInfo calls => exact scheduled.createChannelServer layout channelInfo calls
      | accept w fd =>
        obtain ⟨_, _, present⟩ := enabled
        exact scheduled.runAccept layout (layout.listeners _ _ _ present) fd
      | epoll p event =>
        exact scheduled.runEpoll event
      | close p => exact scheduled.closeSocket closes) started.layout first
  obtain ⟨fd, interest, present, rfl⟩ := enabled
  exact scheduled fd p present

/-- Along every run whose steps unlink whom they delete, the peer of an allocated connection is
allocated and points back, and no deleted connection has been used. -/
theorem peers_coupled {s₀ : DataChannelServer} {events : List RelayEvent} (started : Started s₀)
    (run : Run UnlinkingStep s₀ events s) :
    (∀ p q, s.sockets.live p = true → (s.socket p).data.ptr = some q →
      s.sockets.live q = true ∧ (s.socket q).data.ptr = some p) ∧ s.sockets.fault = false := by
  have coupled : Layout s ∧ Coupled s 0 :=
    run.invariant_with Layout (Coupled · 0) (fun _ event _ layout step => layout.step event step.1)
      (fun _ _ _ layout coupled step => coupled.step layout step) started.layout started.coupled
  exact ⟨fun p q alive => coupled.2.mutual_ p q alive (Heap.ne_null alive), coupled.2.fault⟩

theorem bothRelayed_unlinking :
    Run UnlinkingStep freshServer (([serveOne] ++ [.accept 1 7]) ++ [.accept 2 8]) bothRelayed := by
  have firstNumber : (freshServer.apply serveOne).shFd2SocketInfo (freshServer.apply serveOne).idx =
    none := by
    decide +kernel
  have secondNumber : oneWaits.shFd2SocketInfo oneWaits.idx = none := by decide +kernel
  exact .next (.next (.next .start ⟨⟨trivial, rfl⟩, trivial⟩)
    ⟨⟨⟨5, .epollIn, by decide +kernel⟩, rfl⟩, firstNumber⟩)
    ⟨⟨⟨6, .epollIn, by decide +kernel⟩, rfl⟩, secondNumber⟩

/-- Another thread has asked for the close of one of them. -/
def closeAsked : DataChannelServer := bothRelayed.apply (.close 2)

/-- Then the other one ends, and the close is carried out. -/
def bothEnded : DataChannelServer := (closeAsked.apply (.epoll 1 .eof)).apply (.epoll 2 .out)

theorem closeAsked_unlinking : Run UnlinkingStep freshServer
    ((([serveOne] ++ [.accept 1 7]) ++ [.accept 2 8]) ++ [.close 2]) closeAsked := by
  have live : bothRelayed.sockets.live 2 = true := by decide +kernel
  exact .next bothRelayed_unlinking ⟨⟨live, rfl⟩, trivial⟩

theorem bothEnded_unlinking : Run UnlinkingStep freshServer
    ((((([serveOne] ++ [.accept 1 7]) ++ [.accept 2 8]) ++ [.close 2]) ++ [.epoll 1 .eof]) ++
      [.epoll 2 .out])
    bothEnded := by
  have unlinked : ((closeAsked.apply (.epoll 1 .eof)).socket 2).data.ptr = none := by decide +kernel
  exact .next (.next closeAsked_unlinking ⟨⟨⟨7, .epollIn, by decide +kernel, trivial⟩, rfl⟩, trivial⟩)
    ⟨⟨⟨8, .epollOut, by decide +kernel, rfl⟩, rfl⟩, unlinked⟩

/-- While a close is asked for, both ends of the pair are allocated and point at each other; after both
have ended, nobody has used a deleted one. -/
theorem closeAsked_peers : closeAsked.sockets.live 2 = true ∧ (closeAsked.socket 2).data.ptr = some 1 ∧
    closeAsked.kernel.epoll closeAsked.epfd 8 = some ⟨.epollOut, .socket 2⟩ ∧
    bothEnded.sockets.fault = false := by
  obtain ⟨peers, _⟩ := peers_coupled started_freshServer closeAsked_unlinking
  obtain ⟨live, back⟩ := peers 1 2 (by decide +kernel) (by decide +kernel)
  exact ⟨live, back, by decide +kernel, (peers_coupled started_freshServer bothEnded_unlinking).2⟩

/-- A connection of a relayed pair is reset. -/
def oneReset : DataChannelServer := bothRelayed.apply (.epoll 1 .error)

theorem run_oneReset :
    Run RelayStep freshServer (([serveOne, .accept 1 7] ++ [.accept 2 8]) ++ [.epoll 1 .error])
    oneReset :=
  .next run_bothRelayed ⟨⟨7, .epollIn, by decide +kernel, trivial⟩, rfl⟩

/-- The close that another thread asks for is carried out on a connection of a relayed pair. -/
def oneClosed : DataChannelServer := (bothRelayed.apply (.close 1)).apply (.epoll 1 .out)

theorem run_oneClosed : Run RelayStep freshServer
    ((([serveOne, .accept 1 7] ++ [.accept 2 8]) ++ [.close 1]) ++ [.epoll 1 .out]) oneClosed := by
  have live : bothRelayed.sockets.live 1 = true := by decide +kernel
  exact .next (.next run_bothRelayed ⟨live, rfl⟩) ⟨⟨7, .epollOut, by decide +kernel, rfl⟩, rfl⟩

/-- After a reset the other end points at a deleted connection, and uses it with the next chunk; after
a scheduled close it does so too, in a run without any reset. -/
theorem reset_leaves_dangling_peer :
    (¬ ∀ (events : List RelayEvent) (s : DataChannelServer), Run RelayStep freshServer events s →
      ∀ p q, s.sockets.live p = true → (s.socket p).data.ptr = some q →
        s.sockets.live q = true ∧ (s.socket q).data.ptr = some p) ∧
    (¬ ∀ (events : List RelayEvent) (s : DataChannelServer), Run RelayStep freshServer events s →
      s.sockets.fault = false) ∧
    ¬ ∀ (events : List RelayEvent) (s : DataChannelServer), Run RelayStep freshServer events s →
      (∀ p, .epoll p .error ∉ events) → ∀ p q, s.sockets.live p = true → (s.socket p).data.ptr = some q →
        s.sockets.live q = true ∧ (s.socket q).data.ptr = some p := by
  refine ⟨fun claimed => ?_, fun claimed => ?_, fun claimed => ?_⟩
  · have freed : oneReset.sockets.live 1 = false := by decide +kernel
    have live := (claimed _ _ run_oneReset 2 1 (by decide +kernel) (by decide +kernel)).1
    rw [freed] at live
    contradiction
  · have enabled : oneReset.Enabled (.epoll 2 (.data [0] 1)) :=
      ⟨8, .epollIn, by decide +kernel, by decide +kernel, by decide +kernel, by decide +kernel,
        by decide +kernel⟩
    have unused := claimed _ _ (.next run_oneReset ⟨enabled, rfl⟩)
    have used : (oneReset.apply (.epoll 2 (.data [0] 1))).sockets.fault = true := by decide +kernel
    rw [used] at unused
    contradiction
  · have freed : oneClosed.sockets.live 1 = false := by decide +kernel
    have live := (claimed _ _ run_oneClosed (by simp [serveOne]) 2 1 (by decide +kernel)
      (by decide +kernel)).1
    rw [freed] at live
    contradiction

end DataChannelServer

end LinuxZero.Vpn
