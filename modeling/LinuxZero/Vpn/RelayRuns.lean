import LinuxZero.Lib.Run
import LinuxZero.Vpn.ChannelAccept
import LinuxZero.Vpn.ChannelCreation

/-! # Runs of the data relay

The events of a running data channel server: channels are created, connections accepted, the relay's
epoll set reports what happens on the registered ones, and other threads close connections. The
invariant below holds after every run, also after one in which a deleted object has been used: the
queues keep what was accepted, and a waiting connection is allocated, open and registered nowhere.
-/

namespace LinuxZero.Vpn

open DataChannelServer

inductive RelayEvent where
  /-- Another socket manager of the program takes a number from the shared counter. -/
  | takeIdx
  | create (channelInfo : VpnChannelInfo) (calls : ChannelCalls)
  | accept (w : ℕ) (fd : ℤ)
  | epoll (p : ℕ) (event : EpollEvent)
  /-- Another thread calls `close_socket`, as `delete_channel_server` does for the connections in the
  queues of a channel. -/
  | close (p : ℕ)
deriving DecidableEq, Repr

/-- What epoll and the calls of the handler can report about a connection registered with this
interest. A connection is handled for `EPOLLIN` also if its interest has changed since the report. -/
def EpollEvent.Possible (event : EpollEvent) (interest : Interest) (d : SocketData ℕ) : Prop :=
  match event with
  | .out => interest = .epollOut
  | .data bytes result =>
    0 < bytes.length ∧ bytes.length ≤ d.room ∧ -1 ≤ result ∧ result ≤ d.buffLen + bytes.length
  | _ => True

namespace DataChannelServer

variable (s : DataChannelServer)

def Enabled : RelayEvent → Prop
  | .accept w _ => ∃ fd interest, s.kernel.epoll s.acceptEpfd fd = some ⟨interest, .server w⟩
  | .epoll p event => ∃ fd interest, s.kernel.epoll s.epfd fd = some ⟨interest, .socket p⟩ ∧
      event.Possible interest (s.socket p).data
  | .close p => s.sockets.live p = true
  | _ => True

def apply : RelayEvent → DataChannelServer
  | .takeIdx => { s with idx := s.idx + 1 }
  | .create channelInfo calls => (s.createChannelServer channelInfo calls).2
  | .accept w fd => s.runAccept w fd
  | .epoll p event => s.runEpoll p event
  | .close p => s.closeSocket p

end DataChannelServer

def RelayStep (s : DataChannelServer) (event : RelayEvent) (t : DataChannelServer) : Prop :=
  s.Enabled event ∧ t = s.apply event

namespace DataChannelServer

/-- The server after `init`, with both epoll sets empty. -/
structure Started (s : DataChannelServer) : Prop where
  state : s = .initial s.kernel s.acceptEpfd s.epfd s.idx
  epfds : s.acceptEpfd ≠ s.epfd
  instance_ : s.kernel.files s.epfd = some .epoll
  acceptEmpty : ∀ fd, s.kernel.epoll s.acceptEpfd fd = none
  empty : ∀ fd, s.kernel.epoll s.epfd fd = none

/-- A listener object that has been allocated. -/
def Known (s : DataChannelServer) (w : ℕ) : Prop := 0 < w ∧ w < s.servers.next

/-- A connection that waits in the queue of a listener. -/
def Queued (s : DataChannelServer) (p : ℕ) : Prop := ∃ w, s.Known w ∧ p ∈ (s.server w).freeSocket

/-- What is true of a waiting connection. -/
structure Waiting (s : DataChannelServer) (p : ℕ) : Prop where
  live : s.sockets.live p = true
  ptr : (s.socket p).data.ptr = some p
  epfd : (s.socket p).epfd = 0
  buffLen : (s.socket p).data.buffLen = 0
  isOpen : s.kernel.files (s.socket p).fd = some .connection
  unregistered : ∀ e, s.kernel.epoll e (s.socket p).fd = none

/-- The invariant of all runs. -/
structure Layout (s : DataChannelServer) : Prop where
  epfds : s.acceptEpfd ≠ s.epfd
  instance_ : s.kernel.files s.epfd = some .epoll
  removte : ∀ w, s.Known w → s.Known (s.server w).removte ∧
    (s.server (s.server w).removte).removte = w ∧ (s.server w).removte ≠ w
  accepted : ∀ w, s.Known w → s.trace.accepted w = (s.server w).busySocket ++ (s.server w).freeSocket
  paired : ∀ w p, s.Known w → p ∈ (s.server w).busySocket → (s.socket p).epfd = s.epfd
  unknown : ∀ w, s.servers.next ≤ w → s.trace.accepted w = []
  oneSide : ∀ w, s.Known w →
    (s.server w).freeSocket = [] ∨ (s.server (s.server w).removte).freeSocket = []
  allocated : ∀ w p, p ∈ s.trace.accepted w → p < s.sockets.next
  once : ∀ w, (s.trace.accepted w).Nodup
  one : ∀ w v p, p ∈ s.trace.accepted w → p ∈ s.trace.accepted v → w = v
  waiting : ∀ p, s.Queued p → s.Waiting p
  apart : ∀ p q, s.Queued p → s.Queued q → (s.socket p).fd = (s.socket q).fd → p = q
  ptrs : ∀ p q, p < s.sockets.next → (s.socket p).data.ptr = some q →
    q < s.sockets.next ∧ (s.Queued q → q = p)
  listeners : ∀ fd interest w, s.kernel.epoll s.acceptEpfd fd = some ⟨interest, .server w⟩ → s.Known w
  registered : ∀ fd event, s.kernel.epoll s.epfd fd = some event →
    s.kernel.files fd = some .connection ∧
      ∃ p, p < s.sockets.next ∧ event.data = .socket p ∧ (s.socket p).fd = fd
  channels : ∀ key w, s.channelMap key = some w → s.Known w ∧
    s.kernel.files (s.server w).fd = some .listening ∧
    s.kernel.files (s.server (s.server w).removte).fd = some .listening

theorem Started.layout {s : DataChannelServer} (started : Started s) : Layout s := by
  have nothing : ∀ w, ¬ s.Known w := by
    intro w known
    have servers := known.2
    rw [started.state] at servers
    have below : w < 1 := servers
    exact absurd known.1 (by omega)
  have unqueued : ∀ p, ¬ s.Queued p := fun p ⟨w, known, _⟩ => nothing w known
  have accepted : ∀ w, s.trace.accepted w = [] := by
    intro w
    rw [started.state]
    rfl
  have next : s.sockets.next = 1 := by
    rw [started.state]
    rfl
  refine ⟨started.epfds, started.instance_, fun w known => absurd known (nothing w),
    fun w known => absurd known (nothing w), fun w _ known => absurd known (nothing w),
    fun w _ => accepted w, fun w known => absurd known (nothing w), ?_, ?_, ?_,
    fun p queued => absurd queued (unqueued p), fun p _ queued => absurd queued (unqueued p),
    ?_, ?_, ?_, ?_⟩
  · intro w p member
    rw [accepted w] at member
    exact absurd member List.not_mem_nil
  · intro w
    rw [accepted w]
    exact List.nodup_nil
  · intro w v p member
    rw [accepted w] at member
    exact absurd member List.not_mem_nil
  · intro p q _ ptr
    rw [started.state] at ptr
    exact nomatch ptr
  · intro fd interest w present
    rw [started.acceptEmpty] at present
    exact nomatch present
  · intro fd event present
    rw [started.empty] at present
    exact nomatch present
  · intro key w present
    rw [started.state] at present
    exact nomatch present

variable {s t : DataChannelServer}

/-- What an epoll event may change: it detaches and ends registered connections, and registers none. -/
structure Shrinks (s t : DataChannelServer) : Prop where
  servers : t.servers = s.servers
  channelMap : t.channelMap = s.channelMap
  acceptEpfd : t.acceptEpfd = s.acceptEpfd
  epfd : t.epfd = s.epfd
  accepted : t.trace.accepted = s.trace.accepted
  next : t.sockets.next = s.sockets.next
  fds : ∀ p, (t.socket p).fd = (s.socket p).fd
  epfds : ∀ p, (t.socket p).epfd = (s.socket p).epfd
  ptr : ∀ p, (t.socket p).data.ptr = (s.socket p).data.ptr ∨ (t.socket p).data.ptr = none
  queued : ∀ p, s.Queued p → t.socket p = s.socket p ∧ t.sockets.live p = s.sockets.live p
  files : ∀ fd, t.kernel.files fd = s.kernel.files fd ∨
    t.kernel.files fd = none ∧ s.kernel.epoll s.epfd fd ≠ none
  unregistered : ∀ e fd, s.kernel.epoll e fd = none → t.kernel.epoll e fd = none
  registrations : ∀ e fd event, t.kernel.epoll e fd = some event → s.kernel.epoll e fd = some event ∨
    s.kernel.epoll e fd ≠ none ∧
      ∃ p, p < s.sockets.next ∧ event.data = .socket p ∧ (s.socket p).fd = fd

theorem Shrinks.refl (s : DataChannelServer) : Shrinks s s :=
  ⟨rfl, rfl, rfl, rfl, rfl, rfl, fun _ => rfl, fun _ => rfl, fun _ => Or.inl rfl, fun _ _ => ⟨rfl, rfl⟩,
    fun _ => Or.inl rfl, fun _ _ absent => absent, fun _ _ _ present => Or.inl present⟩

/-- Waiting is a matter of the listeners alone. -/
theorem Shrinks.queued_iff (shrinks : Shrinks s t) (p : ℕ) : t.Queued p ↔ s.Queued p := by
  simp only [Queued, Known, server, shrinks.servers]

theorem Shrinks.trans {u : DataChannelServer} (first : Shrinks s t) (second : Shrinks t u) :
    Shrinks s u where
  servers := second.servers.trans first.servers
  channelMap := second.channelMap.trans first.channelMap
  acceptEpfd := second.acceptEpfd.trans first.acceptEpfd
  epfd := second.epfd.trans first.epfd
  accepted := second.accepted.trans first.accepted
  next := second.next.trans first.next
  fds p := (second.fds p).trans (first.fds p)
  epfds p := (second.epfds p).trans (first.epfds p)
  ptr p := by
    rcases second.ptr p with same | none_
    · rw [same]
      exact first.ptr p
    · exact Or.inr none_
  queued p queued := by
    obtain ⟨socket, live⟩ := first.queued p queued
    obtain ⟨socket', live'⟩ := second.queued p ((first.queued_iff p).mpr queued)
    exact ⟨socket'.trans socket, live'.trans live⟩
  files fd := by
    rcases second.files fd with same | ⟨closed, present⟩
    · rw [same]
      exact first.files fd
    · rw [first.epfd] at present
      exact Or.inr ⟨closed, fun absent => present (first.unregistered _ _ absent)⟩
  unregistered e fd absent := second.unregistered e fd (first.unregistered e fd absent)
  registrations e fd event present := by
    rcases second.registrations e fd event present with same | ⟨before, p, below, data, isFd⟩
    · exact first.registrations e fd event same
    · rw [first.next] at below
      rw [first.fds] at isFd
      exact Or.inr ⟨fun absent => before (first.unregistered e fd absent), p, below, data, isFd⟩

theorem Shrinks.known_iff (shrinks : Shrinks s t) (w : ℕ) : t.Known w ↔ s.Known w := by
  simp only [Known, shrinks.servers]

theorem Shrinks.server_eq (shrinks : Shrinks s t) (w : ℕ) : t.server w = s.server w := by
  simp only [server, shrinks.servers]

/-- Only registered connections are closed, so nothing of another kind is. -/
theorem Shrinks.files_kept (shrinks : Shrinks s t) (layout : Layout s) {fd : ℤ} {kind : FileKind}
    (isKind : s.kernel.files fd = some kind)
    (safe : kind ≠ .connection ∨ s.kernel.epoll s.epfd fd = none) :
    t.kernel.files fd = some kind := by
  rcases shrinks.files fd with same | ⟨_, present⟩
  · rw [same, isKind]
  · obtain ⟨event, isEvent⟩ := Option.ne_none_iff_exists'.mp present
    have connection := (layout.registered fd event isEvent).1
    rcases safe with other | absent
    · exact absurd (Option.some.inj (isKind.symm.trans connection)) other
    · exact absurd absent present

theorem Waiting.shrinks {p : ℕ} (waiting : s.Waiting p) (layout : Layout s) (shrinks : Shrinks s t)
    (queued : s.Queued p) : t.Waiting p := by
  obtain ⟨live, ptr, epfd, buffLen, isOpen, unregistered⟩ := waiting
  obtain ⟨socket, sameLive⟩ := shrinks.queued p queued
  refine ⟨sameLive.trans live, ?_, ?_, ?_, ?_, ?_⟩ <;> rw [socket]
  · exact ptr
  · exact epfd
  · exact buffLen
  · exact shrinks.files_kept layout isOpen (Or.inr (unregistered _))
  · exact fun e => shrinks.unregistered e _ (unregistered e)

theorem Layout.shrinks_ptrs (layout : Layout s) (shrinks : Shrinks s t) {p q : ℕ}
    (below : p < t.sockets.next) (ptr : (t.socket p).data.ptr = some q) :
    q < t.sockets.next ∧ (t.Queued q → q = p) := by
  rw [shrinks.next] at below ⊢
  rw [shrinks.queued_iff]
  rcases shrinks.ptr p with same | none_
  · exact layout.ptrs p q below (same ▸ ptr)
  · rw [none_] at ptr
    contradiction

theorem Layout.shrinks_listeners (layout : Layout s) (shrinks : Shrinks s t) {fd : ℤ}
    {interest : Interest} {w : ℕ}
    (present : t.kernel.epoll t.acceptEpfd fd = some ⟨interest, .server w⟩) : t.Known w := by
  rw [shrinks.acceptEpfd] at present
  rw [shrinks.known_iff]
  rcases shrinks.registrations _ _ _ present with same | ⟨_, p, _, data, _⟩
  · exact layout.listeners fd interest w same
  · contradiction

/-- What is registered afterwards was open before, and no step of the kind opens a descriptor. -/
theorem Layout.shrinks_registered (layout : Layout s) (shrinks : Shrinks s t) {fd : ℤ}
    {event : Registration EventPtr} (present : t.kernel.epoll t.epfd fd = some event) :
    t.kernel.files fd = some .connection ∧
      ∃ p, p < t.sockets.next ∧ event.data = .socket p ∧ (t.socket p).fd = fd := by
  have isOpen := (t.kernel.registered _ _ (Option.ne_none_iff_exists'.mpr ⟨event, present⟩)).2
  rw [shrinks.epfd] at present
  rw [shrinks.next]
  simp only [shrinks.fds]
  have sameFile : t.kernel.files fd = s.kernel.files fd := by
    rcases shrinks.files fd with same | ⟨closed, _⟩
    · exact same
    · exact absurd closed isOpen
  rw [sameFile]
  rcases shrinks.registrations _ _ _ present with same | ⟨before, isSocket⟩
  · exact layout.registered fd event same
  · obtain ⟨old, isOld⟩ := Option.ne_none_iff_exists'.mp before
    exact ⟨(layout.registered fd old isOld).1, isSocket⟩

theorem Layout.shrinks_channels (layout : Layout s) (shrinks : Shrinks s t) {key : ℤ} {w : ℕ}
    (present : t.channelMap key = some w) : t.Known w ∧
      t.kernel.files (t.server w).fd = some .listening ∧
      t.kernel.files (t.server (t.server w).removte).fd = some .listening := by
  rw [shrinks.channelMap] at present
  obtain ⟨isKnown, out, in_⟩ := layout.channels key w present
  simp only [shrinks.server_eq]
  exact ⟨(shrinks.known_iff w).mpr isKnown, shrinks.files_kept layout out (Or.inl (by decide)),
    shrinks.files_kept layout in_ (Or.inl (by decide))⟩

theorem Layout.shrinks (layout : Layout s) (shrinks : Shrinks s t) : Layout t where
  epfds := by
    rw [shrinks.acceptEpfd, shrinks.epfd]
    exact layout.epfds
  instance_ := by
    rw [shrinks.epfd]
    exact shrinks.files_kept layout layout.instance_ (Or.inl (by decide))
  removte w known := by
    simp only [shrinks.known_iff, shrinks.server_eq] at known ⊢
    exact layout.removte w known
  accepted w known := by
    rw [shrinks.accepted, shrinks.server_eq]
    exact layout.accepted w ((shrinks.known_iff w).mp known)
  paired w p known member := by
    rw [shrinks.server_eq] at member
    rw [shrinks.epfds, shrinks.epfd]
    exact layout.paired w p ((shrinks.known_iff w).mp known) member
  unknown w beyond := by
    rw [shrinks.accepted]
    exact layout.unknown w (shrinks.servers ▸ beyond)
  oneSide w known := by
    simp only [shrinks.server_eq]
    exact layout.oneSide w ((shrinks.known_iff w).mp known)
  allocated w p member := by
    rw [shrinks.next]
    exact layout.allocated w p (shrinks.accepted ▸ member)
  once w := shrinks.accepted ▸ layout.once w
  one w v p := by
    rw [shrinks.accepted]
    exact layout.one w v p
  waiting p queued := by
    rw [shrinks.queued_iff] at queued
    exact (layout.waiting p queued).shrinks layout shrinks queued
  apart p q queuedP queuedQ := by
    rw [shrinks.queued_iff] at queuedP queuedQ
    rw [shrinks.fds, shrinks.fds]
    exact layout.apart p q queuedP queuedQ
  ptrs _ _ := layout.shrinks_ptrs shrinks
  listeners _ _ _ := layout.shrinks_listeners shrinks
  registered _ _ := layout.shrinks_registered shrinks
  channels _ _ := layout.shrinks_channels shrinks

/-! The parts of `run_epoll`. -/

theorem shrinks_use (s : DataChannelServer) (p : ℕ) : Shrinks s (s.useSocket p) :=
  { Shrinks.refl s with }

theorem shrinks_closeSocket {p : ℕ} (below : p < s.sockets.next) : Shrinks s (s.closeSocket p) where
  servers := rfl
  channelMap := rfl
  acceptEpfd := rfl
  epfd := rfl
  accepted := rfl
  next := rfl
  fds _ := rfl
  epfds _ := rfl
  ptr _ := Or.inl rfl
  queued _ _ := ⟨rfl, rfl⟩
  files fd := Or.inl (congrFun (Kernel.files_epollMod ..) fd)
  unregistered _ _ absent := Kernel.epollMod_eq_none.mpr absent
  registrations e fd event present := by
    rcases Kernel.epollMod_some present with ⟨rfl, rfl, rfl, before⟩ | same
    · exact Or.inr ⟨before, p, below, rfl, rfl⟩
    · exact Or.inl same

/-- A change of the buffer or pointer of a connection that does not wait. -/
theorem shrinks_setData {p : ℕ} {f : SocketData ℕ → SocketData ℕ} (unqueued : ¬ s.Queued p)
    (ptr : (f (s.socket p).data).ptr = (s.socket p).data.ptr ∨ (f (s.socket p).data).ptr = none) :
    Shrinks s (s.setData p f) := by
  have other : ∀ q, q ≠ p → (s.setData p f).socket q = s.socket q := fun q apart =>
    Function.update_of_ne apart ..
  have own : (s.setData p f).socket p = { s.socket p with data := f (s.socket p).data } :=
    Function.update_self ..
  refine { Shrinks.refl s with
    fds := fun q => ?_, epfds := fun q => ?_, ptr := fun q => ?_, queued := fun q queued => ?_ }
  · rcases eq_or_ne q p with rfl | apart
    · rw [own]
    · rw [other q apart]
  · rcases eq_or_ne q p with rfl | apart
    · rw [own]
    · rw [other q apart]
  · rcases eq_or_ne q p with rfl | apart
    · rw [own]
      exact ptr
    · rw [other q apart]
      exact Or.inl rfl
  · refine ⟨other q ?_, rfl⟩
    rintro rfl
    exact unqueued queued

theorem kernel_endConnection (s : DataChannelServer) (p : ℕ) (sock : ℤ) :
    (s.endConnection p sock).kernel = (s.kernel.close sock).epollDel s.epfd sock := by
  rw [endConnection, delClinetInfo]
  split <;> rfl

theorem epfd_endConnection (s : DataChannelServer) (p : ℕ) (sock : ℤ) :
    (s.endConnection p sock).epfd = s.epfd := by
  rw [endConnection, delClinetInfo]
  split <;> rfl

theorem socket_endConnection (s : DataChannelServer) (p : ℕ) (sock : ℤ) (q : ℕ) :
    (s.endConnection p sock).socket q = s.socket q := by
  have content : (s.endConnection p sock).sockets.content = s.sockets.content := by
    rw [endConnection, delClinetInfo]
    split <;> rfl
  exact congrFun content q

/-- The end of a connection registers nothing. -/
theorem epoll_endConnection (s : DataChannelServer) {p : ℕ} {sock e fd : ℤ}
    {event : Registration EventPtr}
    (present : (s.endConnection p sock).kernel.epoll e fd = some event) :
    s.kernel.epoll e fd = some event := by
  rw [kernel_endConnection, Kernel.epoll_epollDel, Kernel.epoll_close] at present
  split_ifs at present
  exact present

theorem shrinks_endConnection {p : ℕ} {sock : ℤ} (unqueued : ¬ s.Queued p)
    (present : s.kernel.epoll s.epfd sock ≠ none) : Shrinks s (s.endConnection p sock) := by
  have fewer : ∀ e fd event, (s.endConnection p sock).kernel.epoll e fd = some event →
      s.kernel.epoll e fd = some event := fun e fd event => s.epoll_endConnection
  have live : ∀ q, q ≠ p → (s.endConnection p sock).sockets.live q = s.sockets.live q := by
    intro q apart
    rw [endConnection, delClinetInfo]
    split
    · rfl
    · exact Function.update_of_ne apart ..
  have rest : (s.endConnection p sock).servers = s.servers ∧
      (s.endConnection p sock).channelMap = s.channelMap ∧
      (s.endConnection p sock).acceptEpfd = s.acceptEpfd ∧ (s.endConnection p sock).epfd = s.epfd ∧
      (s.endConnection p sock).trace.accepted = s.trace.accepted ∧
      (s.endConnection p sock).sockets.next = s.sockets.next := by
    rw [endConnection, delClinetInfo]
    split <;> exact ⟨rfl, rfl, rfl, rfl, rfl, rfl⟩
  obtain ⟨servers, channelMap, acceptEpfd, epfd, accepted, next⟩ := rest
  have socket := s.socket_endConnection p sock
  refine ⟨servers, channelMap, acceptEpfd, epfd, accepted, next, fun q => by rw [socket],
    fun q => by rw [socket], fun q => Or.inl (by rw [socket]), fun q queued => ⟨socket q, live q ?_⟩,
    fun fd => ?_, fun e fd absent => ?_, fun e fd event isEvent => Or.inl (fewer e fd event isEvent)⟩
  · rintro rfl
    exact unqueued queued
  · rw [kernel_endConnection, Kernel.files_epollDel, Kernel.files_close]
    rcases eq_or_ne fd sock with rfl | apart
    · exact Or.inr ⟨Function.update_self .., present⟩
    · exact Or.inl (Function.update_of_ne apart ..)
  · by_contra still
    obtain ⟨event, isEvent⟩ := Option.ne_none_iff_exists'.mp still
    rw [fewer e fd event isEvent] at absent
    contradiction

/-- The connection that a registration names. -/
theorem Layout.connection (layout : Layout s) {fd : ℤ} {interest : Interest} {p : ℕ}
    (present : s.kernel.epoll s.epfd fd = some ⟨interest, .socket p⟩) :
    (s.socket p).fd = fd ∧ p < s.sockets.next ∧ ¬ s.Queued p := by
  obtain ⟨_, q, below, data, isFd⟩ := layout.registered fd _ present
  obtain rfl := EventPtr.socket.inj data
  refine ⟨isFd, below, fun queued => ?_⟩
  have absent := (layout.waiting p queued).unregistered s.epfd
  rw [isFd, present] at absent
  contradiction

theorem onDisconnected_none {p : ℕ} (ptr : (s.socket p).data.ptr = none) :
    s.onDisconnected p = s.useSocket p := by
  rw [onDisconnected]
  simp only [socket_useSocket, ptr]

theorem onDisconnected_some {p q : ℕ} (ptr : (s.socket p).data.ptr = some q) :
    s.onDisconnected p = ((s.useSocket p).setPtr q none).closeSocket q := by
  rw [onDisconnected]
  simp only [socket_useSocket, ptr]

theorem onRecvData_none {p : ℕ} (ptr : (s.socket p).data.ptr = none) (result : ℤ) :
    s.onRecvData p result = ((s.socket p).data.buffLen, (s.useSocket p).closeSocket p) := by
  rw [onRecvData]
  simp only [socket_useSocket, ptr]

/-- What is sent to the peer, and how much of it the relay then drops from the buffer. -/
theorem onRecvData_some {p q : ℕ} (ptr : (s.socket p).data.ptr = some q) (result : ℤ) :
    s.onRecvData p result =
      (if 0 < (s.kernel.send (s.socket q).fd (s.socket p).data.content result).1 then
          (s.kernel.send (s.socket q).fd (s.socket p).data.content result).1
        else (s.socket p).data.buffLen,
        { (s.useSocket p).useSocket q with
          kernel := (s.kernel.send (s.socket q).fd (s.socket p).data.content result).2 }) := by
  rw [onRecvData]
  simp only [socket_useSocket, kernel_useSocket, ptr]
  split_ifs with accepted
  · exact if_pos accepted
  · exact if_neg accepted

theorem shrinks_onDisconnected (layout : Layout s) {p : ℕ} (below : p < s.sockets.next)
    (unqueued : ¬ s.Queued p) : Shrinks s (s.onDisconnected p) := by
  have use := s.shrinks_use p
  cases ptr : (s.socket p).data.ptr with
  | none =>
    rw [onDisconnected_none ptr]
    exact use
  | some q =>
    obtain ⟨belowQ, waits⟩ := layout.ptrs p q below ptr
    have unqueuedQ : ¬ s.Queued q := by
      intro queued
      obtain rfl := waits queued
      exact unqueued queued
    rw [onDisconnected_some ptr]
    have detach : Shrinks (s.useSocket p) ((s.useSocket p).setPtr q none) :=
      shrinks_setData (f := fun d => { d with ptr := none })
        (fun queued => unqueuedQ ((use.queued_iff q).mp queued))
        (Or.inr rfl)
    exact (use.trans detach).trans (shrinks_closeSocket (by
      rw [detach.next]
      exact belowQ))

theorem epoll_onDisconnected (s : DataChannelServer) (p : ℕ) (e fd : ℤ) :
    (s.onDisconnected p).kernel.epoll e fd = none ↔ s.kernel.epoll e fd = none := by
  cases ptr : (s.socket p).data.ptr with
  | none => rw [onDisconnected_none ptr, kernel_useSocket]
  | some q =>
    rw [onDisconnected_some ptr]
    exact Kernel.epollMod_eq_none

theorem shrinks_recvInto {p : ℕ} (unqueued : ¬ s.Queued p) (bytes : List UInt8) :
    Shrinks s (s.recvInto p bytes) := by
  have arrives : Shrinks s { s with kernel := s.kernel.recv (s.socket p).fd bytes } :=
    { Shrinks.refl s with }
  exact arrives.trans (shrinks_setData (fun queued => unqueued ((arrives.queued_iff p).mp queued))
    (Or.inl rfl))

theorem runEpoll_data (s : DataChannelServer) (p : ℕ) (bytes : List UInt8) (result : ℤ) :
    s.runEpoll p (.data bytes result) =
      (((s.useSocket p).recvInto p bytes).onRecvData p result).2.setData p fun d =>
        d.consume (((s.useSocket p).recvInto p bytes).onRecvData p result).1 := rfl

theorem shrinks_onRecvData {p : ℕ} (below : p < s.sockets.next) (result : ℤ) :
    Shrinks s (s.onRecvData p result).2 := by
  have use := s.shrinks_use p
  cases ptr : (s.socket p).data.ptr with
  | none =>
    rw [onRecvData_none ptr]
    exact use.trans (shrinks_closeSocket below)
  | some q =>
    rw [onRecvData_some ptr]
    have useBoth := use.trans ((s.useSocket p).shrinks_use q)
    have files := s.kernel.files_send (s.socket q).fd (s.socket p).data.content result
    have epoll := s.kernel.epoll_send (s.socket q).fd (s.socket p).data.content result
    refine { useBoth with
      files := fun fd => ?_, unregistered := fun e fd absent => ?_,
      registrations := fun e fd event present => ?_ }
    · exact Or.inl (congrFun files fd)
    · exact (congrFun (congrFun epoll e) fd).trans absent
    · exact Or.inl ((congrFun (congrFun epoll e) fd).symm.trans present)

/-- Whatever is reported about a registered connection, a run of the handler shrinks the relay. -/
theorem shrinks_runEpoll (layout : Layout s) {p : ℕ} {fd : ℤ} {interest : Interest} (event : EpollEvent)
    (present : s.kernel.epoll s.epfd fd = some ⟨interest, .socket p⟩) :
    Shrinks s (s.runEpoll p event) := by
  obtain ⟨rfl, below, unqueued⟩ := layout.connection present
  have use := s.shrinks_use p
  have registered : s.kernel.epoll s.epfd (s.socket p).fd ≠ none := by
    rw [present]
    simp
  have unqueuedUse : ¬ (s.useSocket p).Queued p :=
    fun queued => unqueued ((use.queued_iff p).mp queued)
  have ends : Shrinks s ((s.useSocket p).endConnection p
      (s.socket p).fd) := use.trans (shrinks_endConnection unqueuedUse registered)
  cases event with
  | out => exact ends
  | again => exact use
  | error => exact ends
  | eof =>
    have detached := shrinks_onDisconnected (layout.shrinks use) (by exact below) unqueuedUse
    refine (use.trans detached).trans (shrinks_endConnection ?_ ?_)
    · rw [detached.queued_iff]
      exact unqueuedUse
    · rw [detached.epfd]
      intro absent
      exact registered ((epoll_onDisconnected (s.useSocket p) p s.epfd _).mp absent)
  | data bytes result =>
    have stored := use.trans (shrinks_recvInto unqueuedUse bytes)
    have handled := stored.trans (shrinks_onRecvData (by rw [stored.next]; exact below) result)
    rw [runEpoll_data]
    exact handled.trans (shrinks_setData (fun queued => unqueued ((handled.queued_iff p).mp queued))
      (Or.inl (SocketData.ptr_consume ..)))

/-! Accepting a connection. -/

/-- The listeners keep their descriptors and partners. -/
private theorem channels_of_accepts {w : ℕ} {fd : ℤ} (layout : Layout s) (accepts : Accepts s w fd t)
    (partners : ∀ v, (t.server v).removte = (s.server v).removte ∧ (t.server v).fd = (s.server v).fd)
    (key : ℤ) (v : ℕ) (present : t.channelMap key = some v) :
    t.Known v ∧ t.kernel.files (t.server v).fd = some .listening ∧
      t.kernel.files (t.server (t.server v).removte).fd = some .listening := by
  rw [accepts.channelMap] at present
  obtain ⟨known, out, in_⟩ := layout.channels key v present
  have kept : ∀ other, s.kernel.files other = some .listening →
    t.kernel.files other = some .listening := by
    intro other isListening
    rw [accepts.files, Function.update_of_ne (accepts.available.ne (by rw [isListening]; simp)),
      isListening]
  rw [Known, accepts.serversNext, (partners v).1, (partners v).2, (partners (s.server v).removte).2]
  exact ⟨known, kept _ out, kept _ in_⟩

/-- The numbers of the accepted connections, one more than before. -/
private theorem accepted_of_accepts {w : ℕ} {fd : ℤ} (layout : Layout s) (accepts : Accepts s w fd t)
    (known : s.Known w) :
    (∀ v, t.servers.next ≤ v → t.trace.accepted v = []) ∧
    (∀ v p, p ∈ t.trace.accepted v → p < t.sockets.next) ∧ (∀ v, (t.trace.accepted v).Nodup) ∧
    ∀ v u p, p ∈ t.trace.accepted v → p ∈ t.trace.accepted u → v = u := by
  have own : t.trace.accepted w = s.trace.accepted w ++ [s.sockets.next] := by
    rw [accepts.accepted, Function.update_self]
  have other : ∀ v, v ≠ w → t.trace.accepted v = s.trace.accepted v := fun v apart => by
    rw [accepts.accepted, Function.update_of_ne apart]
  have split : ∀ v p, p ∈ t.trace.accepted v →
      p ∈ s.trace.accepted v ∧ p < s.sockets.next ∨ p = s.sockets.next ∧ v = w := by
    intro v p member
    rcases eq_or_ne v w with rfl | apart
    · rw [own, List.mem_append, List.mem_singleton] at member
      rcases member with old | new
      · exact Or.inl ⟨old, layout.allocated v p old⟩
      · exact Or.inr ⟨new, rfl⟩
    · rw [other v apart] at member
      exact Or.inl ⟨member, layout.allocated v p member⟩
  refine ⟨?_, ?_, ?_, ?_⟩
  · intro v beyond
    rw [accepts.serversNext] at beyond
    rw [other v (by have below := known.2; omega)]
    exact layout.unknown v beyond
  · intro v p member
    rw [accepts.next]
    rcases split v p member with ⟨_, below⟩ | ⟨rfl, _⟩ <;> omega
  · intro v
    rcases eq_or_ne v w with rfl | apart
    · rw [own]
      refine List.nodup_append.mpr ⟨layout.once v, by simp, ?_⟩
      intro p member q isNew
      rw [List.mem_singleton.mp isNew]
      exact Nat.ne_of_lt (layout.allocated v p member)
    · rw [other v apart]
      exact layout.once v
  · intro v u p inV inU
    rcases split v p inV with ⟨oldV, below⟩ | ⟨new, rfl⟩ <;> rcases split u p inU with
        ⟨oldU, belowU⟩ | ⟨newU, rfl⟩
    · exact layout.one v u p oldV oldU
    · omega
    · omega
    · rfl

theorem Layout.queued_bound (layout : Layout s) {p : ℕ} (queued : s.Queued p) : p < s.sockets.next := by
  obtain ⟨w, known, member⟩ := queued
  apply layout.allocated w p
  rw [layout.accepted w known]
  exact List.mem_append_right _ member

theorem Layout.busy_bound (layout : Layout s) {w p : ℕ} (known : s.Known w)
    (busy : p ∈ (s.server w).busySocket) : p < s.sockets.next := by
  apply layout.allocated w p
  rw [layout.accepted w known]
  exact List.mem_append_left _ busy

theorem Waits.queued {w p : ℕ} {fd : ℤ} (waits : Waits s w fd t) (known : s.Known w)
    (queued : t.Queued p) :
    s.Queued p ∨ p = s.sockets.next := by
  obtain ⟨v, knownV, member⟩ := queued
  rw [Known, waits.accepts.serversNext] at knownV
  rcases eq_or_ne v w with rfl | apart
  · rw [waits.server] at member
    rcases List.mem_append.mp member with old | new
    · exact Or.inl ⟨v, known, old⟩
    · exact Or.inr (List.mem_singleton.mp new)
  · rw [waits.servers v apart] at member
    exact Or.inl ⟨v, knownV, member⟩

theorem Pairs.queued {w reInfo p : ℕ} {fd : ℤ} (pairs : Pairs s w reInfo fd t) (queued : t.Queued p) :
    s.Queued p := by
  obtain ⟨v, knownV, member⟩ := queued
  rw [Known, pairs.accepts.serversNext] at knownV
  rcases eq_or_ne v w with rfl | apart
  · rw [pairs.server] at member
    exact ⟨v, knownV, member⟩
  · rcases eq_or_ne v (s.server w).removte with rfl | apartPartner
    · rw [pairs.removte] at member
      exact ⟨_, knownV, List.mem_of_mem_tail member⟩
    · rw [pairs.servers v apart apartPartner] at member
      exact ⟨v, knownV, member⟩

theorem Accepts.known_iff {w : ℕ} {fd : ℤ} (accepts : Accepts s w fd t) (v : ℕ) : t.Known v ↔
    s.Known v := by
  rw [Known, Known, accepts.serversNext]

/-- The open files stay open. -/
theorem Accepts.kept {w : ℕ} {fd : ℤ} (accepts : Accepts s w fd t) {other : ℤ} {kind : FileKind}
    (isOpen : s.kernel.files other = some kind) : t.kernel.files other = some kind := by
  rw [accepts.files, Function.update_of_ne (accepts.available.ne (by rw [isOpen]; simp)), isOpen]

section Waits

variable {w : ℕ} {fd : ℤ} (layout : Layout s) (known : s.Known w) (waits : Waits s w fd t)

theorem Waits.partners (waits : Waits s w fd t) (v : ℕ) :
    (t.server v).removte = (s.server v).removte ∧ (t.server v).fd = (s.server v).fd := by
  rcases eq_or_ne v w with rfl | apart
  · rw [waits.server]
    exact ⟨rfl, rfl⟩
  · rw [waits.servers v apart]
    exact ⟨rfl, rfl⟩

theorem Waits.old (waits : Waits s w fd t) {p : ℕ} (below : p < s.sockets.next) : t.socket p =
    s.socket p :=
  waits.sockets p (Nat.ne_of_lt below)

include layout known waits

theorem Layout.waits_accepted (v : ℕ) (knownV : t.Known v) :
    t.trace.accepted v = (t.server v).busySocket ++ (t.server v).freeSocket := by
  rw [waits.accepts.known_iff] at knownV
  rw [waits.accepts.accepted]
  rcases eq_or_ne v w with rfl | apart
  · rw [Function.update_self, waits.server, layout.accepted v known, List.append_assoc]
  · rw [Function.update_of_ne apart, waits.servers v apart, layout.accepted v knownV]

theorem Layout.waits_paired (v p : ℕ) (knownV : t.Known v) (member : p ∈ (t.server v).busySocket) :
    (t.socket p).epfd = t.epfd := by
  rw [waits.accepts.known_iff] at knownV
  have busy : p ∈ (s.server v).busySocket := by
    rcases eq_or_ne v w with rfl | apart
    · rw [waits.server] at member
      exact member
    · rwa [waits.servers v apart] at member
  rw [waits.old (layout.busy_bound knownV busy), waits.accepts.epfd]
  exact layout.paired v p knownV busy

theorem Layout.waits_oneSide (empty : (s.server (s.server w).removte).freeSocket = []) (v : ℕ)
    (knownV : t.Known v) :
    (t.server v).freeSocket = [] ∨ (t.server (t.server v).removte).freeSocket = [] := by
  rw [waits.accepts.known_iff] at knownV
  obtain ⟨_, _, apartSides⟩ := layout.removte w known
  rw [(waits.partners v).1]
  rcases eq_or_ne v w with rfl | apart
  · right
    rw [waits.servers _ apartSides, empty]
  · rw [waits.servers v apart]
    rcases eq_or_ne (s.server v).removte w with same | apartV
    · left
      have isPartner := (layout.removte v knownV).2.1
      rw [same] at isPartner
      rw [← isPartner, empty]
    · rw [waits.servers _ apartV]
      exact layout.oneSide v knownV

/-- The new connection waits as the others do. -/
theorem Layout.waits_waiting (p : ℕ) (queued : t.Queued p) : t.Waiting p := by
  have accepts := waits.accepts
  rcases waits.queued known queued with before | rfl
  · have below := layout.queued_bound before
    obtain ⟨live, ptr, epfd, buffLen, isOpen, unregistered⟩ := layout.waiting p before
    refine ⟨?_, ?_, ?_, ?_, ?_, ?_⟩
    · rw [accepts.live, Function.update_of_ne (Nat.ne_of_lt below), live]
    all_goals rw [waits.old below]
    · exact ptr
    · exact epfd
    · exact buffLen
    · exact accepts.kept isOpen
    · rw [waits.epoll]
      exact unregistered
  · refine ⟨?_, ?_, ?_, ?_, ?_, ?_⟩
    · rw [accepts.live, Function.update_self]
    all_goals rw [waits.socket]
    · rw [accepts.files, Function.update_self]
    · rw [waits.epoll]
      exact Kernel.unregistered_of_closed accepts.available.2.2

theorem Layout.waits_apart (p q : ℕ) (queuedP : t.Queued p) (queuedQ : t.Queued q)
    (same : (t.socket p).fd = (t.socket q).fd) : p = q := by
  have differ : ∀ r, s.Queued r → (s.socket r).fd ≠ fd := fun r queued =>
    waits.accepts.available.ne (by rw [(layout.waiting r queued).isOpen]; simp)
  rcases waits.queued known queuedP with beforeP | rfl <;> rcases waits.queued known queuedQ with
      beforeQ | rfl
  · rw [waits.old (layout.queued_bound beforeP), waits.old (layout.queued_bound beforeQ)] at same
    exact layout.apart p q beforeP beforeQ same
  · rw [waits.old (layout.queued_bound beforeP), waits.socket] at same
    exact absurd same (differ p beforeP)
  · rw [waits.old (layout.queued_bound beforeQ), waits.socket] at same
    exact absurd same.symm (differ q beforeQ)
  · rfl

theorem Layout.waits_ptrs (p q : ℕ) (below : p < t.sockets.next) (ptr : (t.socket p).data.ptr = some q) :
    q < t.sockets.next ∧ (t.Queued q → q = p) := by
  rw [waits.accepts.next] at below ⊢
  rcases Nat.lt_succ_iff_lt_or_eq.mp below with before | rfl
  · rw [waits.old before] at ptr
    obtain ⟨belowQ, waitsQ⟩ := layout.ptrs p q before ptr
    refine ⟨belowQ.trans (Nat.lt_succ_self _), fun queued => ?_⟩
    rcases waits.queued known queued with beforeQ | rfl
    · exact waitsQ beforeQ
    · omega
  · rw [waits.socket] at ptr
    obtain rfl := Option.some.inj ptr
    exact ⟨Nat.lt_succ_self _, fun _ => rfl⟩

end Waits

theorem Layout.waits {w : ℕ} {fd : ℤ} (layout : Layout s) (known : s.Known w) (waits : Waits s w fd t)
    (empty : (s.server (s.server w).removte).freeSocket = []) : Layout t := by
  have accepts := waits.accepts
  obtain ⟨unknown, allocated, once, one⟩ := accepted_of_accepts layout accepts known
  refine ⟨?_, ?_, ?_, layout.waits_accepted known waits, layout.waits_paired known waits, unknown,
    layout.waits_oneSide known waits empty, allocated, once, one, layout.waits_waiting known waits,
    layout.waits_apart known waits, layout.waits_ptrs known waits, ?_, ?_,
    channels_of_accepts layout accepts waits.partners⟩
  · rw [accepts.acceptEpfd, accepts.epfd]
    exact layout.epfds
  · rw [accepts.epfd]
    exact accepts.kept layout.instance_
  · intro v knownV
    rw [accepts.known_iff] at knownV ⊢
    rw [(waits.partners v).1, (waits.partners _).1]
    exact layout.removte v knownV
  · intro other interest v present
    rw [accepts.acceptEpfd, waits.epoll] at present
    rw [accepts.known_iff]
    exact layout.listeners other interest v present
  · intro other event present
    rw [accepts.epfd, waits.epoll] at present
    obtain ⟨isConnection, p, below, data, isFd⟩ := layout.registered other event present
    rw [accepts.next]
    exact ⟨accepts.kept isConnection, p, below.trans (Nat.lt_succ_self _), data,
      by rw [waits.old below, isFd]⟩

section Pairs

variable {w reInfo : ℕ} {rest : List ℕ} {fd : ℤ} (layout : Layout s) (known : s.Known w)
  (pairs : Pairs s w reInfo fd t) (front : (s.server (s.server w).removte).freeSocket = reInfo :: rest)

theorem Pairs.partners (pairs : Pairs s w reInfo fd t) (v : ℕ) :
    (t.server v).removte = (s.server v).removte ∧ (t.server v).fd = (s.server v).fd := by
  rcases eq_or_ne v w with rfl | apart
  · rw [pairs.server]
    exact ⟨rfl, rfl⟩
  · rcases eq_or_ne v (s.server w).removte with rfl | apartPartner
    · rw [pairs.removte]
      exact ⟨rfl, rfl⟩
    · rw [pairs.servers v apart apartPartner]
      exact ⟨rfl, rfl⟩

theorem Pairs.free_of_ne (pairs : Pairs s w reInfo fd t) {v : ℕ}
    (apartPartner : v ≠ (s.server w).removte) :
    (t.server v).freeSocket = (s.server v).freeSocket := by
  rcases eq_or_ne v w with rfl | apart
  · rw [pairs.server]
  · rw [pairs.servers v apart apartPartner]

theorem Pairs.free_partner (pairs : Pairs s w reInfo fd t)
    (front : (s.server (s.server w).removte).freeSocket = reInfo :: rest) :
    (t.server (s.server w).removte).freeSocket = rest := by
  rw [pairs.removte]
  dsimp only
  rw [front, List.tail_cons]

theorem Pairs.old (pairs : Pairs s w reInfo fd t) {p : ℕ} (below : p < s.sockets.next)
    (apart : p ≠ reInfo) :
    t.socket p = s.socket p :=
  pairs.sockets p (Nat.ne_of_lt below) apart

theorem Pairs.old_fd (pairs : Pairs s w reInfo fd t) {p : ℕ} (below : p < s.sockets.next) :
    (t.socket p).fd = (s.socket p).fd := by
  rcases eq_or_ne p reInfo with rfl | apart
  · rw [pairs.peer]
  · rw [pairs.old below apart]

/-- Only one side of a pair of listeners has waiting connections. -/
theorem Layout.own_queue_empty (layout : Layout s) (known : s.Known w)
    (front : (s.server (s.server w).removte).freeSocket = reInfo :: rest) :
    (s.server w).freeSocket = [] := by
  rcases layout.oneSide w known with empty | other
  · exact empty
  · rw [front] at other
    contradiction

theorem Layout.front_queued (layout : Layout s) (known : s.Known w)
    (front : (s.server (s.server w).removte).freeSocket = reInfo :: rest) : s.Queued reInfo :=
  ⟨_, (layout.removte w known).1, front ▸ List.mem_cons_self ..⟩

theorem Layout.front_accepted (layout : Layout s) (known : s.Known w)
    (front : (s.server (s.server w).removte).freeSocket = reInfo :: rest) :
    s.trace.accepted (s.server w).removte = (s.server (s.server w).removte).busySocket ++
    reInfo :: rest := by
  rw [layout.accepted _ (layout.removte w known).1, front]

include layout known pairs front

/-- The connection at the front leaves the queue. -/
theorem Layout.pairs_queued {p : ℕ} (queued : t.Queued p) : s.Queued p ∧ p ≠ reInfo := by
  refine ⟨pairs.queued queued, ?_⟩
  rintro rfl
  have partner := layout.front_accepted known front
  obtain ⟨v, knownV, member⟩ := queued
  rcases eq_or_ne v (s.server w).removte with rfl | apartPartner
  · have nodup := layout.once (s.server w).removte
    rw [partner] at nodup
    rw [pairs.free_partner front] at member
    exact (List.nodup_cons.mp (List.nodup_append.mp nodup).2.1).1 member
  · rw [pairs.free_of_ne apartPartner] at member
    refine apartPartner (layout.one _ _ p ?_ (partner ▸ List.mem_append_right _ (List.mem_cons_self ..)))
    rw [layout.accepted v ((pairs.accepts.known_iff v).mp knownV)]
    exact List.mem_append_right _ member

theorem Layout.pairs_accepted (v : ℕ) (knownV : t.Known v) :
    t.trace.accepted v = (t.server v).busySocket ++ (t.server v).freeSocket := by
  rw [pairs.accepts.known_iff] at knownV
  rw [pairs.accepts.accepted]
  rcases eq_or_ne v w with rfl | apart
  · rw [Function.update_self, pairs.server, layout.accepted v known, layout.own_queue_empty known front,
      List.append_nil, List.append_nil]
  · rw [Function.update_of_ne apart]
    rcases eq_or_ne v (s.server w).removte with rfl | apartPartner
    · rw [pairs.free_partner front, pairs.removte, layout.front_accepted known front]
      simp
    · rw [pairs.servers v apart apartPartner, layout.accepted v knownV]

theorem Layout.pairs_paired (v p : ℕ) (knownV : t.Known v) (member : p ∈ (t.server v).busySocket) :
    (t.socket p).epfd = t.epfd := by
  rw [pairs.accepts.known_iff] at knownV
  rw [pairs.accepts.epfd]
  rcases eq_or_ne p reInfo with rfl | apartRe
  · rw [pairs.peer]
  rcases eq_or_ne p s.sockets.next with rfl | apartNew
  · rw [pairs.socket]
  have busy : p ∈ (s.server v).busySocket := by
    rcases eq_or_ne v w with rfl | apart
    · rw [pairs.server] at member
      exact (List.mem_append.mp member).resolve_right fun isNew => apartNew (List.mem_singleton.mp isNew)
    · rcases eq_or_ne v (s.server w).removte with rfl | apartPartner
      · rw [pairs.removte] at member
        exact (List.mem_append.mp member).resolve_right fun isRe => apartRe (List.mem_singleton.mp isRe)
      · rwa [pairs.servers v apart apartPartner] at member
  rw [pairs.old (layout.busy_bound knownV busy) apartRe]
  exact layout.paired v p knownV busy

theorem Layout.pairs_oneSide (v : ℕ) (knownV : t.Known v) :
    (t.server v).freeSocket = [] ∨ (t.server (t.server v).removte).freeSocket = [] := by
  obtain ⟨_, back, apartSides⟩ := layout.removte w known
  have empty := layout.own_queue_empty known front
  rw [pairs.accepts.known_iff] at knownV
  rw [(pairs.partners v).1]
  rcases eq_or_ne v w with rfl | apart
  · left
    rw [pairs.free_of_ne apartSides.symm, empty]
  · rcases eq_or_ne v (s.server w).removte with rfl | apartPartner
    · right
      rw [back, pairs.free_of_ne apartSides.symm, empty]
    · have apartV : (s.server v).removte ≠ (s.server w).removte := by
        intro same
        have isV := (layout.removte v knownV).2.1
        rw [same, back] at isV
        exact apart isV.symm
      rw [pairs.free_of_ne apartPartner, pairs.free_of_ne apartV]
      exact layout.oneSide v knownV

theorem Layout.pairs_waiting (p : ℕ) (queued : t.Queued p) : t.Waiting p := by
  have accepts := pairs.accepts
  obtain ⟨before, apartRe⟩ := layout.pairs_queued known pairs front queued
  have below := layout.queued_bound before
  obtain ⟨live, ptr, epfd, buffLen, isOpen, unregistered⟩ := layout.waiting p before
  refine ⟨?_, ?_, ?_, ?_, ?_, ?_⟩
  · rw [accepts.live, Function.update_of_ne (Nat.ne_of_lt below), live]
  all_goals rw [pairs.old below apartRe]
  · exact ptr
  · exact epfd
  · exact buffLen
  · exact accepts.kept isOpen
  · intro e
    rw [pairs.epollOther e _ ?_, unregistered]
    rintro ⟨_, isNew | isRe⟩
    · exact accepts.available.ne (by rw [isOpen]; simp) isNew
    · exact apartRe (layout.apart p reInfo before (layout.front_queued known front) isRe)

theorem Layout.pairs_ptrs (p q : ℕ) (below : p < t.sockets.next) (ptr : (t.socket p).data.ptr = some q) :
    q < t.sockets.next ∧ (t.Queued q → q = p) := by
  have belowRe := layout.queued_bound (layout.front_queued known front)
  have stays : ∀ {q}, t.Queued q → s.Queued q ∧ q ≠ reInfo := layout.pairs_queued known pairs front
  rw [pairs.accepts.next] at below ⊢
  rcases Nat.lt_succ_iff_lt_or_eq.mp below with before | rfl
  · rcases eq_or_ne p reInfo with rfl | apartRe
    · rw [pairs.peer] at ptr
      obtain rfl := Option.some.inj ptr
      refine ⟨Nat.lt_succ_self _, fun queued => ?_⟩
      have impossible := layout.queued_bound (stays queued).1
      omega
    · rw [pairs.old before apartRe] at ptr
      obtain ⟨belowQ, waitsQ⟩ := layout.ptrs p q before ptr
      exact ⟨belowQ.trans (Nat.lt_succ_self _), fun queued => waitsQ (stays queued).1⟩
  · rw [pairs.socket] at ptr
    obtain rfl := Option.some.inj ptr
    exact ⟨belowRe.trans (Nat.lt_succ_self _), fun queued => absurd rfl (stays queued).2⟩

/-- The two connections of the pair are registered, and all others as before. -/
theorem Layout.pairs_registered (other : ℤ) (event : Registration EventPtr)
    (present : t.kernel.epoll t.epfd other = some event) : t.kernel.files other = some .connection ∧
      ∃ p, p < t.sockets.next ∧ event.data = .socket p ∧ (t.socket p).fd = other := by
  have accepts := pairs.accepts
  have queuedRe := layout.front_queued known front
  have waitingRe := layout.waiting reInfo queuedRe
  have belowRe := layout.queued_bound queuedRe
  obtain ⟨newEntry, reEntry⟩ := pairs.epoll layout.instance_ waitingRe.isOpen (waitingRe.unregistered _)
  rw [accepts.epfd] at present
  rw [accepts.next]
  rcases eq_or_ne other fd with rfl | apartNew
  · obtain rfl := Option.some.inj (newEntry.symm.trans present)
    exact ⟨by rw [accepts.files, Function.update_self], _, Nat.lt_succ_self _, rfl, by rw [pairs.socket]⟩
  · rcases eq_or_ne other (s.socket reInfo).fd with rfl | apartRe
    · obtain rfl := Option.some.inj (reEntry.symm.trans present)
      exact ⟨accepts.kept waitingRe.isOpen, _, belowRe.trans (Nat.lt_succ_self _), rfl,
        pairs.old_fd belowRe⟩
    · rw [pairs.epollOther _ _ fun here => here.2.elim apartNew apartRe] at present
      obtain ⟨isConnection, p, below, data, isFd⟩ := layout.registered other event present
      exact ⟨accepts.kept isConnection, p, below.trans (Nat.lt_succ_self _), data,
        (pairs.old_fd below).trans isFd⟩

end Pairs

theorem Layout.pairs {w reInfo : ℕ} {rest : List ℕ} {fd : ℤ} (layout : Layout s) (known : s.Known w)
    (pairs : Pairs s w reInfo fd t)
    (front : (s.server (s.server w).removte).freeSocket = reInfo :: rest) : Layout t := by
  have accepts := pairs.accepts
  obtain ⟨unknown, allocated, once, one⟩ := accepted_of_accepts layout accepts known
  refine ⟨?_, ?_, ?_, layout.pairs_accepted known pairs front,
    layout.pairs_paired known pairs front, unknown, layout.pairs_oneSide known pairs front,
    allocated, once, one, layout.pairs_waiting known pairs front, ?_,
    layout.pairs_ptrs known pairs front, ?_, layout.pairs_registered known pairs front,
    channels_of_accepts layout accepts pairs.partners⟩
  · rw [accepts.acceptEpfd, accepts.epfd]
    exact layout.epfds
  · rw [accepts.epfd]
    exact accepts.kept layout.instance_
  · intro v knownV
    rw [accepts.known_iff] at knownV ⊢
    rw [(pairs.partners v).1, (pairs.partners _).1]
    exact layout.removte v knownV
  · intro p q queuedP queuedQ
    obtain ⟨beforeP, _⟩ := layout.pairs_queued known pairs front queuedP
    obtain ⟨beforeQ, _⟩ := layout.pairs_queued known pairs front queuedQ
    rw [pairs.old_fd (layout.queued_bound beforeP), pairs.old_fd (layout.queued_bound beforeQ)]
    exact layout.apart p q beforeP beforeQ
  · intro other interest v present
    rw [accepts.acceptEpfd, pairs.epollOther _ _ fun here => layout.epfds here.1] at present
    rw [accepts.known_iff]
    exact layout.listeners other interest v present

/-- The three outcomes of a round of `run_accept` for an allocated listener. -/
theorem Layout.runAccept_cases (layout : Layout s) {w : ℕ} (known : s.Known w) (fd : ℤ) :
    s.runAccept w fd = s.useServer w ∨
      (Waits s w fd (s.runAccept w fd) ∧ (s.server (s.server w).removte).freeSocket = []) ∨
      ∃ reInfo rest, Pairs s w reInfo fd (s.runAccept w fd) ∧
        (s.server (s.server w).removte).freeSocket = reInfo :: rest := by
  obtain ⟨partnerKnown, _, apartSides⟩ := layout.removte w known
  rcases s.runAccept_eq w fd with same | ⟨available, _, same⟩
  · exact Or.inl same
  · rw [same]
    cases front : (s.server (s.server w).removte).freeSocket with
    | nil => exact Or.inr (Or.inl ⟨runAccept_waits available front, rfl⟩)
    | cons reInfo rest =>
      have queued : s.Queued reInfo := ⟨_, partnerKnown, front ▸ List.mem_cons_self ..⟩
      have isOpen := (layout.waiting reInfo queued).isOpen
      exact Or.inr (Or.inr ⟨reInfo, rest,
        runAccept_pairs available apartSides (layout.queued_bound queued)
        (by rw [isOpen]; simp) front, rfl⟩)

theorem Layout.runAccept (layout : Layout s) {w : ℕ} (known : s.Known w) (fd : ℤ) :
    Layout (s.runAccept w fd) := by
  rcases layout.runAccept_cases known fd with same | ⟨waits, empty⟩ | ⟨reInfo, rest, pairs, front⟩
  · rw [same]
    exact { layout with waiting := fun p queued => { layout.waiting p queued with } }
  · exact layout.waits known waits empty
  · exact layout.pairs known pairs front

/-! Creating a channel. -/

/-- Listeners come in pairs with empty queues, and everything older stays as it is. -/
structure Grows (s : DataChannelServer) (k : Kernel EventPtr) (h : Heap ServerSocketInfo) : Prop where
  extension : s.kernel.Extends k
  registrations : ∀ e f event, k.epoll e f = some event → s.kernel.epoll e f = some event ∨
    e = s.acceptEpfd ∧ ∃ v, event.data = .server v ∧ 0 < v ∧ v < h.next
  next : s.servers.next ≤ h.next
  old : ∀ v < s.servers.next, h.content v = s.server v
  free : ∀ v, s.servers.next ≤ v → v < h.next →
    (h.content v).freeSocket = [] ∧ (h.content v).busySocket = []
  removte : ∀ v, s.servers.next ≤ v → v < h.next → s.servers.next ≤ (h.content v).removte ∧
    (h.content v).removte < h.next ∧ (h.content (h.content v).removte).removte = v ∧
    (h.content v).removte ≠ v

theorem NotBound.grows {calls : ChannelCalls} {k : Kernel EventPtr} (notBound : NotBound s calls k) :
    Grows s k s.servers where
  extension := notBound.extension
  registrations e f event present := by
    rw [notBound.epoll] at present
    exact Or.inl present
  next := le_rfl
  old _ _ := rfl
  free v beyond below := by omega
  removte v beyond below := by omega

theorem Reached.grows {channelInfo : VpnChannelInfo} {calls : ChannelCalls} {k : Kernel EventPtr}
    {h : Heap ServerSocketInfo} (reached : Reached s channelInfo calls k h) : Grows s k h := by
  obtain ⟨_, out⟩ := reached.out
  obtain ⟨_, in_⟩ := reached.in_
  have next := reached.next
  have positive := s.servers.positive
  have fresh : ∀ v, s.servers.next ≤ v → v < h.next → v = s.servers.next ∨ v = s.servers.next + 1 := by
    intro v beyond below
    omega
  refine ⟨reached.extension, ?_, by omega, fun v below => (reached.old v below).1, ?_, ?_⟩
  · intro e f event present
    rcases reached.registrations e f event present with old | ⟨isAccept, ⟨_, rfl⟩ | ⟨_, rfl⟩⟩
    · exact Or.inl old
    · exact Or.inr ⟨isAccept, _, rfl, by omega, by omega⟩
    · exact Or.inr ⟨isAccept, _, rfl, by omega, by omega⟩
  · intro v beyond below
    rcases fresh v beyond below with rfl | rfl
    · rw [out]
      exact ⟨rfl, rfl⟩
    · rw [in_]
      exact ⟨rfl, rfl⟩
  · intro v beyond below
    rcases fresh v beyond below with rfl | rfl
    · rw [out]
      dsimp only [outInfo]
      rw [in_]
      exact ⟨by omega, by omega, rfl, by omega⟩
    · rw [in_]
      dsimp only [inInfo]
      rw [out]
      exact ⟨by omega, by omega, rfl, by omega⟩

theorem Grows.queued {k : Kernel EventPtr} {h : Heap ServerSocketInfo} (grows : Grows s k h) {p : ℕ}
    (queued : (s.withSystem k h).Queued p) : s.Queued p := by
  obtain ⟨v, ⟨positive, below⟩, member⟩ := queued
  rw [server, servers_withSystem] at member
  rcases Nat.lt_or_ge v s.servers.next with before | beyond
  · rw [grows.old v before] at member
    exact ⟨v, ⟨positive, before⟩, member⟩
  · rw [(grows.free v beyond below).1] at member
    exact absurd member List.not_mem_nil

section Growth

variable {k : Kernel EventPtr} {h : Heap ServerSocketInfo}

theorem Grows.files_kept (grows : Grows s k h) {fd : ℤ} {kind : FileKind}
    (isKind : s.kernel.files fd = some kind) :
    k.files fd = some kind := by
  rw [(grows.extension fd (by rw [isKind]; simp)).1, isKind]

/-- A listener is an old one, as it was, or one of the new ones. -/
theorem Grows.known_cases (grows : Grows s k h) {v : ℕ} (known : (s.withSystem k h).Known v) :
    s.Known v ∧ h.content v = s.server v ∨ s.servers.next ≤ v ∧ v < h.next := by
  obtain ⟨positive, below⟩ := known
  rcases Nat.lt_or_ge v s.servers.next with before | beyond
  · exact Or.inl ⟨⟨positive, before⟩, grows.old v before⟩
  · exact Or.inr ⟨beyond, below⟩

theorem Waiting.grows {p : ℕ} (waiting : s.Waiting p) (grows : Grows s k h) :
    (s.withSystem k h).Waiting p := by
  obtain ⟨live, ptr, epfd, buffLen, isOpen, unregistered⟩ := waiting
  refine ⟨live, ptr, epfd, buffLen, grows.files_kept isOpen, fun e => ?_⟩
  rw [kernel_withSystem]
  exact ((grows.extension (s.socket p).fd (by rw [isOpen]; simp)).2.1 e).trans (unregistered e)

theorem Layout.grows (layout : Layout s) (grows : Grows s k h) : Layout (s.withSystem k h) := by
  have split := fun v (isKnown : (s.withSystem k h).Known v) => grows.known_cases isKnown
  have known : ∀ v, s.Known v → (s.withSystem k h).Known v := fun v isKnown =>
    ⟨isKnown.1, isKnown.2.trans_le grows.next⟩
  have queuedOld : ∀ p, (s.withSystem k h).Queued p → s.Queued p := fun _ => grows.queued
  constructor
  case epfds => exact layout.epfds
  case instance_ => exact grows.files_kept layout.instance_
  case removte =>
    intro v knownV
    simp only [server, servers_withSystem]
    rcases split v knownV with ⟨isKnown, content⟩ | ⟨beyond, below⟩
    · obtain ⟨partnerKnown, back, apart⟩ := layout.removte v isKnown
      rw [content, grows.old _ partnerKnown.2]
      exact ⟨known _ partnerKnown, back, apart⟩
    · obtain ⟨lower, upper, back, apart⟩ := grows.removte v beyond below
      exact ⟨⟨lt_of_lt_of_le s.servers.positive lower, upper⟩, back, apart⟩
  case accepted =>
    intro v knownV
    simp only [server, servers_withSystem]
    rcases split v knownV with ⟨isKnown, content⟩ | ⟨beyond, below⟩
    · rw [content]
      exact layout.accepted v isKnown
    · rw [(grows.free v beyond below).1, (grows.free v beyond below).2]
      exact layout.unknown v beyond
  case paired =>
    intro v p knownV member
    rcases split v knownV with ⟨isKnown, content⟩ | ⟨beyond, below⟩
    · rw [server, servers_withSystem, content] at member
      exact layout.paired v p isKnown member
    · rw [server, servers_withSystem, (grows.free v beyond below).2] at member
      exact absurd member List.not_mem_nil
  case unknown =>
    intro v beyond
    exact layout.unknown v (grows.next.trans beyond)
  case oneSide =>
    intro v knownV
    simp only [server, servers_withSystem]
    rcases split v knownV with ⟨isKnown, content⟩ | ⟨beyond, below⟩
    · rw [content, grows.old _ (layout.removte v isKnown).1.2]
      exact layout.oneSide v isKnown
    · exact Or.inl (grows.free v beyond below).1
  case allocated => exact layout.allocated
  case once => exact layout.once
  case one => exact layout.one
  case waiting =>
    intro p queued
    exact (layout.waiting p (queuedOld p queued)).grows grows
  case apart =>
    exact fun p q queuedP queuedQ => layout.apart p q (queuedOld p queuedP) (queuedOld q queuedQ)
  case ptrs =>
    intro p q below ptr
    obtain ⟨belowQ, waits⟩ := layout.ptrs p q below ptr
    exact ⟨belowQ, fun queued => waits (queuedOld q queued)⟩
  case listeners =>
    intro fd interest v present
    rcases grows.registrations _ _ _ present with before | ⟨_, u, data, positive, below⟩
    · exact known v (layout.listeners fd interest v before)
    · obtain rfl := EventPtr.server.inj data
      exact ⟨positive, below⟩
  case registered =>
    intro fd event present
    rcases grows.registrations _ _ _ present with before | ⟨isAccept, _⟩
    · obtain ⟨isConnection, socket⟩ := layout.registered fd event before
      exact ⟨grows.files_kept isConnection, socket⟩
    · exact absurd isAccept.symm layout.epfds
  case channels =>
    intro key v present
    obtain ⟨isKnown, out, in_⟩ := layout.channels key v present
    simp only [server, servers_withSystem]
    rw [grows.old v isKnown.2, grows.old _ (layout.removte v isKnown).1.2]
    exact ⟨known v isKnown, grows.files_kept out, grows.files_kept in_⟩

end Growth

/-- What sees neither new listeners nor the channel map holds after a creation. -/
theorem createChannelServer_keeps {P : DataChannelServer → Prop} (channelInfo : VpnChannelInfo)
    (calls : ChannelCalls)
    (grown : ∀ k h, Grows s k h → P (s.withSystem k h))
    (entered : ∀ t key w, P t → P (t.insertChannel key w)) :
    P (s.createChannelServer channelInfo calls).2 := by
  rcases s.createChannelServer_cases channelInfo calls with ⟨k, notBound, created⟩ |
    ⟨k, h, _, reached, _, created⟩ | ⟨k, h, _, _, _, reached, _, created⟩
  · rw [created]
    exact grown k _ notBound.grows
  · rw [created]
    exact grown k h reached.grows
  · rw [created]
    exact entered _ _ _ (grown k h reached.grows)

/-- A new entry of the channel map keeps the invariant if both of its sockets listen. -/
theorem Layout.insertChannel (layout : Layout s) (key : ℤ) {w : ℕ} (known : s.Known w)
    (listening : s.kernel.files (s.server w).fd = some .listening)
    (partnerListening : s.kernel.files (s.server (s.server w).removte).fd = some .listening) :
    Layout (s.insertChannel key w) := by
  rw [DataChannelServer.insertChannel]
  split
  · refine { layout with
      waiting := fun p queued => { layout.waiting p queued with }
      channels := fun other v present => ?_ }
    change Function.update s.channelMap key (some w) other = some v at present
    rcases eq_or_ne other key with rfl | apart
    · rw [Function.update_self] at present
      obtain rfl := Option.some.inj present
      exact ⟨known, listening, partnerListening⟩
    · rw [Function.update_of_ne apart] at present
      exact layout.channels other v present
  · exact layout

theorem Layout.createChannelServer (layout : Layout s) (channelInfo : VpnChannelInfo)
    (calls : ChannelCalls) :
    Layout (s.createChannelServer channelInfo calls).2 := by
  rcases s.createChannelServer_cases channelInfo calls with ⟨k, notBound, created⟩ |
    ⟨k, h, _, reached, _, created⟩ | ⟨k, h, _, _, _, reached, listening, created⟩
  · rw [created]
    exact layout.grows notBound.grows
  · rw [created]
    exact layout.grows reached.grows
  · rw [created]
    obtain ⟨_, out⟩ := reached.out
    obtain ⟨_, in_⟩ := reached.in_
    have next := reached.next
    apply (layout.grows reached.grows).insertChannel
    · exact ⟨Nat.succ_pos _, by rw [servers_withSystem, next]; omega⟩
    · simp only [server, servers_withSystem, kernel_withSystem, in_, inInfo]
      exact listening.inListening
    · simp only [server, servers_withSystem, kernel_withSystem, in_, inInfo, out, outInfo]
      exact listening.outListening

/-- The invariant is kept by every event. -/
theorem Layout.step (layout : Layout s) (event : RelayEvent) (step : RelayStep s event t) : Layout t := by
  obtain ⟨enabled, rfl⟩ := step
  cases event with
  | takeIdx => exact { layout with waiting := fun p queued => { layout.waiting p queued with } }
  | create channelInfo calls => exact layout.createChannelServer channelInfo calls
  | accept w fd =>
    obtain ⟨_, _, present⟩ := enabled
    exact layout.runAccept (layout.listeners _ _ _ present) fd
  | epoll p event =>
    obtain ⟨_, _, present, _⟩ := enabled
    exact layout.shrinks (shrinks_runEpoll layout event present)
  | close p => exact layout.shrinks (shrinks_closeSocket (Heap.lt_next enabled))

theorem started_freshServer : Started freshServer := ⟨rfl, by decide, rfl, fun _ => rfl, fun _ => rfl⟩

/-- One channel, on the descriptors 5 and 6. -/
def serveOne : RelayEvent := .create ⟨1, 1, {}⟩ ⟨⟨5, true, true, true⟩, ⟨6, true, true, true⟩⟩

/-- A connection waits on its out side. -/
def oneWaits : DataChannelServer := (freshServer.apply serveOne).apply (.accept 1 7)

/-- A connection of the in side has met it. -/
def bothRelayed : DataChannelServer := oneWaits.apply (.accept 2 8)

theorem run_oneWaits : Run RelayStep freshServer [serveOne, .accept 1 7] oneWaits :=
  .cons ⟨trivial, rfl⟩ (.cons ⟨⟨5, .epollIn, by decide⟩, rfl⟩ .start)

theorem run_bothRelayed :
    Run RelayStep freshServer ([serveOne, .accept 1 7] ++ [.accept 2 8]) bothRelayed :=
  .next run_oneWaits ⟨⟨6, .epollIn, by decide⟩, rfl⟩

end DataChannelServer

end LinuxZero.Vpn
