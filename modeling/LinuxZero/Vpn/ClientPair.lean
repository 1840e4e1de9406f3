import LinuxZero.Net.ReceiveBuffer
import LinuxZero.Vpn.DataChannel

/-! # A connection pair of the client

`wait_create_tcp_channel` of the client connects to the server and to the local service and joins the
two connections. Each is then served by the epoll thread of its own `socket_client` with the handler
`vpn_client_event`, while the control thread may still be in `wait_create_tcp_channel`. Here both
calls of `connect` have succeeded. The threads are cut before every access to something that another
one writes; log output is left out.
-/

namespace LinuxZero.Vpn

/-- The two `socket_info` of `wait_create_tcp_channel`. -/
inductive PairEnd where
  | sInfo
  | lInfo
deriving DecidableEq, Repr

def PairEnd.other : PairEnd → PairEnd
  | .sInfo => .lInfo
  | .lInfo => .sInfo

/-- What the control thread does next in `wait_create_tcp_channel`. -/
inductive ControlThread where
  /-- Set the `m_ptr` of this end. -/
  | link (a : PairEnd)
  /-- Send the message back. -/
  | reply
  /-- In `add_eool`: set `m_epfd` of this end. -/
  | setEpfd (a : PairEnd)
  /-- In `add_eool`: `EPOLL_CTL_ADD`. -/
  | add (a : PairEnd)
  | returned
deriving DecidableEq, Repr

/-- What the epoll thread of one end does next. -/
inductive RelayThread where
  | idle
  /-- Read `m_ptr` in `on_disconnected`, once for the test and the use. -/
  | disconnected
  /-- Clear the `m_ptr` of the other end. -/
  | linked (remote : PairEnd)
  /-- Read the `m_epfd` of the other end in `close_socket`. -/
  | unlinked (remote : PairEnd)
  /-- `EPOLL_CTL_MOD` in `close_socket`, with the `m_epfd` that it has read. -/
  | closing (remote : PairEnd) (epfd : ℤ)
  /-- `::close(sock)`. -/
  | ended
  /-- `EPOLL_CTL_DEL`. -/
  | closed
  /-- `del_clinet_info`. -/
  | unregistered
deriving DecidableEq, Repr

/-- Two connections that have just been made, and the epoll sets of the two `socket_client`. -/
structure ConnectedPair where
  kernel : Kernel PairEnd
  fd : PairEnd → ℤ
  epfd : PairEnd → ℤ
  connected : ∀ a, kernel.files (fd a) = some .connection
  apart : ∀ a, fd a.other ≠ fd a
  instances : ∀ a, kernel.files (epfd a) = some .epoll
  unregistered : ∀ e a, kernel.epoll e (fd a) = none

/-- Connections 5 and 6 with the epoll sets 3 and 4. -/
def onePair : ConnectedPair where
  kernel := (((Kernel.empty.openAt 3 .epoll (by decide)).openAt 4 .epoll (by decide)).openAt 5 .connection
    (by decide)).openAt 6 .connection (by decide)
  fd := fun | .sInfo => 5 | .lInfo => 6
  epfd := fun | .sInfo => 3 | .lInfo => 4
  connected a := by cases a <;> decide
  apart a := by cases a <;> decide
  instances a := by cases a <;> decide
  unregistered _ _ := rfl

/-- The pair, its threads and the system. `orderly` is history: `recv` has returned zero on this end. -/
structure ClientPair where
  kernel : Kernel PairEnd
  info : PairEnd → SocketInfo PairEnd
  live : PairEnd → Bool
  epfd : PairEnd → ℤ
  control : ControlThread
  relay : PairEnd → RelayThread
  orderly : PairEnd → Bool

inductive PairEvent where
  /-- The control thread goes on. -/
  | control
  /-- A ready event of one end. -/
  | ready (a : PairEnd) (event : EpollEvent)
  /-- The epoll thread of one end goes on. -/
  | relay (a : PairEnd)
deriving DecidableEq, Repr

namespace ClientPair

section Functions

variable (s : ClientPair)

def initial (pair : ConnectedPair) : ClientPair where
  kernel := pair.kernel
  info a := { fd := pair.fd a }
  live _ := true
  epfd := pair.epfd
  control := .link .sInfo
  relay _ := .idle
  orderly _ := false

def modifyInfo (a : PairEnd) (f : SocketInfo PairEnd → SocketInfo PairEnd) : ClientPair :=
  { s with info := Function.update s.info a (f (s.info a)) }

/-- `m_data.m_ptr = ptr`. -/
def setPtr (a : PairEnd) (ptr : Option PairEnd) : ClientPair :=
  s.modifyInfo a fun info => { info with data := { info.data with ptr := ptr } }

/-- `info->m_epfd = m_epfd` in `add_eool`. -/
def setEpfd (a : PairEnd) : ClientPair := s.modifyInfo a fun info => { info with epfd := s.epfd a }

/-- `EPOLL_CTL_ADD` in `add_eool`. -/
def register (a : PairEnd) : ClientPair :=
  { s with kernel := s.kernel.epollAdd (s.epfd a) (s.info a).fd ⟨.epollIn, a⟩ }

/-- `socket_client::add_eool`; `on_connected` of `vpn_client_event` does nothing. -/
def addEool (a : PairEnd) : ClientPair := (s.setEpfd a).register a

/-- `wait_create_tcp_channel` behind its two calls of `connect`; the message that it sends back leaves
the pair alone. -/
def waitCreateTcpChannel : ClientPair :=
  (((s.setPtr .sInfo (some .lInfo)).setPtr .lInfo (some .sInfo)).addEool .sInfo).addEool .lInfo

/-- `close_socket`, with the `m_epfd` that it has read. -/
def closeSocket (a : PairEnd) (epfd : ℤ) : ClientPair :=
  { s with kernel := s.kernel.epollMod epfd (s.info a).fd ⟨.epollOut, a⟩ }

/-- `on_disconnected`. -/
def onDisconnected (a : PairEnd) : ClientPair :=
  match (s.info a).data.ptr with
  | none => s
  | some remote => (s.setPtr remote none).closeSocket remote (s.info remote).epfd

/-- `on_recv_data`; `result` is what `send` may return, and nothing is done with it. -/
def onRecvData (a : PairEnd) (result : ℤ) : ℤ × ClientPair :=
  match (s.info a).data.ptr with
  | none => ((s.info a).data.buffLen, s)
  | some remote =>
    let (_, kernel) := s.kernel.send (s.info remote).fd (s.info a).data.content result
    ((s.info a).data.buffLen, { s with kernel := kernel })

/-- Replace the receive buffer of an end. -/
def setData (a : PairEnd) (f : SocketData PairEnd → SocketData PairEnd) : ClientPair :=
  s.modifyInfo a fun info => { info with data := f info.data }

/-- `recv` has stored these bytes in the receive buffer. -/
def recvInto (a : PairEnd) (bytes : List UInt8) : ClientPair :=
  { s with kernel := s.kernel.recv (s.info a).fd bytes }.setData a fun d => d.received bytes

/-- The receive branch of `run_epoll` for a positive result of `recv`. -/
def receive (a : PairEnd) (bytes : List UInt8) (result : ℤ) : ClientPair :=
  let (useLen, s) := (s.recvInto a bytes).onRecvData a result
  s.setData a fun d => d.consume useLen

/-- `::close(sock)`. -/
def closeFd (a : PairEnd) : ClientPair := { s with kernel := s.kernel.close (s.info a).fd }

/-- `epoll_ctl(m_epfd, EPOLL_CTL_DEL, sock, ..)`. -/
def unregister (a : PairEnd) : ClientPair :=
  { s with kernel := s.kernel.epollDel (s.epfd a) (s.info a).fd }

/-- `del_clinet_info`. -/
def delClinetInfo (a : PairEnd) : ClientPair := { s with live := Function.update s.live a false }

/-- The calls at the end of every branch of `run_epoll` that ends a connection. -/
def endConnection (a : PairEnd) : ClientPair := ((s.closeFd a).unregister a).delClinetInfo a

/-- One event of `socket_client::run_epoll`; `on_a_disconnected` does nothing. -/
def runEpoll (a : PairEnd) (event : EpollEvent) : ClientPair :=
  match event with
  | .out => s.endConnection a
  | .again => s
  | .error => s.endConnection a
  | .eof => ({ s with orderly := Function.update s.orderly a true }.onDisconnected a).endConnection a
  | .data bytes result => s.receive a bytes result

def setRelay (a : PairEnd) (thread : RelayThread) : ClientPair :=
  { s with relay := Function.update s.relay a thread }

/-- The control thread up to its next cut. -/
def advanceControl : ClientPair :=
  match s.control with
  | .link .sInfo => { s.setPtr .sInfo (some .lInfo) with control := .link .lInfo }
  | .link .lInfo => { s.setPtr .lInfo (some .sInfo) with control := .reply }
  | .reply => { s with control := .setEpfd .sInfo }
  | .setEpfd a => { s.setEpfd a with control := .add a }
  | .add .sInfo => { s.register .sInfo with control := .setEpfd .lInfo }
  | .add .lInfo => { s.register .lInfo with control := .returned }
  | .returned => s

/-- A ready event up to the first cut. -/
def handle (a : PairEnd) (event : EpollEvent) : ClientPair :=
  match event with
  | .out => s.setRelay a .ended
  | .again => s
  | .error => s.setRelay a .ended
  | .eof => { s with orderly := Function.update s.orderly a true }.setRelay a .disconnected
  | .data bytes result => s.receive a bytes result

/-- The epoll thread of an end up to its next cut. -/
def advanceRelay (a : PairEnd) : ClientPair :=
  match s.relay a with
  | .idle => s
  | .disconnected =>
    match (s.info a).data.ptr with
    | none => s.setRelay a .ended
    | some remote => s.setRelay a (.linked remote)
  | .linked remote => (s.setPtr remote none).setRelay a (.unlinked remote)
  | .unlinked remote => s.setRelay a (.closing remote (s.info remote).epfd)
  | .closing remote epfd => (s.closeSocket remote epfd).setRelay a .ended
  | .ended => (s.closeFd a).setRelay a .closed
  | .closed => (s.unregister a).setRelay a .unregistered
  | .unregistered => (s.delClinetInfo a).setRelay a .idle

/-- A ready event is about a registered connection. `EPOLLOUT` needs its interest; `EPOLLIN` may have
been reported before the interest changed. -/
def Ready (a : PairEnd) (event : EpollEvent) : Prop :=
  ∃ interest, s.kernel.epoll (s.epfd a) (s.info a).fd = some ⟨interest, a⟩ ∧
    (event = .out → interest = .epollOut)

def Enabled : PairEvent → Prop
  | .control => True
  | .ready a event => s.relay a = .idle ∧ s.Ready a event ∧
      ∀ bytes result, event = .data bytes result → (s.info a).data.Fits bytes
  | .relay _ => True

def apply : PairEvent → ClientPair
  | .control => s.advanceControl
  | .ready a event => s.handle a event
  | .relay a => s.advanceRelay a

end Functions

def Step (s : ClientPair) (event : PairEvent) (t : ClientPair) : Prop :=
  s.Enabled event ∧ t = s.apply event

variable {s : ClientPair}

/-- A control thread that nobody interrupts executes `wait_create_tcp_channel`. -/
theorem control_uninterrupted (start : s.control = .link .sInfo) :
    advanceControl^[7] s = { s.waitCreateTcpChannel with control := .returned } := by
  obtain ⟨⟩ := s
  obtain rfl := start
  rfl

/-- Only `m_ptr` of its end changes. -/
theorem info_setPtr (s : ClientPair) (a : PairEnd) (ptr : Option PairEnd) :
    (s.setPtr a ptr).info a = { s.info a with data := { (s.info a).data with ptr := ptr } } :=
  Function.update_self ..

@[simp] theorem relay_setRelay (s : ClientPair) (a : PairEnd) (thread : RelayThread) :
    (s.setRelay a thread).relay a = thread := Function.update_self ..

@[simp] theorem setRelay_setRelay (s : ClientPair) (a : PairEnd) (first second : RelayThread) :
    (s.setRelay a first).setRelay a second = s.setRelay a second := by
  rw [setRelay, setRelay, setRelay, Function.update_idem]

theorem setRelay_self {a : PairEnd} {thread : RelayThread} (same : s.relay a = thread) :
    s.setRelay a thread = s := by
  rw [setRelay, ← same, Function.update_eq_self]

theorem advance_idle {a : PairEnd} (idle : s.relay a = .idle) : s.advanceRelay a = s := by
  rw [advanceRelay, idle]

theorem relay_onDisconnected (s : ClientPair) (a : PairEnd) : (s.onDisconnected a).relay = s.relay := by
  rw [onDisconnected]
  cases (s.info a).data.ptr <;> rfl

theorem relay_endConnection (s : ClientPair) (a : PairEnd) : (s.endConnection a).relay = s.relay := rfl

/-- The last three pieces are the end of the connection. -/
theorem advance_ended (s : ClientPair) (a : PairEnd) (n : ℕ) :
    (fun t => t.advanceRelay a)^[n + 3] (s.setRelay a .ended) = (s.endConnection a).setRelay a .idle := by
  have rest : (fun t : ClientPair => t.advanceRelay a) ((s.endConnection a).setRelay a .idle) =
      (s.endConnection a).setRelay a .idle := advance_idle (relay_setRelay ..)
  have first : (s.setRelay a .ended).advanceRelay a = (s.closeFd a).setRelay a .closed := by
    rw [advanceRelay, relay_setRelay]
    exact setRelay_setRelay (s.closeFd a) a _ _
  have second : ((s.closeFd a).setRelay a .closed).advanceRelay a =
    ((s.closeFd a).unregister a).setRelay a .unregistered := by
    rw [advanceRelay, relay_setRelay]
    exact setRelay_setRelay ((s.closeFd a).unregister a) a _ _
  have third : (((s.closeFd a).unregister a).setRelay a .unregistered).advanceRelay a =
      (s.endConnection a).setRelay a .idle := by
    rw [advanceRelay, relay_setRelay]
    exact setRelay_setRelay (s.endConnection a) a _ _
  rw [Function.iterate_add_apply]
  change (fun t => t.advanceRelay a)^[n]
    ((((s.setRelay a .ended).advanceRelay a).advanceRelay a).advanceRelay a) = _
  rw [first, second, third]
  exact Function.iterate_fixed rest n

/-- The pieces before them are `on_disconnected`. -/
theorem advance_disconnected (s : ClientPair) (a : PairEnd) :
    ∃ n, n ≤ 4 ∧ (fun t => t.advanceRelay a)^[n] (s.setRelay a .disconnected) =
    (s.onDisconnected a).setRelay a .ended := by
  cases ptr : (s.info a).data.ptr with
  | none =>
    refine ⟨1, by decide, ?_⟩
    have read : (s.setRelay a .disconnected).advanceRelay a = s.setRelay a .ended := by
      rw [advanceRelay, relay_setRelay]
      dsimp only
      rw [show ((s.setRelay a .disconnected).info a).data.ptr = none from ptr]
      exact setRelay_setRelay s a _ _
    rw [onDisconnected, ptr]
    exact read
  | some remote =>
    refine ⟨4, le_rfl, ?_⟩
    have read : (s.setRelay a .disconnected).advanceRelay a = s.setRelay a (.linked remote) := by
      rw [advanceRelay, relay_setRelay]
      dsimp only
      rw [show ((s.setRelay a .disconnected).info a).data.ptr = some remote from ptr]
      exact setRelay_setRelay s a _ _
    have cleared : (s.setRelay a (.linked remote)).advanceRelay a = (s.setPtr remote none).setRelay
      a (.unlinked remote) := by
      rw [advanceRelay, relay_setRelay]
      exact setRelay_setRelay (s.setPtr remote none) a _ _
    have named : ((s.setPtr remote none).setRelay a (.unlinked remote)).advanceRelay a =
        (s.setPtr remote none).setRelay a (.closing remote (s.info remote).epfd) := by
      rw [advanceRelay, relay_setRelay]
      refine (setRelay_setRelay (s.setPtr remote none) a _ _).trans ?_
      rw [show ((s.setPtr remote none).setRelay a (.unlinked remote)).info remote =
        (s.setPtr remote none).info remote from rfl, info_setPtr]
    have closed : ((s.setPtr remote none).setRelay a
      (.closing remote (s.info remote).epfd)).advanceRelay a =
        ((s.setPtr remote none).closeSocket remote (s.info remote).epfd).setRelay a .ended := by
      rw [advanceRelay, relay_setRelay]
      exact setRelay_setRelay ((s.setPtr remote none).closeSocket remote (s.info remote).epfd) a _ _
    rw [onDisconnected, ptr]
    change advanceRelay (advanceRelay (advanceRelay (advanceRelay _ a) a) a) a = _
    rw [read, cleared, named, closed]

/-- Sending on and dropping the buffered bytes leaves the threads alone. -/
theorem relay_receive (s : ClientPair) (a : PairEnd) (bytes : List UInt8) (result : ℤ) :
    (s.receive a bytes result).relay = s.relay := by
  rw [receive, onRecvData]
  cases ((s.recvInto a bytes).info a).data.ptr <;> rfl

/-- A ready event that nobody interrupts is one round of `run_epoll`. -/
theorem relay_uninterrupted (a : PairEnd) (idle : s.relay a = .idle) (event : EpollEvent) :
    (fun t => t.advanceRelay a)^[7] (s.handle a event) = s.runEpoll a event := by
  cases event with
  | out => exact (s.advance_ended a 4).trans (setRelay_self idle)
  | again => exact Function.iterate_fixed (advance_idle idle) 7
  | error => exact (s.advance_ended a 4).trans (setRelay_self idle)
  | eof =>
    obtain ⟨n, few, disconnected⟩ :=
      advance_disconnected { s with orderly := Function.update s.orderly a true } a
    obtain ⟨rest, total⟩ := Nat.exists_eq_add_of_le few
    have pieces : 7 = rest + 3 + n := by omega
    rw [pieces, Function.iterate_add_apply, handle, disconnected, advance_ended]
    refine setRelay_self ?_
    rw [relay_endConnection, relay_onDisconnected]
    exact idle
  | data bytes result =>
    refine Function.iterate_fixed (advance_idle ?_) 7
    rw [handle, relay_receive]
    exact idle

end ClientPair

end LinuxZero.Vpn
