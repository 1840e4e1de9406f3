import LinuxZero.Net.Kernel
import LinuxZero.Net.ReceiveBuffer
import LinuxZero.Net.SocketEvent
import LinuxZero.Net.SocketManager

/-! # The socket server

`socket_server`, from the successful `init` on. One thread accepts connections and serves them; its
handler may return any number from `on_recv_data` and may store into the receive buffer. A connection
can be closed by a request, which arms its descriptor for writing. Pointers to connections are natural
numbers. Log output is left out.
-/

namespace LinuxZero

variable {ρ : Type}

/-- Where the epoll thread is. -/
inductive ServerPhase where
  | ready
  | started
  | running
  | exited
  | closed
deriving DecidableEq, Repr

/-- `socket_server` with the system. The last three fields are history: whose peer has closed its
side, the calls of the handler, and the sizes passed to `recv`. -/
structure SocketServer (ρ : Type) where
  kernel : Kernel ℕ
  manager : SocketManager ρ
  serverFd : ℤ
  epfd : ℤ
  epollRun : Bool
  phase : ServerPhase
  peerClosed : ℕ → Bool
  calls : List CallbackCall
  recvLens : List ℤ

/-- What `epoll_wait` or `recv` reports for a connection. -/
inductive ReadyEvent where
  /-- `EPOLLOUT`. -/
  | out
  /-- `recv` returned -1 with `EAGAIN`. -/
  | again
  /-- `recv` returned -1 with another error. -/
  | error
  /-- `recv` returned 0. -/
  | eof
  /-- `recv` returned these bytes; the handler left this buffer and returned `useLen`. -/
  | data (bytes : List UInt8) (buff : Memory) (useLen : ℤ)

inductive SocketServerEvent where
  /-- Another socket manager of the program takes a number from the shared counter. -/
  | takeIdx
  /-- `start`, with what `listen` answers. -/
  | start (granted : Bool)
  /-- `run_epoll` up to its loop; `epoll_create` may return this descriptor. -/
  | enterLoop (fd : ℤ)
  /-- One ready event of the loop; `accept` may return this descriptor if it is called. -/
  | epoll (p : ℕ) (newSocket : ℤ) (event : ReadyEvent)
  /-- `close` of a connection. -/
  | closeSocket (p : ℕ)
  | peerClose (p : ℕ)
  /-- `m_epoll_run = false`. -/
  | stop
  | leaveLoop
  | close

namespace SocketServer

section Functions

variable (s : SocketServer ρ)

abbrev info (p : ℕ) : SocketInfo ρ := s.manager.info p

/-- A server behind a successful `init`; other managers may have taken numbers before. -/
def initial (kernel : Kernel ℕ) (serverFd : ℤ) (idx : UInt32) : SocketServer ρ where
  kernel := kernel
  manager := { (SocketManager.initial : SocketManager ρ) with idx := idx }
  serverFd := serverFd
  epfd := 0
  epollRun := true
  phase := .ready
  peerClosed _ := false
  calls := []
  recvLens := []

/-- The connection `p` is accessed. -/
def useInfo (p : ℕ) : SocketServer ρ :=
  { s with manager := { s.manager with infos := s.manager.infos.use p } }

/-- A function of `m_p_event` is called with `p`. -/
def call (p : ℕ) (callback : Callback) : SocketServer ρ :=
  { s with calls := s.calls ++ [⟨p, callback, s.manager.infos.live p, s.peerClosed p⟩] }

/-- `start`. -/
def start (granted : Bool) : Bool × SocketServer ρ :=
  let (listening, kernel) := s.kernel.listen s.serverFd granted
  if listening then (true, { s with kernel := kernel, phase := .started })
  else (false, { s with kernel := kernel })

/-- `run_epoll` up to its loop: the epoll set, and a connection object for the listening socket. -/
def enterLoop (fd : ℤ) : SocketServer ρ :=
  let (epfd, kernel) := s.kernel.epollCreate fd
  let (info, manager) := s.manager.getClinetInfo s.serverFd
  { s with
    kernel := kernel.epollAdd epfd s.serverFd ⟨.epollIn, info⟩
    manager := manager
    epfd := epfd
    phase := .running }

/-- `m_epfd` of a new connection. -/
def setEpfd (p : ℕ) : SocketServer ρ :=
  { s with manager := { s.manager with infos := s.manager.infos.modify p fun info => { info with
    epfd := s.epfd } } }

/-- What `run_epoll` does with an accepted descriptor. -/
def addSocket (fd : ℤ) : SocketServer ρ :=
  let (info, manager) := s.manager.getClinetInfo fd
  let s := { s with manager := manager }.setEpfd info
  { s with kernel := s.kernel.epollAdd s.epfd fd ⟨.epollIn, info⟩ }.call info .onConnected

/-- The listening socket is ready. -/
def acceptSocket (newSocket : ℤ) : SocketServer ρ :=
  let (fd, kernel) := s.kernel.accept s.serverFd newSocket
  let s := { s with kernel := kernel }
  if fd < 0 then s else s.addSocket fd

/-- `::close(sock)`, `epoll_ctl(.., EPOLL_CTL_DEL, ..)` and `del_clinet_info`. -/
def endConnection (p : ℕ) (sock : ℤ) : SocketServer ρ :=
  { s with
    kernel := (s.kernel.close sock).epollDel s.epfd sock
    manager := s.manager.delClinetInfo p }

/-- `recv` is called for the free part of the buffer. -/
def callRecv (p : ℕ) : SocketServer ρ := { s with recvLens := s.recvLens ++ [(s.info p).data.room] }

/-- Replace the receive buffer of a connection. -/
def setData (p : ℕ) (f : SocketData ρ → SocketData ρ) : SocketServer ρ :=
  { s with manager :=
      { s.manager with infos := s.manager.infos.modify p fun info => { info with data := f info.data } } }

/-- `recv` has stored these bytes in the receive buffer. -/
def recvInto (p : ℕ) (bytes : List UInt8) : SocketServer ρ :=
  { s with kernel := s.kernel.recv (s.info p).fd bytes }.setData p fun d => d.received bytes

/-- The branches of `run_epoll` for a connection. -/
def serve (p : ℕ) (event : ReadyEvent) : SocketServer ρ :=
  let sock := (s.info p).fd
  match event with
  | .out => (s.call p .onADisconnected).endConnection p sock
  | .again => s.callRecv p
  | .error => ((s.callRecv p).call p .onADisconnected).endConnection p sock
  | .eof => ((s.callRecv p).call p .onDisconnected).endConnection p sock
  | .data bytes buff useLen =>
    (((s.callRecv p).recvInto p bytes).call p .onRecvData).setData p fun d =>
      (d.handled buff).consume useLen

/-- One round of the loop in `run_epoll`. -/
def runEpoll (p : ℕ) (newSocket : ℤ) (event : ReadyEvent) : SocketServer ρ :=
  let s := s.useInfo p
  if (s.info p).fd = s.serverFd then s.acceptSocket newSocket else s.serve p event

/-- `close(socket_info *)`. -/
def closeSocket (p : ℕ) : SocketServer ρ :=
  let s := s.useInfo p
  { s with kernel := s.kernel.epollMod s.epfd (s.info p).fd ⟨.epollOut, p⟩ }

/-- `close()`. -/
def close : SocketServer ρ where
  kernel := (s.manager.sockets.foldl (fun k p => k.close (s.info p).fd) s.kernel).close s.serverFd
  manager := s.manager.close
  serverFd := s.serverFd
  epfd := s.epfd
  epollRun := s.epollRun
  phase := .closed
  peerClosed := s.peerClosed
  calls := s.calls ++ s.manager.sockets.map fun p =>
    ⟨p, .onDisconnected, s.manager.infos.live p, s.peerClosed p⟩
  recvLens := s.recvLens

/-- What `recv` can return: nothing more than was asked for, and zero only for a peer that has closed
its side or a request of size zero. -/
def CanReport (p : ℕ) : ReadyEvent → Prop
  | .eof => s.peerClosed p = true ∨ (s.info p).data.room = 0
  | .data bytes _ _ => (s.info p).data.Fits bytes
  | _ => True

/-- A ready event is about a registered connection. `EPOLLOUT` needs its interest; `EPOLLIN` may have
been reported before the interest changed. -/
def Ready (p : ℕ) (event : ReadyEvent) : Prop :=
  ∃ interest, s.kernel.epoll s.epfd (s.info p).fd = some ⟨interest, p⟩ ∧
    (event = .out → interest = .epollOut)

def Enabled : SocketServerEvent → Prop
  | .takeIdx => True
  | .start _ => s.phase = .ready
  | .enterLoop _ => s.phase = .started
  | .epoll p _ event => s.phase = .running ∧ s.Ready p event ∧ s.CanReport p event
  | .closeSocket p => .onConnected ∈ callsOf s.calls p ∧ ∀ last ∈ callsOf s.calls p, ¬ Callback.Ends last
  | .peerClose _ => True
  | .stop => s.phase ≠ .ready
  | .leaveLoop => s.phase = .running ∧ s.epollRun = false
  | .close => s.phase = .exited

def apply : SocketServerEvent → SocketServer ρ
  | .takeIdx => { s with manager := s.manager.apply .takeIdx }
  | .start granted => (s.start granted).2
  | .enterLoop fd => s.enterLoop fd
  | .epoll p newSocket event => s.runEpoll p newSocket event
  | .closeSocket p => s.closeSocket p
  | .peerClose p => { s with peerClosed := Function.update s.peerClosed p true }
  | .stop => { s with epollRun := false }
  | .leaveLoop => { s with kernel := s.kernel.close s.epfd, phase := .exited }
  | .close => s.close

end Functions

def Step (s : SocketServer ρ) (event : SocketServerEvent) (t : SocketServer ρ) : Prop :=
  s.Enabled event ∧ t = s.apply event

variable {s t : SocketServer ρ}

theorem start_eq (s : SocketServer ρ) (granted : Bool) : (s.start granted).2 =
    { s with
      kernel := (s.kernel.listen s.serverFd granted).2
      phase := if (s.kernel.listen s.serverFd granted).1 then .started else s.phase } := by
  rw [start]
  rcases s.kernel.listen s.serverFd granted with ⟨_ | _, kernel⟩ <;> rfl

/-- Nothing was accepted, or a connection was opened. -/
theorem acceptSocket_cases (s : SocketServer ρ) (newSocket : ℤ) : s.acceptSocket newSocket = s ∨
    ∃ available : s.kernel.Available newSocket, s.acceptSocket newSocket =
      { s with kernel := s.kernel.openAt newSocket .connection available }.addSocket newSocket := by
  rw [acceptSocket]
  rcases s.kernel.accept_cases s.serverFd newSocket with refused | ⟨available, accepted⟩
  · rw [refused]
    exact Or.inl rfl
  · rw [accepted]
    exact Or.inr ⟨available, if_neg (not_lt.mpr available.1)⟩

/-- The objects after a connection was added: a new one, and the old ones. -/
theorem info_addSocket (s : SocketServer ρ) (fd : ℤ) :
    (s.addSocket fd).info s.manager.infos.next = { fd := fd, epfd := s.epfd, shFd := s.manager.idx } ∧
      ∀ p, p ≠ s.manager.infos.next → (s.addSocket fd).info p = s.info p := by
  obtain ⟨new, old⟩ := s.manager.info_getClinetInfo fd
  constructor
  · change Function.update (s.manager.getClinetInfo fd).2.infos.content s.manager.infos.next _ _ = _
    rw [Function.update_self]
    exact congrArg (fun info : SocketInfo ρ => { info with epfd := s.epfd }) new
  · intro p apart
    change Function.update (s.manager.getClinetInfo fd).2.infos.content s.manager.infos.next _ p = _
    rw [Function.update_of_ne apart]
    exact old p apart

theorem setData_data (s : SocketServer ρ) (p : ℕ) (f : SocketData ρ → SocketData ρ) :
    ((s.setData p f).info p).data = f (s.info p).data := by
  change SocketInfo.data (Function.update s.manager.infos.content p _ p) = _
  rw [Function.update_self]

theorem setData_other (s : SocketServer ρ) {p q : ℕ} (apart : q ≠ p) (f : SocketData ρ → SocketData ρ) :
    (s.setData p f).info q = s.info q :=
  show Function.update s.manager.infos.content p _ q = _ from Function.update_of_ne apart ..

theorem recvInto_data (s : SocketServer ρ) (p : ℕ) (bytes : List UInt8) :
    ((s.recvInto p bytes).info p).data = (s.info p).data.received bytes := setData_data ..

theorem recvInto_other (s : SocketServer ρ) {p q : ℕ} (apart : q ≠ p) (bytes : List UInt8) :
    (s.recvInto p bytes).info q = s.info q := setData_other _ apart _

theorem runEpoll_connection {p : ℕ} (connection : (s.info p).fd ≠ s.serverFd) (newSocket : ℤ)
    (event : ReadyEvent) :
    s.runEpoll p newSocket event = (s.useInfo p).serve p event := if_neg connection

/-- The receive branch: the buffer after a chunk, and the other connections. -/
theorem serve_data (s : SocketServer ρ) (p : ℕ) (bytes : List UInt8) (buff : Memory) (useLen : ℤ) :
    ((s.serve p (.data bytes buff useLen)).info p).data =
    (((s.info p).data.received bytes).handled buff).consume useLen ∧
      ∀ q, q ≠ p → (s.serve p (.data bytes buff useLen)).info q = s.info q := by
  constructor
  · refine (setData_data ..).trans ?_
    exact congrArg (fun d => SocketData.consume (SocketData.handled d buff) useLen)
      (recvInto_data (s.callRecv p) p bytes)
  · intro q apart
    exact (setData_other _ apart _).trans (recvInto_other (s.callRecv p) apart bytes)

theorem fd_setData (s : SocketServer ρ) (p q : ℕ) (f : SocketData ρ → SocketData ρ) :
    ((s.setData p f).info q).fd = (s.info q).fd ∧ ((s.setData p f).info q).shFd = (s.info q).shFd := by
  rcases eq_or_ne q p with rfl | apart
  · change (SocketInfo.fd (Function.update s.manager.infos.content q _ q)) = _ ∧
      (SocketInfo.shFd (Function.update s.manager.infos.content q _ q)) = _
    rw [Function.update_self]
    exact ⟨rfl, rfl⟩
  · rw [setData_other s apart]
    exact ⟨rfl, rfl⟩

/-- The receive branch leaves descriptors, numbers and registrations alone. -/
theorem fd_serve_data (s : SocketServer ρ) (p q : ℕ) (bytes : List UInt8) (buff : Memory) (useLen : ℤ) :
    ((s.serve p (.data bytes buff useLen)).info q).fd = (s.info q).fd ∧
      ((s.serve p (.data bytes buff useLen)).info q).shFd = (s.info q).shFd := by
  obtain ⟨fd, shFd⟩ := fd_setData (((s.callRecv p).recvInto p bytes).call p .onRecvData) p q
    fun d => (d.handled buff).consume useLen
  obtain ⟨fd', shFd'⟩ := fd_setData { s.callRecv p with kernel := s.kernel.recv (s.info p).fd bytes } p q
    fun d => d.received bytes
  exact ⟨fd.trans fd', shFd.trans shFd'⟩

/-- A handler that stores nothing makes the receive branch the shared one. -/
theorem serve_receive (s : SocketServer ρ) (p : ℕ) (round : ReceiveRound) :
    ((s.serve p (.data round.bytes ((s.info p).data.received round.bytes).buff round.useLen)).info
      p).data =
      (s.info p).data.receive round := (s.serve_data p _ _ _).1

theorem content_endConnection (s : SocketServer ρ) (p : ℕ) (sock : ℤ) :
    (s.endConnection p sock).manager.infos.content = s.manager.infos.content :=
  (s.manager.content_delClinetInfo p).1

/-- A bound socket under descriptor 3, as after `init`. -/
def bound : SocketServer ℕ := initial (Kernel.empty.openAt 3 .stream Kernel.three_available) 3 1

/-- The server listens, its epoll set is descriptor 4, and it has accepted descriptor 5. -/
def acceptOne : List SocketServerEvent := [.start true, .enterLoop 4, .epoll 1 5 .again]

theorem run_acceptOne : Run Step bound acceptOne (acceptOne.foldl apply bound) :=
  .next (.next (.next .start ⟨rfl, rfl⟩) ⟨rfl, rfl⟩)
    ⟨⟨rfl, ⟨.epollIn, by decide +kernel, fun impossible => nomatch impossible⟩, trivial⟩, rfl⟩

end SocketServer

end LinuxZero
