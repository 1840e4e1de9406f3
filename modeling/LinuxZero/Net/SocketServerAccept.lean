import LinuxZero.Net.SocketServer

/-! # The socket server with an accept thread

`socket_server_accept` serves its connections on one thread and accepts them on another. Both are cut
at their system calls and callbacks: the accept thread before `epoll_ctl` and before `on_connected`,
the epoll thread before each of the three calls that end a connection. Without interleaving the pieces
are the functions as they were. The two threads run for ever: their flags are left out, and with them
`stop` and `close`.
-/

namespace LinuxZero

variable {ρ : Type}

/-- Where `run_accept` is: before its loop, in `epoll_wait`, before `add_eool` of `p`, and before the
`on_connected` of `p`. -/
inductive AcceptThread where
  | starting
  | idle
  | accepted (p : ℕ)
  | added (p : ℕ)
deriving DecidableEq, Repr

/-- Where `run_epoll` is: before its loop, in `epoll_wait`, and before `::close(sock)`, before
`EPOLL_CTL_DEL` and before `del_clinet_info` of the connection `p`. -/
inductive EpollThread where
  | starting
  | idle
  | ended (p : ℕ) (sock : ℤ)
  | closed (p : ℕ) (sock : ℤ)
  | unregistered (p : ℕ)
deriving DecidableEq, Repr

/-- `socket_server_accept` with the system and its threads. The last four fields are history: whose
peer has closed its side, the calls of the handler, and for which connections `EPOLL_CTL_ADD` and
`::close` have been called. -/
structure SocketServerAccept (ρ : Type) where
  kernel : Kernel ℕ
  manager : SocketManager ρ
  serverFd : ℤ
  acceptEpfd : ℤ
  epfd : ℤ
  acceptor : AcceptThread
  epoller : EpollThread
  peerClosed : ℕ → Bool
  calls : List CallbackCall
  added : ℕ → Bool
  closed : ℕ → Bool

inductive AcceptServerEvent where
  /-- Another socket manager of the program takes a number from the shared counter. -/
  | takeIdx
  /-- `run_accept` up to its loop; `epoll_create` may return this descriptor. -/
  | enterAccept (fd : ℤ)
  /-- `run_epoll` up to its loop. -/
  | enterEpoll (fd : ℤ)
  /-- The listening socket is ready; `accept` may return this descriptor. -/
  | accept (fd : ℤ)
  /-- The accept thread goes on. -/
  | acceptor
  /-- One ready event of `run_epoll`. -/
  | epoll (p : ℕ) (event : ReadyEvent)
  /-- The epoll thread goes on. -/
  | epoller
  /-- `close` of a connection. -/
  | closeSocket (p : ℕ)
  | peerClose (p : ℕ)

namespace SocketServerAccept

section Functions

variable (s : SocketServerAccept ρ)

abbrev info (p : ℕ) : SocketInfo ρ := s.manager.info p

/-- A server whose threads have just been created. -/
def initial (kernel : Kernel ℕ) (serverFd : ℤ) (idx : UInt32) : SocketServerAccept ρ where
  kernel := kernel
  manager := { (SocketManager.initial : SocketManager ρ) with idx := idx }
  serverFd := serverFd
  acceptEpfd := 0
  epfd := 0
  acceptor := .starting
  epoller := .starting
  peerClosed _ := false
  calls := []
  added _ := false
  closed _ := false

/-- The connection `p` is accessed. -/
def useInfo (p : ℕ) : SocketServerAccept ρ :=
  { s with manager := { s.manager with infos := s.manager.infos.use p } }

/-- A function of `m_p_event` is called with `p`. -/
def call (p : ℕ) (callback : Callback) : SocketServerAccept ρ :=
  { s with calls := s.calls ++ [⟨p, callback, s.manager.infos.live p, s.peerClosed p⟩] }

/-- `run_accept` up to its loop. -/
def enterAccept (fd : ℤ) : SocketServerAccept ρ :=
  let (acceptEpfd, kernel) := s.kernel.epollCreate fd
  { s with
    kernel := kernel.epollAdd acceptEpfd s.serverFd ⟨.epollIn, 0⟩
    acceptEpfd := acceptEpfd
    acceptor := .idle }

/-- `run_epoll` up to its loop. -/
def enterEpoll (fd : ℤ) : SocketServerAccept ρ :=
  let (epfd, kernel) := s.kernel.epollCreate fd
  { s with kernel := kernel, epfd := epfd, epoller := .idle }

/-- `add_eool` up to its callback. -/
def registerInfo (p : ℕ) : SocketServerAccept ρ :=
  { s with
    kernel := s.kernel.epollAdd s.epfd (s.info p).fd ⟨.epollIn, p⟩
    manager := { s.manager with infos := s.manager.infos.modify p fun info => { info with
      epfd := s.epfd } }
    added := Function.update s.added p true }

/-- `add_eool`. -/
def addEool (p : ℕ) : SocketServerAccept ρ := (s.registerInfo p).call p .onConnected

/-- `accept`, `get_clinet_info` and `on_accept`. -/
def acceptSocket (newSocket : ℤ) : Option ℕ × SocketServerAccept ρ :=
  let (fd, kernel) := s.kernel.accept s.serverFd newSocket
  let s := { s with kernel := kernel }
  if fd < 0 then (none, s)
  else
    let (info, manager) := s.manager.getClinetInfo fd
    (some info, { s with manager := manager }.call info .onAccept)

/-- One round of the loop in `run_accept`. -/
def runAccept (newSocket : ℤ) : SocketServerAccept ρ :=
  match s.acceptSocket newSocket with
  | (none, s) => s
  | (some info, s) => s.addEool info

/-- `::close(sock)`. -/
def closeFd (p : ℕ) (sock : ℤ) : SocketServerAccept ρ :=
  { s with kernel := s.kernel.close sock, closed := Function.update s.closed p true }

/-- `epoll_ctl(m_epfd, EPOLL_CTL_DEL, sock, ..)`. -/
def unregister (sock : ℤ) : SocketServerAccept ρ := { s with kernel := s.kernel.epollDel s.epfd sock }

/-- `m_socket_manager.del_clinet_info`. -/
def delClinetInfo (p : ℕ) : SocketServerAccept ρ := { s with manager := s.manager.delClinetInfo p }

/-- Replace the receive buffer of a connection. -/
def setData (p : ℕ) (f : SocketData ρ → SocketData ρ) : SocketServerAccept ρ :=
  { s with manager :=
      { s.manager with infos := s.manager.infos.modify p fun info => { info with data := f info.data } } }

/-- The receive branch for a positive result of `recv`. -/
def receive (p : ℕ) (bytes : List UInt8) (buff : Memory) (useLen : ℤ) : SocketServerAccept ρ :=
  let s := { s with kernel := s.kernel.recv (s.info p).fd bytes }.setData p fun d => d.received bytes
  (s.call p .onRecvData).setData p fun d => (d.handled buff).consume useLen

/-- One round of the loop in `run_epoll`. -/
def runEpoll (p : ℕ) (event : ReadyEvent) : SocketServerAccept ρ :=
  let s := s.useInfo p
  let sock := (s.info p).fd
  match event with
  | .out => (((s.call p .onADisconnected).closeFd p sock).unregister sock).delClinetInfo p
  | .again => s
  | .error => (((s.call p .onADisconnected).closeFd p sock).unregister sock).delClinetInfo p
  | .eof => (((s.call p .onDisconnected).closeFd p sock).unregister sock).delClinetInfo p
  | .data bytes buff useLen => s.receive p bytes buff useLen

/-- `close(socket_info *)`. -/
def closeSocket (p : ℕ) : SocketServerAccept ρ :=
  let s := s.useInfo p
  { s with kernel := s.kernel.epollMod s.epfd (s.info p).fd ⟨.epollOut, p⟩ }

/-- The accept thread, woken for the listening socket. -/
def accept (newSocket : ℤ) : SocketServerAccept ρ :=
  match s.acceptSocket newSocket with
  | (none, s) => s
  | (some info, s) => { s with acceptor := .accepted info }

/-- The accept thread up to its next cut. -/
def advanceAcceptor : SocketServerAccept ρ :=
  match s.acceptor with
  | .starting => s
  | .idle => s
  | .accepted p => { s.registerInfo p with acceptor := .added p }
  | .added p => { s.call p .onConnected with acceptor := .idle }

/-- A ready event up to the first cut. -/
def handle (p : ℕ) (event : ReadyEvent) : SocketServerAccept ρ :=
  let s := s.useInfo p
  match event with
  | .out => { s.call p .onADisconnected with epoller := .ended p (s.info p).fd }
  | .again => s
  | .error => { s.call p .onADisconnected with epoller := .ended p (s.info p).fd }
  | .eof => { s.call p .onDisconnected with epoller := .ended p (s.info p).fd }
  | .data bytes buff useLen => s.receive p bytes buff useLen

/-- The epoll thread up to its next cut. -/
def advanceEpoller : SocketServerAccept ρ :=
  match s.epoller with
  | .starting => s
  | .idle => s
  | .ended p sock => { s.closeFd p sock with epoller := .closed p sock }
  | .closed p sock => { s.unregister sock with epoller := .unregistered p }
  | .unregistered p => { s.delClinetInfo p with epoller := .idle }

/-- What `recv` can return. -/
def CanReport (p : ℕ) : ReadyEvent → Prop
  | .eof => s.peerClosed p = true ∨ (s.info p).data.room = 0
  | .data bytes _ _ => (s.info p).data.Fits bytes
  | _ => True

/-- A ready event is about a registered connection. -/
def Ready (p : ℕ) (event : ReadyEvent) : Prop :=
  ∃ interest, s.kernel.epoll s.epfd (s.info p).fd = some ⟨interest, p⟩ ∧
    (event = .out → interest = .epollOut)

def Enabled : AcceptServerEvent → Prop
  | .takeIdx => True
  | .enterAccept _ => s.acceptor = .starting
  | .enterEpoll _ => s.epoller = .starting
  | .accept _ => s.acceptor = .idle
  | .acceptor => True
  | .epoll p event => s.epoller = .idle ∧ s.Ready p event ∧ s.CanReport p event
  | .epoller => True
  | .closeSocket p => .onConnected ∈ callsOf s.calls p ∧ ∀ last ∈ callsOf s.calls p, ¬ Callback.Ends last
  | .peerClose _ => True

def apply : AcceptServerEvent → SocketServerAccept ρ
  | .takeIdx => { s with manager := s.manager.apply .takeIdx }
  | .enterAccept fd => s.enterAccept fd
  | .enterEpoll fd => s.enterEpoll fd
  | .accept fd => s.accept fd
  | .acceptor => s.advanceAcceptor
  | .epoll p event => s.handle p event
  | .epoller => s.advanceEpoller
  | .closeSocket p => s.closeSocket p
  | .peerClose p => { s with peerClosed := Function.update s.peerClosed p true }

end Functions

def Step (s : SocketServerAccept ρ) (event : AcceptServerEvent) (t : SocketServerAccept ρ) : Prop :=
  s.Enabled event ∧ t = s.apply event

variable {s : SocketServerAccept ρ}

theorem setData_data (s : SocketServerAccept ρ) (p : ℕ) (f : SocketData ρ → SocketData ρ) :
    ((s.setData p f).info p).data = f (s.info p).data := by
  change SocketInfo.data (Function.update s.manager.infos.content p _ p) = _
  rw [Function.update_self]

/-- A handler that stores nothing makes the receive branch the shared one. -/
theorem receive_data (s : SocketServerAccept ρ) (p : ℕ) (round : ReceiveRound) :
    ((s.receive p round.bytes ((s.info p).data.received round.bytes).buff round.useLen).info p).data =
      (s.info p).data.receive round := by
  refine (setData_data ..).trans ?_
  exact congrArg (fun d => SocketData.consume (SocketData.handled d _) round.useLen)
    (setData_data { s with kernel := s.kernel.recv (s.info p).fd round.bytes } p fun d =>
    d.received round.bytes)

theorem callsOf_call (s : SocketServerAccept ρ) (p : ℕ) (callback : Callback) :
    callsOf (s.call p callback).calls p = callsOf s.calls p ++ [callback] := callsOf_self ..

theorem callsOf_call_other (s : SocketServerAccept ρ) {p q : ℕ} (apart : q ≠ p) (callback : Callback) :
    callsOf (s.call p callback).calls q = callsOf s.calls q :=
  callsOf_other s.calls q (show q ≠ CallbackCall.info ⟨p, _, _, _⟩ from apart)

/-- An accepted connection that nobody interrupts is one round of `run_accept`. -/
theorem acceptor_uninterrupted (idle : s.acceptor = .idle) (newSocket : ℤ) :
    advanceAcceptor^[2] (s.accept newSocket) = s.runAccept newSocket := by
  have accepted : (s.acceptSocket newSocket).2.acceptor = .idle := by
    rw [acceptSocket]
    dsimp only
    split_ifs <;> exact idle
  rw [accept, runAccept]
  generalize s.acceptSocket newSocket = result at accepted ⊢
  obtain ⟨_ | info, t⟩ := result
  · have rest : advanceAcceptor t = t := by rw [advanceAcceptor, show t.acceptor = .idle from accepted]
    rw [Function.iterate_fixed rest]
  · obtain ⟨⟩ := t
    obtain rfl := accepted
    rfl

/-- A ready event that nobody interrupts is one round of `run_epoll`. -/
theorem epoller_uninterrupted (idle : s.epoller = .idle) (p : ℕ) (event : ReadyEvent) :
    advanceEpoller^[3] (s.handle p event) = s.runEpoll p event := by
  have rest : ∀ t : SocketServerAccept ρ, t.epoller = .idle → advanceEpoller^[3] t = t := by
    intro t isIdle
    apply Function.iterate_fixed
    rw [advanceEpoller, isIdle]
  cases event with
  | again => exact rest _ idle
  | data bytes buff useLen => exact rest _ idle
  | _ =>
    obtain ⟨⟩ := s
    obtain rfl := idle
    rfl

/-- A server that listens under descriptor 3, and whose threads are created. -/
def listening : SocketServerAccept ℕ :=
  initial (Kernel.empty.openAt 3 .listening Kernel.three_available) 3 1

/-- Descriptors 6 and 4 are the epoll sets of the two threads, and descriptor 5 is accepted. -/
def acceptFirst : List AcceptServerEvent := [.enterAccept 6, .enterEpoll 4, .accept 5]

end SocketServerAccept

end LinuxZero
