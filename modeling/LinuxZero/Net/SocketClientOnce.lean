import LinuxZero.Net.SocketServer

/-! # The client of one connection

`socket_client_once`, from a successful `init` and `start` on. Its thread connects, serves the
connection, and connects again after it ended, each time with the same `m_socket_info`. The thread is
cut before every access to something that `stop` or `close_socket` changes from another thread. The
epoll set never holds more than one descriptor, so that a round of `run_epoll` has one event. Log
output, and the address strings that only feed it, are left out.
-/

namespace LinuxZero

variable {ρ : Type}

/-- A call of a function of `socket_event_once`; `on_recv_data` with what it sees in the buffer, and what
had been received on its connection. -/
inductive OnceCall where
  | onTimeOut
  | onConnected
  | onDisconnected
  | onADisconnected
  | onRecvData (content stream : List UInt8)
deriving DecidableEq, Repr

/-- Where the thread is in `run_epoll`. -/
inductive OncePhase where
  /-- At the head of the loop in `loop_connect`. -/
  | loopConnect (interval : ℤ)
  /-- About to call `connect`. -/
  | connect (interval : ℤ)
  /-- `connect` has failed, and the thread waits before it tries again. -/
  | sleep (interval elapsed : ℤ)
  /-- At the head of the loop in `run_epoll`. -/
  | test
  /-- In `epoll_wait`. -/
  | poll
  /-- The connection is closed, and `m_auto_reconnect_s` is read next. -/
  | ended
  | exited
deriving DecidableEq, Repr

/-- What the system answers to the calls that `connect` makes. -/
structure ConnectAnswers where
  /-- The descriptor that `socket` returns if it is one that the system can hand out. -/
  newSocket : ℤ
  localAddress : Bool := true
  bind : Bool := true
  remoteAddress : Bool := true
  connect : Bool := true
  add : Bool := true
deriving DecidableEq, Repr

inductive PollResult where
  | failed
  | timeOut
  | ready (event : ReadyEvent)

inductive SocketClientOnceEvent where
  /-- The thread goes on to its next cut, without a call of the system. -/
  | thread
  | connect (answers : ConnectAnswers)
  /-- `epoll_wait` returns, and the thread handles the result. -/
  | poll (result : PollResult)
  /-- `stop` clears `m_epoll_run`. -/
  | stopRun
  /-- `stop` clears `m_auto_reconnect_s`. -/
  | stopReconnect
  /-- `close_socket(&m_socket_info)`. -/
  | closeSocket

/-- `socket_client_once` with the system; `calls` is the history of its handler. -/
structure SocketClientOnce (ρ : Type) where
  kernel : Kernel Unit
  info : SocketInfo ρ
  epfd : ℤ
  /-- `m_local_ip` is not empty. -/
  localIp : Bool
  autoReconnectS : ℤ
  epollRun : Bool
  phase : OncePhase
  calls : List OnceCall

namespace SocketClientOnce

/-- `init` has created the epoll set, and `start` the thread, which calls `loop_connect(5)`. -/
def initial (kernel : Kernel Unit) (epfd : ℤ) (available : kernel.Available epfd) (localIp : Bool)
    (autoReconnectS : ℤ) : SocketClientOnce ρ where
  kernel := kernel.openAt epfd .epoll available
  info := {}
  epfd := epfd
  localIp := localIp
  autoReconnectS := autoReconnectS
  epollRun := true
  phase := .loopConnect 5
  calls := []

section Functions

variable (s : SocketClientOnce ρ)

/-- A function of `m_p_event` is called. -/
def call (call : OnceCall) : SocketClientOnce ρ := { s with calls := s.calls ++ [call] }

/-- `::close(client_fd)`. -/
def closeFd (fd : ℤ) : SocketClientOnce ρ := { s with kernel := s.kernel.close fd }

/-- `connect`, once the connection is made. -/
def announce (clientFd : ℤ) (add : Bool) : Bool × SocketClientOnce ρ :=
  let s := { s with info := { s.info with fd := clientFd, epfd := s.epfd } }.call .onConnected
  let (added, kernel) := s.kernel.epollCtlAdd s.epfd clientFd ⟨.epollIn, ()⟩ add
  let s := { s with kernel := kernel }
  if added then (true, s) else (false, s.closeFd clientFd)

/-- `connect`. -/
def connect (answers : ConnectAnswers) : Bool × SocketClientOnce ρ :=
  let (clientFd, kernel) := s.kernel.socket answers.newSocket
  let s := { s with kernel := kernel }
  if clientFd < 0 then (false, s)
  else if s.localIp && !answers.localAddress then (false, s.closeFd clientFd)
  else if s.localIp && !answers.bind then (false, s.closeFd clientFd)
  else if !answers.remoteAddress then (false, s.closeFd clientFd)
  else
    let (connected, kernel) := s.kernel.connect clientFd answers.connect
    let s := { s with kernel := kernel }
    if !connected then (false, s.closeFd clientFd)
    else s.announce clientFd answers.add

/-- A round of `loop_connect`: it ends when `connect` succeeds. -/
def loopConnect (interval : ℤ) (answers : ConnectAnswers) : SocketClientOnce ρ :=
  let (connected, s) := s.connect answers
  { s with phase := if connected then .test else .sleep interval 0 }

/-- `::close(sock)` and `epoll_ctl(.., EPOLL_CTL_DEL, ..)`. -/
def endConnection : SocketClientOnce ρ :=
  { s with kernel := (s.kernel.close s.info.fd).epollDel s.epfd s.info.fd, phase := .ended }

/-- `recv` has stored these bytes in the receive buffer. -/
def recvInto (bytes : List UInt8) : SocketClientOnce ρ :=
  { s with
    kernel := s.kernel.recv s.info.fd bytes
    info := { s.info with data := s.info.data.received bytes } }

/-- `on_recv_data` with the buffer as it is. -/
def callRecvData : SocketClientOnce ρ :=
  s.call (.onRecvData s.info.data.content (s.kernel.received s.info.fd))

/-- The branches of `run_epoll` for a ready event. -/
def serve (event : ReadyEvent) : SocketClientOnce ρ :=
  match event with
  | .out => (s.call .onADisconnected).endConnection
  | .again => { s with phase := .test }
  | .error => (s.call .onADisconnected).endConnection
  | .eof => (s.call .onDisconnected).endConnection
  | .data bytes buff useLen =>
    let s := (s.recvInto bytes).callRecvData
    { s with info := { s.info with data := (s.info.data.handled buff).consume useLen }, phase := .test }

/-- What `run_epoll` does with the result of `epoll_wait`. -/
def runEpoll : PollResult → SocketClientOnce ρ
  | .failed => { s with kernel := s.kernel.close s.epfd, phase := .exited }
  | .timeOut => { s.call .onTimeOut with phase := .test }
  | .ready event => s.serve event

/-- The thread up to its next cut. -/
def advance : SocketClientOnce ρ :=
  match s.phase with
  | .loopConnect interval => { s with phase := if s.epollRun then .connect interval else .test }
  | .sleep interval elapsed =>
    { s with
      phase := if elapsed < interval ∧ s.epollRun then .sleep interval (elapsed + 1)
        else .loopConnect interval }
  | .test => if s.epollRun then { s with phase := .poll }
      else { s with kernel := s.kernel.close s.epfd, phase := .exited }
  | .ended =>
    if 0 < s.autoReconnectS then { s with phase := .loopConnect s.autoReconnectS }
    else { s with epollRun := false, phase := .test }
  | _ => s

/-- `EPOLLOUT` needs its interest; `EPOLLIN` may have been reported before the interest changed. `recv`
returns at most what was asked for. -/
def Ready (event : ReadyEvent) : Prop :=
  ∃ interest, s.kernel.epoll s.epfd s.info.fd = some ⟨interest, ()⟩ ∧
    (event = .out → interest = .epollOut) ∧
    match event with
    | .data bytes _ _ => s.info.data.Fits bytes
    | _ => True

def Enabled : SocketClientOnceEvent → Prop
  | .connect _ => ∃ interval, s.phase = .connect interval
  | .poll (.ready event) => s.phase = .poll ∧ s.Ready event
  | .poll _ => s.phase = .poll
  | _ => True

def apply : SocketClientOnceEvent → SocketClientOnce ρ
  | .thread => s.advance
  | .connect answers =>
    match s.phase with
    | .connect interval => s.loopConnect interval answers
    | _ => s
  | .poll result => s.runEpoll result
  | .stopRun => { s with epollRun := false }
  | .stopReconnect => { s with autoReconnectS := 0 }
  | .closeSocket => { s with kernel := s.kernel.epollMod s.info.epfd s.info.fd ⟨.epollOut, ()⟩ }

/-- The answers let `connect` get as far as `on_connected`. -/
def Connects (answers : ConnectAnswers) : Prop :=
  s.kernel.Available answers.newSocket ∧
    (s.localIp = true → answers.localAddress = true ∧ answers.bind = true) ∧
    answers.remoteAddress = true ∧ answers.connect = true

end Functions

def Step (s : SocketClientOnce ρ) (event : SocketClientOnceEvent) (t : SocketClientOnce ρ) : Prop :=
  s.Enabled event ∧ t = s.apply event

variable {s t : SocketClientOnce ρ}

/-- The system behind a `connect` that did not get to `on_connected`. -/
structure Restored (k k' : Kernel Unit) : Prop where
  files : k'.files = k.files
  epoll : k'.epoll = k.epoll
  received : ∀ fd, k.files fd ≠ none → k'.received fd = k.received fd

/-- The system with a new connection. -/
structure Joined (k k' : Kernel Unit) (fd : ℤ) : Prop where
  available : k.Available fd
  files : k'.files = Function.update k.files fd (some .connection)
  epoll : k'.epoll = k.epoll
  stream : k'.received fd = []

theorem Restored.refl (k : Kernel Unit) : Restored k k := ⟨rfl, rfl, fun _ _ => rfl⟩

theorem Restored.socket {k : Kernel Unit} {fd : ℤ} (available : k.Available fd) :
    Restored k ((k.openAt fd .stream available).close fd) := by
  obtain ⟨files, epoll⟩ := Kernel.close_openAt .stream available
  exact ⟨files, epoll, fun other isOpen => Function.update_of_ne (available.ne isOpen) ..⟩

theorem Restored.connect {k : Kernel Unit} {fd : ℤ} (available : k.Available fd) :
    Restored k (((k.openAt fd .stream available).connect fd false).2.close fd) := by
  have fresh : (k.openAt fd .stream available).files fd = some .stream := Function.update_self ..
  have refused : ((k.openAt fd .stream available).connect fd false).2 =
    k.openAt fd .stream available := by
    rw [Kernel.connect, dif_neg (by simp)]
  rw [refused]
  exact Restored.socket available

/-- `connect` fails and leaves everything as it was, or the connection is made and announced. -/
theorem connect_cases (s : SocketClientOnce ρ) (answers : ConnectAnswers) :
    (¬ s.Connects answers ∧ ∃ kernel, Restored s.kernel kernel ∧
      s.connect answers = (false, { s with kernel := kernel })) ∨
      (s.Connects answers ∧ ∃ kernel, Joined s.kernel kernel answers.newSocket ∧
        s.connect answers = { s with kernel := kernel }.announce answers.newSocket answers.add) := by
  by_cases available : s.kernel.Available answers.newSocket
  · have opened : s.kernel.socket answers.newSocket =
        (answers.newSocket, s.kernel.openAt answers.newSocket .stream available) := dif_pos available
    have bound : ¬ answers.newSocket < 0 := not_lt.mpr available.1
    have fresh : (s.kernel.openAt answers.newSocket .stream available).files answers.newSocket =
      some .stream :=
      Function.update_self ..
    simp only [connect, opened, if_neg bound, closeFd]
    split_ifs with invalid unbound remote refused
    · refine Or.inl ⟨?_, _, Restored.socket available, rfl⟩
      rintro ⟨_, address, _⟩
      simp_all
    · refine Or.inl ⟨?_, _, Restored.socket available, rfl⟩
      rintro ⟨_, address, _⟩
      simp_all
    · refine Or.inl ⟨?_, _, Restored.socket available, rfl⟩
      rintro ⟨_, _, valid, _⟩
      simp_all
    · rw [(Kernel.connect_stream fresh answers.connect).1] at refused
      have same : answers.connect = false := by simpa using refused
      rw [same]
      refine Or.inl ⟨?_, _, Restored.connect available, rfl⟩
      rintro ⟨_, _, _, made⟩
      exact absurd (same.symm.trans made) Bool.false_ne_true
    · obtain ⟨made, epoll, received, files⟩ := Kernel.connect_stream fresh answers.connect
      rw [made] at refused
      have granted : answers.connect = true := by simpa using refused
      refine Or.inr ⟨⟨available, ?_, ?_, granted⟩, _, ⟨available, ?_, epoll, ?_⟩, rfl⟩
      · intro localIp
        simp_all
      · simpa using remote
      · rw [files, granted, if_pos rfl, Kernel.files_openAt, Function.update_idem]
      · rw [received, Kernel.received_openAt, Function.update_self]
  · have refused : s.kernel.socket answers.newSocket = (-1, s.kernel) := dif_neg available
    refine Or.inl ⟨fun connects => available connects.1, s.kernel, Restored.refl s.kernel, ?_⟩
    simp [connect, refused]

/-- The epoll set exists until the thread leaves, and holds nothing but the served connection. -/
structure Wired (s : SocketClientOnce ρ) : Prop where
  epfd : s.phase ≠ .exited → s.kernel.files s.epfd = some .epoll
  only : ∀ fd, s.kernel.epoll s.epfd fd ≠ none → fd = s.info.fd ∧ fd ≠ s.epfd ∧
    (s.phase = .test ∨ s.phase = .poll)

theorem wired_initial (kernel : Kernel Unit) (epfd : ℤ) (available : kernel.Available epfd)
    (localIp : Bool) (autoReconnectS : ℤ) :
    Wired (initial kernel epfd available localIp autoReconnectS : SocketClientOnce ρ) where
  epfd _ := Function.update_self ..
  only fd present := by
    have noSet : kernel.files epfd ≠ some .epoll := by
      rw [available.2.2]
      exact fun impossible => nomatch impossible
    exact absurd (Kernel.no_registration noSet fd) present

/-- The registration of an announced connection succeeds if the system grants it. -/
theorem Wired.announce (wired : Wired s) (running : s.phase ≠ .exited) {kernel : Kernel Unit} {fd : ℤ}
    (joined : Joined s.kernel kernel fd) (add : Bool) :
    ({ s with kernel := kernel }.announce fd add) =
      if add then (true, { s with
        kernel := kernel.epollAdd s.epfd fd ⟨.epollIn, ()⟩
        info := { s.info with fd := fd, epfd := s.epfd }
        calls := s.calls ++ [.onConnected] })
      else (false, { s with
        kernel := kernel.close fd
        info := { s.info with fd := fd, epfd := s.epfd }
        calls := s.calls ++ [.onConnected] }) := by
  have epfd := wired.epfd running
  have apart : s.epfd ≠ fd := joined.available.ne (by simp [epfd])
  cases add with
  | false => simp [SocketClientOnce.announce, call, closeFd, Kernel.epollCtlAdd]
  | true =>
    have allowed : kernel.files s.epfd = some .epoll ∧ kernel.files fd ≠ none ∧ s.epfd ≠ fd ∧
        kernel.epoll s.epfd fd = none := by
      refine ⟨?_, ?_, apart, ?_⟩
      · rw [joined.files, Function.update_of_ne apart, epfd]
      · simp [joined.files]
      · rw [joined.epoll]
        exact Kernel.unregistered_of_closed joined.available.2.2 s.epfd
    simp [SocketClientOnce.announce, call, Kernel.epollCtlAdd, allowed]

/-- A round of `loop_connect`: it failed and changed nothing that is open, the connection was announced and
registered, or it was announced and closed. -/
theorem Wired.loopConnect (wired : Wired s) (running : s.phase ≠ .exited) (interval : ℤ)
    (answers : ConnectAnswers) :
    (¬ s.Connects answers ∧ ∃ kernel, Restored s.kernel kernel ∧
      s.loopConnect interval answers = { s with kernel := kernel, phase := .sleep interval 0 }) ∨
    (s.Connects answers ∧ ∃ kernel, Joined s.kernel kernel answers.newSocket ∧
      (answers.add = true ∧ s.loopConnect interval answers = { s with
        kernel := kernel.epollAdd s.epfd answers.newSocket ⟨.epollIn, ()⟩
        info := { s.info with fd := answers.newSocket, epfd := s.epfd }
        calls := s.calls ++ [.onConnected]
        phase := .test } ∨
      answers.add = false ∧ s.loopConnect interval answers = { s with
        kernel := kernel.close answers.newSocket
        info := { s.info with fd := answers.newSocket, epfd := s.epfd }
        calls := s.calls ++ [.onConnected]
        phase := .sleep interval 0 })) := by
  rcases s.connect_cases answers with ⟨refused, kernel, restored, result⟩ |
      ⟨connects, kernel, joined, result⟩
  · refine Or.inl ⟨refused, kernel, restored, ?_⟩
    rw [SocketClientOnce.loopConnect, result]
    rfl
  · refine Or.inr ⟨connects, kernel, joined, ?_⟩
    rw [wired.announce running joined] at result
    rw [SocketClientOnce.loopConnect, result]
    cases answers.add with
    | true => exact Or.inl ⟨rfl, rfl⟩
    | false => exact Or.inr ⟨rfl, rfl⟩

/-- Outside the loop of `run_epoll` nothing is registered. -/
theorem Wired.unregistered (wired : Wired s) (notTest : s.phase ≠ .test)
    (notPoll : s.phase ≠ .poll) (fd : ℤ) :
    s.kernel.epoll s.epfd fd = none := by
  by_contra present
  rcases (wired.only fd present).2.2 with test | poll
  · exact notTest test
  · exact notPoll poll

/-- A step that leaves the system and the connection alone, and no connection behind. -/
theorem Wired.advance (wired : Wired s) : Wired s.advance := by
  unfold SocketClientOnce.advance
  cases phase : s.phase with
  | loopConnect interval =>
    have none_ := wired.unregistered (by simp [phase]) (by simp [phase])
    exact ⟨fun _ => wired.epfd (by simp [phase]), fun fd present => absurd (none_ fd) present⟩
  | connect interval => exact wired
  | sleep interval elapsed =>
    have none_ := wired.unregistered (by simp [phase]) (by simp [phase])
    exact ⟨fun _ => wired.epfd (by simp [phase]), fun fd present => absurd (none_ fd) present⟩
  | test =>
    dsimp only
    split_ifs
    · refine ⟨fun _ => wired.epfd (by simp [phase]), fun fd present => ?_⟩
      obtain ⟨same, apart, _⟩ := wired.only fd present
      exact ⟨same, apart, Or.inr rfl⟩
    · exact ⟨fun running => absurd rfl running, fun fd present => absurd (if_pos (Or.inl rfl)) present⟩
  | poll => exact wired
  | ended =>
    have none_ := wired.unregistered (by simp [phase]) (by simp [phase])
    dsimp only
    split_ifs <;> exact ⟨fun _ => wired.epfd (by simp [phase]),
      fun fd present => absurd (none_ fd) present⟩
  | exited => exact wired

theorem Wired.endConnection (wired : Wired s) (phase : s.phase = .poll)
    (present : s.kernel.epoll s.epfd s.info.fd ≠ none) (call : OnceCall) :
    Wired (s.call call).endConnection := by
  have apart := (wired.only s.info.fd present).2.1
  constructor
  · intro _
    exact (Function.update_of_ne apart.symm ..).trans (wired.epfd (by simp [phase]))
  · intro fd left
    have gone : ((s.kernel.close s.info.fd).epollDel s.epfd s.info.fd).epoll s.epfd fd = none := by
      rw [Kernel.epoll_epollDel, Kernel.epoll_close]
      split_ifs with same closed
      · rfl
      · rfl
      · by_contra still
        exact same ⟨rfl, (wired.only fd still).1⟩
    exact absurd gone left

/-- The thread goes on to its loop, with the connection as it was registered. -/
theorem Wired.again (wired : Wired s) (phase : s.phase = .poll) (kernel : Kernel Unit)
    (data : SocketData ρ) (calls : List OnceCall) (files : kernel.files = s.kernel.files)
    (epoll : kernel.epoll = s.kernel.epoll) :
    Wired { s with kernel := kernel, info := { s.info with
      data := data }, calls := calls, phase := .test } := by
  refine ⟨fun _ => (congrFun files s.epfd).trans (wired.epfd (by simp [phase])), fun fd present => ?_⟩
  have before : s.kernel.epoll s.epfd fd ≠ none := (congrFun (congrFun epoll s.epfd) fd) ▸ present
  obtain ⟨same, apart, _⟩ := wired.only fd before
  exact ⟨same, apart, Or.inl rfl⟩

theorem Wired.step (wired : Wired s) {event : SocketClientOnceEvent} (step : Step s event t) :
    Wired t := by
  obtain ⟨enabled, rfl⟩ := step
  cases event with
  | thread => exact wired.advance
  | connect answers =>
    obtain ⟨interval, phase⟩ := enabled
    simp only [apply, phase]
    have none_ := wired.unregistered (by simp [phase]) (by simp [phase])
    rcases wired.loopConnect (by simp [phase]) interval answers with
      ⟨_, kernel, restored, result⟩ | ⟨_, kernel, joined, ⟨_, result⟩ | ⟨_, result⟩⟩
    · rw [result]
      refine ⟨fun _ => (congrFun restored.files s.epfd).trans (wired.epfd (by simp [phase])),
        fun fd present => ?_⟩
      exact absurd ((congrFun (congrFun restored.epoll s.epfd) fd).trans (none_ fd)) present
    · have epfd := wired.epfd (by simp [phase])
      have apart : s.epfd ≠ answers.newSocket := joined.available.ne (by simp [epfd])
      rw [result]
      constructor
      · intro _
        simp only [Kernel.files_epollAdd, joined.files, Function.update_of_ne apart, epfd]
      · intro fd present
        obtain ⟨entry, some_⟩ := Option.ne_none_iff_exists'.mp present
        rcases Kernel.epollAdd_some some_ with ⟨_, same, _⟩ | old
        · exact ⟨same, same ▸ apart.symm, Or.inl rfl⟩
        · rw [joined.epoll, none_ fd] at old
          exact nomatch old
    · have epfd := wired.epfd (by simp [phase])
      have apart : s.epfd ≠ answers.newSocket := joined.available.ne (by simp [epfd])
      rw [result]
      constructor
      · intro _
        simp only [Kernel.files_close, joined.files, Function.update_of_ne apart, epfd]
      · intro fd present
        simp only [Kernel.epoll_close, joined.epoll, none_, ite_self, ne_eq, not_true] at present
  | poll result =>
    cases result with
    | failed => exact ⟨fun running => absurd rfl running,
        fun fd present => absurd (if_pos (Or.inl rfl)) present⟩
    | timeOut => exact wired.again enabled s.kernel s.info.data _ rfl rfl
    | ready event =>
      obtain ⟨phase, interest, registered, _⟩ := enabled
      have present : s.kernel.epoll s.epfd s.info.fd ≠ none := by simp [registered]
      cases event with
      | out => exact wired.endConnection phase present .onADisconnected
      | again => exact wired.again phase s.kernel s.info.data _ rfl rfl
      | error => exact wired.endConnection phase present .onADisconnected
      | eof => exact wired.endConnection phase present .onDisconnected
      | data bytes buff useLen => exact wired.again phase _ _ _ rfl rfl
  | stopRun => exact ⟨wired.epfd, wired.only⟩
  | stopReconnect => exact ⟨wired.epfd, wired.only⟩
  | closeSocket =>
    refine ⟨fun running => ?_, fun fd present => wired.only fd ?_⟩
    · exact (congrFun (Kernel.files_epollMod ..) s.epfd).trans (wired.epfd running)
    · exact fun absent => present (Kernel.epollMod_eq_none.mpr absent)

/-- At most one descriptor is ready in a round. -/
theorem one_registration (kernel : Kernel Unit) (epfd : ℤ) (available : kernel.Available epfd)
    (localIp : Bool) (autoReconnectS : ℤ) {events : List SocketClientOnceEvent}
    (run : Run Step (initial kernel epfd available localIp autoReconnectS) events s) {fd fd' : ℤ}
    (first : s.kernel.epoll s.epfd fd ≠ none) (second : s.kernel.epoll s.epfd fd' ≠ none) :
    fd = fd' := by
  have wired := run.invariant Wired (fun _ _ _ wired step => wired.step step)
    (wired_initial kernel epfd available localIp autoReconnectS)
  exact (wired.only fd first).1.trans (wired.only fd' second).1.symm

end SocketClientOnce

end LinuxZero
