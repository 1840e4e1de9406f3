import LinuxZero.Net.SocketServer

/-! # The callbacks of the socket server

Whatever is registered in the epoll set or listed in the manager is the listening socket or a
connection that the handler knows and that has not ended, even when a number of the manager is used
twice. So `run_epoll` calls the handler in order. `close` calls `on_disconnected` for all that the
manager lists, and the listening socket was never connected.
-/

namespace LinuxZero

namespace SocketServer

variable {ρ : Type} {s t : SocketServer ρ}

/-- `close` is called when the manager does not list the listening socket. -/
def ListsConnections (s : SocketServer ρ) : SocketServerEvent → Prop
  | .close => ∀ p ∈ s.manager.sockets, (s.info p).fd ≠ s.serverFd
  | _ => True

def ConnectionsStep (s : SocketServer ρ) (event : SocketServerEvent) (t : SocketServer ρ) : Prop :=
  Step s event t ∧ s.ListsConnections event

/-- An object of the listening socket, or a connection between its `on_connected` and its end. -/
def Serves (s : SocketServer ρ) (p : ℕ) : Prop :=
  p < s.manager.infos.next ∧ ((s.info p).fd ≠ s.serverFd → Spoken (callsOf s.calls p) .connected)

structure Attended (s : SocketServer ρ) : Prop where
  spoken : ∀ p, ∃ phase, Spoken (callsOf s.calls p) phase
  silent : ∀ p, s.manager.infos.next ≤ p → callsOf s.calls p = []
  listening : ∀ p, p < s.manager.infos.next → (s.info p).fd = s.serverFd → callsOf s.calls p = []
  registered : s.phase = .running → ∀ fd interest p, s.kernel.epoll s.epfd fd = some ⟨interest, p⟩ →
    Serves s p ∧ (s.info p).fd = fd
  entry : s.phase ≠ .closed → ∀ shFd p, s.manager.shFd2SocketInfo shFd = some p →
    Serves s p ∧ (s.info p).shFd = shFd
  serverOpen : s.phase = .started ∨ s.phase = .running → s.kernel.files s.serverFd = some .listening
  apart : s.phase = .running → s.epfd ≠ s.serverFd

/-- The two servers agree on everything that the calls depend on. -/
structure Alike (s t : SocketServer ρ) : Prop where
  calls : t.calls = s.calls
  next : t.manager.infos.next = s.manager.infos.next
  info : ∀ p, (t.info p).fd = (s.info p).fd ∧ (t.info p).shFd = (s.info p).shFd
  entries : t.manager.shFd2SocketInfo = s.manager.shFd2SocketInfo
  serverFd : t.serverFd = s.serverFd
  epfd : t.epfd = s.epfd
  phase : t.phase = s.phase
  epoll : t.kernel.epoll = s.kernel.epoll
  files : t.kernel.files s.serverFd = s.kernel.files s.serverFd

theorem Alike.serves (alike : Alike s t) {p : ℕ} (serves : Serves s p) : Serves t p := by
  refine ⟨alike.next ▸ serves.1, ?_⟩
  rw [(alike.info p).1, alike.serverFd, alike.calls]
  exact serves.2

theorem Attended.alike (attended : Attended s) (alike : Alike s t) : Attended t where
  spoken := alike.calls ▸ attended.spoken
  silent := by
    rw [alike.calls, alike.next]
    exact attended.silent
  listening p := by
    rw [alike.calls, alike.next, (alike.info p).1, alike.serverFd]
    exact attended.listening p
  registered running fd interest p present := by
    rw [alike.epoll, alike.epfd] at present
    obtain ⟨serves, isFd⟩ := attended.registered (alike.phase ▸ running) fd interest p present
    exact ⟨alike.serves serves, (alike.info p).1.trans isFd⟩
  entry notClosed shFd p listed := by
    rw [alike.entries] at listed
    obtain ⟨serves, isNumber⟩ := attended.entry (alike.phase ▸ notClosed) shFd p listed
    exact ⟨alike.serves serves, (alike.info p).2.trans isNumber⟩
  serverOpen := by
    rw [alike.phase, alike.serverFd, alike.files]
    exact attended.serverOpen
  apart := by
    rw [alike.phase, alike.serverFd, alike.epfd]
    exact attended.apart

theorem Attended.start (attended : Attended s) (ready : s.phase = .ready) (granted : Bool) :
    Attended (s.start granted).2 := by
  rw [start_eq]
  have notRunning : (if (s.kernel.listen s.serverFd granted).1 then ServerPhase.started
    else s.phase) ≠ .running := by
    rw [ready]
    split_ifs <;> decide
  refine ⟨attended.spoken, attended.silent, attended.listening, fun running => absurd running notRunning,
    fun _ => attended.entry (by rw [ready]; decide), fun running => ?_,
    fun running => absurd running notRunning⟩
  refine Kernel.listen_granted ?_
  have started := running.resolve_right notRunning
  dsimp only at started
  split_ifs at started with granted_
  · exact granted_
  · rw [ready] at started
    contradiction

/-- `get_clinet_info` for the descriptor `fd`; there are no new calls for the old objects. -/
structure Grows (s t : SocketServer ρ) (fd : ℤ) : Prop where
  next : t.manager.infos.next = s.manager.infos.next + 1
  new : (t.info s.manager.infos.next).fd = fd ∧ (t.info s.manager.infos.next).shFd = s.manager.idx
  old : ∀ p, p ≠ s.manager.infos.next → t.info p = s.info p
  entries : t.manager.shFd2SocketInfo =
    Function.update s.manager.shFd2SocketInfo s.manager.idx (some s.manager.infos.next)
  serverFd : t.serverFd = s.serverFd
  calls : ∀ p, p ≠ s.manager.infos.next → callsOf t.calls p = callsOf s.calls p

namespace Grows

variable {fd : ℤ}

theorem serves (grows : Grows s t fd) {p : ℕ} (serves : Serves s p) : Serves t p := by
  have apart := Nat.ne_of_lt serves.1
  refine ⟨by rw [grows.next]; exact Nat.lt_succ_of_lt serves.1, ?_⟩
  rw [grows.old p apart, grows.serverFd, grows.calls p apart]
  exact serves.2

theorem entry (grows : Grows s t fd) (attended : Attended s) (notClosed : s.phase ≠ .closed)
    (newServes : Serves t s.manager.infos.next) {shFd : UInt32} {p : ℕ}
    (listed : t.manager.shFd2SocketInfo shFd = some p) : Serves t p ∧ (t.info p).shFd = shFd := by
  rw [grows.entries] at listed
  rcases eq_or_ne shFd s.manager.idx with rfl | other
  · rw [Function.update_self] at listed
    obtain rfl := Option.some.inj listed
    exact ⟨newServes, grows.new.2⟩
  · rw [Function.update_of_ne other] at listed
    obtain ⟨serves, isNumber⟩ := attended.entry notClosed shFd p listed
    refine ⟨grows.serves serves, ?_⟩
    rw [grows.old p (Nat.ne_of_lt serves.1)]
    exact isNumber

theorem listening (grows : Grows s t fd) (attended : Attended s) {p : ℕ}
    (apart : p ≠ s.manager.infos.next) (bound : p < t.manager.infos.next)
    (isListening : (t.info p).fd = t.serverFd) : callsOf t.calls p = [] := by
  rw [grows.next] at bound
  rw [grows.old p apart, grows.serverFd] at isListening
  rw [grows.calls p apart]
  exact attended.listening p (by omega) isListening

end Grows

theorem Attended.enterLoop (attended : Attended s) (started : s.phase = .started) (fd : ℤ) :
    Attended (s.enterLoop fd) := by
  have isOpen := attended.serverOpen (Or.inl started)
  obtain ⟨new, old⟩ := s.manager.info_getClinetInfo s.serverFd
  obtain ⟨files, apart⟩ := s.kernel.epollCreate_other (by rw [isOpen]; exact Option.some_ne_none _) fd
  have grows : Grows s (s.enterLoop fd) s.serverFd :=
    ⟨rfl, ⟨congrArg SocketInfo.fd new, congrArg SocketInfo.shFd new⟩, old, rfl, rfl, fun _ _ => rfl⟩
  have newServes : Serves (s.enterLoop fd) s.manager.infos.next :=
    ⟨Nat.lt_succ_self _, fun other => absurd grows.new.1 other⟩
  refine ⟨attended.spoken, fun p bound => attended.silent p (Nat.le_of_succ_le bound), ?_, ?_, ?_,
    ?_, fun _ => apart⟩
  · intro p bound isListening
    rcases eq_or_ne p s.manager.infos.next with rfl | isOld
    · exact attended.silent _ le_rfl
    · exact grows.listening attended isOld bound isListening
  · intro _ f interest p present
    rcases Kernel.epollAdd_some present with ⟨_, rfl, entry, _⟩ | before
    · obtain ⟨rfl, rfl⟩ := Registration.mk.inj entry
      exact ⟨newServes, grows.new.1⟩
    · have before : (s.kernel.epollCreate fd).2.epoll (s.kernel.epollCreate fd).1 f =
        some ⟨interest, p⟩ := before
      rw [Kernel.epollCreate_empty] at before
      contradiction
  · intro _ shFd p
    exact grows.entry attended (by rw [started]; decide) newServes
  · intro _
    exact (congrFun (Kernel.files_epollAdd ..) _).trans (files.trans isOpen)

/-- A connection under a descriptor other than the listening one. -/
theorem Attended.addSocket (attended : Attended s) (running : s.phase = .running) {fd : ℤ}
    (other : fd ≠ s.serverFd) :
    Attended (s.addSocket fd) := by
  obtain ⟨new, old⟩ := s.info_addSocket fd
  have grows : Grows s (s.addSocket fd) fd :=
    ⟨rfl, ⟨congrArg SocketInfo.fd new, congrArg SocketInfo.shFd new⟩, old, rfl, rfl,
      fun _ apart => callsOf_other _ _ apart⟩
  have newCalls : callsOf (s.addSocket fd).calls s.manager.infos.next = [.onConnected] := by
    refine (callsOf_self s.calls ..).trans ?_
    rw [attended.silent _ le_rfl]
    rfl
  have newServes : Serves (s.addSocket fd) s.manager.infos.next :=
    ⟨Nat.lt_succ_self _, fun _ => newCalls ▸ .connect⟩
  have notClosed : s.phase ≠ .closed := by
    rw [running]
    decide
  refine ⟨fun p => ?_, fun p bound => ?_, fun p bound isListening => ?_, ?_, ?_, ?_, attended.apart⟩
  · rcases eq_or_ne p s.manager.infos.next with rfl | isOld
    · exact ⟨.connected, newCalls ▸ .connect⟩
    · rw [grows.calls p isOld]
      exact attended.spoken p
  · have bound : s.manager.infos.next + 1 ≤ p := bound
    rw [grows.calls p (by omega)]
    exact attended.silent p (by omega)
  · rcases eq_or_ne p s.manager.infos.next with rfl | isOld
    · exact absurd (grows.new.1.symm.trans isListening) other
    · exact grows.listening attended isOld bound isListening
  · intro _ f interest p present
    rcases Kernel.epollAdd_some present with ⟨_, rfl, entry, _⟩ | before
    · obtain ⟨rfl, rfl⟩ := Registration.mk.inj entry
      exact ⟨newServes, grows.new.1⟩
    · obtain ⟨serves, isFd⟩ := attended.registered running f interest p before
      exact ⟨grows.serves serves, (congrArg SocketInfo.fd (old p (Nat.ne_of_lt serves.1))).trans isFd⟩
  · intro _ shFd p
    exact grows.entry attended notClosed newServes
  · intro isRunning
    exact (congrFun (Kernel.files_epollAdd ..) _).trans (attended.serverOpen isRunning)

theorem Attended.acceptSocket (attended : Attended s) (running : s.phase = .running) (newSocket : ℤ) :
    Attended (s.acceptSocket newSocket) := by
  have isOpen := attended.serverOpen (Or.inr running)
  rcases s.acceptSocket_cases newSocket with same | ⟨available, accepted⟩
  · rwa [same]
  · rw [accepted]
    have other : s.serverFd ≠ newSocket := Kernel.Available.ne available
      (by rw [isOpen]; exact Option.some_ne_none _)
    have opened : Attended { s with kernel := s.kernel.openAt newSocket .connection available } :=
      attended.alike ⟨rfl, rfl, fun _ => ⟨rfl, rfl⟩, rfl, rfl, rfl, rfl, rfl,
        Function.update_of_ne other ..⟩
    exact opened.addSocket running other.symm

/-- The end of a connection, with the call that reports it. -/
theorem Attended.endConnection (attended : Attended s) {p : ℕ} {last : Callback}
    (connected : Spoken (callsOf s.calls p) .connected) (old : p < s.manager.infos.next)
    (connection : (s.info p).fd ≠ s.serverFd) (isEnd : last.Ends) :
    Attended ((s.call p last).endConnection p (s.info p).fd) := by
  obtain ⟨content, next⟩ := s.manager.content_delClinetInfo p
  have info : ∀ q, ((s.call p last).endConnection p (s.info p).fd).info q = s.info q := congrFun content
  have other : ∀ q, q ≠ p → callsOf (s.call p last).calls q = callsOf s.calls q := fun q apart =>
    callsOf_other _ _ apart
  have serves : ∀ q, q ≠ p → Serves s q → Serves ((s.call p last).endConnection p (s.info p).fd) q := by
    intro q apart serves
    refine ⟨next.symm ▸ serves.1, ?_⟩
    rw [info]
    exact fun isConnection => (other q apart).symm ▸ serves.2 isConnection
  refine ⟨fun q => ?_, fun q bound => ?_, fun q bound isListening => ?_, ?_, ?_, ?_, attended.apart⟩
  · rcases eq_or_ne q p with rfl | apart
    · exact ⟨.ended, (callsOf_self ..).symm ▸ .ends connected isEnd⟩
    · exact (other q apart).symm ▸ attended.spoken q
  · have bound : s.manager.infos.next ≤ q := next ▸ bound
    exact (other q (by omega)).trans (attended.silent q bound)
  · rw [info] at isListening
    rcases eq_or_ne q p with rfl | apart
    · exact absurd isListening connection
    · exact (other q apart).trans (attended.listening q (next ▸ bound) isListening)
  · -- The closed descriptor takes its registration along.
    intro running f interest q present
    have present : (if s.epfd = s.epfd ∧ f = (s.info p).fd then none else
        if s.epfd = (s.info p).fd ∨ f = (s.info p).fd then none else s.kernel.epoll s.epfd f) =
          some ⟨interest, q⟩ := present
    split_ifs at present with dropped touched
    obtain ⟨before, isFd⟩ := attended.registered running f interest q present
    refine ⟨serves q ?_ before, by rw [info]; exact isFd⟩
    rintro rfl
    exact touched (Or.inr isFd.symm)
  · intro notClosed shFd q listed
    have listed : (s.manager.delClinetInfo p).shFd2SocketInfo shFd = some q := listed
    rw [SocketManager.entries_delClinetInfo, Function.update_apply] at listed
    split_ifs at listed with gone
    obtain ⟨before, isNumber⟩ := attended.entry notClosed shFd q listed
    refine ⟨serves q ?_ before, by rw [info]; exact isNumber⟩
    rintro rfl
    exact gone isNumber.symm
  · intro isRunning
    exact (Function.update_of_ne connection.symm ..).trans (attended.serverOpen isRunning)

theorem Attended.serve {p : ℕ} {event : ReadyEvent} (attended : Attended s)
    (connected : Spoken (callsOf s.calls p) .connected) (old : p < s.manager.infos.next)
    (connection : (s.info p).fd ≠ s.serverFd) : Attended (s.serve p event) := by
  have asked : Attended (s.callRecv p) := attended.alike ⟨rfl, rfl, fun _ => ⟨rfl, rfl⟩, rfl, rfl,
    rfl, rfl, rfl, rfl⟩
  cases event with
  | out => exact attended.endConnection connected old connection (Or.inr rfl)
  | again => exact asked
  | error => exact asked.endConnection connected old connection (Or.inr rfl)
  | eof => exact asked.endConnection connected old connection (Or.inl rfl)
  | data bytes buff useLen =>
    have own : callsOf (s.call p .onRecvData).calls p = callsOf s.calls p ++ [.onRecvData] :=
      callsOf_self ..
    have other : ∀ q, q ≠ p → callsOf (s.call p .onRecvData).calls q = callsOf s.calls q :=
      fun q apart => callsOf_other _ _ apart
    have serves : ∀ q, Serves s q → Serves (s.call p .onRecvData) q := by
      intro q serves
      refine ⟨serves.1, fun isConnection => ?_⟩
      rcases eq_or_ne q p with rfl | apart
      · exact own.symm ▸ .data connected
      · exact (other q apart).symm ▸ serves.2 isConnection
    have called : Attended (s.call p .onRecvData) := by
      refine ⟨fun q => ?_, fun q bound => ?_, fun q bound isListening => ?_,
        fun running fd interest q present => ?_, fun notClosed shFd q listed => ?_,
        attended.serverOpen, attended.apart⟩
      · rcases eq_or_ne q p with rfl | apart
        · exact ⟨.connected, own.symm ▸ .data connected⟩
        · exact (other q apart).symm ▸ attended.spoken q
      · have bound : s.manager.infos.next ≤ q := bound
        exact (other q (by omega)).trans (attended.silent q bound)
      · rcases eq_or_ne q p with rfl | apart
        · exact absurd isListening connection
        · exact (other q apart).trans (attended.listening q bound isListening)
      · obtain ⟨before, isFd⟩ := attended.registered running fd interest q present
        exact ⟨serves q before, isFd⟩
      · obtain ⟨before, isNumber⟩ := attended.entry notClosed shFd q listed
        exact ⟨serves q before, isNumber⟩
    exact called.alike ⟨rfl, rfl, fun q => s.fd_serve_data p q bytes buff useLen, rfl, rfl, rfl,
      rfl, rfl, rfl⟩

/-- A request to close a connection that has not ended changes one registration. -/
theorem Attended.closeSocket {p : ℕ} (attended : Attended s) (enabled : s.Enabled (.closeSocket p)) :
    Attended (s.closeSocket p) := by
  obtain ⟨known, notEnded⟩ := enabled
  obtain ⟨phase, spoken⟩ := attended.spoken p
  have connected := spoken.connected_of known notEnded
  have old : p < s.manager.infos.next := by
    by_contra new
    rw [attended.silent p (by omega)] at known
    exact absurd known List.not_mem_nil
  refine ⟨attended.spoken, attended.silent, attended.listening, ?_, attended.entry, ?_, attended.apart⟩
  · intro running fd interest q present
    rcases Kernel.epollMod_some present with ⟨_, rfl, entry, _⟩ | before
    · obtain ⟨rfl, rfl⟩ := Registration.mk.inj entry
      exact ⟨⟨old, fun _ => connected⟩, rfl⟩
    · exact attended.registered running fd interest q before
  · intro isRunning
    exact (congrFun (Kernel.files_epollMod ..) _).trans (attended.serverOpen isRunning)

theorem Attended.close (attended : Attended s) (exited : s.phase = .exited)
    (lists : ∀ p ∈ s.manager.sockets, (s.info p).fd ≠ s.serverFd) : Attended s.close := by
  have notClosed : s.phase ≠ .closed := by
    rw [exited]
    decide
  have calls : ∀ p, callsOf s.close.calls p = callsOf s.calls p ++ if p ∈ s.manager.sockets
    then [.onDisconnected] else [] :=
    fun p => callsOf_each s.calls p s.manager.sockets s.manager.nodup_sockets .onDisconnected
      s.manager.infos.live s.peerClosed
  obtain ⟨content, next⟩ := s.manager.content_close
  have info : ∀ p, s.close.info p = s.info p := congrFun content
  have unlisted : ∀ p, p ∉ s.manager.sockets → callsOf s.close.calls p = callsOf s.calls p := by
    intro p absent
    rw [calls, if_neg absent, List.append_nil]
  refine ⟨fun p => ?_, fun p bound => ?_, fun p bound isListening => ?_, fun running => ?_,
    fun open_ => absurd rfl open_, fun isRunning => ?_, fun running => ?_⟩
  · by_cases member : p ∈ s.manager.sockets
    · obtain ⟨_, listed⟩ := SocketManager.mem_sockets.mp member
      obtain ⟨serves, _⟩ := attended.entry notClosed _ p listed
      rw [calls, if_pos member]
      exact ⟨.ended, .ends (serves.2 (lists p member)) (Or.inl rfl)⟩
    · rw [unlisted p member]
      exact attended.spoken p
  · have bound : s.manager.infos.next ≤ p := next ▸ bound
    rw [unlisted p fun member => absurd (SocketManager.mem_sockets.mp member).1 (by omega)]
    exact attended.silent p bound
  · rw [info] at isListening
    rw [unlisted p fun member => lists p member isListening]
    exact attended.listening p (next ▸ bound) isListening
  · contradiction
  · rcases isRunning with started | running <;> contradiction
  · contradiction

theorem Attended.step {event : SocketServerEvent} (attended : Attended s)
    (step : ConnectionsStep s event t) :
    Attended t := by
  obtain ⟨⟨enabled, rfl⟩, lists⟩ := step
  cases event with
  | takeIdx => exact attended.alike ⟨rfl, rfl, fun _ => ⟨rfl, rfl⟩, rfl, rfl, rfl, rfl, rfl, rfl⟩
  | start granted => exact attended.start enabled granted
  | enterLoop fd => exact attended.enterLoop enabled fd
  | epoll p newSocket event =>
    obtain ⟨running, ⟨interest, present, _⟩, _⟩ := enabled
    have used : Attended (s.useInfo p) := attended.alike ⟨rfl, rfl, fun _ => ⟨rfl, rfl⟩, rfl, rfl,
      rfl, rfl, rfl, rfl⟩
    obtain ⟨⟨old, connected⟩, _⟩ := attended.registered running _ _ p present
    by_cases connection : (s.info p).fd = s.serverFd
    · have accepts : s.apply (.epoll p newSocket event) = (s.useInfo p).acceptSocket newSocket :=
        if_pos connection
      rw [accepts]
      exact used.acceptSocket running newSocket
    · have serves : s.apply (.epoll p newSocket event) = (s.useInfo p).serve p event :=
        runEpoll_connection connection newSocket event
      rw [serves]
      exact used.serve (connected connection) old connection
  | closeSocket p => exact attended.closeSocket enabled
  | peerClose p => exact attended.alike ⟨rfl, rfl, fun _ => ⟨rfl, rfl⟩, rfl, rfl, rfl, rfl, rfl, rfl⟩
  | stop => exact attended.alike ⟨rfl, rfl, fun _ => ⟨rfl, rfl⟩, rfl, rfl, rfl, rfl, rfl, rfl⟩
  | leaveLoop =>
    have notClosed : s.phase ≠ .closed := by
      rw [enabled.1]
      decide
    refine ⟨attended.spoken, attended.silent, attended.listening, fun running => (nomatch running),
      fun _ => attended.entry notClosed, fun isRunning => ?_, fun running => (nomatch running)⟩
    rcases isRunning with started | running <;> contradiction
  | close => exact attended.close enabled lists

/-- After every run from `start` on, in which the manager no longer lists the listening socket when
`close` is called, each connection has seen a prefix of its protocol. -/
theorem callbacks_follow_protocol {kernel : Kernel ℕ} {serverFd : ℤ} {idx : UInt32}
    {events : List SocketServerEvent}
    (run : Run ConnectionsStep (initial kernel serverFd idx : SocketServer ρ) events t) (p : ℕ) :
    FollowsProtocol (callsOf t.calls p) := by
  have start : Attended (initial kernel serverFd idx : SocketServer ρ) := by
    refine ⟨fun _ => ⟨.fresh, .fresh⟩, fun _ _ => rfl, fun _ _ _ => rfl, fun running => (nomatch running),
      fun _ _ _ listed => (nomatch listed), fun isRunning => ?_, fun running => (nomatch running)⟩
    rcases isRunning with started | running <;> contradiction
  have attended : Attended t :=
    run.invariant Attended (fun _ _ _ attended step => attended.step step) start
  obtain ⟨_, spoken⟩ := attended.spoken p
  exact spoken.follows

/-- A connection that waits for more data, is closed on request, and the end of the thread. -/
def serveThenStop : List SocketServerEvent :=
  acceptOne ++ [.epoll 2 6 (.data [1, 2] (fun _ => 0) 0)] ++ [.closeSocket 2] ++
    [.epoll 2 6 .out] ++ [.stop] ++ [.leaveLoop]

theorem serveThenStop_follows : ∃ t, Run ConnectionsStep bound serveThenStop t ∧ t.phase = .exited ∧
    callsOf t.calls 2 = [.onConnected, .onRecvData, .onADisconnected] ∧
    FollowsProtocol (callsOf t.calls 2) := by
  have replays : Run.Replays (fun s event => Enabled s event ∧ s.ListsConnections event) apply bound
    serveThenStop := by
    refine ⟨⟨rfl, trivial⟩, ⟨rfl, trivial⟩,
      ⟨⟨rfl, ⟨.epollIn, ?_, fun impossible => nomatch impossible⟩, trivial⟩, trivial⟩,
      ⟨⟨rfl, ⟨.epollIn, ?_, fun impossible => nomatch impossible⟩, ?_⟩, trivial⟩, ⟨?_, trivial⟩,
      ⟨⟨rfl, ⟨.epollOut, ?_, fun _ => rfl⟩, trivial⟩, trivial⟩,
      ⟨fun impossible => (nomatch impossible), trivial⟩, ⟨⟨rfl, rfl⟩, trivial⟩, trivial⟩
    · decide +kernel
    · decide +kernel
    · exact show SocketData.Fits _ _ by decide +kernel
    · exact show _ ∧ _ by decide +kernel
    · decide +kernel
  have run : Run ConnectionsStep bound serveThenStop (serveThenStop.foldl apply bound) :=
    Run.of_replays_guarded _ _ replays
  exact ⟨_, run, rfl, by decide +kernel, callbacks_follow_protocol run 2⟩

/-- `close` reports the listening socket as disconnected, which never was connected. -/
theorem listening_socket_disconnected : ∃ events t p, Run Step bound events t ∧
    callsOf t.calls p = [.onDisconnected] ∧ ¬ FollowsProtocol (callsOf t.calls p) := by
  have run : Run Step bound [.start true, .enterLoop 4, .stop, .leaveLoop, .close]
      ([.start true, .enterLoop 4, .stop, .leaveLoop, .close].foldl apply bound) :=
    Run.of_replays _ _ ⟨rfl, rfl, fun impossible => (nomatch impossible), ⟨rfl, rfl⟩,
      show _ = _ from rfl, trivial⟩
  generalize isClosed : [.start true, .enterLoop 4, .stop, .leaveLoop, .close].foldl apply bound =
    t at run
  have calls : callsOf t.calls 1 = [.onDisconnected] := by
    rw [← isClosed]
    decide +kernel
  refine ⟨_, t, 1, run, calls, ?_⟩
  rw [calls]
  rintro ⟨n, last, _, isPrefix⟩
  exact absurd (List.cons_prefix_cons.mp isPrefix).1 (by decide)

end SocketServer

end LinuxZero
