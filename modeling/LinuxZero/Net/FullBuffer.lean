import LinuxZero.Net.SocketServer

/-! # A full receive buffer

`run_epoll` asks `recv` for as many bytes as the buffer has free, and takes the result zero for the
end of the stream. A handler that waits for the rest of a message larger than the buffer fills it, and
the next call asks for nothing. As long as the handler uses something of a full buffer, a connection is
reported as disconnected only when its peer has closed it.
-/

namespace LinuxZero

namespace SocketServer

variable {ρ : Type} {s t : SocketServer ρ}

/-- The handler uses something of a buffer that is full when it is called. -/
def LeavesRoom (s : SocketServer ρ) : SocketServerEvent → Prop
  | .epoll p _ (.data bytes _ useLen) => ((s.info p).data.received bytes).room = 0 → 0 < useLen
  | _ => True

def RoomStep (s : SocketServer ρ) (event : SocketServerEvent) (t : SocketServer ρ) : Prop :=
  Step s event t ∧ s.LeavesRoom event

/-- A buffer that `recv` can store into. -/
structure HasRoom (d : SocketData ρ) : Prop where
  capacity : d.capacity = 8 * 1024
  room : 0 < d.room

theorem hasRoom_fresh : HasRoom ({} : SocketData ρ) := ⟨rfl, show (0 : ℤ) < 8 * 1024 - 0 by decide⟩

theorem HasRoom.consume {d : SocketData ρ} (hasRoom : HasRoom d) {bytes : List UInt8}
    (fits : d.Fits bytes) {useLen : ℤ} (leaves : (d.received bytes).room = 0 → 0 < useLen)
    (buff : Memory) :
    HasRoom (((d.received bytes).handled buff).consume useLen) := by
  have capacity := hasRoom.capacity
  refine ⟨by simp [capacity], ?_⟩
  have stored : 0 ≤ (d.received bytes).room := by
    have free : (bytes.length : ℤ) ≤ d.capacity - d.buffLen := fits.2
    rw [SocketData.room, SocketData.capacity_received, SocketData.buffLen_received]
    omega
  rw [SocketData.room] at leaves stored ⊢
  rw [SocketData.capacity_consume, SocketData.capacity_handled]
  unfold SocketData.consume
  rw [SocketData.capacity_received] at leaves stored ⊢
  rw [SocketData.buffLen_handled]
  split_ifs with part some_
  · dsimp only
    omega
  · rw [SocketData.buffLen_handled]
    omega
  · dsimp only
    omega

/-- No buffer is full between the rounds; every request had a size, and every end was one. -/
structure Genuine (s : SocketServer ρ) : Prop where
  buffers : ∀ p, HasRoom (s.info p).data
  requests : ∀ len ∈ s.recvLens, 0 < len
  ended : s.phase ≠ .closed → ∀ call ∈ s.calls, call.callback = .onDisconnected → call.peerClosed = true

theorem Genuine.same (genuine : Genuine s) (buffers : t.manager.infos.content = s.manager.infos.content)
    (requests : t.recvLens = s.recvLens) (calls : t.calls = s.calls)
    (closed : t.phase ≠ .closed → s.phase ≠ .closed) : Genuine t where
  buffers p := by
    have same : t.info p = s.info p := congrFun buffers p
    rw [same]
    exact genuine.buffers p
  requests := requests ▸ genuine.requests
  ended open_ := calls ▸ genuine.ended (closed open_)

theorem Genuine.callRecv (genuine : Genuine s) (p : ℕ) : Genuine (s.callRecv p) where
  buffers := genuine.buffers
  requests len member := by
    rcases List.mem_append.mp member with before | last
    · exact genuine.requests len before
    · rw [List.mem_singleton.mp last]
      exact (genuine.buffers p).room
  ended := genuine.ended

theorem Genuine.call (genuine : Genuine s) (p : ℕ) (callback : Callback)
    (isGenuine : callback = .onDisconnected → s.peerClosed p = true) : Genuine (s.call p callback) where
  buffers := genuine.buffers
  requests := genuine.requests
  ended open_ call member := by
    rcases List.mem_append.mp member with before | last
    · exact genuine.ended open_ call before
    · rw [List.mem_singleton.mp last]
      exact isGenuine

theorem Genuine.endConnection (genuine : Genuine s) (p : ℕ) (sock : ℤ) :
    Genuine (s.endConnection p sock) :=
  genuine.same (s.content_endConnection p sock) rfl rfl id

/-- A new connection starts with an empty buffer. -/
theorem Genuine.addSocket (genuine : Genuine s) (fd : ℤ) : Genuine (s.addSocket fd) := by
  obtain ⟨new, old⟩ := s.info_addSocket fd
  refine ⟨fun p => ?_, genuine.requests, fun open_ call member isEnd => ?_⟩
  · rcases eq_or_ne p s.manager.infos.next with rfl | apart
    · rw [new]
      exact hasRoom_fresh
    · rw [old p apart]
      exact genuine.buffers p
  · rcases List.mem_append.mp member with before | last
    · exact genuine.ended open_ call before isEnd
    · rw [List.mem_singleton.mp last] at isEnd
      contradiction

theorem Genuine.acceptSocket (genuine : Genuine s) (newSocket : ℤ) :
    Genuine (s.acceptSocket newSocket) := by
  rcases s.acceptSocket_cases newSocket with same | ⟨available, accepted⟩
  · rwa [same]
  · rw [accepted]
    have opened : Genuine { s with kernel := s.kernel.openAt newSocket .connection available } :=
      genuine.same rfl rfl rfl id
    exact opened.addSocket newSocket

theorem Genuine.serve {p : ℕ} {event : ReadyEvent} (genuine : Genuine s) (can : s.CanReport p event)
    (leaves : ∀ bytes buff useLen, event = .data bytes buff useLen →
      ((s.info p).data.received bytes).room = 0 → 0 < useLen) : Genuine (s.serve p event) := by
  have asked := genuine.callRecv p
  cases event with
  | out => exact (genuine.call p .onADisconnected fun impossible => nomatch impossible).endConnection p _
  | again => exact asked
  | error => exact (asked.call p .onADisconnected fun impossible => nomatch impossible).endConnection p _
  | eof =>
    have closed : s.peerClosed p = true :=
      can.resolve_right fun full => absurd (genuine.buffers p).room (by omega)
    exact (asked.call p .onDisconnected fun _ => closed).endConnection p _
  | data bytes buff useLen =>
    obtain ⟨own, other⟩ := s.serve_data p bytes buff useLen
    have called := asked.call p .onRecvData fun impossible => nomatch impossible
    refine ⟨fun q => ?_, called.requests, called.ended⟩
    rcases eq_or_ne q p with rfl | apart
    · rw [own]
      exact (genuine.buffers q).consume can (leaves bytes buff useLen rfl) buff
    · rw [other q apart]
      exact genuine.buffers q

theorem Genuine.step {event : SocketServerEvent} (genuine : Genuine s) (step : RoomStep s event t) :
    Genuine t := by
  obtain ⟨⟨enabled, rfl⟩, leaves⟩ := step
  cases event with
  | takeIdx => exact genuine.same rfl rfl rfl id
  | start granted =>
    have ready : s.phase ≠ .closed := by
      rw [show s.phase = .ready from enabled]
      decide
    rw [apply, start_eq]
    exact genuine.same rfl rfl rfl fun _ => ready
  | enterLoop fd =>
    have started : s.phase ≠ .closed := by
      rw [show s.phase = .started from enabled]
      decide
    obtain ⟨new, old⟩ := s.manager.info_getClinetInfo s.serverFd
    refine ⟨fun p => ?_, genuine.requests, fun _ => genuine.ended started⟩
    rcases eq_or_ne p s.manager.infos.next with rfl | apart
    · exact (congrArg SocketInfo.data new).symm ▸ hasRoom_fresh
    · exact (congrArg SocketInfo.data (old p apart)).symm ▸ genuine.buffers p
  | epoll p newSocket event =>
    obtain ⟨_, _, can⟩ := enabled
    have used : Genuine (s.useInfo p) := genuine.same rfl rfl rfl id
    rw [apply, runEpoll]
    split_ifs
    · exact used.acceptSocket newSocket
    · refine used.serve can ?_
      rintro bytes buff useLen rfl
      exact leaves
  | closeSocket p => exact genuine.same rfl rfl rfl id
  | peerClose p => exact genuine.same rfl rfl rfl id
  | stop => exact genuine.same rfl rfl rfl id
  | leaveLoop => exact genuine.same rfl rfl rfl fun _ => by rw [enabled.1]; decide
  | close =>
    refine ⟨fun p => ?_, genuine.requests, fun open_ => absurd rfl open_⟩
    have same : (s.apply .close).info p = s.info p := congrFun s.manager.content_close.1 p
    rw [same]
    exact genuine.buffers p

/-- In every run in which the handler uses something of each full buffer, `recv` is never asked for
nothing, and `run_epoll` reports a connection as disconnected only after its peer has closed it. -/
theorem disconnected_genuine {kernel : Kernel ℕ} {serverFd : ℤ} {idx : UInt32}
    {events : List SocketServerEvent}
    (run : Run RoomStep (initial kernel serverFd idx : SocketServer ρ) events t) :
    (∀ len ∈ t.recvLens, 0 < len) ∧
    (t.phase ≠ .closed → ∀ call ∈ t.calls, call.callback = .onDisconnected →
      call.peerClosed = true) := by
  have start : Genuine (initial kernel serverFd idx : SocketServer ρ) :=
    ⟨fun _ => hasRoom_fresh, fun _ member => (nomatch member), fun _ _ member => (nomatch member)⟩
  have genuine : Genuine t := run.invariant Genuine (fun _ _ _ genuine step => genuine.step step) start
  exact ⟨genuine.requests, genuine.ended⟩

/-- The next event of a connection whose buffer is full ends it, whether or not its peer has closed. -/
theorem full_disconnects {p : ℕ} (ready : s.Ready p .eof) (running : s.phase = .running)
    (connection : (s.info p).fd ≠ s.serverFd) (full : (s.info p).data.room = 0) (newSocket : ℤ) :
    Step s (.epoll p newSocket .eof) (s.runEpoll p newSocket .eof) ∧
      (s.runEpoll p newSocket .eof).phase = .running ∧ 0 ∈ (s.runEpoll p newSocket .eof).recvLens ∧
      ⟨p, .onDisconnected, s.manager.infos.live p, s.peerClosed p⟩ ∈
        (s.runEpoll p newSocket .eof).calls := by
  refine ⟨⟨⟨running, ready, Or.inr full⟩, rfl⟩, ?_⟩
  rw [runEpoll_connection connection]
  refine ⟨running, List.mem_append_right _ ?_, List.mem_append_right _ (List.mem_singleton.mpr rfl)⟩
  exact List.mem_singleton.mpr full.symm

/-- A handler that waits, and a peer that closes. -/
def waitThenClose : List SocketServerEvent :=
  acceptOne ++ [.epoll 2 6 (.data [1, 2] (fun _ => 0) 0)] ++ [.peerClose 2] ++ [.epoll 2 6 .eof]

theorem waitThenClose_genuine : ∃ t, Run RoomStep bound waitThenClose t ∧ (∀ len ∈ t.recvLens, 0 < len) ∧
    ∀ call ∈ t.calls, call.callback = .onDisconnected → call.peerClosed = true := by
  have replays : Run.Replays (fun s event => Enabled s event ∧ s.LeavesRoom event) apply bound
    waitThenClose := by
    refine ⟨⟨rfl, trivial⟩, ⟨rfl, trivial⟩,
      ⟨⟨rfl, ⟨.epollIn, ?_, fun impossible => nomatch impossible⟩, trivial⟩, trivial⟩,
      ⟨⟨rfl, ⟨.epollIn, ?_, fun impossible => nomatch impossible⟩, ?_⟩, fun full => absurd full ?_⟩,
      ⟨trivial, trivial⟩, ⟨⟨rfl, ⟨.epollIn, ?_, fun impossible => nomatch impossible⟩, Or.inl ?_⟩,
      trivial⟩, trivial⟩
    · decide +kernel
    · decide +kernel
    · exact show SocketData.Fits _ _ by decide +kernel
    · decide +kernel
    · decide +kernel
    · decide +kernel
  have run : Run RoomStep bound waitThenClose (waitThenClose.foldl apply bound) :=
    Run.of_replays_guarded _ _ replays
  obtain ⟨requests, ended⟩ := disconnected_genuine run
  exact ⟨_, run, requests, ended (by decide +kernel)⟩

/-- The first message is as large as the buffer, and the handler waits for its rest. -/
def fillBuffer : SocketServerEvent := .epoll 2 6 (.data (List.replicate (8 * 1024) 0) (fun _ => 0) 0)

/-- The peer is alive, but `recv` is asked for nothing and the connection is reported as disconnected. -/
theorem full_buffer_disconnects : ∃ events t, Run Step bound events t ∧ t.phase = .running ∧
    0 ∈ t.recvLens ∧
    ∃ call ∈ t.calls, call.callback = .onDisconnected ∧ call.peerClosed = false := by
  generalize isAccepted : acceptOne.foldl apply bound = s
  have accepted : Run Step bound acceptOne s := isAccepted ▸ run_acceptOne
  have connection : (s.info 2).fd ≠ s.serverFd ∧ s.phase = .running ∧ s.peerClosed 2 = false ∧
      (s.info 2).data.capacity = 8 * 1024 ∧ (s.info 2).data.buffLen = 0 := by
    rw [← isAccepted]
    decide +kernel
  obtain ⟨isConnection, running, alive, capacity, empty⟩ := connection
  have registered : s.kernel.epoll s.epfd (s.info 2).fd = some ⟨.epollIn, 2⟩ := by
    rw [← isAccepted]
    decide +kernel
  have fits : (s.info 2).data.Fits (List.replicate (8 * 1024) 0) := by
    refine ⟨fun empty => absurd (congrArg List.length empty) (by rw [List.length_replicate]; decide), ?_⟩
    rw [SocketData.room, capacity, empty, List.length_replicate]
    decide
  have filled : Step s fillBuffer (s.apply fillBuffer) :=
    ⟨⟨running, ⟨.epollIn, registered, fun impossible => nomatch impossible⟩, fits⟩, rfl⟩
  have served : s.apply fillBuffer = (s.useInfo 2).serve 2 _ := runEpoll_connection isConnection 6 _
  obtain ⟨own, _⟩ := (s.useInfo 2).serve_data 2 (List.replicate (8 * 1024) 0) (fun _ => 0) 0
  have full : ((s.apply fillBuffer).info 2).data.room = 0 := by
    rw [served, own, SocketData.consume_waiting le_rfl]
    · change (s.info 2).data.capacity -
        ((s.info 2).data.buffLen + (List.replicate (8 * 1024) 0 : List UInt8).length) = 0
      rw [capacity, empty, List.length_replicate]
      decide
    · change 0 < (s.info 2).data.buffLen + (List.replicate (8 * 1024) 0 : List UInt8).length
      rw [empty, List.length_replicate]
      decide
  have fd : ((s.apply fillBuffer).info 2).fd = (s.info 2).fd := by
    rw [served]
    exact ((s.useInfo 2).fd_serve_data 2 2 _ _ _).1
  have ready : (s.apply fillBuffer).Ready 2 .eof := by
    refine ⟨.epollIn, ?_, fun impossible => nomatch impossible⟩
    rw [fd, served]
    exact registered
  rw [served] at filled fd full ready
  obtain ⟨last, stays, request, reported⟩ :=
    full_disconnects ready running (fd.trans_ne isConnection) full 6
  exact ⟨_, _, .next (.next accepted filled) last, stays, request, _, reported, rfl, alive⟩

end SocketServer

end LinuxZero
