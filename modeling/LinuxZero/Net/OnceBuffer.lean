import LinuxZero.Net.SocketClientOnce

/-! # Whose bytes the receive buffer holds

`connect` fills in the same `m_socket_info` again and leaves `m_data` as the last connection left it.
The bytes that the handler had not used when a connection died are therefore in front of the first
ones of the next. If it had used them all, every call of `on_recv_data` sees bytes of its own
connection only.
-/

namespace LinuxZero

namespace SocketClientOnce

variable {ρ : Type} {s t : SocketClientOnce ρ} {event : SocketClientOnceEvent}

/-- The handler leaves `m_data` untouched. -/
def LeavesData (s : SocketClientOnce ρ) : SocketClientOnceEvent → Prop
  | .poll (.ready (.data bytes buff _)) => buff = (s.info.data.received bytes).buff
  | _ => True

def UntouchedStep (s : SocketClientOnce ρ) (event : SocketClientOnceEvent)
    (t : SocketClientOnce ρ) : Prop :=
  Step s event t ∧ s.LeavesData event

/-- A connection is made while nothing is left of the one before. -/
def StartsEmpty (s : SocketClientOnce ρ) : SocketClientOnceEvent → Prop
  | .connect answers => s.Connects answers → s.info.data.buffLen = 0
  | _ => True

def CleanStep (s : SocketClientOnce ρ) (event : SocketClientOnceEvent) (t : SocketClientOnce ρ) : Prop :=
  UntouchedStep s event t ∧ s.StartsEmpty event

/-- Each call of `on_recv_data` sees the last bytes that its own connection has received. -/
def SeesOwnBytes (calls : List OnceCall) : Prop :=
  ∀ content stream, .onRecvData content stream ∈ calls → content <:+ stream

/-- The buffer holds the last bytes of the registered connection. -/
structure OwnBytes (s : SocketClientOnce ρ) : Prop where
  nonneg : 0 ≤ s.info.data.buffLen
  current : s.kernel.epoll s.epfd s.info.fd ≠ none → s.info.data.content <:+ s.kernel.received s.info.fd
  seen : SeesOwnBytes s.calls

theorem SeesOwnBytes.append {calls : List OnceCall} {call : OnceCall} (seen : SeesOwnBytes calls)
    (own : ∀ content stream, call = .onRecvData content stream → content <:+ stream) :
    SeesOwnBytes (calls ++ [call]) := by
  intro content stream member
  rcases List.mem_append.mp member with old | new
  · exact seen content stream old
  · exact own content stream (List.mem_singleton.mp new).symm

theorem ownBytes_initial (kernel : Kernel Unit) (epfd : ℤ) (available : kernel.Available epfd)
    (localIp : Bool) (autoReconnectS : ℤ) :
    OwnBytes (initial kernel epfd available localIp autoReconnectS : SocketClientOnce ρ) where
  nonneg := le_rfl
  current _ := List.nil_suffix
  seen _ _ member := absurd member List.not_mem_nil

/-- A chunk of the connection goes behind its other bytes, and the handler takes some off the front. -/
theorem OwnBytes.data (own : OwnBytes s) (present : s.kernel.epoll s.epfd s.info.fd ≠ none)
    (bytes : List UInt8) (useLen : ℤ) :
    OwnBytes (s.serve (.data bytes (s.info.data.received bytes).buff useLen)) := by
  have grown : 0 ≤ (s.info.data.received bytes).buffLen := by
    rw [SocketData.buffLen_received]
    have nonneg := own.nonneg
    omega
  have stream : (s.kernel.recv s.info.fd bytes).received s.info.fd =
    s.kernel.received s.info.fd ++ bytes :=
    Function.update_self ..
  have suffix : (s.info.data.received bytes).content <:+ (s.kernel.recv s.info.fd bytes).received
    s.info.fd := by
    rw [SocketData.content_received own.nonneg, stream]
    exact List.suffix_append_self_iff.mpr (own.current present)
  refine ⟨SocketData.buffLen_consume_nonneg grown useLen, fun _ => ?_, ?_⟩
  · change ((s.info.data.received bytes).consume useLen).content <:+ _
    rw [SocketData.content_consume grown]
    exact (List.drop_suffix ..).trans suffix
  · refine own.seen.append ?_
    rintro content stream ⟨⟩
    exact suffix

/-- A step that touches neither the buffer nor what the registered connection has received. -/
theorem OwnBytes.keep (own : OwnBytes s) (info : t.info.data = s.info.data) (calls : SeesOwnBytes t.calls)
    (current : t.kernel.epoll t.epfd t.info.fd ≠ none → s.kernel.epoll s.epfd s.info.fd ≠ none ∧
      t.kernel.received t.info.fd = s.kernel.received s.info.fd) : OwnBytes t := by
  refine ⟨info ▸ own.nonneg, fun present => ?_, calls⟩
  obtain ⟨before, stream⟩ := current present
  rw [info, stream]
  exact own.current before

theorem OwnBytes.advance (own : OwnBytes s) : OwnBytes s.advance := by
  unfold SocketClientOnce.advance
  split
  · exact own.keep rfl own.seen fun present => ⟨present, rfl⟩
  · exact own.keep rfl own.seen fun present => ⟨present, rfl⟩
  · split_ifs
    · exact own.keep rfl own.seen fun present => ⟨present, rfl⟩
    · exact own.keep rfl own.seen fun present => absurd (if_pos (Or.inl rfl)) present
  · split_ifs <;> exact own.keep rfl own.seen fun present => ⟨present, rfl⟩
  · exact own

/-- The connection is closed, and with it its registration. -/
theorem OwnBytes.endConnection (own : OwnBytes s) (call : OnceCall)
    (noData : ∀ content stream, call ≠ .onRecvData content stream) :
    OwnBytes (s.call call).endConnection := by
  refine own.keep rfl (own.seen.append fun content stream same => absurd same
    (noData content stream)) fun present => ?_
  exact absurd (if_pos ⟨rfl, rfl⟩) present

theorem OwnBytes.step (own : OwnBytes s) (wired : Wired s) (step : CleanStep s event t) : OwnBytes t := by
  obtain ⟨⟨⟨enabled, rfl⟩, untouched⟩, empty⟩ := step
  cases event with
  | thread => exact own.advance
  | connect answers =>
    obtain ⟨interval, phase⟩ := enabled
    simp only [apply, phase]
    rcases wired.loopConnect (by simp [phase]) interval answers with
      ⟨_, kernel, restored, result⟩ | ⟨connects, kernel, joined, ⟨_, result⟩ | ⟨_, result⟩⟩
    · rw [result]
      refine own.keep rfl own.seen fun present => ?_
      have before : s.kernel.epoll s.epfd s.info.fd ≠ none :=
        congrFun (congrFun restored.epoll s.epfd) s.info.fd ▸ present
      exact ⟨before, restored.received _ (s.kernel.registered s.epfd s.info.fd before).2⟩
    · -- the new connection has received nothing, and the buffer is empty
      rw [result]
      refine ⟨own.nonneg, fun _ => ?_, own.seen.append (by rintro _ _ ⟨⟩)⟩
      have nothing : s.info.data.content = [] := by
        rw [SocketData.content, empty connects]
        rfl
      simp only [nothing, List.nil_suffix]
    · rw [result]
      refine own.keep rfl (own.seen.append (by rintro _ _ ⟨⟩)) fun present => ?_
      exact absurd (if_pos (Or.inr rfl)) present
  | poll result =>
    cases result with
    | failed => exact own.keep rfl own.seen fun present => absurd (if_pos (Or.inl rfl)) present
    | timeOut =>
      exact own.keep rfl (own.seen.append (by rintro _ _ ⟨⟩)) fun present => ⟨present, rfl⟩
    | ready event =>
      obtain ⟨_, interest, registered, _⟩ := enabled
      cases event with
      | out => exact own.endConnection .onADisconnected (by rintro _ _ ⟨⟩)
      | again => exact own.keep rfl own.seen fun present => ⟨present, rfl⟩
      | error => exact own.endConnection .onADisconnected (by rintro _ _ ⟨⟩)
      | eof => exact own.endConnection .onDisconnected (by rintro _ _ ⟨⟩)
      | data bytes buff useLen =>
        obtain rfl : buff = (s.info.data.received bytes).buff := untouched
        exact own.data (by simp [registered]) bytes useLen
  | stopRun => exact own.keep rfl own.seen fun present => ⟨present, rfl⟩
  | stopReconnect => exact own.keep rfl own.seen fun present => ⟨present, rfl⟩
  | closeSocket =>
    refine own.keep rfl own.seen fun present =>
      ⟨fun absent => present (Kernel.epollMod_eq_none.mpr absent), ?_⟩
    exact congrFun (Kernel.received_epollMod ..) s.info.fd

/-- If every connection starts with an empty buffer, the handler sees bytes of the current one only. -/
theorem sees_own_bytes (kernel : Kernel Unit) (epfd : ℤ) (available : kernel.Available epfd)
    (localIp : Bool) (autoReconnectS : ℤ) {events : List SocketClientOnceEvent}
    (run : Run CleanStep (initial kernel epfd available localIp autoReconnectS) events s) :
    SeesOwnBytes s.calls :=
  (run.invariant_with Wired OwnBytes (fun _ _ _ wired step => wired.step step.1.1)
    (fun _ _ _ wired own step => own.step wired step)
    (wired_initial kernel epfd available localIp autoReconnectS)
    (ownBytes_initial kernel epfd available localIp autoReconnectS)).2.seen

/-- A client with the epoll set 3 that tries again after one second. -/
def resuming : SocketClientOnce ℕ := initial .empty 3 Kernel.three_available false 1

/-- What the first call of `recv` leaves in the memory of the buffer. -/
def firstChunk : Memory := (({} : SocketData ℕ).received [1, 2]).buff

/-- What a second one leaves behind it. -/
def secondChunk : Memory := ((({} : SocketData ℕ).received [1, 2]).received [3]).buff

/-- What it leaves when the first chunk has been used. -/
def nextChunk : Memory := (((({} : SocketData ℕ).received [1, 2]).consume 2).received [3]).buff

/-- A message is used as a whole, the connection ends, and the next one sends a byte. -/
def wholeMessage : List SocketClientOnceEvent :=
  [.thread, .connect { newSocket := 4 }, .thread, .poll (.ready (.data [1, 2] firstChunk 2)), .thread,
    .poll (.ready .eof), .thread, .thread, .connect { newSocket := 4 }, .thread,
    .poll (.ready (.data [3] nextChunk 1))]

theorem wholeMessage_own : .onRecvData [3] [3] ∈ (wholeMessage.foldl apply resuming).calls ∧
    SeesOwnBytes (wholeMessage.foldl apply resuming).calls := by
  have replays : Run.Replays (fun s event => s.Enabled event ∧ s.LeavesData event ∧
    s.StartsEmpty event) apply
      resuming wholeMessage := by
    refine ⟨⟨trivial, trivial, trivial⟩, ⟨⟨5, rfl⟩, trivial, fun _ => rfl⟩, ⟨trivial, trivial, trivial⟩,
      ⟨⟨rfl, .epollIn, by decide +kernel, nofun, by decide +kernel⟩, rfl, trivial⟩,
      ⟨trivial, trivial, trivial⟩, ⟨⟨rfl, .epollIn, by decide +kernel, nofun, trivial⟩, trivial,
      trivial⟩, ⟨trivial, trivial, trivial⟩, ⟨trivial, trivial, trivial⟩,
      ⟨⟨1, rfl⟩, trivial, fun _ => by decide +kernel⟩, ⟨trivial, trivial, trivial⟩,
      ⟨⟨rfl, .epollIn, by decide +kernel, nofun, by decide +kernel⟩, rfl, trivial⟩, trivial⟩
  refine ⟨by decide +kernel, sees_own_bytes .empty 3 Kernel.three_available false 1
    ((Run.of_replays_guarded wholeMessage _ replays).mono ?_)⟩
  exact fun _ _ _ step => ⟨⟨step.1, step.2.1⟩, step.2.2⟩

/-- A connection ends in the middle of a message, and the next one sends one byte. -/
def brokenMessage : List SocketClientOnceEvent :=
  [.thread, .connect { newSocket := 4 }, .thread, .poll (.ready (.data [1, 2] firstChunk 0)), .thread,
    .poll (.ready .error), .thread, .thread, .connect { newSocket := 4 }, .thread,
    .poll (.ready (.data [3] secondChunk 0))]

/-- The handler gets the two bytes of the dead connection in front of the new one. -/
theorem stale_bytes_seen : ∃ s, Run UntouchedStep resuming brokenMessage s ∧ ¬ SeesOwnBytes s.calls := by
  have replays : Run.Replays (fun s event => s.Enabled event ∧ s.LeavesData event) apply resuming
    brokenMessage := by
    refine ⟨⟨trivial, trivial⟩, ⟨⟨5, rfl⟩, trivial⟩, ⟨trivial, trivial⟩,
      ⟨⟨rfl, .epollIn, by decide +kernel, nofun, by decide +kernel⟩, rfl⟩, ⟨trivial, trivial⟩,
      ⟨⟨rfl, .epollIn, by decide +kernel, nofun, trivial⟩, trivial⟩, ⟨trivial, trivial⟩,
      ⟨trivial, trivial⟩, ⟨⟨1, rfl⟩, trivial⟩, ⟨trivial, trivial⟩,
      ⟨⟨rfl, .epollIn, by decide +kernel, nofun, by decide +kernel⟩, rfl⟩,
      trivial⟩
  refine ⟨_, Run.of_replays_guarded brokenMessage _ replays, fun seen => ?_⟩
  have own := seen [1, 2, 3] [3] (by decide +kernel)
  exact absurd own (by decide)

end SocketClientOnce

end LinuxZero
