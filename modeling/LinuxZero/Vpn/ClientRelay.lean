import LinuxZero.Vpn.ClientPair
import LinuxZero.Vpn.RelayPeers

/-! # The stream through the client

`vpn_client_event` offers what it has received to `send` and reports the whole buffer as used, whatever
`send` returns; the relay of the server reports what was sent. Both forward the same stream exactly
when every send takes all it is offered.
-/

namespace LinuxZero.Vpn

/-- What `recv` returned on one end, and what `send` then returns on the other. -/
structure RelayRound where
  bytes : List UInt8
  result : ℤ
deriving DecidableEq, Repr

/-- The connection `a` is relayed to `b`, its buffer is empty, and everything that was received on it
has been sent on. -/
structure Drained {δ ρ : Type} (k : Kernel δ) (info : ρ → SocketInfo ρ) (a b : ρ)
    (stream : List UInt8) : Prop where
  ptr : (info a).data.ptr = some b
  opened : k.files (info b).fd = some .connection
  empty : (info a).data.buffLen = 0
  received : k.received (info a).fd = stream
  sent : k.sent (info b).fd = stream

namespace ClientPair

variable {s : ClientPair} {a b : PairEnd} {stream : List UInt8}

/-- The rounds, one after the other. -/
def relayAll (s : ClientPair) (a : PairEnd) (rounds : List RelayRound) : ClientPair :=
  rounds.foldl (fun s round => s.receive a round.bytes round.result) s

/-- Results that the system can give: a chunk that fits the buffer, and a positive count of the bytes
offered. -/
def Accepts (s : ClientPair) (a : PairEnd) : List RelayRound → Prop
  | [] => True
  | round :: rest => (s.info a).data.Fits round.bytes ∧ 0 < round.result ∧
      round.result ≤ (s.info a).data.buffLen + round.bytes.length ∧
      (s.receive a round.bytes round.result).Accepts a rest

/-- What was sent to `b` is a prefix of what was received on `a`, and the rest is in the buffer. -/
def Whole (s : ClientPair) (a b : PairEnd) : Prop :=
  s.kernel.received (s.info a).fd = s.kernel.sent (s.info b).fd ++ (s.info a).data.content

instance (s : ClientPair) (a b : PairEnd) : Decidable (s.Whole a b) := inferInstanceAs (Decidable (_ = _))

theorem info_setData (s : ClientPair) (a : PairEnd) (f : SocketData PairEnd → SocketData PairEnd) :
    (s.setData a f).info a = { s.info a with data := f (s.info a).data } := Function.update_self ..

theorem fd_setData (s : ClientPair) (a b : PairEnd) (f : SocketData PairEnd → SocketData PairEnd) :
    ((s.setData a f).info b).fd = (s.info b).fd := by
  change SocketInfo.fd (Function.update s.info a _ b) = _
  rcases eq_or_ne b a with rfl | apart
  · rw [Function.update_self]
  · rw [Function.update_of_ne apart]

/-- A chunk is offered to `send` once, and leaves the buffer. -/
structure Forwards (s : ClientPair) (a b : PairEnd) (bytes : List UInt8) (result : ℤ)
    (t : ClientPair) : Prop where
  fd : ∀ c, (t.info c).fd = (s.info c).fd
  data : (t.info a).data = ((s.info a).data.received bytes).consume
    ((s.info a).data.received bytes).buffLen
  files : t.kernel.files = s.kernel.files
  received : t.kernel.received =
    Function.update s.kernel.received (s.info a).fd (s.kernel.received (s.info a).fd ++ bytes)
  sent : t.kernel.sent =
    (s.kernel.send (s.info b).fd ((s.info a).data.received bytes).content result).2.sent

theorem receive_forwards (ptr : (s.info a).data.ptr = some b) (bytes : List UInt8) (result : ℤ) :
    Forwards s a b bytes result (s.receive a bytes result) := by
  have own : (s.recvInto a bytes).info a =
    { s.info a with data := (s.info a).data.received bytes } := info_setData ..
  have peer : ((s.recvInto a bytes).info b).fd = (s.info b).fd := fd_setData ..
  have ptr' : ((s.recvInto a bytes).info a).data.ptr = some b := by
    rw [own]
    exact ptr
  have kernel : (s.recvInto a bytes).kernel = s.kernel.recv (s.info a).fd bytes := rfl
  have sent := (s.kernel.send_recv (s.info a).fd (s.info b).fd bytes
    ((s.info a).data.received bytes).content result).2
  rw [receive, onRecvData, ptr']
  dsimp only
  rw [peer, own, kernel]
  refine ⟨fun c => ?_, ?_, Kernel.files_send .., Kernel.received_send .., sent⟩
  · exact (fd_setData ..).trans (fd_setData { s with kernel := s.kernel.recv (s.info a).fd bytes } a
      c fun d => d.received bytes)
  · refine (congrArg SocketInfo.data (info_setData ..)).trans ?_
    exact congrArg (fun info : SocketInfo PairEnd => info.data.consume
      ((s.info a).data.received bytes).buffLen) own

end ClientPair

section Rounds

variable {δ ρ : Type} {k k' : Kernel δ} {info info' : ρ → SocketInfo ρ} {a b : ρ} {stream : List UInt8}

/-- What is offered to `send` is the chunk that has just arrived. -/
theorem Drained.offered (drained : Drained k info a b stream) (bytes : List UInt8) :
    ((info a).data.received bytes).content = bytes ∧ ((info a).data.received bytes).buffLen =
    bytes.length := by
  have nothing : (info a).data.content = [] := by
    rw [SocketData.content, drained.empty]
    rfl
  refine ⟨?_, ?_⟩
  · rw [SocketData.content_received drained.empty.ge, nothing, List.nil_append]
  · rw [SocketData.buffLen_received, drained.empty, zero_add]

/-- `send` takes some first part of it. -/
theorem Drained.sends (drained : Drained k info a b stream) {bytes : List UInt8} {result : ℤ}
    (positive : 0 < result) (within : result ≤ bytes.length) :
    (k.send (info b).fd ((info a).data.received bytes).content result).1 = result ∧
      (k.send (info b).fd ((info a).data.received bytes).content result).2.sent =
        Function.update k.sent (info b).fd (stream ++ bytes.take result.toNat) := by
  rw [(drained.offered bytes).1, Kernel.send_of ⟨drained.opened, positive.le, within⟩, drained.sent]
  exact ⟨rfl, rfl⟩

/-- A chunk that `send` takes whole leaves the connection drained. -/
theorem Drained.next (drained : Drained k info a b stream) {bytes : List UInt8} {useLen : ℤ}
    (some_ : bytes ≠ []) (fd : ∀ c, (info' c).fd = (info c).fd)
    (data : (info' a).data = ((info a).data.received bytes).consume useLen)
    (used : useLen = bytes.length) (files : k'.files = k.files)
    (received : k'.received = Function.update k.received (info a).fd
      (k.received (info a).fd ++ bytes))
    (sent : k'.sent = (k.send (info b).fd ((info a).data.received bytes).content bytes.length).2.sent) :
    Drained k' info' a b (stream ++ bytes) := by
  have positive : (0 : ℤ) < bytes.length := by exact_mod_cast List.length_pos_iff.mpr some_
  have offered := (drained.offered bytes).2
  refine ⟨?_, ?_, ?_, ?_, ?_⟩
  · rw [data, SocketData.ptr_consume, SocketData.ptr_received]
    exact drained.ptr
  · rw [files, fd]
    exact drained.opened
  · rw [data, SocketData.buffLen_consume (by omega), offered, used]
    omega
  · rw [received, fd, Function.update_self, drained.received]
  · rw [sent, (drained.sends positive le_rfl).2, fd, Function.update_self, Int.toNat_natCast,
      List.take_length]

end Rounds

/-- The same rounds on the data channel server. -/
def DataChannelServer.relayAll (t : DataChannelServer) (p : ℕ) (rounds : List RelayRound) :
    DataChannelServer :=
  rounds.foldl (fun t round => t.runEpoll p (.data round.bytes round.result)) t

namespace ClientPair

variable {s : ClientPair} {a b : PairEnd} {t : DataChannelServer} {p q : ℕ} {stream shared : List UInt8}

/-- Both relays have sent the same to the peer and hold the same bytes back. -/
def Matches (s : ClientPair) (a b : PairEnd) (t : DataChannelServer) (p q : ℕ) : Prop :=
  s.kernel.sent (s.info b).fd = t.kernel.sent (t.socket q).fd ∧
    (s.info a).data.content = (t.socket p).data.content

/-- One round that the client's `send` takes whole. -/
theorem drained_receive (drained : Drained s.kernel s.info a b stream) {round : RelayRound}
    (fits : (s.info a).data.Fits round.bytes) (full : round.result = round.bytes.length) :
    Drained (s.receive a round.bytes round.result).kernel (s.receive a round.bytes round.result).info a b
      (stream ++ round.bytes) := by
  have forwards := receive_forwards drained.ptr round.bytes round.result
  refine drained.next fits.1 forwards.fd forwards.data (drained.offered round.bytes).2
    forwards.files forwards.received ?_
  rw [forwards.sent, full]

/-- One round that the server's `send` takes whole. -/
theorem drained_runEpoll (drained : Drained t.kernel t.socket p q stream) {round : RelayRound}
    (some_ : round.bytes ≠ []) (full : round.result = round.bytes.length) :
    Drained (t.runEpoll p (.data round.bytes round.result)).kernel
      (t.runEpoll p (.data round.bytes round.result)).socket
      p q (stream ++ round.bytes) := by
  have positive : (0 : ℤ) < round.bytes.length := by exact_mod_cast List.length_pos_iff.mpr some_
  have relays := DataChannelServer.runEpoll_relays drained.ptr round.bytes round.result
  have sent := (drained.sends (full ▸ positive) full.le).1
  refine drained.next some_ relays.handles.fd_eq relays.data ?_ relays.files relays.received ?_
  · rw [sent, if_pos (full ▸ positive), full]
  · rw [relays.sent, full]

/-- After a round that the client's `send` takes in part, the stream is whole only if that part is
everything. -/
theorem full_of_whole (drained : Drained s.kernel s.info a b stream) {round : RelayRound}
    (positive : 0 < round.result) (within : round.result ≤ round.bytes.length)
    (whole : (s.receive a round.bytes round.result).Whole a b) :
    round.result = round.bytes.length := by
  have forwards := receive_forwards drained.ptr round.bytes round.result
  obtain ⟨offered, length⟩ := drained.offered round.bytes
  have dropped : ((s.receive a round.bytes round.result).info a).data.content = [] := by
    rw [forwards.data, SocketData.content_consume (by omega), offered, length, Int.toNat_natCast,
      List.drop_length]
  have received : (s.receive a round.bytes round.result).kernel.received
      ((s.receive a round.bytes round.result).info a).fd = stream ++ round.bytes := by
    rw [forwards.received, forwards.fd, Function.update_self, drained.received]
  have sent : (s.receive a round.bytes round.result).kernel.sent
      ((s.receive a round.bytes round.result).info b).fd = stream ++ round.bytes.take
      round.result.toNat := by
    rw [forwards.sent, (drained.sends positive within).2, forwards.fd, Function.update_self]
  have same : stream ++ round.bytes = stream ++ round.bytes.take round.result.toNat := by
    rw [← received, ← sent, whole, dropped, List.append_nil]
  have lengths := congrArg List.length (List.append_cancel_left same)
  rw [List.length_take] at lengths
  omega

theorem drained_whole (drained : Drained s.kernel s.info a b stream) : s.Whole a b := by
  have empty : (s.info a).data.content = [] := by
    rw [SocketData.content, drained.empty]
    rfl
  rw [Whole, drained.received, drained.sent, empty, List.append_nil]

theorem drained_matches (drained : Drained s.kernel s.info a b stream)
    (server : Drained t.kernel t.socket p q stream) :
    s.Matches a b t p q := by
  refine ⟨drained.sent.trans server.sent.symm, ?_⟩
  rw [SocketData.content, SocketData.content, drained.empty, server.empty]
  rfl

/-- A client connection and a server connection have forwarded the same stream so far, and the same
results of `recv` and `send` follow on both. At every moment the client has sent a prefix of what it
has received, holds the rest in its buffer and agrees with the server in both, if and only if every
`send` takes all that it is offered. -/
theorem client_stream_whole_iff {rounds : List RelayRound} (drained : Drained s.kernel s.info a b stream)
    (server : Drained t.kernel t.socket p q stream) (accepts : s.Accepts a rounds) :
    (∀ before, before <+: rounds → (s.relayAll a before).Whole a b ∧
      (s.relayAll a before).Matches a b (t.relayAll p before) p q) ↔
    ∀ round ∈ rounds, round.result = round.bytes.length := by
  induction rounds generalizing s t stream with
  | nil =>
    refine ⟨fun _ _ member => absurd member List.not_mem_nil, fun _ before initial => ?_⟩
    obtain rfl := List.prefix_nil.mp initial
    exact ⟨drained_whole drained, drained_matches drained server⟩
  | cons round rest ih =>
    obtain ⟨fits, positive, within, later⟩ := accepts
    rw [drained.empty, zero_add] at within
    have continues : round.result = round.bytes.length → ((∀ before, before <+: rest →
        ((s.receive a round.bytes round.result).relayAll a before).Whole a b ∧
          ((s.receive a round.bytes round.result).relayAll a before).Matches a b
            ((t.runEpoll p (.data round.bytes round.result)).relayAll p before) p q) ↔
        ∀ next ∈ rest, next.result = next.bytes.length) :=
      fun full => ih (drained_receive drained fits full) (drained_runEpoll server fits.1 full) later
    constructor
    · intro whole
      have full := full_of_whole drained positive within (whole [round] ⟨rest, rfl⟩).1
      refine List.forall_mem_cons.mpr ⟨full, (continues full).mp fun before initial => ?_⟩
      exact whole (round :: before) (List.prefix_cons_inj round |>.mpr initial)
    · intro full before initial
      obtain ⟨fullFirst, fullRest⟩ := List.forall_mem_cons.mp full
      cases before with
      | nil => exact ⟨drained_whole drained, drained_matches drained server⟩
      | cons first before =>
        obtain ⟨rfl, further⟩ := List.cons_prefix_cons.mp initial
        exact (continues fullFirst).mpr fullRest before further

/-- The pair once the control thread has joined it. -/
def joinedPair : ClientPair := (initial onePair).waitCreateTcpChannel

theorem drained_joinedPair (a : PairEnd) : Drained joinedPair.kernel joinedPair.info a a.other [] := by
  cases a <;> exact ⟨by
      decide +kernel, by decide +kernel, by decide +kernel, by decide +kernel, by decide +kernel⟩

theorem drained_bothRelayed :
    Drained DataChannelServer.bothRelayed.kernel DataChannelServer.bothRelayed.socket 1 2 [] :=
  ⟨by decide +kernel, by decide +kernel, by decide +kernel, by decide +kernel, by decide +kernel⟩

/-- Two chunks that are sent on whole. -/
def twoChunks : List RelayRound := [⟨[10, 20], 2⟩, ⟨[30], 1⟩]

theorem joinedPair_forwards : (joinedPair.relayAll .sInfo twoChunks).Whole .sInfo .lInfo ∧
    (joinedPair.relayAll .sInfo twoChunks).Matches .sInfo .lInfo
      (DataChannelServer.bothRelayed.relayAll 1 twoChunks) 1 2 := by
  have accepts : joinedPair.Accepts .sInfo twoChunks :=
    ⟨by decide +kernel, by decide, by decide +kernel, by decide +kernel, by decide, by decide +kernel,
      trivial⟩
  refine (client_stream_whole_iff (drained_joinedPair .sInfo) drained_bothRelayed accepts).mpr ?_
    twoChunks List.prefix_rfl
  decide

/-- When `send` takes the first of two bytes, the client drops the second one and the server keeps it. -/
theorem partial_send_loses_bytes :
    ¬ ∀ (s : ClientPair) (a b : PairEnd) (t : DataChannelServer) (p q : ℕ) (rounds : List RelayRound),
      Drained s.kernel s.info a b [] → Drained t.kernel t.socket p q [] → s.Accepts a rounds →
      ∀ before, before <+: rounds → (s.relayAll a before).Whole a b ∧
        (s.relayAll a before).Matches a b (t.relayAll p before) p q := by
  intro claimed
  have whole := (claimed joinedPair .sInfo .lInfo DataChannelServer.bothRelayed 1 2 [⟨[10, 20], 1⟩]
    (drained_joinedPair .sInfo) drained_bothRelayed
    ⟨by decide +kernel, by decide, by decide +kernel, trivial⟩
    _ List.prefix_rfl).1
  revert whole
  decide +kernel

end ClientPair

end LinuxZero.Vpn
