import LinuxZero.Vpn.ClientMessages

/-! # The control stream at the client

The receive branch of `socket_client::run_epoll` with `main_client_event::on_recv_data` as its handler, over any number
of `recv` calls, with what the handlers send back. The messages of the server arrive one by one whatever the cuts, as
long as no `recv` ends with four or more bytes of an incomplete message in the buffer.
-/

namespace LinuxZero.Vpn

open Access Framing

/-- The loop of the client, and the messages that it has sent: a round that dispatches a frame sends what `deal_data`
sends. -/
def clientRecv (connected : ℕ → Bool × Bool) :
    Loop (FrameLoop × List (List UInt8)) (FrameLoop × List (List UInt8)) := fun s =>
  match clientOnRecvData connected s.1 with
  | .inl next =>
    .inl (next, s.2 ++ if next.dispatched.length = s.1.dispatched.length then []
      else sentBytes (clientDealData (connected s.1.dispatched.length) s.1.mem s.1.buff) s.1.mem)
  | .inr result => .inr (result, s.2)

/-- One receive event of the connection, on which `n` frames were dispatched before; `connected` are the outcomes of
the calls of `connect`, by the numbers of the frames. -/
def ClientReceive {ρ : Type} (connected : ℕ → Bool × Bool) (n : ℕ) (d : SocketData ρ)
    (chunk : List UInt8) (d' : SocketData ρ) (frames sent : List (List UInt8)) : Prop :=
  ∃ result, Loop.Returns (clientRecv fun k => connected (n + k))
      (FrameLoop.start (d.received chunk).buff (d.received chunk).buffLen, []) result ∧
    d' = ((d.received chunk).handled result.1.mem).consume result.1.dealLen ∧
    frames = result.1.dispatched.map Dispatch.frame ∧ sent = result.2

/-- Successive receive events, with all frames that are dispatched and all messages that are sent by them. -/
inductive ClientReceives {ρ : Type} (connected : ℕ → Bool × Bool) :
    ℕ → SocketData ρ → List (List UInt8) → SocketData ρ → List (List UInt8) → List (List UInt8) → Prop
  | nil (n : ℕ) (d : SocketData ρ) : ClientReceives connected n d [] d [] []
  | cons {n : ℕ} {d mid d' : SocketData ρ} {chunk : List UInt8}
      {chunks frames later sent sentLater : List (List UInt8)}
      (first : ClientReceive connected n d chunk mid frames sent)
      (rest : ClientReceives connected (n + frames.length) mid chunks d' later sentLater) :
      ClientReceives connected n d (chunk :: chunks) d' (frames ++ later) (sent ++ sentLater)

section Rounds

variable {connected : ℕ → Bool × Bool}

/-- The only store of the client's handlers is the outcome of a request. -/
theorem clientDealData_after (outcome : Bool × Bool) (m : Memory) (off n i : ℕ)
    (create : headType m off = creaceTcpChannel → sizeofVpnCreaceTcpChannel ≤ n) (behind : off + n ≤ i) :
    applyAll (clientDealData outcome m off) m i = m i := by
  rw [clientDealData, applyAll_append, applyAll_logMsg, applyAll_cons, apply_load]
  split_ifs with isCreate
  · have covered := create isCreate
    simp only [sizeofVpnCreaceTcpChannel] at covered
    have outside : ∀ value, off + 76 + (Memory.bytes32 value).length ≤ i := fun value => by
      rw [Memory.length_bytes32]
      omega
    rw [waitCreateTcpChannel, applyAll_append]
    split_ifs <;> exact m.write_outside (off + 76) i _ (Or.inr (outside _))
  · rfl
  · rfl

theorem sentBytes_clientDealData (outcome : Bool × Bool) (m : Memory) (off : ℕ) {frame : List UInt8}
    (create : frame.getD 2 0 = creaceTcpChannel → sizeofVpnCreaceTcpChannel ≤ frame.length)
    (held : m.read off frame.length = frame) (type : headType m off = frame.getD 2 0) :
    sentBytes (clientDealData outcome m off) m = clientSends outcome frame := by
  rw [clientDealData, sentBytes_append, sentBytes_logMsg, applyAll_logMsg, List.nil_append,
    clientSends, type]
  by_cases isCreate : frame.getD 2 0 = creaceTcpChannel
  · have covered := create isCreate
    simp only [sizeofVpnCreaceTcpChannel] at covered
    have front : frame.take 76 = m.read off 76 := by
      conv_lhs => rw [← held]
      exact Memory.read_take _ _ _ _ (by omega)
    have stored : ∀ value, (m.write (off + 76) (Memory.bytes32 value)).read off 80 =
      frame.take 76 ++ Memory.bytes32 value := by
      intro value
      rw [front]
      exact m.read_write_append off 76 (Memory.bytes32 value)
    rw [if_pos isCreate, if_pos isCreate, waitCreateTcpChannel]
    cases outcome.1 && outcome.2
    · exact congrArg (fun bytes => [bytes]) (stored 0)
    · exact congrArg (fun bytes => [bytes]) (stored 1)
  · rw [if_neg isCreate, if_neg isCreate]
    split <;> rfl

/-- A frame that lies complete in the buffer is dispatched, and its reply is sent. -/
theorem clientRecv_dispatch {s : FrameLoop} {sent : List (List UInt8)}
    (complete : needLen s.mem s.buff ≤ s.buffLen) :
    clientRecv connected (s, sent) = .inl
      ({ buff := s.buff + (needLen s.mem s.buff).toNat
         buffLen := s.buffLen - needLen s.mem s.buff
         dealLen := s.dealLen + needLen s.mem s.buff
         mem := applyAll (clientDealData (connected s.dispatched.length) s.mem s.buff) s.mem
         dispatched := s.dispatched ++ [⟨s.buff, s.mem.read s.buff (needLen s.mem s.buff).toNat⟩] },
        sent ++ sentBytes (clientDealData (connected s.dispatched.length) s.mem s.buff) s.mem) := by
  have round : clientOnRecvData connected s = .inl _ := onRecvData_dispatch complete
  have more : ∀ dispatch : Dispatch, (s.dispatched ++ [dispatch]).length ≠ s.dispatched.length := by
    intro dispatch
    rw [List.length_append]
    exact Nat.succ_ne_self _
  simp only [clientRecv, round, if_neg (more _)]

theorem clientRecv_return {s : FrameLoop} {sent : List (List UInt8)} (short : s.buffLen < 4) :
    clientRecv connected (s, sent) = .inr (s, sent) := by
  have exit : clientOnRecvData connected s = .inr s := onRecvData_return short
  simp only [clientRecv, exit]

/-- What the head of a frame in the buffer says. -/
theorem header_of_held {m : Memory} {off : ℕ} {frame : List UInt8} (isFrame : IsClientFrame frame)
    (held : m.read off frame.length = frame) : needLen m off = frame.length ∧
    headType m off = frame.getD 2 0 := by
  have declared := isFrame.declared
  simp only [sizeofVpnHead] at declared
  have byte : ∀ i < 4, m (off + i) = frame.getD i 0 := by
    intro i bound
    have here := getElem?_read m off frame.length i (by omega)
    rw [held] at here
    rw [List.getD_eq_getElem?_getD, here, Option.getD_some]
  refine ⟨?_, byte 2 (by decide)⟩
  have low := byte 0 (by decide)
  have high := byte 1 (by decide)
  rw [Nat.add_zero] at low
  rw [needLen, Memory.le16, low, high]
  simp only [sizeofVpnHead]
  omega

/-- The loop dispatches the complete frames in front of it and stands at the bytes behind them. -/
theorem client_visits (frames : List (List UInt8)) (rest : List UInt8)
    (areFrames : ∀ frame ∈ frames, IsClientFrame frame) (s : FrameLoop) (sent : List (List UInt8))
    (nonneg : 0 ≤ s.buffLen)
    (content : s.mem.read s.buff s.buffLen.toNat = frames.flatten ++ rest) :
    ∃ t, Loop.Visits (clientRecv connected) (s, sent)
      (t, sent ++ clientSendsAll connected s.dispatched.length frames) ∧
      t.dispatched.map Dispatch.frame = s.dispatched.map Dispatch.frame ++ frames ∧
      t.dealLen = s.dealLen + frames.flatten.length ∧ t.buff = s.buff + frames.flatten.length ∧
      t.buffLen = rest.length ∧ t.mem.read t.buff rest.length = rest := by
  induction frames generalizing s sent with
  | nil =>
    have length := congrArg List.length content
    simp only [Memory.length_read, List.flatten_nil, List.nil_append] at length content
    refine ⟨s, ?_, by rw [List.append_nil], by simp, by simp, by omega, ?_⟩
    · rw [clientSendsAll, List.append_nil]
      exact .refl
    · rw [← length]
      exact content
  | cons frame others ih =>
    have isFrame := areFrames frame List.mem_cons_self
    have length := congrArg List.length content
    simp only [Memory.length_read, List.flatten_cons, List.length_append] at length
    have available : frame.length ≤ s.buffLen.toNat := by omega
    have held : s.mem.read s.buff frame.length = frame := by
      rw [← Memory.read_take _ _ _ _ available, content, List.flatten_cons, List.append_assoc,
        List.take_left' rfl]
    obtain ⟨declared, type⟩ := header_of_held isFrame held
    have complete : needLen s.mem s.buff ≤ s.buffLen := by omega
    have advance : (needLen s.mem s.buff).toNat = frame.length := by omega
    have behind : s.mem.read (s.buff + frame.length) (s.buffLen.toNat - frame.length) =
      others.flatten ++ rest := by
      rw [← Memory.read_drop _ _ _ _ available, content, List.flatten_cons, List.append_assoc,
        List.drop_left' rfl]
    have round := @clientRecv_dispatch connected s sent complete
    rw [sentBytes_clientDealData _ _ _ isFrame.create held type, advance, held, declared] at round
    obtain ⟨t, visits, dispatched, dealLen, buff, buffLen, mem⟩ :=
      ih (fun other member => areFrames other (List.mem_cons_of_mem _ member))
        ⟨s.buff + frame.length, s.buffLen - frame.length, s.dealLen + frame.length,
          applyAll (clientDealData (connected s.dispatched.length) s.mem s.buff) s.mem,
          s.dispatched ++ [⟨s.buff, frame⟩]⟩
        (sent ++ clientSends (connected s.dispatched.length) frame) (by dsimp only; omega)
        (by
          have remaining : (s.buffLen - frame.length).toNat = s.buffLen.toNat - frame.length := by omega
          dsimp only
          rw [remaining, ← behind]
          apply (Memory.read_eq_iff ..).mpr
          intro i _
          exact clientDealData_after _ s.mem s.buff frame.length _ (fun create => isFrame.create
            (type ▸ create)) (by omega))
    refine ⟨t, ?_, ?_, ?_, ?_, buffLen, mem⟩
    · rw [List.length_append, List.length_singleton, List.append_assoc] at visits
      exact .head round visits
    · rw [dispatched, List.map_append, List.append_assoc]
      rfl
    · simp only [dealLen, List.flatten_cons, List.length_append]
      push_cast
      omega
    · simp only [buff, List.flatten_cons, List.length_append]
      omega

end Rounds

section Events

variable {ρ : Type} {connected : ℕ → Bool × Bool}

/-- A receive event that leaves fewer than four bytes of an incomplete frame ends, with the complete frames dispatched. -/
theorem clientReceive {n : ℕ} {d : SocketData ρ} {chunk rest : List UInt8} {now : List (List UInt8)}
    (valid : 0 ≤ d.buffLen) (areFrames : ∀ frame ∈ now, IsClientFrame frame)
    (short : rest.length < 4) (held : d.content ++ chunk = now.flatten ++ rest) :
    ∃ d', (∀ d'' frames sent, ClientReceive connected n d chunk d'' frames sent ↔
        d'' = d' ∧ frames = now ∧ sent = clientSendsAll connected n now) ∧
      0 ≤ d'.buffLen ∧ d'.content = rest := by
  have buffered := SocketData.content_received valid chunk
  rw [held] at buffered
  have grown : 0 ≤ (d.received chunk).buffLen := by
    rw [SocketData.buffLen_received]
    omega
  have total := congrArg List.length buffered
  rw [SocketData.length_content, List.length_append] at total
  obtain ⟨t, visits, dispatched, dealLen, buff, buffLen, mem⟩ :=
    @client_visits (fun k => connected (n + k)) now rest areFrames
    (FrameLoop.start (d.received chunk).buff (d.received chunk).buffLen) [] grown buffered
  simp only [FrameLoop.start, List.map_nil, List.nil_append, zero_add] at dispatched dealLen buff
  have sends : ∀ k, clientSendsAll (fun j => connected (n + j)) k now = clientSendsAll connected
    (n + k) now := by
    intro k
    generalize now = frames
    induction frames generalizing k with
    | nil => rfl
    | cons frame others ih =>
      rw [clientSendsAll, ih, clientSendsAll]
      rfl
  have exit := @clientRecv_return (fun k => connected (n + k)) t
    ([] ++ clientSendsAll (fun k => connected (n + k)) 0 now) (by omega)
  have result : ∀ result, Loop.Returns (clientRecv fun k => connected (n + k))
      (FrameLoop.start (d.received chunk).buff (d.received chunk).buffLen, []) result ↔
      result = (t, clientSendsAll connected n now) := by
    intro result
    refine (Loop.returns_iff_of_visits visits result).trans
      ((Loop.returns_iff_of_exit exit result).trans ?_)
    rw [List.nil_append, sends]
    rfl
  refine ⟨((d.received chunk).handled t.mem).consume t.dealLen, fun d'' frames sent => ?_, ?_, ?_⟩
  · constructor
    · rintro ⟨outcome, returns, rfl, rfl, rfl⟩
      obtain rfl := (result outcome).mp returns
      exact ⟨rfl, dispatched, rfl⟩
    · rintro ⟨rfl, rfl, rfl⟩
      exact ⟨_, (result _).mpr rfl, rfl, dispatched.symm, rfl⟩
  · exact SocketData.buffLen_consume_nonneg
      (show 0 ≤ ((d.received chunk).handled t.mem).buffLen from grown) _
  · have grownHandled : 0 ≤ ((d.received chunk).handled t.mem).buffLen := grown
    rw [SocketData.content_consume grownHandled, SocketData.content_handled, dealLen,
      Int.toNat_natCast, total, Memory.read_drop _ _ _ _ (Nat.le_add_right ..), Nat.zero_add,
      Nat.add_sub_cancel_left, ← buff, mem]

theorem ClientReceives.nil_iff {n : ℕ} {d d' : SocketData ρ} {frames sent : List (List UInt8)} :
    ClientReceives connected n d [] d' frames sent ↔ d' = d ∧ frames = [] ∧ sent = [] := by
  constructor
  · intro receives
    cases receives
    exact ⟨rfl, rfl, rfl⟩
  · rintro ⟨rfl, rfl, rfl⟩
    exact .nil n d'

theorem ClientReceives.cons_iff {n : ℕ} {d d' : SocketData ρ} {chunk : List UInt8}
    {chunks frames sent : List (List UInt8)} :
    ClientReceives connected n d (chunk :: chunks) d' frames sent ↔
      ∃ mid now later sentNow sentLater, ClientReceive connected n d chunk mid now sentNow ∧
        ClientReceives connected (n + now.length) mid chunks d' later sentLater ∧
        frames = now ++ later ∧ sent = sentNow ++ sentLater := by
  constructor
  · intro receives
    cases receives with
    | cons first rest => exact ⟨_, _, _, _, _, first, rest, rfl, rfl⟩
  · rintro ⟨mid, now, later, sentNow, sentLater, first, rest, rfl, rfl⟩
    exact .cons first rest

/-- Any number of receive events, from a buffer that holds the beginning of the next frame. -/
theorem clientReceives {n : ℕ} {d : SocketData ρ} {todo chunks : List (List UInt8)}
    (valid : 0 ≤ d.buffLen) (incomplete : Incomplete todo d.content)
    (areFrames : ∀ frame ∈ todo, IsClientFrame frame)
    (stream : d.content ++ chunks.flatten = todo.flatten)
    (cuts : ∀ i ≤ chunks.length, leftover todo
      (d.content.length + (chunks.take i).flatten.length) < 4) :
    ∃ d', (∀ d'' frames sent, ClientReceives connected n d chunks d'' frames sent ↔
        d'' = d' ∧ frames = todo ∧ sent = clientSendsAll connected n todo) ∧ d'.content = [] := by
  induction chunks generalizing n d todo with
  | nil =>
    rw [List.flatten_nil, List.append_nil] at stream
    obtain rfl := eq_nil_of_incomplete incomplete (stream.trans (List.append_nil _).symm)
    exact ⟨d, fun d'' frames sent => ClientReceives.nil_iff, stream⟩
  | cons chunk chunks ih =>
    rw [List.flatten_cons, ← List.append_assoc] at stream
    -- What is buffered after this event: some complete frames and the beginning of another.
    obtain ⟨now, later, rest, rfl, held, incompleteRest, _⟩ := exists_cut todo [] (d.content ++ chunk)
      ⟨chunks.flatten, stream.trans (List.append_nil _).symm⟩
    have framesNow : ∀ frame ∈ now, IsClientFrame frame := fun frame member =>
      areFrames frame (List.mem_append_left _ member)
    have framesLater : ∀ frame ∈ later, IsClientFrame frame := fun frame member =>
      areFrames frame (List.mem_append_right _ member)
    have remaining : rest ++ chunks.flatten = later.flatten := by
      rw [held, List.flatten_append, List.append_assoc] at stream
      exact List.append_cancel_left stream
    have shift : ∀ i, leftover (now ++ later)
      (d.content.length + ((chunk :: chunks).take (i + 1)).flatten.length) =
        leftover later (rest.length + (chunks.take i).flatten.length) := by
      intro i
      have lengths := congrArg List.length held
      simp only [List.length_append] at lengths
      rw [List.take_succ_cons, List.flatten_cons, List.length_append, ← Nat.add_assoc, lengths,
        Nat.add_assoc, leftover_flatten_add]
    have short : rest.length < 4 := by
      have here := cuts 1 (Nat.succ_le_succ (Nat.zero_le _))
      rw [shift 0, List.take_zero, List.flatten_nil, List.length_nil, Nat.add_zero,
        leftover_of_incomplete incompleteRest] at here
      exact here
    obtain ⟨mid, first, validMid, contentMid⟩ :=
      @clientReceive _ connected n _ _ _ _ valid framesNow short held
    rw [← contentMid] at remaining incompleteRest
    obtain ⟨d', others, content⟩ := @ih (n + now.length) mid later validMid incompleteRest
      framesLater remaining (by
      intro i bound
      rw [contentMid, ← shift]
      exact cuts (i + 1) (Nat.succ_le_succ bound))
    refine ⟨d', fun d'' frames sent => ClientReceives.cons_iff.trans ?_, content⟩
    rw [clientSendsAll_append]
    constructor
    · rintro ⟨mid', now', later', sentNow, sentLater, receive, receives, rfl, rfl⟩
      obtain ⟨rfl, rfl, rfl⟩ := (first _ _ _).mp receive
      obtain ⟨rfl, rfl, rfl⟩ := (others _ _ _).mp receives
      exact ⟨rfl, rfl, rfl⟩
    · rintro ⟨rfl, rfl, rfl⟩
      exact ⟨mid, now, later, _, _, (first _ _ _).mpr ⟨rfl, rfl, rfl⟩,
        (others _ _ _).mpr ⟨rfl, rfl, rfl⟩, rfl, rfl⟩

end Events

section Results

/-- The messages of the server arrive at the client, in any pieces that do not end with a head whose body is missing:
each once, in order, with the texts and numbers that the server has put in, whatever else was in the memory that they
were built in; and each request is sent back with the outcome of its two calls of `connect`. -/
theorem server_messages_arrive {ρ : Type} (connected : ℕ → Bool × Bool) (d : SocketData ρ)
    (fresh : d.buffLen = 0) (messages : List ServerMessage)
    (valid : ∀ message ∈ messages, message.Valid) (chunks : List (List UInt8))
    (stream : chunks.flatten = (messages.map ServerMessage.bytes).flatten)
    (cuts : ∀ i ≤ chunks.length, leftover (messages.map ServerMessage.bytes)
      (chunks.take i).flatten.length < 4) :
    (∃ d' frames sent, ClientReceives connected 0 d chunks d' frames sent) ∧
      ∀ d' frames sent, ClientReceives connected 0 d chunks d' frames sent →
        d'.content = [] ∧ frames.map clientReads = messages.map (fun message => some message.reading) ∧
          sent = clientSendsAll connected 0 (messages.map ServerMessage.bytes) := by
  have empty : d.content = [] := by
    rw [SocketData.content, fresh]
    rfl
  have areFrames : ∀ frame ∈ messages.map ServerMessage.bytes, IsClientFrame frame := by
    intro frame member
    obtain ⟨message, isMessage, rfl⟩ := List.mem_map.mp member
    exact (message.reads (valid message isMessage)).1
  have incomplete : Incomplete (messages.map ServerMessage.bytes) d.content := by
    intro frame isNext
    have declared := (areFrames frame (List.mem_of_mem_head? isNext)).declared
    simp only [sizeofVpnHead] at declared
    rw [empty, List.length_nil]
    omega
  obtain ⟨d', receives, content⟩ := @clientReceives _ connected 0 d _ chunks fresh.ge incomplete areFrames
    (by rw [empty, List.nil_append, stream])
    (by rw [empty, List.length_nil]; simpa only [Nat.zero_add] using cuts)
  refine ⟨⟨d', _, _, (receives _ _ _).mpr ⟨rfl, rfl, rfl⟩⟩, fun d'' frames sent received => ?_⟩
  obtain ⟨rfl, rfl, rfl⟩ := (receives _ _ _).mp received
  refine ⟨content, ?_, rfl⟩
  rw [List.map_map]
  exact List.map_congr_left fun message member => (message.reads (valid message member)).2

/-- A request that is built in filled memory and cut behind its first three bytes. -/
theorem loopback_request_arrives :
    ∃ d' frames sent, ClientReceives (fun _ => (true, true)) 0 ({} : SocketData ℕ)
      [(ServerMessage.tcpChannel ⟨loopback, 80, loopback, 8080⟩ (fun _ => 255) 0).bytes.take 3,
        (ServerMessage.tcpChannel ⟨loopback, 80, loopback, 8080⟩ (fun _ => 255) 0).bytes.drop 3]
        d' frames sent ∧
      frames.map clientReads =
        [some (.connects (literal "127.0.0.1") 80 (literal "127.0.0.1") 8080)] := by
  have length : (ServerMessage.tcpChannel ⟨loopback, 80, loopback, 8080⟩
    (fun _ => 255) 0).bytes.length = 80 := by
    rw [bytes_tcpChannel, Memory.length_read]
  obtain ⟨⟨d', frames, sent, received⟩, all⟩ := server_messages_arrive (fun _ => (true, true))
    ({} : SocketData ℕ) rfl
    [.tcpChannel ⟨loopback, 80, loopback, 8080⟩ (fun _ => 255) 0] (List.forall_mem_singleton.mpr trivial)
    [(ServerMessage.tcpChannel ⟨loopback, 80, loopback, 8080⟩ (fun _ => 255) 0).bytes.take 3,
      (ServerMessage.tcpChannel ⟨loopback, 80, loopback, 8080⟩ (fun _ => 255) 0).bytes.drop 3]
    (by
      rw [List.map_singleton, List.flatten_cons, List.flatten_singleton, List.take_append_drop,
        List.flatten_singleton])
    (by
      intro i bound
      have few : i = 0 ∨ i = 1 ∨ i = 2 := by
        simp only [List.length_cons, List.length_nil] at bound
        omega
      rcases few with rfl | rfl | rfl <;> simp [leftover, length])
  exact ⟨d', frames, sent, received, (all d' frames sent received).2.1⟩

end Results

end LinuxZero.Vpn
