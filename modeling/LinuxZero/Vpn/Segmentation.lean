import LinuxZero.Lib.Framing
import LinuxZero.Net.SocketDefine
import LinuxZero.Vpn.FrameTermination

/-! # Frames and the segmentation of the control stream

The receive branch of `socket_server::run_epoll` with `business_server::on_recv_data` as its handler,
over any number of `recv` calls. Complete frames are dispatched once, in stream order and on the
bytes that were sent, and the buffer keeps the beginning of the next frame, whatever the cuts, as
long as no `recv` call ends with four or more bytes of an incomplete frame in the buffer. Such a cut
stops the loop for ever.
-/

namespace LinuxZero.Vpn

open Access Framing

/-- A control frame as sent: the declared length is the actual one, the frame fits the receive
buffer, and a register message carries its whole struct. -/
structure IsFrame (frame : List UInt8) : Prop where
  declared : (frame.getD 0 0).toNat + 256 * (frame.getD 1 0).toNat + sizeofVpnHead = frame.length
  fits : frame.length ≤ 8 * 1024
  register : frame.getD 2 0 = clientRegister → sizeofVpnClientRegister ≤ frame.length

/-- The beginning of a frame whose last bytes have not been sent. -/
def IsPartialFrame (bytes : List UInt8) : Prop :=
  ∃ frame, IsFrame frame ∧ bytes <+: frame ∧ bytes.length < frame.length

/-- One receive event of a connection: `recv` returned `chunk`, the frame loop returned, and the
consumed prefix was dropped. `frames` are the bytes on which `deal_data` was called. -/
def Receive (d : SocketData UInt32) (chunk : List UInt8) (d' : SocketData UInt32)
    (frames : List (List UInt8)) : Prop :=
  ∃ result, Loop.Returns (serverOnRecvData d.ptr)
      (FrameLoop.start (d.received chunk).buff (d.received chunk).buffLen) result ∧
    d' = ((d.received chunk).handled result.mem).consume result.dealLen ∧
    frames = result.dispatched.map Dispatch.frame

/-- Successive receive events and all frames dispatched by them. -/
inductive Receives : SocketData UInt32 → List (List UInt8) → SocketData UInt32 →
    List (List UInt8) → Prop
  | nil (d : SocketData UInt32) : Receives d [] d []
  | cons {d mid d' : SocketData UInt32} {chunk : List UInt8} {chunks frames later : List (List UInt8)}
      (first : Receive d chunk mid frames) (rest : Receives mid chunks d' later) :
      Receives d (chunk :: chunks) d' (frames ++ later)

theorem Receives.cons_iff {d d' : SocketData UInt32} {chunk : List UInt8}
    {chunks frames : List (List UInt8)} :
    Receives d (chunk :: chunks) d' frames ↔ ∃ mid now later, Receive d chunk mid now ∧
      Receives mid chunks d' later ∧ frames = now ++ later := by
  constructor
  · intro receives
    cases receives with
    | cons first rest => exact ⟨_, _, _, first, rest, rfl⟩
  · rintro ⟨mid, now, later, first, rest, rfl⟩
    exact .cons first rest

/-- The only store of the server's handler is the client id in a register message. -/
theorem serverDealData_after (clientInfo : Option UInt32) (m : Memory) (off n i : ℕ)
    (register : headType m off = clientRegister → sizeofVpnClientRegister ≤ n) (behind : off + n ≤ i) :
    applyAll (serverDealData clientInfo m off) m i = m i := by
  rw [serverDealData, applyAll_append, applyAll_logMsg, applyAll_cons, apply_load]
  split_ifs with isRegister
  · have covered := register isRegister
    simp only [sizeofVpnClientRegister] at covered
    cases clientInfo with
    | none => rfl
    | some clinetId =>
      exact m.write_outside (off + 4) i _ (Or.inr (by rw [Memory.length_bytes32]; omega))
  · rfl

/-- A memory that holds the beginning of a frame agrees with the frame there. -/
private theorem byte_of_prefix {m : Memory} {off k : ℕ} {frame : List UInt8}
    (held : m.read off k <+: frame) {i : ℕ} (bound : i < k) : m (off + i) = frame.getD i 0 := by
  obtain ⟨behind, rfl⟩ := held
  have inside : i < (m.read off k).length := by rwa [Memory.length_read]
  rw [List.getD_eq_getElem?_getD, List.getElem?_append_left inside, List.getElem?_eq_getElem inside,
    Option.getD_some, Memory.getElem_read]

/-- Four bytes of a frame are enough to know its length and type. -/
private theorem header_of_prefix {m : Memory} {off k : ℕ} {frame : List UInt8} (isFrame : IsFrame frame)
    (held : m.read off k <+: frame) (header : 4 ≤ k) :
    needLen m off = frame.length ∧ headType m off = frame.getD 2 0 := by
  have low := byte_of_prefix held (show 0 < k by omega)
  have high := byte_of_prefix held (show 1 < k by omega)
  have type := byte_of_prefix held (show 2 < k by omega)
  rw [Nat.add_zero] at low
  refine ⟨?_, type⟩
  rw [← isFrame.declared, needLen, Memory.le16, low, high]
  push_cast
  rfl

private theorem IsFrame.head {frame : List UInt8} (isFrame : IsFrame frame) : 4 ≤ frame.length := by
  have declared := isFrame.declared
  simp only [sizeofVpnHead] at declared
  omega

/-- The loop dispatches the complete frames in front of it and stands at the bytes behind them. -/
theorem visits_frames (clientInfo : Option UInt32) (frames : List (List UInt8)) (rest : List UInt8)
    (areFrames : ∀ frame ∈ frames, IsFrame frame) (s : FrameLoop) (nonneg : 0 ≤ s.buffLen)
    (content : s.mem.read s.buff s.buffLen.toNat = frames.flatten ++ rest) :
    ∃ t, Loop.Visits (serverOnRecvData clientInfo) s t ∧
      t.dispatched.map Dispatch.frame = s.dispatched.map Dispatch.frame ++ frames ∧
      t.dealLen = s.dealLen + frames.flatten.length ∧ t.buff = s.buff + frames.flatten.length ∧
      t.buffLen = rest.length ∧ t.mem.read t.buff rest.length = rest := by
  induction frames generalizing s with
  | nil =>
    have length := congrArg List.length content
    simp only [Memory.length_read, List.flatten_nil, List.nil_append] at length content
    refine ⟨s, .refl, by simp, by simp, by simp, by omega, ?_⟩
    rw [← length]
    exact content
  | cons frame others ih =>
    have isFrame := areFrames frame (List.mem_cons_self ..)
    have length := congrArg List.length content
    simp only [Memory.length_read, List.flatten_cons, List.length_append] at length
    have available : frame.length ≤ s.buffLen.toNat := by omega
    have held : s.mem.read s.buff frame.length = frame := by
      rw [← Memory.read_take _ _ _ _ available, content, List.flatten_cons, List.append_assoc,
        List.take_left' rfl]
    obtain ⟨declared, type⟩ :=
      header_of_prefix isFrame
        (show s.mem.read s.buff frame.length <+: frame from ⟨[], by rw [held, List.append_nil]⟩)
        isFrame.head
    have complete : needLen s.mem s.buff ≤ s.buffLen := by omega
    have advance : (needLen s.mem s.buff).toNat = frame.length := by omega
    have round : serverOnRecvData clientInfo s = .inl _ := onRecvData_dispatch complete
    have behind : s.mem.read (s.buff + frame.length) (s.buffLen.toNat - frame.length) =
        others.flatten ++ rest := by
      rw [← Memory.read_drop _ _ _ _ available, content, List.flatten_cons, List.append_assoc,
        List.drop_left' rfl]
    obtain ⟨t, visits, dispatched, dealLen, buff, buffLen, mem⟩ :=
      ih (fun other member => areFrames other (List.mem_cons_of_mem _ member))
        ⟨s.buff + (needLen s.mem s.buff).toNat, s.buffLen - needLen s.mem s.buff,
          s.dealLen + needLen s.mem s.buff, applyAll (serverDealData clientInfo s.mem s.buff) s.mem,
          s.dispatched ++ [⟨s.buff, s.mem.read s.buff (needLen s.mem s.buff).toNat⟩]⟩
        (by dsimp only; omega)
        (by
          have remaining : (s.buffLen - needLen s.mem s.buff).toNat = s.buffLen.toNat - frame.length := by
            omega
          dsimp only
          rw [remaining, advance, ← behind]
          apply (Memory.read_eq_iff ..).mpr
          intro i _
          apply serverDealData_after clientInfo s.mem s.buff frame.length _ _ (by omega)
          intro isRegister
          exact isFrame.register (type ▸ isRegister))
    refine ⟨t, .head round visits, ?_, ?_, ?_, buffLen, mem⟩
    · rw [dispatched, advance, held]
      simp
    · simp only [dealLen, declared, List.flatten_cons, List.length_append]
      push_cast
      omega
    · simp only [buff, advance, List.flatten_cons, List.length_append]
      omega

/-- A receive event ends exactly when what it leaves of an incomplete frame is no header, and then it
has dispatched the complete frames and keeps the rest. -/
theorem receive_iff {d : SocketData UInt32} {chunk rest : List UInt8} {now : List (List UInt8)}
    (valid : 0 ≤ d.buffLen) (areFrames : ∀ frame ∈ now, IsFrame frame)
    (partialFrame : IsPartialFrame rest) (held : d.content ++ chunk = now.flatten ++ rest) :
    ((∃ d' log, Receive d chunk d' log) ↔ rest.length < 4) ∧
      ∀ d' log, Receive d chunk d' log → log = now ∧ 0 ≤ d'.buffLen ∧ d'.content = rest := by
  have buffered := SocketData.content_received valid chunk
  rw [held] at buffered
  have grown : 0 ≤ (d.received chunk).buffLen := by
    rw [SocketData.buffLen_received]
    omega
  have total := congrArg List.length buffered
  rw [SocketData.length_content, List.length_append] at total
  obtain ⟨t, visits, dispatched, dealLen, buff, buffLen, mem⟩ := visits_frames d.ptr now rest areFrames
    (FrameLoop.start (d.received chunk).buff (d.received chunk).buffLen) grown buffered
  simp only [FrameLoop.start, List.map_nil, List.nil_append, zero_add] at dispatched dealLen buff
  have returns_iff := Loop.returns_iff_of_visits visits
  by_cases short : rest.length < 4
  · have exit : serverOnRecvData d.ptr t = .inr t := onRecvData_return (by omega)
    refine ⟨⟨fun _ => short, fun _ => ⟨_, _, t, (returns_iff t).mpr (Loop.returns_of_exit exit),
      rfl, rfl⟩⟩, ?_⟩
    rintro d' log ⟨result, returns, rfl, rfl⟩
    obtain rfl := (Loop.returns_iff_of_exit exit result).mp ((returns_iff result).mp returns)
    have grownHandled : 0 ≤ ((d.received chunk).handled result.mem).buffLen := grown
    refine ⟨dispatched, SocketData.buffLen_consume_nonneg grownHandled _, ?_⟩
    rw [SocketData.content_consume grownHandled, SocketData.content_handled, dealLen, Int.toNat_natCast,
      total, Memory.read_drop _ _ _ _ (Nat.le_add_right ..), Nat.zero_add, Nat.add_sub_cancel_left,
      ← buff, mem]
  · have never : ∀ d' log, ¬ Receive d chunk d' log := by
      rintro d' log ⟨result, returns, _⟩
      obtain ⟨frame, isFrame, isPrefix, longer⟩ := partialFrame
      obtain ⟨declared, _⟩ :=
        header_of_prefix isFrame (show t.mem.read t.buff rest.length <+: frame by rwa [mem]) (by omega)
      have stall : serverOnRecvData d.ptr t = .inl t := onRecvData_stall (by omega) (by omega)
      exact (Loop.diverges_of_idle stall).not_returns result ((returns_iff result).mp returns)
    refine ⟨⟨?_, fun header => absurd header short⟩, fun d' log receive => absurd receive (never d' log)⟩
    rintro ⟨d', log, receive⟩
    exact absurd receive (never d' log)

/-- What is left behind the complete frames of a stream begins a frame, as the end of the stream does. -/
theorem IsPartialFrame.of_incomplete {later : List (List UInt8)} {rest tail : List UInt8}
    (partialFrame : IsPartialFrame tail) (areFrames : ∀ frame ∈ later, IsFrame frame)
    (incomplete : Incomplete later rest) (isPrefix : rest <+: later.flatten ++ tail) :
    IsPartialFrame rest := by
  rcases incomplete_prefix incomplete isPrefix with ⟨frame, isNext, begins⟩ | ⟨_, begins⟩
  · exact ⟨frame, areFrames frame (List.mem_of_mem_head? isNext), begins, incomplete frame isNext⟩
  · obtain ⟨frame, isFrame, isBegin, longer⟩ := partialFrame
    exact ⟨frame, isFrame, begins.trans isBegin, lt_of_le_of_lt begins.length_le longer⟩

/-- Any number of receive events, from a buffer that holds the beginning of the next frame. -/
theorem receives_iff {d : SocketData UInt32} {todo : List (List UInt8)} {tail : List UInt8}
    {chunks : List (List UInt8)} (valid : 0 ≤ d.buffLen) (incomplete : Incomplete todo d.content)
    (short : d.content.length < 4) (areFrames : ∀ frame ∈ todo, IsFrame frame)
    (partialFrame : IsPartialFrame tail) (stream : d.content ++ chunks.flatten = todo.flatten ++ tail) :
    (∃ d', Receives d chunks d' todo ∧ d'.content = tail) ↔
      ∀ i ≤ chunks.length, leftover todo (d.content.length + (chunks.take i).flatten.length) < 4 := by
  induction chunks generalizing d todo with
  | nil =>
    rw [List.flatten_nil, List.append_nil] at stream
    obtain rfl := eq_nil_of_incomplete incomplete stream
    constructor
    · intro _ i bound
      obtain rfl := Nat.le_zero.mp bound
      simpa [leftover] using short
    · intro _
      exact ⟨d, .nil d, by simpa using stream⟩
  | cons chunk chunks ih =>
    rw [List.flatten_cons, ← List.append_assoc] at stream
    -- What is buffered after this event: some complete frames and the beginning of another.
    obtain ⟨now, later, rest, rfl, held, incompleteRest, isPrefix⟩ :=
      exists_cut todo tail (d.content ++ chunk) ⟨chunks.flatten, stream⟩
    have framesNow : ∀ frame ∈ now, IsFrame frame := fun frame member =>
      areFrames frame (List.mem_append_left _ member)
    have framesLater : ∀ frame ∈ later, IsFrame frame := fun frame member =>
      areFrames frame (List.mem_append_right _ member)
    have partialRest := partialFrame.of_incomplete framesLater incompleteRest isPrefix
    obtain ⟨returns_iff, result⟩ := receive_iff valid framesNow partialRest held
    have remaining : rest ++ chunks.flatten = later.flatten ++ tail := by
      rw [held, List.flatten_append, List.append_assoc, List.append_assoc] at stream
      exact List.append_cancel_left stream
    -- The condition at the later cuts is the condition of the remaining stream.
    have shift : ∀ i, leftover (now ++ later)
        (d.content.length + ((chunk :: chunks).take (i + 1)).flatten.length) =
        leftover later (rest.length + (chunks.take i).flatten.length) := by
      intro i
      have lengths := congrArg List.length held
      simp only [List.length_append] at lengths
      rw [List.take_succ_cons, List.flatten_cons, List.length_append, ← Nat.add_assoc, lengths,
        Nat.add_assoc, leftover_flatten_add]
    have here : leftover (now ++ later) (d.content.length + ((chunk :: chunks).take 1).flatten.length) =
        rest.length := by
      rw [shift 0]
      simpa using leftover_of_incomplete incompleteRest
    constructor
    · rintro ⟨d', receives, content⟩
      obtain ⟨mid, log, after, first, others, split⟩ := Receives.cons_iff.mp receives
      have header := returns_iff.mp ⟨mid, log, first⟩
      obtain ⟨rfl, validMid, contentMid⟩ := result mid log first
      obtain rfl := List.append_cancel_left split
      rw [← contentMid] at remaining incompleteRest header
      have below := (ih validMid incompleteRest header framesLater remaining).mp ⟨d', others, content⟩
      intro i bound
      cases i with
      | zero => simpa [leftover_of_incomplete incomplete] using short
      | succ i =>
        rw [shift, ← contentMid]
        exact below i (Nat.le_of_succ_le_succ bound)
    · intro below
      have header : rest.length < 4 := here ▸ below 1 (Nat.succ_le_succ (Nat.zero_le _))
      obtain ⟨mid, log, first⟩ := returns_iff.mpr header
      obtain ⟨rfl, validMid, contentMid⟩ := result mid log first
      rw [← contentMid] at remaining incompleteRest header
      obtain ⟨d', others, content⟩ := (ih validMid incompleteRest header framesLater remaining).mpr
        (by
          intro i bound
          rw [contentMid, ← shift]
          exact below (i + 1) (Nat.succ_le_succ bound))
      exact ⟨d', .cons first others, content⟩

/-- The receive branch over a whole stream of frames, cut anywhere: each complete frame is dispatched
once, in order, on the bytes that were sent, and the buffer ends with the incomplete tail, if and only
if every `recv` leaves fewer than four bytes of an incomplete frame. -/
theorem segmentation_dispatches_iff (d : SocketData UInt32) (frames : List (List UInt8))
    (tail : List UInt8) (chunks : List (List UInt8)) (fresh : d.buffLen = 0)
    (areFrames : ∀ frame ∈ frames, IsFrame frame) (partialFrame : IsPartialFrame tail)
    (stream : chunks.flatten = frames.flatten ++ tail) :
    (∃ d', Receives d chunks d' frames ∧ d'.content = tail) ↔
      ∀ i ≤ chunks.length, leftover frames (chunks.take i).flatten.length < 4 := by
  have empty : d.content = [] := by
    rw [SocketData.content, fresh]
    rfl
  have incomplete : Incomplete frames d.content := by
    intro frame isNext
    have head := (areFrames frame (List.mem_of_mem_head? isNext)).head
    rw [empty, List.length_nil]
    omega
  have run := receives_iff (le_of_eq fresh.symm) incomplete (by simp [empty]) areFrames partialFrame
    (show d.content ++ chunks.flatten = frames.flatten ++ tail by rw [empty, List.nil_append, stream])
  simpa [empty] using run

/-- A heartbeat with one body byte. -/
def fullHeartbeat : List UInt8 := [1, 0, heartbeat, 0xf1, 5]

theorem isFrame_fullHeartbeat : IsFrame fullHeartbeat := ⟨by decide, by decide, by decide⟩

/-- Cut inside its header, the heartbeat is dispatched by the second `recv`. -/
theorem heartbeat_cut_in_header :
    ∃ d', Receives {} [[1, 0, heartbeat], [0xf1, 5]] d' [fullHeartbeat] ∧ d'.content = [] :=
  (segmentation_dispatches_iff {} [fullHeartbeat] [] [[1, 0, heartbeat], [0xf1, 5]] rfl
    (by simpa using isFrame_fullHeartbeat)
    ⟨fullHeartbeat, isFrame_fullHeartbeat, List.nil_prefix, by decide⟩ rfl).mpr (by decide)

/-- Cut behind its header, the heartbeat is never dispatched: the first receive event never ends. -/
theorem heartbeat_cut_behind_header :
    IsFrame fullHeartbeat ∧ [[1, 0, heartbeat, 0xf1], [5]].flatten = [fullHeartbeat].flatten ++ [] ∧
      ∀ d' log, ¬ Receives {} [[1, 0, heartbeat, 0xf1], [5]] d' log := by
  refine ⟨isFrame_fullHeartbeat, rfl, ?_⟩
  intro d' log receives
  obtain ⟨mid, now, later, first, _⟩ := Receives.cons_iff.mp receives
  have partialFrame : IsPartialFrame [1, 0, heartbeat, 0xf1] :=
    ⟨fullHeartbeat, isFrame_fullHeartbeat, ⟨[5], rfl⟩, by decide⟩
  have held : ({} : SocketData UInt32).content ++ [1, 0, heartbeat, 0xf1] =
      ([] : List (List UInt8)).flatten ++ [1, 0, heartbeat, 0xf1] := rfl
  have short := (receive_iff le_rfl (by simp) partialFrame held).1.mp ⟨mid, now, first⟩
  exact absurd short (by decide)

end LinuxZero.Vpn
