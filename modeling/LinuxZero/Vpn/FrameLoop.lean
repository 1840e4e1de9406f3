import LinuxZero.Lib.Loop
import LinuxZero.Vpn.Protocol
import Mathlib.Algebra.Order.Ring.Int

/-! # The frame loops of both ends

`business_server::on_recv_data` and `main_client_event::on_recv_data` run the same `while(true)`
over the buffered bytes and differ in `deal_data` alone. The loop has no branch for a header whose
body has not arrived: it neither advances nor returns there. A frame boundary is an offset that the
declared lengths of complete frames lead to, each header read after the handlers of the frames
before it have run.
-/

namespace LinuxZero.Vpn

open Access

/-- One call of `deal_data`: where, and the bytes of the frame at that moment. -/
structure Dispatch where
  off : ℕ
  frame : List UInt8
deriving DecidableEq, Repr

/-- The locals of `on_recv_data`, the buffer, and the calls of `deal_data` made so far. -/
structure FrameLoop where
  buff : ℕ
  buffLen : ℤ
  dealLen : ℤ
  mem : Memory
  dispatched : List Dispatch

/-- The locals before the first round. -/
def FrameLoop.start (m : Memory) (len : ℤ) : FrameLoop := ⟨0, len, 0, m, []⟩

/-- The accesses of the `k`-th call of `deal_data`, for the frame at an offset. -/
abbrev DealData := ℕ → Memory → ℕ → List Access

/-- One round of `while(true)`. -/
def onRecvData (dealData : DealData) : Loop FrameLoop FrameLoop := fun s =>
  if (sizeofVpnHead : ℤ) ≤ s.buffLen then
    let nLen := needLen s.mem s.buff
    if nLen ≤ s.buffLen then
      .inl
        { buff := s.buff + nLen.toNat
          buffLen := s.buffLen - nLen
          dealLen := s.dealLen + nLen
          mem := applyAll (dealData s.dispatched.length s.mem s.buff) s.mem
          dispatched := s.dispatched ++ [⟨s.buff, s.mem.read s.buff nLen.toNat⟩] }
    else .inl s
  else .inr s

/-- `business_server::on_recv_data`. -/
def serverOnRecvData (clientInfo : Option UInt32) : Loop FrameLoop FrameLoop :=
  onRecvData fun _ m buff => serverDealData clientInfo m buff

/-- `main_client_event::on_recv_data`; `connected k` is the outcome of the two connects made for
the `k`-th dispatched frame. -/
def clientOnRecvData (connected : ℕ → Bool × Bool) : Loop FrameLoop FrameLoop :=
  onRecvData fun k m buff => clientDealData (connected k) m buff

theorem four_le_needLen (m : Memory) (buff : ℕ) : 4 ≤ needLen m buff := by
  simp only [needLen, sizeofVpnHead]
  omega

/-- The round of a buffer that holds a complete frame. -/
theorem onRecvData_dispatch {dealData : DealData} {s : FrameLoop}
    (complete : needLen s.mem s.buff ≤ s.buffLen) :
    onRecvData dealData s = .inl
      { buff := s.buff + (needLen s.mem s.buff).toNat
        buffLen := s.buffLen - needLen s.mem s.buff
        dealLen := s.dealLen + needLen s.mem s.buff
        mem := applyAll (dealData s.dispatched.length s.mem s.buff) s.mem
        dispatched := s.dispatched ++
          [⟨s.buff, s.mem.read s.buff (needLen s.mem s.buff).toNat⟩] } := by
  have head := four_le_needLen s.mem s.buff
  have header : (sizeofVpnHead : ℤ) ≤ s.buffLen := head.trans complete
  rw [onRecvData, if_pos header]
  exact if_pos complete

/-- The round of a buffer whose last header is there without its body changes nothing. -/
theorem onRecvData_stall {dealData : DealData} {s : FrameLoop} (header : 4 ≤ s.buffLen)
    (incomplete : s.buffLen < needLen s.mem s.buff) : onRecvData dealData s = .inl s := by
  have present : (sizeofVpnHead : ℤ) ≤ s.buffLen := header
  rw [onRecvData, if_pos present]
  exact if_neg (not_le_of_gt incomplete)

theorem onRecvData_return {dealData : DealData} {s : FrameLoop} (short : s.buffLen < 4) :
    onRecvData dealData s = .inr s := by
  have absent : ¬ (sizeofVpnHead : ℤ) ≤ s.buffLen := not_le_of_gt short
  rw [onRecvData, if_neg absent]

/-- The offsets at which a frame can start: after `k` complete frames of a buffer of `len` bytes,
with the memory that the handlers of these frames left. -/
inductive FrameBoundary (dealData : DealData) (m : Memory) (len : ℤ) : ℕ → Memory → ℕ → Prop
  | start : FrameBoundary dealData m len 0 m 0
  | next {k : ℕ} {mem : Memory} {off : ℕ} (before : FrameBoundary dealData m len k mem off)
      (complete : needLen mem off ≤ len - off) :
      FrameBoundary dealData m len (k + 1) (applyAll (dealData k mem off) mem)
        (off + (needLen mem off).toNat)

/-- The loop stands at a frame boundary with the locals that belong to it. -/
structure FrameLoop.At (dealData : DealData) (m : Memory) (len : ℤ) (s : FrameLoop) : Prop where
  boundary : FrameBoundary dealData m len s.dispatched.length s.mem s.buff
  buffLen : s.buffLen = len - s.buff
  dealLen : s.dealLen = s.buff
  nonneg : 0 ≤ s.buffLen

variable {dealData : DealData} {m : Memory} {len : ℤ}

theorem FrameLoop.at_start (valid : 0 ≤ len) : (FrameLoop.start m len).At dealData m len :=
  ⟨.start, by simp [FrameLoop.start], rfl, valid⟩

/-- A round either dispatches the frame at the boundary or leaves everything as it is. -/
theorem FrameLoop.At.round {s next : FrameLoop} (here : s.At dealData m len)
    (round : onRecvData dealData s = .inl next) :
    next.At dealData m len ∧
      (next = s ∧ s.buffLen < needLen s.mem s.buff ∧ 4 ≤ s.buffLen ∨
        next.buffLen < s.buffLen ∧ needLen s.mem s.buff ≤ s.buffLen) := by
  have head := four_le_needLen s.mem s.buff
  by_cases complete : needLen s.mem s.buff ≤ s.buffLen
  · obtain rfl := Sum.inl.inj ((onRecvData_dispatch complete).symm.trans round)
    refine ⟨⟨?_, ?_, ?_, ?_⟩, Or.inr ⟨?_, complete⟩⟩
    · simpa using here.boundary.next (by rw [← here.buffLen]; exact complete)
    · have remaining := here.buffLen
      push_cast
      omega
    · have consumed := here.dealLen
      push_cast
      omega
    · dsimp only
      omega
    · dsimp only
      omega
  · have header : 4 ≤ s.buffLen := by
      by_contra short
      rw [onRecvData_return (by omega)] at round
      contradiction
    obtain rfl := Sum.inl.inj ((onRecvData_stall header (by omega)).symm.trans round)
    exact ⟨here, Or.inl ⟨rfl, by omega, header⟩⟩

/-- The loop visits every frame boundary of its buffer. -/
theorem FrameBoundary.visited {k : ℕ} {mem : Memory} {off : ℕ} (valid : 0 ≤ len)
    (boundary : FrameBoundary dealData m len k mem off) :
    ∃ s, Loop.Visits (onRecvData dealData) (FrameLoop.start m len) s ∧
      s.At dealData m len ∧ s.mem = mem ∧ s.buff = off ∧ s.dispatched.length = k := by
  induction boundary with
  | start => exact ⟨_, .refl, FrameLoop.at_start valid, rfl, rfl, rfl⟩
  | next before complete ih =>
    obtain ⟨s, visits, here, rfl, rfl, rfl⟩ := ih
    have round : onRecvData dealData s = .inl _ :=
      onRecvData_dispatch (by rw [here.buffLen]; exact complete)
    exact ⟨_, visits.tail round, (here.round round).1, rfl, rfl, by simp⟩

end LinuxZero.Vpn
