import LinuxZero.Lib.Run
import LinuxZero.Net.SocketDefine
import Mathlib.Data.List.Induction

/-! # The receive branch of the event loops

`socket_server`, `socket_server_accept` and `socket_client` handle a positive result of `recv` in the
same way: the bytes are counted in, the handler is called, and what it reports as used is moved out
of the buffer. A handler may report any number. The buffer then holds a connection's bytes from the
first one that no call has used.
-/

namespace LinuxZero

/-- What has arrived on a connection, and how much of it the handler has used. -/
structure ByteStream where
  received : List UInt8 := []
  dropped : ℕ := 0
  within : dropped ≤ received.length := by simp

namespace ByteStream

variable (s : ByteStream)

def unread : List UInt8 := s.received.drop s.dropped

def arrive (bytes : List UInt8) : ByteStream where
  received := s.received ++ bytes
  dropped := s.dropped
  within := s.within.trans (by simp)

/-- A call of the handler that returned `useLen`. -/
def use (useLen : ℤ) : ByteStream where
  received := s.received
  dropped := s.dropped + (min (max useLen 0) s.unread.length).toNat
  within := by
    have within := s.within
    rw [unread, List.length_drop]
    omega

theorem unread_arrive (bytes : List UInt8) : (s.arrive bytes).unread = s.unread ++ bytes :=
  List.drop_append_of_le_length s.within

theorem unread_use (useLen : ℤ) : (s.use useLen).unread = s.unread.drop useLen.toNat := by
  rw [unread, use, ← List.drop_drop, ← unread]
  rcases le_total useLen s.unread.length with part | whole
  · have used : (min (max useLen 0) (s.unread.length : ℤ)).toNat = useLen.toNat := by omega
    rw [used]
  · have used : (min (max useLen 0) (s.unread.length : ℤ)).toNat = s.unread.length := by omega
    rw [used, List.drop_length, List.drop_eq_nil_of_le (by omega)]

end ByteStream

/-- What `recv` stored, and what the handler then returned. -/
structure ReceiveRound where
  bytes : List UInt8
  useLen : ℤ
deriving DecidableEq, Repr

namespace SocketData

variable {ρ : Type} {d e : SocketData ρ} {s : ByteStream}

/-- A positive result of `recv`, not more than was asked for. -/
def Fits (d : SocketData ρ) (bytes : List UInt8) : Prop := bytes ≠ [] ∧ (bytes.length : ℤ) ≤ d.room

instance (d : SocketData ρ) (bytes : List UInt8) : Decidable (d.Fits bytes) :=
  inferInstanceAs (Decidable (_ ∧ _))

/-- The receive branch of `run_epoll`, with a handler that does not write to `m_data`. -/
def receive (d : SocketData ρ) (round : ReceiveRound) : SocketData ρ :=
  (d.received round.bytes).consume round.useLen

def ReceiveStep (d : SocketData ρ) (round : ReceiveRound) (e : SocketData ρ) : Prop :=
  d.Fits round.bytes ∧ e = d.receive round

/-- The buffered length is in bounds, and the buffer holds what is unread of the stream. -/
structure Holds (d : SocketData ρ) (s : ByteStream) : Prop where
  nonneg : 0 ≤ d.buffLen
  le_capacity : d.buffLen ≤ d.capacity
  content : d.content = s.unread

theorem Holds.received (holds : Holds d s) {bytes : List UInt8} (fits : d.Fits bytes) :
    Holds (d.received bytes) (s.arrive bytes) := by
  have room : (bytes.length : ℤ) ≤ d.capacity - d.buffLen := fits.2
  refine ⟨?_, ?_, ?_⟩
  · rw [buffLen_received]
    have nonneg := holds.nonneg
    omega
  · rw [buffLen_received, capacity_received]
    omega
  · rw [content_received holds.nonneg, holds.content, ByteStream.unread_arrive]

theorem Holds.consume (holds : Holds d s) (useLen : ℤ) : Holds (d.consume useLen) (s.use useLen) := by
  refine ⟨buffLen_consume_nonneg holds.nonneg useLen, ?_, ?_⟩
  · rw [buffLen_consume holds.nonneg, capacity_consume]
    have nonneg := holds.nonneg
    have le_capacity := holds.le_capacity
    omega
  · rw [content_consume holds.nonneg, holds.content, ByteStream.unread_use]

/-- The stream after these rounds. -/
def streamOf (rounds : List ReceiveRound) : ByteStream :=
  rounds.foldl (fun s round => (s.arrive round.bytes).use round.useLen) {}

theorem received_streamOf (rounds : List ReceiveRound) :
    (streamOf rounds).received = rounds.flatMap ReceiveRound.bytes := by
  induction rounds using List.reverseRecOn with
  | nil => rfl
  | append_singleton rounds round ih =>
    rw [streamOf, List.foldl_append, List.flatMap_append, ← ih, ← streamOf]
    simp [ByteStream.use, ByteStream.arrive]

theorem holds_initial (ptr : Option ρ) (buff : Memory) :
    Holds { ptr := ptr, buff := buff } (streamOf []) :=
  ⟨le_rfl, show (0 : ℤ) ≤ 8 * 1024 by decide, rfl⟩

theorem Holds.step {rounds : List ReceiveRound} {round : ReceiveRound} (holds : Holds d (streamOf rounds))
    (step : ReceiveStep d round e) : Holds e (streamOf (rounds ++ [round])) := by
  obtain ⟨fits, rfl⟩ := step
  rw [streamOf, List.foldl_append]
  exact (holds.received fits).consume round.useLen

/-- In every call of the handler and between the calls, the buffered length is between zero and the
capacity, and the buffer holds the bytes of the stream that no call has used. -/
theorem buffer_holds_unread {ptr : Option ρ} {buff : Memory} {rounds : List ReceiveRound}
    (run : Run ReceiveStep { ptr := ptr, buff := buff } rounds d) :
    (streamOf rounds).received = rounds.flatMap ReceiveRound.bytes ∧ Holds d (streamOf rounds) ∧
      ∀ bytes, d.Fits bytes → Holds (d.received bytes) ((streamOf rounds).arrive bytes) := by
  have holds : Holds d (streamOf rounds) :=
    run.history (fun rounds d => Holds d (streamOf rounds)) (fun _ _ _ _ holds step => holds.step step)
      (holds_initial ptr buff)
  exact ⟨received_streamOf rounds, holds, fun _ fits => holds.received fits⟩

/-- A partial use, a call that waits, and one that reports more than there is. -/
def threeRounds : List ReceiveRound := [⟨[1, 2, 3], 1⟩, ⟨[4], -5⟩, ⟨[5, 6], 100⟩]

theorem threeRounds_hold : ∃ d : SocketData ℕ, Run ReceiveStep {} threeRounds d ∧
    Holds d (streamOf threeRounds) := by
  have run : Run ReceiveStep ({} : SocketData ℕ) threeRounds _ :=
    .next (.next (.next .start ⟨by decide, rfl⟩) ⟨by decide, rfl⟩) ⟨by decide, rfl⟩
  exact ⟨_, run, (buffer_holds_unread run).2.1⟩

end SocketData

end LinuxZero
