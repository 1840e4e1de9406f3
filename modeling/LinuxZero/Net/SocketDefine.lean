import LinuxZero.Lib.ByteMemory
import Mathlib.Algebra.Order.Ring.Int

/-! # Connections and their receive buffers

`socket_info` and `socket_data` of `sh_socket_define.h`, with the two buffer operations of the
receive branch that `socket_server`, `socket_server_accept` and `socket_client` share: storing what
`recv` returned and dropping what the handler consumed. The address strings of a connection only
feed the log and are left out. `ptr` is the `void *` a handler attaches to its connection.
-/

namespace LinuxZero

/-- `socket_data`. The object ends after `capacity` bytes of `buff`. -/
structure SocketData (ρ : Type) where
  capacity : ℤ := 8 * 1024
  buffLen : ℤ := 0
  ptr : Option ρ := none
  buff : Memory := fun _ => 0

/-- `socket_info`, without its address strings. -/
structure SocketInfo (ρ : Type) where
  fd : ℤ := 0
  epfd : ℤ := 0
  shFd : UInt32 := 0
  data : SocketData ρ := {}

namespace SocketData

variable {ρ : Type} (d : SocketData ρ)

/-- The buffered bytes, `m_buff[0..m_buff_len)`. -/
def content : List UInt8 := d.buff.read 0 d.buffLen.toNat

/-- The size that `run_epoll` passes to `recv`. -/
def room : ℤ := d.capacity - d.buffLen

/-- `recv` stored `bytes` behind the buffered ones and `m_buff_len` grew by its result. -/
def received (bytes : List UInt8) : SocketData ρ :=
  { d with
    buff := d.buff.write d.buffLen.toNat bytes
    buffLen := d.buffLen + bytes.length }

/-- The handler may have stored into the buffer. -/
def handled (m : Memory) : SocketData ρ := { d with buff := m }

/-- What `run_epoll` does with the value that `on_recv_data` returned. -/
def consume (useLen : ℤ) : SocketData ρ :=
  if useLen < d.buffLen then
    if 0 < useLen then
      { d with
        buff := d.buff.memmove 0 useLen.toNat (d.buffLen - useLen).toNat
        buffLen := d.buffLen - useLen }
    else d
  else { d with buffLen := 0 }

@[simp] theorem capacity_received (bytes : List UInt8) : (d.received bytes).capacity = d.capacity := rfl

@[simp] theorem buffLen_received (bytes : List UInt8) :
    (d.received bytes).buffLen = d.buffLen + bytes.length := rfl

@[simp] theorem ptr_received (bytes : List UInt8) : (d.received bytes).ptr = d.ptr := rfl

@[simp] theorem capacity_handled (m : Memory) : (d.handled m).capacity = d.capacity := rfl

@[simp] theorem buffLen_handled (m : Memory) : (d.handled m).buffLen = d.buffLen := rfl

@[simp] theorem ptr_handled (m : Memory) : (d.handled m).ptr = d.ptr := rfl

theorem content_handled (m : Memory) : (d.handled m).content = m.read 0 d.buffLen.toNat := rfl

@[simp] theorem capacity_consume (useLen : ℤ) : (d.consume useLen).capacity = d.capacity := by
  unfold consume
  split_ifs <;> rfl

@[simp] theorem ptr_consume (useLen : ℤ) : (d.consume useLen).ptr = d.ptr := by
  unfold consume
  split_ifs <;> rfl

theorem length_content : d.content.length = d.buffLen.toNat := Memory.length_read ..

variable {d}

/-- Received bytes are queued behind the buffered ones. -/
theorem content_received (valid : 0 ≤ d.buffLen) (bytes : List UInt8) :
    (d.received bytes).content = d.content ++ bytes := by
  have total : (d.buffLen + bytes.length).toNat = d.buffLen.toNat + bytes.length := by omega
  have stored := d.buff.read_write_append 0 d.buffLen.toNat bytes
  rw [Nat.zero_add] at stored
  rw [content, received, total, stored, content]

/-- Whatever the handler returns, the buffer keeps exactly the bytes it did not consume. -/
theorem content_consume (valid : 0 ≤ d.buffLen) (useLen : ℤ) :
    (d.consume useLen).content = d.content.drop useLen.toNat := by
  unfold consume
  split_ifs with part some_
  · have rest : (d.buffLen - useLen).toNat = d.buffLen.toNat - useLen.toNat := by omega
    rw [content, content, Memory.read_drop _ _ _ _ (by omega), Nat.zero_add, ← rest]
    exact Memory.read_memmove d.buff 0 useLen.toNat (d.buffLen - useLen).toNat
  · rw [Int.toNat_of_nonpos (by omega), List.drop_zero]
  · rw [List.drop_eq_nil_of_le (by rw [length_content]; omega)]
    rfl

theorem buffLen_consume (valid : 0 ≤ d.buffLen) (useLen : ℤ) :
    (d.consume useLen).buffLen = d.buffLen - min (max useLen 0) d.buffLen := by
  unfold consume
  split_ifs with part some_
  · rw [max_eq_left some_.le, min_eq_left part.le]
  · rw [max_eq_right (by omega), min_eq_left valid, sub_zero]
  · rw [max_eq_left (by omega), min_eq_right (by omega), sub_self]

/-- A handler that reports nothing as used leaves the buffer as it is. -/
theorem consume_waiting {useLen : ℤ} (waits : useLen ≤ 0) (some_ : 0 < d.buffLen) :
    d.consume useLen = d := by
  rw [consume, if_pos (by omega), if_neg (by omega)]

theorem buffLen_consume_nonneg (valid : 0 ≤ d.buffLen) (useLen : ℤ) :
    0 ≤ (d.consume useLen).buffLen := by
  rw [buffLen_consume valid]
  omega

end SocketData

end LinuxZero
