import LinuxZero.Lib.AccessLog
import LinuxZero.Lib.NetworkOrder

/-! # The headers of a captured packet

`proc_net_data` lays the packed structs of `pro.h` over the buffer, and takes the place of the TCP header from the
header length that the packet states. Each byte that is read is recorded with its offset.
-/

namespace LinuxZero.Pcap

/-- What is printed for a TCP segment: `[src:s_port]->[des:d_port] [seq|ack]`. -/
structure Segment where
  src_ip : List UInt8
  s_port : UInt16
  des_ip : List UInt8
  d_port : UInt16
  seq : UInt32
  ack : UInt32
deriving DecidableEq, Repr

-- the size of `ether_hdr`, and the characters `'0'` and `'.'`
abbrev ether_hdr_size : ℕ := 14

abbrev digit_zero : UInt8 := 48

abbrev dot : UInt8 := 46

/-- The digits of one byte of an address and the dot behind it. -/
def ip_str_part (addr : UInt8) : List UInt8 :=
  if addr > 99 then
    [addr / 100 + digit_zero, addr % 100 / 10 + digit_zero, addr % 100 % 10 + digit_zero, dot]
  else if addr > 9 then [addr / 10 + digit_zero, addr % 10 + digit_zero, dot]
  else [addr % 10 + digit_zero, dot]

/-- The characters stored in `str`; the last dot is overwritten by the terminator. -/
def ip_str (ip : UInt32) (len : ℕ) : List UInt8 :=
  if len < 16 then [] else ((Memory.bytes32 ip).flatMap ip_str_part).dropLast

/-- A little-endian number of some bytes of the buffer. -/
def load (off : ℕ) : ℕ → Recording (List UInt8) ℕ ℕ
  | 0 => pure 0
  | width + 1 => do
    let byte ← .access off fun data => data.getD off 0
    let rest ← load (off + 1) width
    pure (byte.toNat + 256 * rest)

def load8 (off : ℕ) : Recording (List UInt8) ℕ UInt8 := do return UInt8.ofNat (← load off 1)

def load16 (off : ℕ) : Recording (List UInt8) ℕ UInt16 := do return UInt16.ofNat (← load off 2)

def load32 (off : ℕ) : Recording (List UInt8) ℕ UInt32 := do return UInt32.ofNat (← load off 4)

/-- What the call prints; its length argument is not used. -/
def proc_net_data (_len : UInt32) : Recording (List UInt8) ℕ (Option Segment) := do
  let ether_type ← load16 12
  if swap16 ether_type = 0x0800 then
    let ip_hdr := ether_hdr_size
    let protocol ← load8 (ip_hdr + 9)
    if protocol = 6 then
      let vh_len ← load8 ip_hdr
      let tcp_hdr := ether_hdr_size + (vh_len &&& 0x0f).toNat * 4
      let src_ip ← load32 (ip_hdr + 12)
      let des_ip ← load32 (ip_hdr + 16)
      let s_port ← load16 tcp_hdr
      let d_port ← load16 (tcp_hdr + 2)
      let seq ← load32 (tcp_hdr + 4)
      let ack ← load32 (tcp_hdr + 8)
      return some {
        src_ip := ip_str src_ip 32
        s_port := swap16 s_port
        des_ip := ip_str des_ip 32
        d_port := swap16 d_port
        seq := swap32 seq
        ack := swap32 ack }
    else return none
  else return none

/-- The program leaves the buffer alone and reads only bytes that a buffer of this size has. -/
def Confined {α : Type} (size : ℕ) (program : Recording (List UInt8) ℕ α) : Prop :=
  ∀ data : List UInt8, size ≤ data.length → ∃ value,
    Performs (fun _ off => off < data.length) [] data program value data

namespace Confined

variable {α β : Type} {size : ℕ} {program : Recording (List UInt8) ℕ α}
  {next : α → Recording (List UInt8) ℕ β}

theorem pure (value : α) : Confined size (Pure.pure value : Recording (List UInt8) ℕ α) :=
  fun _ _ => ⟨value, .pure value⟩

theorem bind (first : Confined size program) (second : ∀ value, Confined size (next value)) :
    Confined size (program >>= next) := by
  intro data room
  obtain ⟨value, performs⟩ := first data room
  obtain ⟨result, performs'⟩ := second value data room
  exact ⟨result, performs.bind performs'⟩

theorem ite {condition : Prop} [Decidable condition] {other : Recording (List UInt8) ℕ α}
    (positive : Confined size program) (negative : Confined size other) :
    Confined size (if condition then program else other) := by
  split
  · exact positive
  · exact negative

theorem load {off width : ℕ} (inside : off + width ≤ size) : Confined size (Pcap.load off width) := by
  induction width generalizing off with
  | zero => exact .pure 0
  | succ width ih =>
    refine .bind (fun data room => ⟨_, .access _ fun _ _ => ?_⟩) fun byte =>
      .bind (ih (by omega)) fun rest => .pure _
    omega

theorem load8 {off : ℕ} (inside : off + 1 ≤ size) : Confined size (Pcap.load8 off) :=
  .bind (.load inside) fun _ => .pure _

theorem load16 {off : ℕ} (inside : off + 2 ≤ size) : Confined size (Pcap.load16 off) :=
  .bind (.load inside) fun _ => .pure _

theorem load32 {off : ℕ} (inside : off + 4 ≤ size) : Confined size (Pcap.load32 off) :=
  .bind (.load inside) fun _ => .pure _

end Confined

/-- The longest header length a packet can state is 60 bytes. -/
theorem header_le (vh_len : UInt8) : (vh_len &&& 0x0f).toNat * 4 ≤ 60 := by
  have low : (vh_len &&& 0x0f).toNat ≤ 15 := by
    rw [UInt8.toNat_and]
    exact Nat.and_le_right
  omega

/-- 86 bytes are enough for every packet: no header reaches further. -/
theorem proc_net_data_confined (len : UInt32) : Confined 86 (proc_net_data len) := by
  refine .bind (.load16 (by decide)) fun ether_type => .ite ?_ (.pure none)
  refine .bind (.load8 (by decide)) fun protocol => .ite ?_ (.pure none)
  refine .bind (.load8 (by decide)) fun vh_len => ?_
  have behind := header_le vh_len
  refine .bind (.load32 (by decide)) fun src_ip => .bind (.load32 (by decide)) fun des_ip => ?_
  refine .bind (.load16 ?_) fun s_port => .bind (.load16 ?_) fun d_port => ?_
  · simp only [ether_hdr_size]
    omega
  · simp only [ether_hdr_size]
    omega
  refine .bind (.load32 ?_) fun seq => .bind (.load32 ?_) fun ack => .pure _
  · simp only [ether_hdr_size]
    omega
  · simp only [ether_hdr_size]
    omega

/-- A call returns, and every byte it reads is one of the buffer. -/
def ReadsInside (data : List UInt8) (len : UInt32) : Prop :=
  ∃ printed reads, proc_net_data len ⟨data, []⟩ = some (printed, ⟨data, reads⟩) ∧
    ∀ off ∈ reads, off < data.length

theorem proc_net_data_readsInside {data : List UInt8} (room : 86 ≤ data.length) (len : UInt32) :
    ReadsInside data len := by
  obtain ⟨printed, performs⟩ := proc_net_data_confined len data room
  obtain ⟨reads, returns, lawful⟩ := performs [] .nil (List.Subset.refl [])
  refine ⟨printed, reads, returns, fun off member => ?_⟩
  obtain ⟨before, after, split⟩ := List.append_of_mem member
  exact lawful.permitted split

end LinuxZero.Pcap
