import LinuxZero.Lib.NetworkOrder
import Mathlib.Data.List.Basic

/-! # Printing a received packet

`show_info` reads a frame through the header structs of DPDK. The transport header is taken to be 20 bytes behind
the start of the IP header, and the same 20 bytes are taken off the length, whatever the header says about its own
length.
-/

namespace LinuxZero.Ustack

/-- What is printed for a packet with ports: addresses as their bytes in memory. -/
structure Line where
  port_id : ℕ
  q : ℤ
  protocol : String
  src_mac : List UInt8
  src_addr : List UInt8
  src_port : UInt16
  dst_mac : List UInt8
  dst_addr : List UInt8
  dst_port : UInt16
  data_len : UInt16
deriving DecidableEq, Repr

inductive Shown where
  | nothing
  /-- `Received unknown transport layer protocol packet`. -/
  | unknown
  | line (line : Line)
deriving DecidableEq, Repr

abbrev RTE_ETHER_TYPE_IPV4 : UInt16 := 0x0800

abbrev IPPROTO_TCP : UInt8 := 6

abbrev IPPROTO_UDP : UInt8 := 17

-- `rte_ether_hdr` has 14 bytes, `rte_ipv4_hdr` 20 and `rte_udp_hdr` 8; the offsets are those of their fields.
abbrev ether_hdr_size : ℕ := 14

abbrev ipv4_hdr_size : ℕ := 20

abbrev udp_hdr_size : UInt16 := 8

/-- `rte_be_to_cpu_16`. -/
def rte_be_to_cpu_16 (x : UInt16) : UInt16 := swap16 x

def show_info (pkt : Memory) (port_id : ℕ) (q : ℤ) : Shown :=
  if rte_be_to_cpu_16 (pkt.load16 12) = RTE_ETHER_TYPE_IPV4 then
    let ipv4_hdr := ether_hdr_size
    let next_proto_id := pkt (ipv4_hdr + 9)
    if next_proto_id = IPPROTO_UDP then
      let trans_hdr := ipv4_hdr + ipv4_hdr_size
      let trans_header_len :=
        if next_proto_id = IPPROTO_TCP then (pkt (trans_hdr + 12)).toUInt16 * 4 else udp_hdr_size
      .line {
        port_id := port_id
        q := q
        protocol := if next_proto_id = IPPROTO_TCP then "TCP" else "UDP"
        src_mac := pkt.read 6 6
        src_addr := pkt.read (ipv4_hdr + 12) 4
        src_port := rte_be_to_cpu_16 (pkt.load16 trans_hdr)
        dst_mac := pkt.read 0 6
        dst_addr := pkt.read (ipv4_hdr + 16) 4
        dst_port := rte_be_to_cpu_16 (pkt.load16 (trans_hdr + 2))
        -- the subtraction is one of `size_t`, and its low 16 bits are kept
        data_len := ((rte_be_to_cpu_16 (pkt.load16 (ipv4_hdr + 2))).toUInt64 - UInt64.ofNat
          ipv4_hdr_size -
          trans_header_len.toUInt64).toUInt16 }
    else if next_proto_id = IPPROTO_TCP then .nothing
    else .unknown
  else .nothing

/-- A frame with an IPv4 header of `ihl` words and a UDP datagram of `udp_len` bytes behind it. -/
structure UdpFrame (pkt : Memory) (ihl udp_len : ℕ) : Prop where
  ether_type : pkt.be16 12 = 0x0800
  version_ihl : (pkt 14).toNat = 16 * 4 + ihl
  least : 5 ≤ ihl
  most : ihl ≤ 15
  total_length : pkt.be16 16 = 4 * ihl + udp_len
  next_proto_id : pkt 23 = IPPROTO_UDP
  dgram_len : pkt.be16 (14 + 4 * ihl + 4) = udp_len
  header : 8 ≤ udp_len

/-- The line has the ports of the UDP header and the length of its data. -/
def Line.Reports (line : Line) (pkt : Memory) (ihl udp_len : ℕ) : Prop :=
  line.src_port.toNat = pkt.be16 (14 + 4 * ihl) ∧ line.dst_port.toNat = pkt.be16 (14 + 4 * ihl + 2) ∧
    line.data_len.toNat = udp_len - 8

variable {pkt : Memory} {ihl udp_len : ℕ}

/-- The fields that are printed for a UDP frame: those at fixed offsets. -/
theorem show_info_udp (frame : UdpFrame pkt ihl udp_len) (port_id : ℕ) (q : ℤ) :
    ∃ line, show_info pkt port_id q = .line line ∧
    line.src_port.toNat = pkt.be16 34 ∧ line.dst_port.toNat = pkt.be16 36 ∧
    line.data_len.toNat = 4 * ihl + udp_len - 28 := by
  have isIpv4 : rte_be_to_cpu_16 (pkt.load16 12) = RTE_ETHER_TYPE_IPV4 := by
    rw [← UInt16.toNat_inj, rte_be_to_cpu_16, toNat_swap16_load16, frame.ether_type]
    rfl
  have total : (rte_be_to_cpu_16 (pkt.load16 (ether_hdr_size + 2))).toNat = 4 * ihl + udp_len := by
    rw [rte_be_to_cpu_16, toNat_swap16_load16]
    exact frame.total_length
  have bound := (rte_be_to_cpu_16 (pkt.load16 (ether_hdr_size + 2))).toNat_lt
  have least := frame.least
  have header := frame.header
  refine ⟨_, (if_pos isIpv4).trans (if_pos frame.next_proto_id), toNat_swap16_load16 ..,
    toNat_swap16_load16 .., ?_⟩
  have other : ¬ pkt (ether_hdr_size + 9) = IPPROTO_TCP := by
    rw [show pkt (ether_hdr_size + 9) = IPPROTO_UDP from frame.next_proto_id]
    decide
  dsimp only
  rw [if_neg other]
  -- both subtractions stay above zero, so nothing wraps
  simp only [UInt64.toNat_toUInt16, UInt64.toNat_sub, UInt16.toNat_toUInt64, UInt64.toNat_ofNat',
    total, ipv4_hdr_size,
    show udp_hdr_size.toNat = 8 from rfl]
  omega

/-- The ports and the length of a well-formed UDP frame are reported exactly when its IP header has no options. -/
theorem show_info_reports_iff (frame : UdpFrame pkt ihl udp_len) (port_id : ℕ) (q : ℤ) :
    (∃ line, show_info pkt port_id q = .line line ∧ line.Reports pkt ihl udp_len) ↔ ihl = 5 := by
  obtain ⟨line, shown, src, dst, len⟩ := show_info_udp frame port_id q
  have least := frame.least
  have header := frame.header
  constructor
  · rintro ⟨line', shown', _, _, data⟩
    obtain rfl := Shown.line.inj (shown.symm.trans shown')
    omega
  · rintro rfl
    exact ⟨line, shown, src, dst, by omega⟩

/-- A frame from these bytes on. -/
private def frameOf (bytes : List UInt8) : Memory := fun i => (bytes[i]?).getD 0

/-- From port 5000 to port 53, with four bytes of data. -/
private def plainFrame : Memory := frameOf
  [2, 0, 0, 0, 0, 1, 2, 0, 0, 0, 0, 2, 8, 0,
    69, 0, 0, 32, 0, 0, 0, 0, 64, 17, 0, 0, 10, 0, 0, 1, 10, 0, 0, 2,
    19, 136, 0, 53, 0, 12, 0, 0, 1, 2, 3, 4]

/-- The same datagram behind a header with the router alert option. -/
private def optionFrame : Memory := frameOf
  [2, 0, 0, 0, 0, 1, 2, 0, 0, 0, 0, 2, 8, 0,
    70, 0, 0, 36, 0, 0, 0, 0, 64, 17, 0, 0, 10, 0, 0, 1, 10, 0, 0, 2, 148, 4, 0, 0,
    19, 136, 0, 53, 0, 12, 0, 0, 1, 2, 3, 4]

theorem show_info_reports_plain : ∃ line, show_info plainFrame 0 0 = .line line ∧
    line.Reports plainFrame 5 12 := by
  have frame : UdpFrame plainFrame 5 12 := by constructor <;> decide
  exact (show_info_reports_iff frame 0 0).mpr rfl

/-- The option is printed as the ports, and the length is four too large. -/
theorem show_info_option : UdpFrame optionFrame 6 12 ∧
    ¬ ∃ line, show_info optionFrame 0 0 = .line line ∧ line.Reports optionFrame 6 12 := by
  have frame : UdpFrame optionFrame 6 12 := by constructor <;> decide
  refine ⟨frame, fun ⟨line, shown, reports⟩ => ?_⟩
  obtain ⟨other, shown', _, _, length⟩ := show_info_udp frame 0 0
  obtain rfl := Shown.line.inj (shown.symm.trans shown')
  exact absurd (length.symm.trans reports.2.2) (by decide)

end LinuxZero.Ustack
