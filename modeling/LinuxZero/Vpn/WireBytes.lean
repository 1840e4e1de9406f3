import LinuxZero.Vpn.Protocol
import Mathlib.Order.Interval.Set.Basic

/-! # Which bytes of a message come from the memory it is built in

A message object is a local variable. Its constructor stores the head, `strcpy` stores a text and its
terminator, assignments store the numeric fields, and what none of them reaches is whatever the stack
held before; `send` then hands over the whole struct. A range that is sent is the same for any two
prior memories exactly when the stores cover it, so each message is settled by its list of stores.
-/

namespace LinuxZero.Vpn

open Access

namespace Access

/-- The bytes that each `send` of the sequence hands over. -/
def sentBytes : List Access → Memory → List (List UInt8)
  | [], _ => []
  | send off len :: rest, m => m.read off len :: sentBytes rest m
  | access :: rest, m => sentBytes rest (access.apply m)

/-- The offsets that some store of the sequence reaches. -/
def written : List Access → Set ℕ
  | [] => ∅
  | store off bytes :: rest => Set.Ico off (off + bytes.length) ∪ written rest
  | _ :: rest => written rest

theorem sentBytes_append (first second : List Access) (m : Memory) :
    sentBytes (first ++ second) m = sentBytes first m ++ sentBytes second (applyAll first m) := by
  induction first generalizing m with
  | nil => rfl
  | cons access rest ih => cases access <;> simp [sentBytes, ih, applyAll_cons, apply]

/-- Where a store lands, or where they agreed before, two memories agree afterwards. -/
theorem applyAll_agree (accesses : List Access) (m m' : Memory) (i : ℕ)
    (fixed : m i = m' i ∨ i ∈ written accesses) : applyAll accesses m i = applyAll accesses m' i := by
  induction accesses generalizing m m' with
  | nil => exact fixed.resolve_right (Set.notMem_empty i)
  | cons access rest ih =>
    cases access with
    | store off bytes =>
      apply ih
      by_cases inside : i ∈ Set.Ico off (off + bytes.length)
      · obtain ⟨k, rfl⟩ := Nat.exists_eq_add_of_le inside.1
        have bound : k < bytes.length := Nat.lt_of_add_lt_add_left inside.2
        exact Or.inl ((m.write_inside off k bytes bound).trans (m'.write_inside off k bytes bound).symm)
      · have outside : i < off ∨ off + bytes.length ≤ i := by
          simp only [Set.mem_Ico, not_and, not_lt] at inside
          omega
        rcases fixed with same | inRange | later
        · refine Or.inl ?_
          simp only [apply, Memory.write_outside _ _ _ _ outside, same]
        · exact absurd inRange inside
        · exact Or.inr later
    | _ => exact ih m m' fixed

theorem applyAll_unwritten (accesses : List Access) (m : Memory) (i : ℕ)
    (outside : i ∉ written accesses) :
    applyAll accesses m i = m i := by
  induction accesses generalizing m with
  | nil => rfl
  | cons access rest ih =>
    cases access with
    | store off bytes =>
      simp only [written, Set.mem_union, Set.mem_Ico, not_or] at outside
      rw [applyAll_cons, ih _ outside.2]
      exact m.write_outside off i bytes (by omega)
    | _ => exact ih m outside

/-- A range reads the same after any prior memory exactly when the stores cover it. -/
theorem read_fixed_iff (accesses : List Access) (off len : ℕ) :
    (∀ m m', (applyAll accesses m).read off len = (applyAll accesses m').read off len) ↔
      Set.Ico off (off + len) ⊆ written accesses := by
  constructor
  · intro fixed i inside
    by_contra unwritten
    obtain ⟨k, rfl⟩ := Nat.exists_eq_add_of_le inside.1
    have same := (Memory.read_eq_iff ..).mp (fixed (fun _ => 0) fun _ => 1) k
      (Nat.lt_of_add_lt_add_left inside.2)
    rw [applyAll_unwritten _ _ _ unwritten, applyAll_unwritten _ _ _ unwritten] at same
    contradiction
  · intro covered m m'
    apply (Memory.read_eq_iff ..).mpr
    intro k bound
    exact applyAll_agree _ _ _ _ (Or.inr (covered ⟨by omega, by omega⟩))

end Access

def vpnVersion : UInt8 := 0xf1

/-- The characters of a string literal, without its terminator. -/
def literal (text : String) : List UInt8 := text.toList.map Char.toUInt8

/-- A C string of at most 31 characters, as the bytes before its terminator. -/
structure IpString where
  chars : List UInt8
  noTerminator : 0 ∉ chars
  short : chars.length ≤ 31

/-- `strcpy` from a C string. -/
def strcpy (dst : ℕ) (text : List UInt8) : Access := store dst (text ++ [0])

/-- The head that every message constructor fills in. -/
def initHead (msg size : ℕ) (type : UInt8) : List Access :=
  [store msg [UInt8.ofNat (size - sizeofVpnHead), UInt8.ofNat ((size - sizeofVpnHead) / 256)],
    store (msg + 3) [vpnVersion], store (msg + 2) [type]]

/-- The constructor of `vpn_creace_tcp_channel`. -/
def vpnCreaceTcpChannel (msg : ℕ) : List Access := initHead msg sizeofVpnCreaceTcpChannel creaceTcpChannel

/-- The constructor of `vpn_client_register`. -/
def vpnClientRegister (msg : ℕ) : List Access := initHead msg sizeofVpnClientRegister clientRegister

/-- What `send_msg_tcp_channel` stores into its message. -/
def fillTcpChannel (msg : ℕ) (serverIp : IpString) (serverPort : UInt32) (localIp : IpString)
    (localPort : UInt32) : List Access :=
  vpnCreaceTcpChannel msg ++
    [strcpy (msg + 4) serverIp.chars, store (msg + 36) (Memory.bytes32 serverPort),
      strcpy (msg + 40) localIp.chars, store (msg + 72) (Memory.bytes32 localPort),
      store (msg + 76) (Memory.bytes32 0)]

/-- `business_server::send_msg_tcp_channel` with its message object at `msg`. -/
def sendMsgTcpChannel (m : Memory) (msg : ℕ) (serverIp : IpString) (serverPort : UInt32)
    (localIp : IpString) (localPort : UInt32) : List Access :=
  let fill := fillTcpChannel msg serverIp serverPort localIp localPort
  fill ++ logMsg (applyAll fill m) msg ++ [send msg sizeofVpnCreaceTcpChannel]

/-- `main_client_event::set_msg_client_register`. -/
def setMsgClientRegister (msg : ℕ) : List Access :=
  [store (msg + 4) (Memory.bytes32 0), strcpy (msg + 8) (literal "A8-5E-45-D5-0A-9A"),
    strcpy (msg + 26) (literal "vpn_client")]

/-- `main_client_event::on_connected` with its message object at `msg`. -/
def clientOnConnected (msg : ℕ) : List Access :=
  vpnClientRegister msg ++ setMsgClientRegister msg ++ [send msg sizeofVpnClientRegister]

/-- The bytes of the create-channel message do not depend on the memory it is built in. -/
def ChannelBytesFixed (serverIp : IpString) (serverPort : UInt32) (localIp : IpString)
    (localPort : UInt32) : Prop :=
  ∀ msg m m', sentBytes (sendMsgTcpChannel m msg serverIp serverPort localIp localPort) m =
    sentBytes (sendMsgTcpChannel m' msg serverIp serverPort localIp localPort) m'

/-- The bytes of the register message do not depend on the memory it is built in. -/
def RegisterBytesFixed : Prop :=
  ∀ msg m m', sentBytes (clientOnConnected msg) m = sentBytes (clientOnConnected msg) m'

theorem sentBytes_logMsg (m m' : Memory) (msg : ℕ) : sentBytes (logMsg m msg) m' = [] := by
  unfold logMsg
  split
  · rfl
  · split <;> rfl

variable (msg : ℕ) (serverIp localIp : IpString) (serverPort localPort : UInt32)

theorem sentBytes_sendMsgTcpChannel (m : Memory) :
    sentBytes (sendMsgTcpChannel m msg serverIp serverPort localIp localPort) m =
      [(applyAll (fillTcpChannel msg serverIp serverPort localIp localPort) m).read msg 80] := by
  rw [sendMsgTcpChannel, sentBytes_append, sentBytes_append, sentBytes_logMsg, applyAll_append,
    applyAll_logMsg]
  rfl

theorem sentBytes_clientOnConnected (m : Memory) :
    sentBytes (clientOnConnected msg) m =
      [(applyAll (vpnClientRegister msg ++ setMsgClientRegister msg) m).read msg 40] := by
  rw [clientOnConnected, sentBytes_append]
  rfl

/-- The stores reach both ends of the address fields only if the texts fill them. -/
theorem channel_covered_iff :
    Set.Ico msg (msg + 80) ⊆ written (fillTcpChannel msg serverIp serverPort localIp localPort) ↔
      serverIp.chars.length = 31 ∧ localIp.chars.length = 31 := by
  have reach : ∀ i, i ∈ written (fillTcpChannel msg serverIp serverPort localIp localPort) ↔
      msg ≤ i ∧ i < msg + 4 ∨ msg + 4 ≤ i ∧ i < msg + 4 + (serverIp.chars.length + 1) ∨
        msg + 36 ≤ i ∧ i < msg + 40 ∨ msg + 40 ≤ i ∧ i < msg + 40 + (localIp.chars.length + 1) ∨
        msg + 72 ≤ i ∧ i < msg + 80 := by
    intro i
    simp only [fillTcpChannel, vpnCreaceTcpChannel, initHead, strcpy, List.cons_append, List.nil_append,
      written, Set.mem_union, Set.mem_Ico, List.length_append, List.length_cons, List.length_nil,
      Memory.length_bytes32, Set.mem_empty_iff_false, or_false]
    omega
  have serverShort := serverIp.short
  have localShort := localIp.short
  constructor
  · intro covered
    have server := (reach _).mp
      (covered (show msg + 35 ∈ Set.Ico msg (msg + 80) from ⟨by omega, by omega⟩))
    have client := (reach _).mp
      (covered (show msg + 71 ∈ Set.Ico msg (msg + 80) from ⟨by omega, by omega⟩))
    omega
  · rintro ⟨server, client⟩ i ⟨lower, upper⟩
    apply (reach i).mpr
    omega

/-- The last three bytes of the name field are never stored. -/
theorem register_uncovered :
    msg + 37 ∉ written (vpnClientRegister msg ++ setMsgClientRegister msg) := by
  have mac : (literal "A8-5E-45-D5-0A-9A").length = 17 := by decide
  have name : (literal "vpn_client").length = 10 := by decide
  simp only [vpnClientRegister, setMsgClientRegister, initHead, strcpy, List.cons_append, List.nil_append,
    written, Set.mem_union, Set.mem_Ico, List.length_append, List.length_cons, List.length_nil,
    Memory.length_bytes32, Set.mem_empty_iff_false, or_false, mac, name]
  omega

/-- A create-channel message is free of stale bytes exactly when both addresses fill their fields; the
register message never is. -/
theorem wire_bytes_fixed_iff :
    (ChannelBytesFixed serverIp serverPort localIp localPort ↔
      serverIp.chars.length = 31 ∧ localIp.chars.length = 31) ∧ ¬ RegisterBytesFixed := by
  constructor
  · simp only [ChannelBytesFixed, sentBytes_sendMsgTcpChannel, List.cons.injEq, and_true]
    constructor
    · intro fixed
      exact (channel_covered_iff 0 serverIp localIp serverPort localPort).mp
        ((read_fixed_iff _ 0 80).mp (fixed 0))
    · intro full msg
      exact (read_fixed_iff _ msg 80).mpr ((channel_covered_iff msg ..).mpr full)
  · intro fixed
    simp only [RegisterBytesFixed, sentBytes_clientOnConnected, List.cons.injEq, and_true] at fixed
    have covered := (read_fixed_iff _ 0 40).mp (fixed 0)
    exact register_uncovered 0 (covered ⟨by omega, by omega⟩)

/-- `127.0.0.1`. -/
def loopback : IpString := ⟨literal "127.0.0.1", by decide, by decide⟩

/-- Built in zeroed and in filled memory, both messages differ on the wire. -/
theorem stack_bytes_on_wire :
    sentBytes (sendMsgTcpChannel (fun _ => 0) 0 loopback 80 loopback 8080) (fun _ => 0) ≠
      sentBytes (sendMsgTcpChannel (fun _ => 255) 0 loopback 80 loopback 8080) (fun _ => 255) ∧
    sentBytes (clientOnConnected 0) (fun _ => 0) ≠ sentBytes (clientOnConnected 0) fun _ => 255 := by
  constructor <;> decide +kernel

end LinuxZero.Vpn
