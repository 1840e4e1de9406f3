import LinuxZero.Vpn.Segmentation
import LinuxZero.Vpn.WireBytes

/-! # Messages of the server at the client

The server asks its client for a channel by a `vpn_creace_tcp_channel` and answers a `vpn_client_register` with the
number of the client. Both go through the memory of the server as they are, and reach the client in any pieces. The
client connects to the two addresses of a request and sends the request back with its outcome in `m_flag`.
-/

namespace LinuxZero.Vpn

open Access Framing

/-- The arguments of `send_msg_tcp_channel`. -/
structure TcpChannel where
  serverIp : IpString
  serverPort : UInt32
  localIp : IpString
  localPort : UInt32

/-- What the server sends: a request that is built at `msg` in the memory `m`, or the answer to the register message
that lies at `off` in the receive buffer `m`. -/
inductive ServerMessage
  | tcpChannel (channel : TcpChannel) (m : Memory) (msg : ℕ)
  | registered (clientId : UInt32) (m : Memory) (off : ℕ)

namespace ServerMessage

/-- The register message that is answered was sent by a client. -/
def Valid : ServerMessage → Prop
  | tcpChannel _ _ _ => True
  | registered _ m off => ∃ stack msg, sentBytes (clientOnConnected msg) stack =
      [m.read off sizeofVpnClientRegister]

/-- The bytes that the server hands to `send`. -/
def bytes : ServerMessage → List UInt8
  | tcpChannel channel m msg =>
    (sentBytes (sendMsgTcpChannel m msg channel.serverIp channel.serverPort channel.localIp
      channel.localPort) m).flatten
  | registered clientId m off => (sentBytes (serverDealData (some clientId) m off) m).flatten

end ServerMessage

section Fields

/-- A text field of a frame, if it has its terminator inside of the frame. -/
def textField (frame : List UInt8) (off : ℕ) : Option (List UInt8) :=
  if 0 ∈ frame.drop off then some ((frame.drop off).takeWhile (· ≠ 0)) else none

/-- An `int` of a frame. -/
def intField (frame : List UInt8) (off : ℕ) : UInt32 :=
  UInt32.ofNat (Memory.ofLittleEndian ((frame.drop off).take 4))

end Fields

/-- What the client takes out of a message: the arguments of its two calls of `connect`, or its number. -/
inductive ClientReading
  | connects (serverIp : List UInt8) (serverPort : UInt32) (clientIp : List UInt8) (clientPort : UInt32)
  | number (clinetId : UInt32)
  | nothing
deriving DecidableEq, Repr

/-- The reads of `main_client_event::deal_data`; none if a text is not terminated inside of the frame. -/
def clientReads (frame : List UInt8) : Option ClientReading :=
  if frame.getD 2 0 = creaceTcpChannel then
    (textField frame 4).bind fun serverIp => (textField frame 40).map fun clientIp =>
      .connects serverIp (intField frame 36) clientIp (intField frame 72)
  else if frame.getD 2 0 = clientRegister then some (.number (intField frame 4))
  else some .nothing

/-- What the client is meant to take out of a message of the server. -/
def ServerMessage.reading : ServerMessage → ClientReading
  | tcpChannel channel _ _ =>
    .connects channel.serverIp.chars channel.serverPort channel.localIp.chars channel.localPort
  | registered clientId _ _ => .number clientId

/-- The request with its outcome. -/
def clientSends (connected : Bool × Bool) (frame : List UInt8) : List (List UInt8) :=
  if frame.getD 2 0 = creaceTcpChannel then
    [frame.take 76 ++ Memory.bytes32 (if connected.1 && connected.2 then 1 else 0)]
  else []

/-- The messages that the client sends for frames, the first of which has number `n`. -/
def clientSendsAll (connected : ℕ → Bool × Bool) : ℕ → List (List UInt8) → List (List UInt8)
  | _, [] => []
  | n, frame :: rest => clientSends (connected n) frame ++ clientSendsAll connected (n + 1) rest

theorem clientSendsAll_append (connected : ℕ → Bool × Bool) (n : ℕ) (first second : List (List UInt8)) :
    clientSendsAll connected n (first ++ second) =
      clientSendsAll connected n first ++ clientSendsAll connected (n + first.length) second := by
  induction first generalizing n with
  | nil => rfl
  | cons frame rest ih =>
    rw [List.cons_append, clientSendsAll, ih, clientSendsAll, List.append_assoc, List.length_cons,
      Nat.add_right_comm]
    rfl

section Bytes

/-- What a field of four bytes is read as. -/
theorem ofLittleEndian_bytes32 (value : UInt32) :
    UInt32.ofNat (Memory.ofLittleEndian (Memory.bytes32 value)) = value := by
  have bound := value.toNat_lt
  apply UInt32.toNat_inj.mp
  simp only [Memory.bytes32, Memory.ofLittleEndian, UInt32.toNat_toUInt8, UInt32.toNat_shiftRight,
    UInt32.toNat_ofNat']
  simp only [Nat.shiftRight_eq_div_pow, UInt32.reduceToNat, Nat.reduceMod, Nat.reducePow]
  omega

theorem intField_eq {frame : List UInt8} {off : ℕ} {value : UInt32}
    (stored : (frame.drop off).take 4 = Memory.bytes32 value) :
    intField frame off = value := by
  rw [intField, stored, ofLittleEndian_bytes32]

/-- A text is read up to the terminator that `strcpy` has stored behind it. -/
theorem textField_eq {frame text : List UInt8} {off : ℕ} (noTerminator : 0 ∉ text)
    (stored : (frame.drop off).take (text ++ [0]).length = text ++ [0]) : textField frame off =
    some text := by
  have split : frame.drop off = text ++ 0 :: (frame.drop off).drop (text ++ [0]).length := by
    rw [List.append_cons]
    conv_rhs => lhs; rw [← stored]
    exact (List.take_append_drop ..).symm
  have chars : ∀ byte ∈ text, decide (byte ≠ 0) = true := fun byte member =>
    decide_eq_true fun zero => noTerminator (zero ▸ member)
  rw [textField, split, if_pos (List.mem_append_right _ List.mem_cons_self),
    List.takeWhile_append_of_pos chars]
  rw [List.takeWhile_cons_of_neg (by decide), List.append_nil]

/-- The part of a range that was read. -/
theorem read_drop_take (m : Memory) (off len skip count : ℕ) (inside : skip + count ≤ len) :
    ((m.read off len).drop skip).take count = m.read (off + skip) count := by
  rw [Memory.read_drop _ _ _ _ (by omega), Memory.read_take _ _ _ _ (by omega)]

theorem getElem?_read (m : Memory) (off len i : ℕ) (bound : i < len) : (m.read off len)[i]? =
    some (m (off + i)) := by
  have inside : i < (m.read off len).length := by rwa [Memory.length_read]
  rw [List.getElem?_eq_getElem inside, Memory.getElem_read]

end Bytes

namespace Access

/-- Two stores do not overlap. -/
def Apart : Access → Access → Prop
  | store off bytes, store off' bytes' => off + bytes.length ≤ off' ∨ off' + bytes'.length ≤ off
  | _, _ => True

theorem read_apply_of_apart {access : Access} {off : ℕ} {bytes : List UInt8}
    (apart : Apart (store off bytes) access) (m : Memory) :
    (access.apply m).read off bytes.length = m.read off bytes.length := by
  cases access with
  | store => exact m.read_write_disjoint _ _ _ _ apart
  | load | loadString | send => rfl

theorem read_applyAll_of_apart {accesses : List Access} {off : ℕ} {bytes : List UInt8}
    (apart : ∀ access ∈ accesses, Apart (store off bytes) access) (m : Memory) :
    (applyAll accesses m).read off bytes.length = m.read off bytes.length := by
  induction accesses generalizing m with
  | nil => rfl
  | cons access rest ih =>
    rw [applyAll_cons, ih fun other member => apart other (List.mem_cons_of_mem _ member)]
    exact read_apply_of_apart (apart access List.mem_cons_self) m

/-- Stores that do not overlap are all read back. -/
theorem read_stored {accesses : List Access} (apart : accesses.Pairwise Apart) (off : ℕ)
    (bytes : List UInt8) (member : store off bytes ∈ accesses) (m : Memory) :
    (applyAll accesses m).read off bytes.length = bytes := by
  induction accesses generalizing m with
  | nil => exact absurd member List.not_mem_nil
  | cons access rest ih =>
    obtain ⟨ahead, apart⟩ := List.pairwise_cons.mp apart
    rcases List.mem_cons.mp member with rfl | later
    · rw [applyAll_cons, read_applyAll_of_apart ahead]
      exact m.read_write off bytes
    · exact ih apart later _

end Access

section Messages

theorem fillTcpChannel_apart (msg : ℕ) (serverIp localIp : IpString) (serverPort localPort : UInt32) :
    (fillTcpChannel msg serverIp serverPort localIp localPort).Pairwise Apart := by
  have serverShort := serverIp.short
  have localShort := localIp.short
  simp only [fillTcpChannel, vpnCreaceTcpChannel, initHead, strcpy, List.cons_append,
    List.nil_append, List.pairwise_cons, List.mem_cons, List.not_mem_nil, or_false,
    forall_eq_or_imp, forall_eq, Apart, List.length_append, List.length_cons, List.length_nil,
    Memory.length_bytes32, List.Pairwise.nil, and_true, false_imp_iff, implies_true]
  omega

theorem setMsgClientRegister_apart
    (msg : ℕ) : (vpnClientRegister msg ++ setMsgClientRegister msg).Pairwise Apart := by
  have mac : (literal "A8-5E-45-D5-0A-9A").length = 17 := by decide
  have name : (literal "vpn_client").length = 10 := by decide
  simp only [vpnClientRegister, setMsgClientRegister, initHead, strcpy, List.cons_append,
    List.nil_append, List.pairwise_cons, List.mem_cons, List.not_mem_nil, or_false,
    forall_eq_or_imp, forall_eq, Apart, List.length_append, List.length_cons, List.length_nil,
    Memory.length_bytes32, List.Pairwise.nil, and_true, false_imp_iff, implies_true, mac, name]
  omega

/-- A control frame as the client needs it: the declared length is the actual one, and a request carries its whole
struct. -/
structure IsClientFrame (frame : List UInt8) : Prop where
  declared : (frame.getD 0 0).toNat + 256 * (frame.getD 1 0).toNat + sizeofVpnHead = frame.length
  create : frame.getD 2 0 = creaceTcpChannel → sizeofVpnCreaceTcpChannel ≤ frame.length

/-- A byte of a field. -/
theorem getD_of_field {frame bytes : List UInt8} {off i : ℕ}
    (stored : (frame.drop off).take bytes.length = bytes) (bound : i < bytes.length) :
    frame.getD (off + i) 0 = bytes[i] := by
  have byte : ((frame.drop off).take bytes.length)[i]? = some bytes[i] := by
    rw [stored]
    exact List.getElem?_eq_getElem bound
  rw [List.getElem?_take_of_lt bound, List.getElem?_drop] at byte
  rw [List.getD_eq_getElem?_getD, byte]
  rfl

/-- The fields of the head, as the constructors store them. -/
theorem head_fields {frame : List UInt8} {low high type : UInt8}
    (length : (frame.drop 0).take 2 = [low, high]) (stored : (frame.drop 2).take 1 = [type]) :
    frame.getD 0 0 = low ∧ frame.getD 1 0 = high ∧ frame.getD 2 0 = type :=
  ⟨@getD_of_field frame [low, high] 0 0 length Nat.zero_lt_two,
    @getD_of_field frame [low, high] 0 1 length Nat.one_lt_two,
    @getD_of_field frame [type] 2 0 stored Nat.zero_lt_one⟩

variable {channel : TcpChannel} {m : Memory} {msg off : ℕ} {clientId : UInt32}

theorem bytes_tcpChannel : (ServerMessage.tcpChannel channel m msg).bytes =
    (applyAll (fillTcpChannel msg channel.serverIp channel.serverPort channel.localIp
      channel.localPort) m).read msg 80 := by
  rw [ServerMessage.bytes, sentBytes_sendMsgTcpChannel]
  exact List.append_nil _

/-- A field that a store of the message has filled. -/
theorem field_tcpChannel {skip : ℕ} {bytes : List UInt8} (inside : skip + bytes.length ≤ 80)
    (member : store (msg + skip) bytes ∈ fillTcpChannel msg channel.serverIp channel.serverPort
      channel.localIp channel.localPort) :
    ((ServerMessage.tcpChannel channel m msg).bytes.drop skip).take bytes.length = bytes := by
  rw [bytes_tcpChannel, read_drop_take _ _ _ _ _ inside]
  exact read_stored (fillTcpChannel_apart ..) _ _ member m

theorem head_tcpChannel : (ServerMessage.tcpChannel channel m msg).bytes.getD 0 0 = 76 ∧
    (ServerMessage.tcpChannel channel m msg).bytes.getD 1 0 = 0 ∧
    (ServerMessage.tcpChannel channel m msg).bytes.getD 2 0 = creaceTcpChannel := by
  have length := @field_tcpChannel channel m msg 0 [76, 0] (by decide) List.mem_cons_self
  have type := @field_tcpChannel channel m msg 2 [creaceTcpChannel] (by decide)
    (List.mem_cons_of_mem _ (List.mem_cons_of_mem _ List.mem_cons_self))
  exact head_fields length type

theorem isClientFrame_tcpChannel : IsClientFrame (ServerMessage.tcpChannel channel m msg).bytes := by
  obtain ⟨low, high, _⟩ := @head_tcpChannel channel m msg
  have length : (ServerMessage.tcpChannel channel m msg).bytes.length = 80 := by
    rw [bytes_tcpChannel, Memory.length_read]
  refine ⟨?_, fun _ => length.ge⟩
  rw [low, high, length]
  rfl

theorem reads_tcpChannel : clientReads (ServerMessage.tcpChannel channel m msg).bytes =
    some (ServerMessage.tcpChannel channel m msg).reading := by
  have serverShort := channel.serverIp.short
  have localShort := channel.localIp.short
  have serverIp := @textField_eq (ServerMessage.tcpChannel channel m msg).bytes _ 4
    channel.serverIp.noTerminator (by
      refine field_tcpChannel (by rw [List.length_append, List.length_singleton]; omega) ?_
      exact List.mem_append_right _ List.mem_cons_self)
  have clientIp := @textField_eq (ServerMessage.tcpChannel channel m msg).bytes _ 40
    channel.localIp.noTerminator (by
      refine field_tcpChannel (by rw [List.length_append, List.length_singleton]; omega) ?_
      exact List.mem_append_right _ (List.mem_cons_of_mem _ (List.mem_cons_of_mem _ List.mem_cons_self)))
  have serverPort := intField_eq
    (@field_tcpChannel channel m msg 36 (Memory.bytes32 channel.serverPort)
      (show 36 + 4 ≤ 80 by decide)
      (List.mem_append_right _ (List.mem_cons_of_mem _ List.mem_cons_self)))
  have clientPort := intField_eq
    (@field_tcpChannel channel m msg 72 (Memory.bytes32 channel.localPort)
      (show 72 + 4 ≤ 80 by decide)
      (List.mem_append_right _ (List.mem_cons_of_mem _
        (List.mem_cons_of_mem _ (List.mem_cons_of_mem _ List.mem_cons_self)))))
  rw [clientReads, if_pos head_tcpChannel.2.2, serverIp, clientIp, serverPort, clientPort]
  rfl

/-- The answer is the register message with another number. -/
theorem bytes_registered (valid : (ServerMessage.registered clientId m off).Valid) :
    ∃ stack msg, m.read off 40 =
      (applyAll (vpnClientRegister msg ++ setMsgClientRegister msg) stack).read msg 40 ∧
      headType m off = clientRegister ∧
      (ServerMessage.registered clientId m off).bytes =
        (m.write (off + 4) (Memory.bytes32 clientId)).read off 40 := by
  obtain ⟨stack, msg, sent⟩ := valid
  rw [sentBytes_clientOnConnected] at sent
  have same : m.read off 40 =
    (applyAll (vpnClientRegister msg ++ setMsgClientRegister msg) stack).read msg 40 :=
    (List.cons.inj sent).1.symm
  have type : headType m off = clientRegister := by
    have stored := read_stored (setMsgClientRegister_apart msg) (msg + 2) [clientRegister]
      (List.mem_cons_of_mem _ (List.mem_cons_of_mem _ List.mem_cons_self)) stack
    have here := getElem?_read m off 40 2 (by decide)
    rw [same, getElem?_read _ _ _ _ (by decide)] at here
    have there := getElem?_read (applyAll (vpnClientRegister msg ++ setMsgClientRegister msg) stack)
      (msg + 2) 1 0 Nat.zero_lt_one
    rw [show [clientRegister].length = 1 from rfl] at stored
    rw [stored] at there
    exact (Option.some.inj here).symm.trans (Option.some.inj there).symm
  refine ⟨stack, msg, same, type, ?_⟩
  rw [ServerMessage.bytes, serverDealData, sentBytes_append, sentBytes_logMsg, if_pos type,
    applyAll_logMsg]
  exact List.append_nil _

theorem head_registered (valid : (ServerMessage.registered clientId m off).Valid) :
    (ServerMessage.registered clientId m off).bytes.getD 0 0 = 36 ∧
      (ServerMessage.registered clientId m off).bytes.getD 1 0 = 0 ∧
      (ServerMessage.registered clientId m off).bytes.getD 2 0 = clientRegister := by
  obtain ⟨stack, msg, same, _, bytes⟩ := bytes_registered valid
  -- The head lies in front of the number that is stored.
  have field : ∀ skip count, skip + count ≤ 4 →
    ((ServerMessage.registered clientId m off).bytes.drop skip).take count =
      (applyAll (vpnClientRegister msg ++ setMsgClientRegister msg) stack).read (msg + skip) count := by
    intro skip count front
    rw [bytes, read_drop_take _ _ _ _ _ (by omega),
      Memory.read_write_disjoint _ _ _ _ _ (Or.inl (by omega)),
      ← read_drop_take _ _ 40 _ _ (by omega), same, read_drop_take _ _ _ _ _ (by omega)]
  have length := read_stored (setMsgClientRegister_apart msg) (msg + 0) [36, 0] List.mem_cons_self stack
  have type := read_stored (setMsgClientRegister_apart msg) (msg + 2) [clientRegister]
    (List.mem_cons_of_mem _ (List.mem_cons_of_mem _ List.mem_cons_self)) stack
  exact head_fields ((field 0 2 (by decide)).trans length) ((field 2 1 (by decide)).trans type)

theorem isClientFrame_registered (valid : (ServerMessage.registered clientId m off).Valid) :
    IsClientFrame (ServerMessage.registered clientId m off).bytes := by
  obtain ⟨low, high, type⟩ := head_registered valid
  obtain ⟨_, _, _, _, bytes⟩ := bytes_registered valid
  have length : (ServerMessage.registered clientId m off).bytes.length = 40 := by
    rw [bytes, Memory.length_read]
  refine ⟨?_, fun create => ?_⟩
  · rw [low, high, length]
    rfl
  · exact absurd (type.symm.trans create) (by decide)

theorem reads_registered (valid : (ServerMessage.registered clientId m off).Valid) :
    clientReads (ServerMessage.registered clientId m off).bytes =
    some (ServerMessage.registered clientId m off).reading := by
  obtain ⟨_, _, type⟩ := head_registered valid
  obtain ⟨_, _, _, _, bytes⟩ := bytes_registered valid
  have number : intField (ServerMessage.registered clientId m off).bytes 4 = clientId := by
    apply intField_eq
    rw [bytes, read_drop_take _ _ _ _ _ (by decide)]
    exact m.read_write (off + 4) (Memory.bytes32 clientId)
  rw [clientReads, if_neg (type ▸ by decide), if_pos type, number]
  rfl

/-- What the server sends is a frame, and the client takes the same out of it as the server has put in. -/
theorem ServerMessage.reads (message : ServerMessage) (valid : message.Valid) :
    IsClientFrame message.bytes ∧ clientReads message.bytes = some message.reading := by
  cases message with
  | tcpChannel => exact ⟨isClientFrame_tcpChannel, reads_tcpChannel⟩
  | registered => exact ⟨isClientFrame_registered valid, reads_registered valid⟩

end Messages

end LinuxZero.Vpn
