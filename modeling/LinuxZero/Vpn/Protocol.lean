import LinuxZero.Lib.ByteMemory

/-! # Control messages and what their handlers touch

The packed messages of `vpv_protocol.h` as offsets from the start of a frame, and the handlers of
both ends as the list of accesses they make to the receive buffer. A handler casts the frame to a
struct of fixed size, so an access may leave the frame; the list records every field that is read
(strings up to their terminator), every store, and every range handed to `send`.
-/

namespace LinuxZero.Vpn

/-- `sizeof(vpn_head)`: `m_body_len` at 0, `m_type` at 2, `m_version` at 3. -/
def sizeofVpnHead : ℕ := 4

/-- `sizeof(vpn_client_register)`: id at 4, mac at 8, name at 26. -/
def sizeofVpnClientRegister : ℕ := 40

/-- `sizeof(vpn_creace_tcp_channel)`: server ip at 4 and port at 36, client ip at 40 and port at 72,
flag at 76. -/
def sizeofVpnCreaceTcpChannel : ℕ := 80

def heartbeat : UInt8 := 'h'.toUInt8
def creaceTcpChannel : UInt8 := 't'.toUInt8
def clientRegister : UInt8 := 'r'.toUInt8

/-- `p_head->m_type` of the frame at `buff`. -/
def headType (m : Memory) (buff : ℕ) : UInt8 := m (buff + 2)

/-- `need_len`: the declared body and the head. -/
def needLen (m : Memory) (buff : ℕ) : ℤ := m.le16 buff + sizeofVpnHead

/-- One access of a handler to the memory behind `m_buff`. -/
inductive Access where
  | load (off len : ℕ)
  | loadString (off : ℕ)
  | store (off : ℕ) (bytes : List UInt8)
  | send (off len : ℕ)
deriving DecidableEq, Repr

namespace Access

/-- The memory after the access. -/
def apply (m : Memory) : Access → Memory
  | store off bytes => m.write off bytes
  | _ => m

/-- The offsets the access reads, writes or sends. -/
def touched (m : Memory) : Access → Set ℕ
  | load off len => {i | off ≤ i ∧ i < off + len}
  | loadString off => m.cstring off
  | store off bytes => {i | off ≤ i ∧ i < off + bytes.length}
  | send off len => {i | off ≤ i ∧ i < off + len}

/-- The memory after a sequence of accesses. -/
def applyAll (accesses : List Access) (m : Memory) : Memory := accesses.foldl apply m

/-- The offsets a sequence of accesses touches, each in the memory its predecessors left. -/
def footprint : List Access → Memory → Set ℕ
  | [], _ => ∅
  | access :: rest, m => access.touched m ∪ footprint rest (access.apply m)

@[simp] theorem apply_load (m : Memory) (off len : ℕ) : apply m (load off len) = m := rfl

@[simp] theorem apply_loadString (m : Memory) (off : ℕ) : apply m (loadString off) = m := rfl

@[simp] theorem apply_send (m : Memory) (off len : ℕ) : apply m (send off len) = m := rfl

@[simp] theorem applyAll_nil (m : Memory) : applyAll [] m = m := rfl

@[simp] theorem applyAll_cons (access : Access) (rest : List Access) (m : Memory) :
    applyAll (access :: rest) m = applyAll rest (access.apply m) := rfl

theorem applyAll_append (first second : List Access) (m : Memory) :
    applyAll (first ++ second) m = applyAll second (applyAll first m) := by
  simp only [applyAll, List.foldl_append]

theorem footprint_append (first second : List Access) (m : Memory) :
    footprint (first ++ second) m = footprint first m ∪ footprint second (applyAll first m) := by
  induction first generalizing m with
  | nil => simp [footprint]
  | cons access rest ih => simp only [List.cons_append, footprint, ih, applyAll_cons, Set.union_assoc]

theorem apply_untouched (m : Memory) (access : Access) (i : ℕ) (outside : i ∉ access.touched m) :
    access.apply m i = m i := by
  cases access with
  | store off bytes =>
    have apart : ¬ (off ≤ i ∧ i < off + bytes.length) := outside
    exact m.write_outside off i bytes (by omega)
  | _ => rfl

/-- Accesses change nothing outside their footprint. -/
theorem applyAll_untouched (accesses : List Access) (m : Memory) (i : ℕ)
    (outside : i ∉ footprint accesses m) : applyAll accesses m i = m i := by
  induction accesses generalizing m with
  | nil => rfl
  | cons access rest ih =>
    simp only [footprint, Set.mem_union, not_or] at outside
    rw [applyAll_cons, ih _ outside.2, apply_untouched m access i outside.1]

end Access

open Access

/-- The head fields that `log_msg` prints for every type. -/
def logHead (buff : ℕ) : List Access := [load (buff + 2) 1, load (buff + 3) 1, load buff 2]

/-- `log_msg`: the fields it prints, `%s` arguments as string reads. -/
def logMsg (m : Memory) (buff : ℕ) : List Access :=
  if headType m buff = creaceTcpChannel then
    logHead buff ++ [loadString (buff + 4), load (buff + 36) 4, loadString (buff + 40),
      load (buff + 72) 4, load (buff + 76) 4]
  else if headType m buff = clientRegister then
    logHead buff ++ [load (buff + 4) 4, loadString (buff + 8), loadString (buff + 26)]
  else logHead buff

/-- Printing a message changes nothing. -/
theorem applyAll_logMsg (m m' : Memory) (buff : ℕ) : applyAll (logMsg m buff) m' = m' := by
  unfold logMsg
  split
  · rfl
  · split <;> rfl

/-- `business_server::deal_client_register`; `clientInfo` is the client id behind `m_data.m_ptr`.
Both arms of its test for a zero id store the id of the connection. -/
def dealClientRegister (clientInfo : Option UInt32) (buff : ℕ) : List Access :=
  match clientInfo with
  | none => []
  | some clinetId =>
    [load (buff + 4) 4, store (buff + 4) (Memory.bytes32 clinetId), send buff sizeofVpnClientRegister]

/-- `business_server::deal_data`. -/
def serverDealData (clientInfo : Option UInt32) (m : Memory) (buff : ℕ) : List Access :=
  logMsg m buff ++ load (buff + 2) 1 ::
    if headType m buff = clientRegister then dealClientRegister clientInfo buff else []

/-- `main_client_event::wait_create_tcp_channel`; the two Booleans say which of its two calls of
`connect` returned a connection. -/
def waitCreateTcpChannel (connected : Bool × Bool) (buff : ℕ) : List Access :=
  [loadString (buff + 4), load (buff + 36) 4, loadString (buff + 40), load (buff + 72) 4] ++
    if connected.1 && connected.2 then
      [store (buff + 76) (Memory.bytes32 1), send buff sizeofVpnCreaceTcpChannel]
    else [store (buff + 76) (Memory.bytes32 0), send buff sizeofVpnCreaceTcpChannel]

/-- `main_client_event::deal_data`. -/
def clientDealData (connected : Bool × Bool) (m : Memory) (buff : ℕ) : List Access :=
  logMsg m buff ++ load (buff + 2) 1 ::
    if headType m buff = creaceTcpChannel then waitCreateTcpChannel connected buff
    else if headType m buff = clientRegister then [load (buff + 4) 4]
    else []

end LinuxZero.Vpn
