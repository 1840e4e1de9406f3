import LinuxZero.Vpn.FrameLoop

/-! # When the frame loops terminate

A loop that stands at a frame boundary whose header is complete and whose body is not makes no
progress and never leaves. Everywhere else a round consumes at least the four bytes of a head. So
the loops return exactly on the buffers without such a boundary, and then the consumed length lies
between zero and the buffer length. This holds for any handler, hence for both ends.
-/

namespace LinuxZero.Vpn

open Access

/-- No frame boundary of the buffer is followed by a complete header with an incomplete body. -/
def NoPartialBody (dealData : DealData) (m : Memory) (len : ℤ) : Prop :=
  ∀ k mem off, FrameBoundary dealData m len k mem off →
    len - off < 4 ∨ needLen mem off ≤ len - off

variable {dealData : DealData} {m : Memory} {len : ℤ}

/-- With no partial body the unconsumed length decreases in every round. -/
theorem onRecvData_returns (valid : 0 ≤ len) (whole : NoPartialBody dealData m len) :
    ∃ result, Loop.Returns (onRecvData dealData) (FrameLoop.start m len) result := by
  apply Loop.returns_of_variant (FrameLoop.At dealData m len) (fun s => s.buffLen.toNat) _
    (FrameLoop.at_start valid)
  intro s next here round
  obtain ⟨there, progress⟩ := here.round round
  refine ⟨there, ?_⟩
  rcases progress with ⟨_, incomplete, header⟩ | ⟨less, _⟩
  · have boundary := whole _ _ _ here.boundary
    rw [← here.buffLen] at boundary
    omega
  · have nonneg := there.nonneg
    omega

/-- A result is the consumed prefix: the boundary at which the loop left. -/
theorem onRecvData_result (valid : 0 ≤ len) {result : FrameLoop}
    (returns : Loop.Returns (onRecvData dealData) (FrameLoop.start m len) result) :
    result.At dealData m len ∧ result.buffLen < 4 := by
  obtain ⟨s, visits, exit⟩ := returns.exists_exit
  have here : s.At dealData m len :=
    visits.invariant (fun _ _ here round => (here.round round).1) (FrameLoop.at_start valid)
  have short : s.buffLen < 4 := by
    by_contra header
    by_cases complete : needLen s.mem s.buff ≤ s.buffLen
    · rw [onRecvData_dispatch complete] at exit
      contradiction
    · rw [onRecvData_stall (by omega) (by omega)] at exit
      contradiction
  obtain rfl := Sum.inr.inj ((onRecvData_return short).symm.trans exit)
  exact ⟨here, short⟩

/-- A boundary with a partial body is visited and then repeated for ever. -/
theorem onRecvData_diverges (valid : 0 ≤ len) {k : ℕ} {mem : Memory} {off : ℕ}
    (boundary : FrameBoundary dealData m len k mem off) (header : 4 ≤ len - off)
    (incomplete : len - off < needLen mem off) (result : FrameLoop) :
    ¬ Loop.Returns (onRecvData dealData) (FrameLoop.start m len) result := by
  obtain ⟨s, visits, here, rfl, rfl, _⟩ := boundary.visited valid
  rw [← here.buffLen] at header incomplete
  rw [Loop.returns_iff_of_visits visits]
  exact (Loop.diverges_of_idle (onRecvData_stall header incomplete)).not_returns result

/-- The loop returns a consumed length within the buffer exactly without a partial body. -/
theorem onRecvData_returns_iff (valid : 0 ≤ len) :
    (∃ result, Loop.Returns (onRecvData dealData) (FrameLoop.start m len) result ∧
      0 ≤ result.dealLen ∧ result.dealLen ≤ len) ↔ NoPartialBody dealData m len := by
  constructor
  · rintro ⟨result, returns, _⟩ k mem off boundary
    by_contra stalled
    push Not at stalled
    exact onRecvData_diverges valid boundary stalled.1 stalled.2 result returns
  · intro whole
    obtain ⟨result, returns⟩ := onRecvData_returns valid whole
    obtain ⟨here, _⟩ := onRecvData_result valid returns
    have consumed := here.dealLen
    have remaining := here.buffLen
    have nonneg := here.nonneg
    exact ⟨result, returns, by omega, by omega⟩

/-! ## The condition on the received bytes -/

/-- The length the first message of some received bytes declares, its head included. -/
def declaredLength (bytes : List UInt8) : ℕ :=
  (bytes.getD 0 0).toNat + 256 * (bytes.getD 1 0).toNat + sizeofVpnHead

/-- Received bytes with some stored over them: the offset and the stored bytes. What would lie
behind the last received byte is not among them. -/
def overwritten (bytes : List UInt8) : Option (ℕ × List UInt8) → List UInt8
  | none => bytes
  | some (off, stored) =>
    bytes.mapIdx fun i byte => if off ≤ i then (stored[i - off]?).getD byte else byte

/-- The server answers a register message by putting the id of the connection at its fifth byte. -/
def serverOverwrites (clientInfo : Option UInt32) (bytes : List UInt8) : Option (ℕ × List UInt8) :=
  if bytes.getD 2 0 = clientRegister then clientInfo.map fun id => (4, Memory.bytes32 id) else none

/-- The client answers a create message by putting the flag at its byte 76. -/
def clientOverwrites (connected : Bool × Bool) (bytes : List UInt8) : Option (ℕ × List UInt8) :=
  if bytes.getD 2 0 = creaceTcpChannel then
    some (76, Memory.bytes32 (if connected.1 && connected.2 then 1 else 0))
  else none

/-- Received bytes, cut message by message by the declared lengths, end in a complete header whose
body is not there; `answer k` is what the handler of the `k`-th message stores over the bytes from
that message on. -/
inductive PartialBody (answer : ℕ → List UInt8 → Option (ℕ × List UInt8)) : ℕ → List UInt8 → Prop
  | here {k : ℕ} {bytes : List UInt8} (header : 4 ≤ bytes.length)
      (incomplete : bytes.length < declaredLength bytes) : PartialBody answer k bytes
  | behind {k : ℕ} {bytes : List UInt8} (complete : declaredLength bytes ≤ bytes.length)
      (later : PartialBody answer (k + 1)
        ((overwritten bytes (answer k bytes)).drop (declaredLength bytes))) :
      PartialBody answer k bytes

/-- The handlers change the received bytes from a message on as `answer` says. -/
def Overwrites (dealData : DealData) (answer : ℕ → List UInt8 → Option (ℕ × List UInt8)) : Prop :=
  ∀ k mem off n, 4 ≤ n →
    (applyAll (dealData k mem off) mem).read off n =
      overwritten (mem.read off n) (answer k (mem.read off n))

theorem getD_read (m : Memory) (off n i : ℕ) (bound : i < n) : (m.read off n).getD i 0 = m (off + i) := by
  rw [List.getD_eq_getElem?_getD, List.getElem?_eq_getElem (by simpa using bound), Option.getD_some,
    Memory.getElem_read]

theorem declaredLength_read (m : Memory) (off n : ℕ) (header : 2 ≤ n) :
    (declaredLength (m.read off n) : ℤ) = needLen m off := by
  simp only [declaredLength, needLen, Memory.le16, getD_read m off n 0 (by omega),
    getD_read m off n 1 (by omega), Nat.add_zero, Nat.cast_add]

/-- A store reaches the received bytes where it overlaps them. -/
theorem read_write_eq_overwritten (m : Memory) (off n at' : ℕ) (stored : List UInt8) :
    (m.write (off + at') stored).read off n = overwritten (m.read off n) (some (at', stored)) := by
  apply List.ext_getElem (by simp [overwritten])
  intro i _ _
  simp only [overwritten, List.getElem_mapIdx, Memory.getElem_read, Memory.write,
    Nat.add_le_add_iff_left, Nat.add_sub_add_left]

theorem serverDealData_overwrites (clientInfo : Option UInt32) :
    Overwrites (fun _ m buff => serverDealData clientInfo m buff)
      (fun _ bytes => serverOverwrites clientInfo bytes) := by
  intro _ mem off n header
  have sameType : (mem.read off n).getD 2 0 = headType mem off := getD_read mem off n 2 (by omega)
  simp only [serverDealData, applyAll_append, applyAll_logMsg, applyAll_cons, apply_load,
    serverOverwrites, sameType]
  split
  · cases clientInfo with
    | none => rfl
    | some id => exact read_write_eq_overwritten mem off n 4 (Memory.bytes32 id)
  · rfl

theorem clientDealData_overwrites (connected : ℕ → Bool × Bool) :
    Overwrites (fun k m buff => clientDealData (connected k) m buff)
      (fun k bytes => clientOverwrites (connected k) bytes) := by
  intro k mem off n header
  have sameType : (mem.read off n).getD 2 0 = headType mem off := getD_read mem off n 2 (by omega)
  simp only [clientDealData, applyAll_append, applyAll_logMsg, applyAll_cons, apply_load,
    clientOverwrites, sameType]
  split
  · rw [waitCreateTcpChannel, applyAll_append]
    cases (connected k).1 && (connected k).2
    · exact read_write_eq_overwritten mem off n 76 (Memory.bytes32 0)
    · exact read_write_eq_overwritten mem off n 76 (Memory.bytes32 1)
  · split <;> rfl

section Received

variable {answer : ℕ → List UInt8 → Option (ℕ × List UInt8)} {bytesLen : ℕ}

/-- What lies behind a complete message, in the memory its handler leaves. -/
theorem Overwrites.read_behind (overwrites : Overwrites dealData answer) {k : ℕ}
    {mem : Memory} {off n : ℕ} (complete : needLen mem off ≤ n) :
    (applyAll (dealData k mem off) mem).read (off + (needLen mem off).toNat)
        (n - (needLen mem off).toNat) =
      (overwritten (mem.read off n) (answer k (mem.read off n))).drop
        (declaredLength (mem.read off n)) := by
  have head := four_le_needLen mem off
  have declared := declaredLength_read mem off n (by omega)
  rw [← overwrites k mem off n (by omega), Memory.read_drop _ _ _ _ (by omega)]
  congr 2 <;> omega

/-- A partial body behind some boundary is one of all the received bytes. -/
theorem PartialBody.of_boundary (overwrites : Overwrites dealData answer) {k : ℕ} {mem : Memory}
    {off : ℕ} (boundary : FrameBoundary dealData m bytesLen k mem off)
    (there : PartialBody answer k (mem.read off (bytesLen - off))) :
    PartialBody answer 0 (m.read 0 bytesLen) := by
  induction boundary with
  | start => exact there
  | @next k mem off before complete ih =>
    have head := four_le_needLen mem off
    have inside : needLen mem off ≤ (bytesLen - off : ℕ) := by omega
    have declared := declaredLength_read mem off (bytesLen - off) (by omega)
    apply ih
    apply PartialBody.behind
    · rw [Memory.length_read]
      omega
    · rw [← overwrites.read_behind inside, Nat.sub_sub]
      exact there

/-- A partial body of the bytes behind a boundary is at a boundary. -/
theorem PartialBody.exists_boundary (overwrites : Overwrites dealData answer) {k : ℕ} {bytes : List UInt8}
    (there : PartialBody answer k bytes) {mem : Memory} {off : ℕ}
    (boundary : FrameBoundary dealData m bytesLen k mem off)
    (received : bytes = mem.read off (bytesLen - off)) :
    ∃ k mem off, FrameBoundary dealData m bytesLen k mem off ∧
      4 ≤ (bytesLen : ℤ) - off ∧ (bytesLen : ℤ) - off < needLen mem off := by
  induction there generalizing mem off with
  | here header incomplete =>
    subst received
    rw [Memory.length_read] at header incomplete
    have declared := declaredLength_read mem off (bytesLen - off) (by omega)
    exact ⟨_, mem, off, boundary, by omega, by omega⟩
  | behind complete later ih =>
    subst received
    rw [Memory.length_read] at complete
    have smallest : 4 ≤ declaredLength (mem.read off (bytesLen - off)) := by
      rw [declaredLength, sizeofVpnHead]
      omega
    have declared := declaredLength_read mem off (bytesLen - off) (by omega)
    refine ih (boundary.next (by omega)) ?_
    rw [← overwrites.read_behind (by omega), Nat.sub_sub]

/-- The boundaries of the loop have no partial body exactly when the received bytes have none. -/
theorem noPartialBody_iff (overwrites : Overwrites dealData answer) :
    NoPartialBody dealData m bytesLen ↔ ¬ PartialBody answer 0 (m.read 0 bytesLen) := by
  constructor
  · intro whole there
    obtain ⟨k, mem, off, boundary, header, incomplete⟩ :=
      there.exists_boundary overwrites FrameBoundary.start rfl
    have fits := whole k mem off boundary
    omega
  · intro whole k mem off boundary
    by_contra stalled
    push Not at stalled
    obtain ⟨header, incomplete⟩ := stalled
    have declared := declaredLength_read mem off (bytesLen - off) (by omega)
    apply whole
    apply PartialBody.of_boundary overwrites boundary
    apply PartialBody.here
    · rw [Memory.length_read]
      omega
    · rw [Memory.length_read]
      omega

end Received

/-- Both frame loops, on every content and length of the receive buffer: they return a length
between zero and the buffer length if and only if the received bytes, cut by the declared lengths,
do not end in a complete header without its body. Where a message is shorter than its answer, the
next header is the one the answer left there. -/
theorem frame_loops_return_iff (clientInfo : Option UInt32) (connected : ℕ → Bool × Bool)
    (m : Memory) (len : ℕ) :
    ((∃ result, Loop.Returns (serverOnRecvData clientInfo) (FrameLoop.start m len) result ∧
        0 ≤ result.dealLen ∧ result.dealLen ≤ len) ↔
      ¬ PartialBody (fun _ bytes => serverOverwrites clientInfo bytes) 0 (m.read 0 len)) ∧
    ((∃ result, Loop.Returns (clientOnRecvData connected) (FrameLoop.start m len) result ∧
        0 ≤ result.dealLen ∧ result.dealLen ≤ len) ↔
      ¬ PartialBody (fun k bytes => clientOverwrites (connected k) bytes) 0 (m.read 0 len)) := by
  constructor
  · rw [← noPartialBody_iff (serverDealData_overwrites clientInfo)]
    exact onRecvData_returns_iff (Int.natCast_nonneg len)
  · rw [← noPartialBody_iff (clientDealData_overwrites connected)]
    exact onRecvData_returns_iff (Int.natCast_nonneg len)

/-- A register message of four bytes, declared complete, and an empty message behind it. -/
def bareRegister : List UInt8 := [0, 0, clientRegister, 0xf1, 0, 0, heartbeat, 0xf1]

/-- The id that the answer puts over the second header declares a body that is not there. -/
example : PartialBody (fun _ bytes => serverOverwrites (some 7) bytes) 0 bareRegister :=
  .behind (by decide) (.here (by decide) (by decide))

/-- A heartbeat header that announces one body byte, and nothing behind it. -/
def partialHeartbeat : Memory := Memory.write (fun _ => 0) 0 [1, 0, heartbeat, 0xf1]

/-- The four bytes of `partialHeartbeat` alone keep both loops from ever returning. -/
theorem partialHeartbeat_never_returns :
    (∀ result, ¬ Loop.Returns (serverOnRecvData (some 1)) (FrameLoop.start partialHeartbeat 4) result) ∧
    (∀ result, ¬ Loop.Returns (clientOnRecvData fun _ => (true, true))
      (FrameLoop.start partialHeartbeat 4) result) := by
  have declared : needLen partialHeartbeat 0 = 5 := by decide
  constructor <;> intro result
  · exact onRecvData_diverges (by decide) .start (by decide) (by rw [declared]; decide) result
  · exact onRecvData_diverges (by decide) .start (by decide) (by rw [declared]; decide) result

end LinuxZero.Vpn
