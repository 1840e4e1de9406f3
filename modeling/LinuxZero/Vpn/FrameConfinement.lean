import LinuxZero.Vpn.FrameLoop
import Mathlib.Order.Interval.Set.Basic

/-! # When a dispatched frame is handled inside its own bytes

`deal_data` casts the frame to the struct of its type without looking at the declared length, and
prints the text fields up to their terminator. A frame is therefore handled inside its own bytes
exactly when it is at least as long as the struct its type selects and its last text field is
terminated before the end of the frame; a shorter one reads, overwrites or sends bytes of the
frames behind it.
-/

namespace LinuxZero.Vpn

open Access

/-- The bytes of the frame of `n` bytes at `off`. -/
def frameBytes (off n : ℕ) : Set ℕ := Set.Ico off (off + n)

/-- Every access stays inside the frame. -/
def Confined (accesses : List Access) (m : Memory) (off n : ℕ) : Prop :=
  footprint accesses m ⊆ frameBytes off n

/-- A terminator lies between offset `field` of the frame and its end. -/
def Terminated (m : Memory) (off n field : ℕ) : Prop :=
  ∃ i, off + field ≤ i ∧ i < off + n ∧ m i = 0

/-- The register message reaches its name field, the last string that is printed, and covers the
whole struct if it is answered. -/
def RegisterFits (answered : Bool) (m : Memory) (off n : ℕ) : Prop :=
  (answered = true → sizeofVpnClientRegister ≤ n) ∧ Terminated m off n 26

/-- The create-channel message covers its struct and terminates the client address inside it. -/
def CreateFits (m : Memory) (off n : ℕ) : Prop :=
  sizeofVpnCreaceTcpChannel ≤ n ∧ Terminated m off n 40

/-- The frames that the server handles inside their own bytes. -/
def ServerFrameFits (clientInfo : Option UInt32) (m : Memory) (off n : ℕ) : Prop :=
  (headType m off = clientRegister → RegisterFits clientInfo.isSome m off n) ∧
    (headType m off = creaceTcpChannel → CreateFits m off n)

/-- The frames that the client handles inside their own bytes. It prints a register message and
answers a create-channel message. -/
def ClientFrameFits (m : Memory) (off n : ℕ) : Prop :=
  (headType m off = clientRegister → RegisterFits false m off n) ∧
    (headType m off = creaceTcpChannel → CreateFits m off n)

/-- A confined handler leaves the other bytes alone. -/
theorem Confined.unchanged {accesses : List Access} {m : Memory} {off n : ℕ}
    (confined : Confined accesses m off n) (i : ℕ) (outside : i ∉ frameBytes off n) :
    applyAll accesses m i = m i :=
  applyAll_untouched accesses m i fun member => outside (confined member)

private theorem range_subset_iff (off n start len : ℕ) (positive : 0 < len) :
    {i | start ≤ i ∧ i < start + len} ⊆ frameBytes off n ↔ off ≤ start ∧ start + len ≤ off + n := by
  constructor
  · intro inside
    have first := @inside start ⟨le_rfl, by omega⟩
    have last := @inside (start + len - 1) ⟨by omega, by omega⟩
    simp only [frameBytes, Set.mem_Ico] at first last
    omega
  · rintro ⟨lower, upper⟩ i ⟨after, before⟩
    exact ⟨by omega, by omega⟩

private theorem load_subset_iff (m : Memory) (off n start len : ℕ) (positive : 0 < len) :
    (load start len).touched m ⊆ frameBytes off n ↔ off ≤ start ∧ start + len ≤ off + n :=
  range_subset_iff off n start len positive

private theorem send_subset_iff (m : Memory) (off n start len : ℕ) (positive : 0 < len) :
    (send start len).touched m ⊆ frameBytes off n ↔ off ≤ start ∧ start + len ≤ off + n :=
  range_subset_iff off n start len positive

private theorem store32_subset_iff (m : Memory) (off n start : ℕ) (value : UInt32) :
    (store start (Memory.bytes32 value)).touched m ⊆ frameBytes off n ↔
      off ≤ start ∧ start + 4 ≤ off + n :=
  range_subset_iff off n start 4 (by decide)

private theorem string_subset_iff (m : Memory) (off n field : ℕ) :
    (loadString (off + field)).touched m ⊆ frameBytes off n ↔ Terminated m off n field := by
  rw [Terminated, ← Memory.cstring_below_iff]
  constructor
  · intro inside i member
    exact (inside member).2
  · intro below i member
    have lower := member.1
    exact ⟨(Nat.le_add_right off field).trans lower, below i member⟩

private theorem footprint_cons_subset_iff (access : Access) (rest : List Access) (m : Memory)
    (range : Set ℕ) : footprint (access :: rest) m ⊆ range ↔
      access.touched m ⊆ range ∧ footprint rest (access.apply m) ⊆ range :=
  Set.union_subset_iff

private theorem footprint_nil_subset (m : Memory) (range : Set ℕ) : footprint [] m ⊆ range :=
  Set.empty_subset range

theorem Terminated.earlier {m : Memory} {off n first second : ℕ}
    (terminated : Terminated m off n second) (order : first ≤ second) : Terminated m off n first := by
  obtain ⟨i, lower, upper, terminator⟩ := terminated
  exact ⟨i, by omega, upper, terminator⟩

theorem Terminated.bound {m : Memory} {off n field : ℕ}
    (terminated : Terminated m off n field) : field < n := by
  obtain ⟨i, lower, upper, _⟩ := terminated
  omega

private theorem types_differ : clientRegister ≠ creaceTcpChannel := by decide

/-- Printing a frame stays inside it when its strings and fields do. -/
private theorem logMsg_subset_iff (m : Memory) (off n : ℕ) (head : 4 ≤ n) :
    footprint (logMsg m off) m ⊆ frameBytes off n ↔
      (headType m off = clientRegister → Terminated m off n 26) ∧
      (headType m off = creaceTcpChannel → CreateFits m off n) := by
  by_cases create : headType m off = creaceTcpChannel
  · rw [logMsg, if_pos create, create]
    simp only [logHead, List.cons_append, List.nil_append, footprint_cons_subset_iff,
      footprint_nil_subset, load_subset_iff _ _ _ _ _ (Nat.zero_lt_succ _), string_subset_iff,
      apply_load, apply_loadString, types_differ.symm, CreateFits, sizeofVpnCreaceTcpChannel]
    constructor
    · rintro ⟨_, _, _, _, _, terminated, _, flag, _⟩
      exact ⟨False.elim, fun _ => ⟨by omega, terminated⟩⟩
    · rintro ⟨_, fits⟩
      obtain ⟨covered, terminated⟩ := fits trivial
      have address := terminated.earlier (show 4 ≤ 40 by decide)
      exact ⟨by omega, by omega, by omega, address, by omega, terminated, by omega, by omega, trivial⟩
  by_cases register : headType m off = clientRegister
  · rw [logMsg, if_neg create, if_pos register, register]
    simp only [logHead, List.cons_append, List.nil_append, footprint_cons_subset_iff,
      footprint_nil_subset, load_subset_iff _ _ _ _ _ (Nat.zero_lt_succ _), string_subset_iff,
      apply_load, apply_loadString, types_differ]
    constructor
    · rintro ⟨_, _, _, _, _, terminated, _⟩
      exact ⟨fun _ => terminated, False.elim⟩
    · rintro ⟨fits, _⟩
      have terminated := fits trivial
      have bound := terminated.bound
      have mac := terminated.earlier (show 8 ≤ 26 by decide)
      exact ⟨by omega, by omega, by omega, by omega, mac, terminated, trivial⟩
  · rw [logMsg, if_neg create, if_neg register]
    simp only [logHead, footprint_cons_subset_iff, footprint_nil_subset,
      load_subset_iff _ _ _ _ _ (Nat.zero_lt_succ _), apply_load, create, register]
    simp only [false_implies, and_true, iff_true]
    omega

/-- What both ends do with a frame: print it, look at its type, and run a handler. -/
private theorem dealt_subset_iff (handler : List Access) (m : Memory) (off n : ℕ) (head : 4 ≤ n) :
    footprint (logMsg m off ++ load (off + 2) 1 :: handler) m ⊆ frameBytes off n ↔
      ((headType m off = clientRegister → Terminated m off n 26) ∧
      (headType m off = creaceTcpChannel → CreateFits m off n)) ∧
      footprint handler m ⊆ frameBytes off n := by
  rw [footprint_append, Set.union_subset_iff, logMsg_subset_iff m off n head, applyAll_logMsg,
    footprint_cons_subset_iff, load_subset_iff _ _ _ _ _ Nat.zero_lt_one, apply_load]
  apply and_congr_right
  intro _
  exact and_iff_right ⟨by omega, by omega⟩

private theorem dealClientRegister_subset_iff (clientInfo : Option UInt32) (m : Memory) (off n : ℕ) :
    footprint (dealClientRegister clientInfo off) m ⊆ frameBytes off n ↔
      (clientInfo.isSome = true → sizeofVpnClientRegister ≤ n) := by
  cases clientInfo with
  | none =>
    simp only [dealClientRegister, footprint_nil_subset, Option.isSome_none, Bool.false_eq_true,
      false_implies]
  | some clinetId =>
    simp only [dealClientRegister, footprint_cons_subset_iff, footprint_nil_subset, store32_subset_iff,
      load_subset_iff _ _ _ _ _ (Nat.zero_lt_succ _), sizeofVpnClientRegister,
      send_subset_iff _ _ _ _ _ (Nat.zero_lt_succ _), Option.isSome_some, true_implies, and_true]
    omega

/-- The server stays inside a frame exactly when the frame fits the struct of its type. -/
theorem serverDealData_confined_iff (clientInfo : Option UInt32) (m : Memory) (off n : ℕ)
    (head : 4 ≤ n) :
    Confined (serverDealData clientInfo m off) m off n ↔ ServerFrameFits clientInfo m off n := by
  rw [Confined, serverDealData, dealt_subset_iff _ m off n head, ServerFrameFits]
  by_cases register : headType m off = clientRegister
  · simp only [register, if_true, dealClientRegister_subset_iff, types_differ, false_implies,
      true_implies, and_true, RegisterFits]
    exact and_comm
  · simp only [register, if_false, footprint_nil_subset, false_implies, true_and, and_true]

private theorem waitCreateTcpChannel_subset (connected : Bool × Bool) (m : Memory) (off n : ℕ)
    (fits : CreateFits m off n) :
    footprint (waitCreateTcpChannel connected off) m ⊆ frameBytes off n := by
  obtain ⟨covered, terminated⟩ := fits
  have address := terminated.earlier (show 4 ≤ 40 by decide)
  simp only [sizeofVpnCreaceTcpChannel] at covered
  unfold waitCreateTcpChannel
  split_ifs <;>
    simp only [List.cons_append, List.nil_append, footprint_cons_subset_iff, footprint_nil_subset,
      load_subset_iff _ _ _ _ _ (Nat.zero_lt_succ _), string_subset_iff, store32_subset_iff,
      sizeofVpnCreaceTcpChannel, send_subset_iff _ _ _ _ _ (Nat.zero_lt_succ _), apply_load,
      apply_loadString] <;>
    exact ⟨address, by omega, terminated, by omega, by omega, by omega, trivial⟩

/-- The client stays inside a frame exactly when the frame fits the struct of its type. -/
theorem clientDealData_confined_iff (connected : Bool × Bool) (m : Memory) (off n : ℕ)
    (head : 4 ≤ n) :
    Confined (clientDealData connected m off) m off n ↔ ClientFrameFits m off n := by
  rw [Confined, clientDealData, dealt_subset_iff _ m off n head, ClientFrameFits]
  by_cases create : headType m off = creaceTcpChannel
  · simp only [create, if_true, types_differ.symm, false_implies, true_implies, true_and]
    exact and_iff_left_of_imp (waitCreateTcpChannel_subset connected m off n)
  by_cases register : headType m off = clientRegister
  · simp only [register, if_true, types_differ, if_false, false_implies, true_implies, and_true,
      footprint_cons_subset_iff, footprint_nil_subset, load_subset_iff _ _ _ _ _ (Nat.zero_lt_succ _),
      RegisterFits, Bool.false_eq_true, true_and]
    apply and_iff_left_of_imp
    intro terminated
    have bound := terminated.bound
    omega
  · simp only [create, register, if_false, footprint_nil_subset, false_implies, and_true]

/-- A round that dispatches a frame: it touches only the frame, and changes no byte outside it,
exactly when the frame fits. -/
private theorem round_confined_iff {dealData : DealData} {s next : FrameLoop} {fits : Prop}
    (round : onRecvData dealData s = .inl next) (complete : needLen s.mem s.buff ≤ s.buffLen)
    (confined : Confined (dealData s.dispatched.length s.mem s.buff) s.mem s.buff
      (needLen s.mem s.buff).toNat ↔ fits) :
    (Confined (dealData s.dispatched.length s.mem s.buff) s.mem s.buff (needLen s.mem s.buff).toNat ∧
      ∀ i, i ∉ frameBytes s.buff (needLen s.mem s.buff).toNat → next.mem i = s.mem i) ↔ fits := by
  obtain rfl := Sum.inl.inj ((onRecvData_dispatch complete).symm.trans round)
  rw [← confined]
  exact and_iff_left_of_imp fun inside i outside => inside.unchanged i outside

/-- Whenever a frame loop dispatches a frame, `deal_data` and its handlers stay inside the bytes of
that frame and the round changes no other byte if and only if the frame fits the struct that its
type selects. The state is arbitrary, so this covers every buffer and every frame before. -/
theorem dispatched_confined_iff (clientInfo : Option UInt32) (connected : ℕ → Bool × Bool)
    (s next : FrameLoop) (complete : needLen s.mem s.buff ≤ s.buffLen) :
    (serverOnRecvData clientInfo s = .inl next →
      ((Confined (serverDealData clientInfo s.mem s.buff) s.mem s.buff (needLen s.mem s.buff).toNat ∧
        ∀ i, i ∉ frameBytes s.buff (needLen s.mem s.buff).toNat → next.mem i = s.mem i) ↔
          ServerFrameFits clientInfo s.mem s.buff (needLen s.mem s.buff).toNat)) ∧
    (clientOnRecvData connected s = .inl next →
      ((Confined (clientDealData (connected s.dispatched.length) s.mem s.buff) s.mem s.buff
          (needLen s.mem s.buff).toNat ∧
        ∀ i, i ∉ frameBytes s.buff (needLen s.mem s.buff).toNat → next.mem i = s.mem i) ↔
          ClientFrameFits s.mem s.buff (needLen s.mem s.buff).toNat)) := by
  have head : 4 ≤ (needLen s.mem s.buff).toNat := by
    have := four_le_needLen s.mem s.buff
    omega
  constructor
  · intro round
    exact round_confined_iff round complete (serverDealData_confined_iff clientInfo s.mem s.buff _ head)
  · intro round
    exact round_confined_iff round complete (clientDealData_confined_iff _ s.mem s.buff _ head)

/-- A register message with its full body, all fields zero. -/
def fullRegister : Memory := Memory.write (fun _ => 0) 0 [36, 0, clientRegister, 0xf1]

private theorem fullRegister_fits (answered : Bool) :
    RegisterFits answered fullRegister 0 (needLen fullRegister 0).toNat :=
  ⟨fun _ => by decide, 26, by decide, by decide, by decide⟩

/-- Both ends handle the full register message inside its forty bytes. -/
theorem fullRegister_confined :
    Confined (serverDealData (some 7) fullRegister 0) fullRegister 0 (needLen fullRegister 0).toNat ∧
    Confined (clientDealData (true, true) fullRegister 0) fullRegister 0
      (needLen fullRegister 0).toNat := by
  have complete : needLen fullRegister 0 ≤ (FrameLoop.start fullRegister 40).buffLen := by decide
  have noCreate : headType fullRegister 0 ≠ creaceTcpChannel := by decide
  have server := (dispatched_confined_iff (some 7) (fun _ => (true, true))
    (FrameLoop.start fullRegister 40) _ complete).1 (onRecvData_dispatch complete)
  have client := (dispatched_confined_iff (some 7) (fun _ => (true, true))
    (FrameLoop.start fullRegister 40) _ complete).2 (onRecvData_dispatch complete)
  exact ⟨(server.mpr ⟨fun _ => fullRegister_fits true, fun create => absurd create noCreate⟩).1,
    (client.mpr ⟨fun _ => fullRegister_fits false, fun create => absurd create noCreate⟩).1⟩

/-- A register message without a body, directly followed by a heartbeat. -/
def shortRegister : Memory :=
  Memory.write (fun _ => 0) 0 [0, 0, clientRegister, 0xf1, 0, 0, heartbeat, 0xf1]

/-- Answering the short register message of client 7 overwrites the heartbeat behind it. -/
theorem shortRegister_overwrites_heartbeat :
    ∃ next, serverOnRecvData (some 7) (FrameLoop.start shortRegister 8) = .inl next ∧
      next.dispatched = [⟨0, [0, 0, clientRegister, 0xf1]⟩] ∧ next.buff = 4 ∧
      headType shortRegister 4 = heartbeat ∧ headType next.mem 4 = 0 ∧
      ¬ Confined (serverDealData (some 7) shortRegister 0) shortRegister 0 4 := by
  have complete : needLen shortRegister 0 ≤ (FrameLoop.start shortRegister 8).buffLen := by decide
  refine ⟨_, onRecvData_dispatch complete, by decide, by decide, by decide, by decide, ?_⟩
  intro confined
  have changed : applyAll (serverDealData (some 7) shortRegister 0) shortRegister 6 ≠
    shortRegister 6 := by
    decide
  exact changed (confined.unchanged 6 (by simp [frameBytes]))

end LinuxZero.Vpn
