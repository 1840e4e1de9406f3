import LinuxZero.Lib.Run
import Mathlib.Data.Finset.Erase
import Mathlib.Data.Finset.Insert
import Mathlib.Logic.Function.Basic

/-! # The waiting slot of a channel

`vpn_server_oi` pairs the sockets of two listeners. The thread of the out listener stores each socket in
the one slot `m_p_info`; the thread of the in listener reads the slot in one critical section and empties
it in the next. A socket that is stored over a waiting one, or between these two sections, takes the place
of the other or is thrown away. The steps are the critical sections, with the accepts before them; the
wait of the in thread ends with a signal, after its time or for no reason. A socket that disconnects is
deleted, wherever it is still pointed at, and its address may be given out again.
-/

namespace LinuxZero.Svpn

/-- A `socket_info`: its address, and a number that tells it from the others at that address. The code
knows the address alone. -/
structure SlotInfo where
  address : ℕ
  serial : ℕ
deriving DecidableEq, Repr

/-- Where the thread of the in listener is inside `event_in::on_accept`. -/
inductive InPhase where
  | idle
  /-- The first critical section is next. -/
  | read (info : SlotInfo)
  /-- In `wait_for`, which has released the mutex; the slot was empty. -/
  | wait (info : SlotInfo)
  /-- `remote_info` is not null; the second critical section is next. -/
  | pair (info remote_info : SlotInfo)
  /-- The section of the connected mutex is next. -/
  | connected (info : SlotInfo)
deriving DecidableEq, Repr

/-- The in socket whose `on_accept` is being executed. -/
def InPhase.own : InPhase → Option SlotInfo
  | .idle => none
  | .read info => some info
  | .wait info => some info
  | .pair info _ => some info
  | .connected info => some info

/-- The channel and its sockets. `outs` are the out sockets that have been stored, `ins` the in sockets;
both are connected. `ended` are the in sockets that have disconnected, `used` all sockets there have
been, and `fault` says that the pairing has used a deleted one. -/
structure VpnServerOi where
  m_p_info : Option SlotInfo
  m_connected_count : ℤ
  /-- `m_data.m_ptr` of the `socket_info` at an address. -/
  m_ptr : ℕ → Option SlotInfo
  inner : InPhase
  /-- The out socket whose `on_accept` is next. -/
  outer : Option SlotInfo
  outs : Finset SlotInfo
  ins : Finset SlotInfo
  ended : Finset SlotInfo
  used : Finset SlotInfo
  fault : Bool

inductive SlotEvent where
  /-- `run_accept` of the out listener gets a socket from `get_clinet_info`. -/
  | outSocket (info : SlotInfo)
  /-- The critical section of `event_out::on_accept`. -/
  | outAccept
  /-- `event_out::on_connected`. -/
  | outConnected
  /-- A connection of the out listener ends and is deleted. -/
  | outDisconnected (info : SlotInfo)
  /-- `run_accept` of the in listener gets a socket and calls `event_in::on_accept`. -/
  | inAccept (info : SlotInfo)
  | inDisconnected (info : SlotInfo)
  /-- The next critical section of `event_in::on_accept`. -/
  | inSection
deriving DecidableEq, Repr

namespace VpnServerOi

def initial : VpnServerOi where
  m_p_info := none
  m_connected_count := 0
  m_ptr _ := none
  inner := .idle
  outer := none
  outs := ∅
  ins := ∅
  ended := ∅
  used := ∅
  fault := false

section Functions

variable (s : VpnServerOi)

/-- The next critical section of `event_in::on_accept`. -/
def on_accept : VpnServerOi :=
  match s.inner with
  | .idle => s
  | .read info =>
    match s.m_p_info with
    | some remote_info => { s with inner := .pair info remote_info }
    | none => { s with inner := .wait info }
  | .wait info =>
    match s.m_p_info with
    | some remote_info => { s with inner := .pair info remote_info }
    | none => { s with inner := .idle }
  | .pair info remote_info =>
    { s with
      m_ptr := Function.update (Function.update s.m_ptr info.address (some remote_info))
        remote_info.address (some info)
      m_p_info := none
      inner := .connected info
      fault := s.fault || decide (remote_info ∉ s.outs) }
  | .connected _ => { s with m_connected_count := s.m_connected_count - 1, inner := .idle }

/-- The socket is allocated. -/
def Live (info : SlotInfo) : Prop := info ∈ s.outs ∨ info ∈ s.ins ∨ s.outer = some info

/-- `get_clinet_info` may return this new socket: no allocated one stands at its address. -/
def Available (info : SlotInfo) : Prop :=
  info ∉ s.used ∧ ∀ other, s.Live other → other.address ≠ info.address

instance (info : SlotInfo) : Decidable (s.Available info) :=
  decidable_of_iff (info ∉ s.used ∧ (∀ other ∈ s.outs, other.address ≠ info.address) ∧
      (∀ other ∈ s.ins, other.address ≠ info.address) ∧
      ∀ other ∈ s.outer, other.address ≠ info.address) <|
    and_congr_right fun _ => by
      simp only [Live, or_imp, forall_and]
      rfl

/-- A listener accepts the next socket when the handler of the last one has returned. An in socket can
disconnect only then, an out socket once it is stored. -/
def Enabled : SlotEvent → Prop
  | .outSocket info => s.outer = none ∧ s.Available info
  | .outAccept => s.outer ≠ none
  | .outConnected => True
  | .outDisconnected info => info ∈ s.outs
  | .inAccept info => s.inner = .idle ∧ s.Available info
  | .inDisconnected info => info ∈ s.ins ∧ s.inner.own ≠ some info
  | .inSection => s.inner ≠ .idle

instance : (event : SlotEvent) → Decidable (s.Enabled event)
  | .outSocket _ => inferInstanceAs (Decidable (_ ∧ _))
  | .outAccept => inferInstanceAs (Decidable (_ ≠ _))
  | .outConnected => inferInstanceAs (Decidable True)
  | .outDisconnected _ => inferInstanceAs (Decidable (_ ∈ _))
  | .inAccept _ => inferInstanceAs (Decidable (_ ∧ _))
  | .inDisconnected _ => inferInstanceAs (Decidable (_ ∧ _))
  | .inSection => inferInstanceAs (Decidable (_ ≠ _))

def apply : SlotEvent → VpnServerOi
  | .outSocket info =>
    { s with
      outer := some info
      m_ptr := Function.update s.m_ptr info.address none
      used := insert info s.used }
  | .outAccept =>
    match s.outer with
    | some info => { s with m_p_info := some info, outs := insert info s.outs, outer := none }
    | none => s
  | .outConnected => { s with m_connected_count := s.m_connected_count + 1 }
  | .outDisconnected info => { s with outs := s.outs.erase info }
  | .inAccept info =>
    { s with
      inner := .read info
      m_ptr := Function.update s.m_ptr info.address none
      ins := insert info s.ins
      used := insert info s.used }
  | .inDisconnected info => { s with ins := s.ins.erase info, ended := insert info s.ended }
  | .inSection => s.on_accept

/-- The `m_ptr` of one socket is the address of the other. -/
def PointsAt (info other : SlotInfo) : Prop :=
  ∃ p, s.m_ptr info.address = some p ∧ p.address = other.address

instance (info other : SlotInfo) : Decidable (s.PointsAt info other) :=
  inferInstanceAs (Decidable (∃ p ∈ s.m_ptr info.address, p.address = other.address))

/-- The out socket that the next section of the in thread finds in the slot, or pairs. -/
def taking : Option SlotInfo :=
  match s.inner with
  | .read _ => s.m_p_info
  | .wait _ => s.m_p_info
  | .pair _ remote_info => some remote_info
  | _ => none

/-- No out socket is stored over a connected one, the in thread takes connected ones only, and an out
socket does not get an address that an in socket still points at. -/
def Careful : SlotEvent → Prop
  | .outSocket info => ∀ i ∈ s.ins, ¬ s.PointsAt i info
  | .outAccept => ∀ waiting ∈ s.outs, s.m_p_info ≠ some waiting
  | .inSection => ∀ remote_info, s.taking = some remote_info → remote_info ∈ s.outs
  | _ => True

instance : (event : SlotEvent) → Decidable (s.Careful event)
  | .outSocket info => inferInstanceAs (Decidable (∀ i ∈ s.ins, ¬ s.PointsAt i info))
  | .outAccept => inferInstanceAs (Decidable (∀ waiting ∈ s.outs, s.m_p_info ≠ some waiting))
  | .inSection => inferInstanceAs (Decidable (∀ remote_info ∈ s.taking, remote_info ∈ s.outs))
  | .outConnected => inferInstanceAs (Decidable True)
  | .outDisconnected _ => inferInstanceAs (Decidable True)
  | .inAccept _ => inferInstanceAs (Decidable True)
  | .inDisconnected _ => inferInstanceAs (Decidable True)

/-- The out socket waits in the slot, or exactly one in socket points at it, the one that it points at. -/
def Located (info : SlotInfo) : Prop :=
  s.m_p_info = some info ∨
    ∃ i ∈ s.ins, s.m_ptr info.address = some i ∧ s.m_ptr i.address = some info ∧
      ∀ j ∈ s.ins, s.PointsAt j info → j = i

/-- No connected out socket is lost, unless its in socket has ended, and none is taken twice. -/
def Tracked : Prop :=
  (∀ info ∈ s.outs, (∀ i ∈ s.ended, s.m_ptr info.address ≠ some i) → s.Located info) ∧
    ∀ i ∈ s.ins, ∀ j ∈ s.ins, ∀ info, s.PointsAt i info → s.PointsAt j info → i = j

end Functions

def Step (s : VpnServerOi) (event : SlotEvent) (t : VpnServerOi) : Prop :=
  s.Enabled event ∧ t = s.apply event

def CarefulStep (s : VpnServerOi) (event : SlotEvent) (t : VpnServerOi) : Prop :=
  Step s event t ∧ s.Careful event

/-- Nothing points at the socket, and it points at nothing. -/
def Unpaired (s : VpnServerOi) (info : SlotInfo) : Prop :=
  s.m_ptr info.address = none ∧ ∀ i ∈ s.ins, ¬ s.PointsAt i info

/-- What holds along every careful run. -/
structure Matched (s : VpnServerOi) : Prop where
  apart : ∀ x y, s.Live x → s.Live y → x.address = y.address → x = y
  sides : ∀ x ∈ s.ins, x ∉ s.outs ∧ s.outer ≠ some x
  known : ∀ x, s.Live x ∨ x ∈ s.ended → x ∈ s.used
  located : ∀ info ∈ s.outs, (∀ i ∈ s.ended, s.m_ptr info.address ≠ some i) → s.Located info
  once : ∀ i ∈ s.ins, ∀ j ∈ s.ins, ∀ info, s.PointsAt i info → s.PointsAt j info → i = j
  slot : ∀ info, s.m_p_info = some info → info ∈ s.outs → s.Unpaired info
  outer : ∀ info, s.outer = some info → info ∉ s.outs ∧ s.Unpaired info
  pairing : ∀ i info, s.inner = .pair i info →
    info ∈ s.used ∧ s.outer ≠ some info ∧ (info ∈ s.outs → s.m_p_info = some info)
  busy : ∀ i, s.inner = .read i ∨ s.inner = .wait i ∨ (∃ info, s.inner = .pair i info) →
    i ∈ s.ins ∧ s.m_ptr i.address = none
  fault : s.fault = false

theorem matched_initial : Matched initial where
  apart x _ live := by simp [Live, initial] at live
  sides _ := nofun
  known x live := by simp [Live, initial] at live
  located _ := nofun
  once _ := nofun
  slot _ := nofun
  outer _ := nofun
  pairing _ _ := nofun
  busy i := by simp [initial]
  fault := rfl

section Steps

variable {s t : VpnServerOi} {event : SlotEvent} {info : SlotInfo}

theorem Matched.tracked (matched : Matched s) : s.Tracked := ⟨matched.located, matched.once⟩

theorem Matched.address_ne (matched : Matched s) {x y : SlotInfo} (live : s.Live x) (live' : s.Live y)
    (ne : x ≠ y) : x.address ≠ y.address := fun same => ne (matched.apart x y live live' same)

theorem pointsAt_congr {i other : SlotInfo} (same : t.m_ptr i.address = s.m_ptr i.address) :
    t.PointsAt i other ↔ s.PointsAt i other := by
  rw [PointsAt, same, PointsAt]

/-- What the step leaves of a pair, or of a socket in the slot. -/
theorem Located.frame (located : s.Located info) (slot : t.m_p_info = s.m_p_info) (ins : t.ins = s.ins)
    (own : t.m_ptr info.address = s.m_ptr info.address)
    (ptrs : ∀ i ∈ s.ins, t.m_ptr i.address = s.m_ptr i.address) : t.Located info := by
  rcases located with waiting | ⟨i, member, out, back, only⟩
  · exact Or.inl (slot.trans waiting)
  · refine Or.inr ⟨i, ins ▸ member, own.trans out, (ptrs i member).trans back, fun j memberJ points => ?_⟩
    rw [ins] at memberJ
    exact only j memberJ ((pointsAt_congr (ptrs j memberJ)).mp points)

theorem Unpaired.frame (unpaired : s.Unpaired info) (ins : t.ins = s.ins)
    (own : t.m_ptr info.address = s.m_ptr info.address)
    (ptrs : ∀ i ∈ s.ins, t.m_ptr i.address = s.m_ptr i.address) : t.Unpaired info := by
  refine ⟨own.trans unpaired.1, fun i member points => ?_⟩
  rw [ins] at member
  exact unpaired.2 i member ((pointsAt_congr (ptrs i member)).mp points)

/-- A new socket takes no pointer of an allocated one. -/
theorem Available.ptr_eq (available : s.Available info) {other : SlotInfo} (live : s.Live other)
    (p : Option SlotInfo) : Function.update s.m_ptr info.address p other.address = s.m_ptr other.address :=
  Function.update_of_ne (available.2 other live) ..

/-- The listener gets a socket whose address no in socket points at. -/
theorem Matched.outSocket (matched : Matched s) (available : s.Available info)
    (careful : ∀ i ∈ s.ins, ¬ s.PointsAt i info) : Matched (s.apply (.outSocket info)) := by
  have ptrs : ∀ i ∈ s.ins, (s.apply (.outSocket info)).m_ptr i.address = s.m_ptr i.address :=
    fun i member => available.ptr_eq (Or.inr (Or.inl member)) none
  have outs : ∀ x ∈ s.outs, (s.apply (.outSocket info)).m_ptr x.address = s.m_ptr x.address :=
    fun x member => available.ptr_eq (Or.inl member) none
  have live : ∀ x, (s.apply (.outSocket info)).Live x → x = info ∨ s.Live x := by
    rintro x (out | inn | ⟨⟨⟩⟩)
    · exact Or.inr (Or.inl out)
    · exact Or.inr (Or.inr (Or.inl inn))
    · exact Or.inl rfl
  have fresh : ∀ x, s.Live x ∨ x ∈ s.ended → x ≠ info := by
    rintro x old rfl
    exact available.1 (matched.known x old)
  constructor
  case apart =>
    intro x y liveX liveY same
    rcases live x liveX with rfl | oldX <;> rcases live y liveY with rfl | oldY
    · rfl
    · exact absurd same.symm (available.2 y oldY)
    · exact absurd same (available.2 x oldX)
    · exact matched.apart x y oldX oldY same
  case sides =>
    intro x member
    refine ⟨(matched.sides x member).1, ?_⟩
    rintro ⟨⟩
    exact fresh _ (Or.inl (Or.inr (Or.inl member))) rfl
  case known =>
    rintro x (liveX | ended)
    · rcases live x liveX with rfl | old
      · exact Finset.mem_insert_self ..
      · exact Finset.mem_insert_of_mem (matched.known x (Or.inl old))
    · exact Finset.mem_insert_of_mem (matched.known x (Or.inr ended))
  case located =>
    intro x member stays
    refine (matched.located x member fun i ended => ?_).frame rfl rfl (outs x member) ptrs
    rw [← outs x member]
    exact stays i ended
  case once =>
    intro i memberI j memberJ x pointsI pointsJ
    exact matched.once i memberI j memberJ x ((pointsAt_congr (ptrs i memberI)).mp pointsI)
      ((pointsAt_congr (ptrs j memberJ)).mp pointsJ)
  case slot => exact fun x waiting member => (matched.slot x waiting member).frame rfl (outs x member) ptrs
  case outer =>
    rintro x ⟨⟩
    refine ⟨fun member => fresh _ (Or.inl (Or.inl member)) rfl, Function.update_self ..,
      fun i member points => ?_⟩
    exact careful i member ((pointsAt_congr (ptrs i member)).mp points)
  case pairing =>
    intro i x phase
    obtain ⟨old, _, waiting⟩ := matched.pairing i x phase
    refine ⟨Finset.mem_insert_of_mem old, ?_, waiting⟩
    rintro ⟨⟩
    exact available.1 old
  case busy =>
    intro i phase
    obtain ⟨member, unpaired⟩ := matched.busy i phase
    exact ⟨member, (ptrs i member).trans unpaired⟩
  case fault => exact matched.fault

/-- The socket is stored in a slot that holds no connected one. -/
theorem Matched.outAccept (matched : Matched s) (here : s.outer = some info)
    (careful : ∀ waiting ∈ s.outs, s.m_p_info ≠ some waiting) : Matched (s.apply .outAccept) := by
  have stored : s.apply .outAccept =
      { s with m_p_info := some info, outs := insert info s.outs, outer := none } := by
    rw [apply, here]
  obtain ⟨newcomer, unpaired⟩ := matched.outer info here
  rw [stored]
  have live : ∀ x, VpnServerOi.Live
    { s with m_p_info := some info, outs := insert info s.outs, outer := none } x →
      s.Live x := by
    rintro x (out | inn | ⟨⟨⟩⟩)
    · rcases Finset.mem_insert.mp out with rfl | old
      · exact Or.inr (Or.inr here)
      · exact Or.inl old
    · exact Or.inr (Or.inl inn)
  refine { matched with
    apart := ?_, sides := ?_, known := ?_, located := ?_, slot := ?_, outer := nofun,
    pairing := ?_ }
  · exact fun x y liveX liveY => matched.apart x y (live x liveX) (live y liveY)
  · intro x member
    refine ⟨fun out => ?_, nofun⟩
    rcases Finset.mem_insert.mp out with rfl | old
    · exact (matched.sides x member).2 here
    · exact (matched.sides x member).1 old
  · exact fun x old => matched.known x (old.imp_left (live x))
  · intro x member stays
    rcases Finset.mem_insert.mp member with rfl | old
    · exact Or.inl rfl
    · rcases matched.located x old stays with waiting | paired
      · exact absurd waiting (careful x old)
      · exact Or.inr paired
  · rintro x ⟨⟩ _
    exact unpaired
  · intro i x phase
    obtain ⟨old, apart, waiting⟩ := matched.pairing i x phase
    refine ⟨old, nofun, fun member => ?_⟩
    rcases Finset.mem_insert.mp member with rfl | before
    · exact absurd here apart
    · exact absurd (waiting before) (careful x before)

theorem Matched.outDisconnected (matched : Matched s) : Matched (s.apply (.outDisconnected info)) := by
  have live : ∀ x, (s.apply (.outDisconnected info)).Live x → s.Live x := fun x =>
    Or.imp_left Finset.mem_of_mem_erase
  exact { matched with
    apart := fun x y liveX liveY => matched.apart x y (live x liveX) (live y liveY)
    sides := fun x member => ⟨fun out => (matched.sides x member).1 (Finset.mem_of_mem_erase out),
      (matched.sides x member).2⟩
    known := fun x old => matched.known x (old.imp_left (live x))
    located := fun x member => matched.located x (Finset.mem_of_mem_erase member)
    slot := fun x waiting member => matched.slot x waiting (Finset.mem_of_mem_erase member)
    outer := fun x here => ⟨fun out => (matched.outer x here).1 (Finset.mem_of_mem_erase out),
      (matched.outer x here).2⟩
    pairing := fun i x phase => by
      obtain ⟨old, apart, waiting⟩ := matched.pairing i x phase
      exact ⟨old, apart, fun member => waiting (Finset.mem_of_mem_erase member)⟩ }

/-- The in listener gets a socket, which points at nothing. -/
theorem Matched.inAccept (matched : Matched s) (available : s.Available info) :
    Matched (s.apply (.inAccept info)) := by
  have ptr : ∀ x, s.Live x → (s.apply (.inAccept info)).m_ptr x.address = s.m_ptr x.address :=
    fun x live => available.ptr_eq live none
  have own : (s.apply (.inAccept info)).m_ptr info.address = none := Function.update_self ..
  have live : ∀ x, (s.apply (.inAccept info)).Live x → x = info ∨ s.Live x := by
    rintro x (out | inn | outer)
    · exact Or.inr (Or.inl out)
    · exact (Finset.mem_insert.mp inn).imp_right fun old => Or.inr (Or.inl old)
    · exact Or.inr (Or.inr (Or.inr outer))
  have fresh : ∀ x, s.Live x → x ≠ info := by
    rintro x old rfl
    exact available.1 (matched.known x (Or.inl old))
  -- whoever points somewhere has been there before
  have points : ∀ i ∈ insert info s.ins, ∀ x, (s.apply (.inAccept info)).PointsAt i x → i ∈ s.ins ∧
    s.PointsAt i x := by
    intro i member x points
    rcases Finset.mem_insert.mp member with rfl | old
    · obtain ⟨p, isSome, _⟩ := points
      exact nomatch own.symm.trans isSome
    · exact ⟨old, (pointsAt_congr (ptr i (Or.inr (Or.inl old)))).mp points⟩
  have unpaired : ∀ x, s.Live x → s.Unpaired x → (s.apply (.inAccept info)).Unpaired x := by
    intro x liveX nothing
    refine ⟨(ptr x liveX).trans nothing.1, fun i member pointed => ?_⟩
    obtain ⟨old, before⟩ := points i member x pointed
    exact nothing.2 i old before
  constructor
  case apart =>
    intro x y liveX liveY same
    rcases live x liveX with rfl | oldX <;> rcases live y liveY with rfl | oldY
    · rfl
    · exact absurd same.symm (available.2 y oldY)
    · exact absurd same (available.2 x oldX)
    · exact matched.apart x y oldX oldY same
  case sides =>
    intro x member
    rcases Finset.mem_insert.mp member with rfl | old
    · exact ⟨fun out => fresh x (Or.inl out) rfl, fun outer => fresh x (Or.inr (Or.inr outer)) rfl⟩
    · exact matched.sides x old
  case known =>
    rintro x (liveX | ended)
    · rcases live x liveX with rfl | old
      · exact Finset.mem_insert_self ..
      · exact Finset.mem_insert_of_mem (matched.known x (Or.inl old))
    · exact Finset.mem_insert_of_mem (matched.known x (Or.inr ended))
  case located =>
    intro x member stays
    have same := ptr x (Or.inl member)
    rcases matched.located x member (fun i ended => same ▸ stays i ended) with waiting |
        ⟨i, old, out, back, only⟩
    · exact Or.inl waiting
    · refine Or.inr ⟨i, Finset.mem_insert_of_mem old, same.trans out,
        (ptr i (Or.inr (Or.inl old))).trans back, ?_⟩
      intro j memberJ pointed
      obtain ⟨oldJ, before⟩ := points j memberJ x pointed
      exact only j oldJ before
  case once =>
    intro i memberI j memberJ x pointsI pointsJ
    obtain ⟨oldI, beforeI⟩ := points i memberI x pointsI
    obtain ⟨oldJ, beforeJ⟩ := points j memberJ x pointsJ
    exact matched.once i oldI j oldJ x beforeI beforeJ
  case slot => exact fun x waiting member => unpaired x (Or.inl member) (matched.slot x waiting member)
  case outer =>
    intro x here
    obtain ⟨newcomer, nothing⟩ := matched.outer x here
    exact ⟨newcomer, unpaired x (Or.inr (Or.inr here)) nothing⟩
  case pairing => exact fun i x phase => nomatch phase
  case busy =>
    rintro i (phase | phase | ⟨_, phase⟩) <;> cases phase
    exact ⟨Finset.mem_insert_self .., own⟩
  case fault => exact matched.fault

/-- An in socket ends, and with it nothing is said of its out socket any more. -/
theorem Matched.inDisconnected (matched : Matched s) (member : info ∈ s.ins)
    (other : s.inner.own ≠ some info) :
    Matched (s.apply (.inDisconnected info)) := by
  have old : ∀ {i}, i ∈ s.ins.erase info → i ∈ s.ins := Finset.mem_of_mem_erase
  have live : ∀ x, (s.apply (.inDisconnected info)).Live x → s.Live x := fun x =>
    Or.imp_right (Or.imp_left old)
  refine { matched with
    apart := fun x y liveX liveY => matched.apart x y (live x liveX) (live y liveY)
    sides := fun x memberX => matched.sides x (old memberX)
    known := ?_
    located := ?_
    once := fun i memberI j memberJ => matched.once i (old memberI) j (old memberJ)
    slot := fun x waiting out => ⟨(matched.slot x waiting out).1,
      fun i memberI => (matched.slot x waiting out).2 i (old memberI)⟩
    outer := fun x here => ⟨(matched.outer x here).1, (matched.outer x here).2.1,
      fun i memberI => (matched.outer x here).2.2 i (old memberI)⟩
    busy := ?_ }
  · rintro x (liveX | ended)
    · exact matched.known x (Or.inl (live x liveX))
    · rcases Finset.mem_insert.mp ended with rfl | before
      · exact matched.known x (Or.inl (Or.inr (Or.inl member)))
      · exact matched.known x (Or.inr before)
  · intro x out stays
    rcases matched.located x out (fun i ended => stays i (Finset.mem_insert_of_mem ended)) with
      waiting | ⟨i, memberI, forth, back, only⟩
    · exact Or.inl waiting
    · have apart : i ≠ info := by
        rintro rfl
        exact stays i (Finset.mem_insert_self ..) forth
      exact Or.inr ⟨i, Finset.mem_erase.mpr ⟨apart, memberI⟩, forth, back,
        fun j memberJ => only j (old memberJ)⟩
  · intro i phase
    obtain ⟨memberI, unpaired⟩ := matched.busy i phase
    refine ⟨Finset.mem_erase.mpr ⟨?_, memberI⟩, unpaired⟩
    rintro rfl
    rcases phase with phase | phase | ⟨_, phase⟩ <;> exact other (congrArg InPhase.own phase)

/-- What the second critical section does to an in socket and a connected out socket. -/
structure Pairs (s : VpnServerOi) (i info : SlotInfo) (t : VpnServerOi) : Prop where
  member : i ∈ s.ins
  connected : info ∈ s.outs
  slot : t.m_p_info = none
  inner : t.inner = .connected i
  outs : t.outs = s.outs
  ins : t.ins = s.ins
  ended : t.ended = s.ended
  outer : t.outer = s.outer
  used : t.used = s.used
  fault : t.fault = s.fault
  forth : t.m_ptr info.address = some i
  back : t.m_ptr i.address = some info
  same : ∀ x, s.Live x → x ≠ i → x ≠ info → t.m_ptr x.address = s.m_ptr x.address

theorem Matched.pairs (matched : Matched s) {i : SlotInfo} (phase : s.inner = .pair i info)
    (connected : info ∈ s.outs) :
    Pairs s i info s.on_accept := by
  have member := (matched.busy i (Or.inr (Or.inr ⟨info, phase⟩))).1
  have liveI : s.Live i := Or.inr (Or.inl member)
  have liveO : s.Live info := Or.inl connected
  have differ : i ≠ info := by
    rintro rfl
    exact (matched.sides i member).1 connected
  rw [on_accept, phase]
  refine ⟨member, connected, rfl, rfl, rfl, rfl, rfl, rfl, rfl,
    by simp [connected], Function.update_self .., ?_, ?_⟩
  · exact (Function.update_of_ne (matched.address_ne liveI liveO differ) ..).trans
      (Function.update_self ..)
  · intro x live apart apart'
    exact (Function.update_of_ne (matched.address_ne live liveO apart') ..).trans
      (Function.update_of_ne (matched.address_ne live liveI apart) ..)

section Pairing

variable {i : SlotInfo} (matched : Matched s) (pairs : Pairs s i info t) (unpaired : s.Unpaired info)
include pairs

theorem Pairs.live_iff (x : SlotInfo) : t.Live x ↔ s.Live x := by
  rw [Live, pairs.outs, pairs.ins, pairs.outer, Live]

include matched

/-- An in socket is neither a stored out socket nor one that will be stored. -/
theorem Pairs.in_ne {j : SlotInfo} (member : j ∈ s.ins) : j ≠ info := by
  rintro rfl
  exact (matched.sides j member).1 pairs.connected

theorem Pairs.out_ne {x : SlotInfo} (out : x ∈ s.outs ∨ s.outer = some x) : x ≠ i := by
  rintro rfl
  obtain ⟨notOut, notOuter⟩ := matched.sides x pairs.member
  exact out.elim notOut notOuter

include unpaired

/-- Whom the in sockets point at afterwards. -/
theorem Pairs.points {j x : SlotInfo} (member : j ∈ t.ins) (pointed : t.PointsAt j x) :
    j = i ∧ x.address = info.address ∨ j ≠ i ∧ j ∈ s.ins ∧ x.address ≠ info.address ∧ s.PointsAt j x := by
  rw [pairs.ins] at member
  rcases eq_or_ne j i with rfl | apart
  · obtain ⟨p, isSome, address⟩ := pointed
    obtain rfl := Option.some.inj (pairs.back.symm.trans isSome)
    exact Or.inl ⟨rfl, address.symm⟩
  · have same := pairs.same j (Or.inr (Or.inl member)) apart (pairs.in_ne matched member)
    have before := (pointsAt_congr same).mp pointed
    refine Or.inr ⟨apart, member, fun address => unpaired.2 j member ?_, before⟩
    obtain ⟨p, isSome, address'⟩ := before
    exact ⟨p, isSome, address'.trans address⟩

theorem Pairs.located (here : s.m_p_info = some info) (unpairedI : s.m_ptr i.address = none)
    {x : SlotInfo} (member : x ∈ t.outs) (stays : ∀ j ∈ t.ended, t.m_ptr x.address ≠ some j) :
    t.Located x := by
  rw [pairs.outs] at member
  rw [pairs.ended] at stays
  refine Or.inr ?_
  rcases eq_or_ne x info with rfl | apart
  · refine ⟨i, pairs.ins ▸ pairs.member, pairs.forth, pairs.back, fun j memberJ pointed => ?_⟩
    rcases pairs.points matched unpaired memberJ pointed with ⟨isI, _⟩ | ⟨_, _, away, _⟩
    · exact isI
    · exact absurd rfl away
  · have address := matched.address_ne (Or.inl member) (Or.inl pairs.connected) apart
    have sameX := pairs.same x (Or.inl member) (pairs.out_ne matched (Or.inl member)) apart
    rcases matched.located x member (fun j isEnded => sameX ▸ stays j isEnded) with waiting |
        ⟨j, memberJ, out, back, only⟩
    · exact absurd (Option.some.inj (waiting.symm.trans here)) apart
    · have apartJ : j ≠ i := by
        rintro rfl
        exact nomatch unpairedI.symm.trans back
      have sameJ := pairs.same j (Or.inr (Or.inl memberJ)) apartJ (pairs.in_ne matched memberJ)
      refine ⟨j, pairs.ins ▸ memberJ, sameX.trans out, sameJ.trans back, fun k memberK pointed => ?_⟩
      rcases pairs.points matched unpaired memberK pointed with ⟨_, same⟩ | ⟨_, memberK', _, before⟩
      · exact absurd same address
      · exact only k memberK' before

theorem Pairs.once {j k x : SlotInfo} (memberJ : j ∈ t.ins) (memberK : k ∈ t.ins)
    (pointsJ : t.PointsAt j x) (pointsK : t.PointsAt k x) : j = k := by
  rcases pairs.points matched unpaired memberJ pointsJ with ⟨rfl, address⟩ | ⟨_, oldJ, away, beforeJ⟩ <;>
    rcases pairs.points matched unpaired memberK pointsK with ⟨rfl, address'⟩ | ⟨_, oldK, away', beforeK⟩
  · rfl
  · exact absurd address away'
  · exact absurd address' away
  · exact matched.once j oldJ k oldK x beforeJ beforeK

/-- The out socket that is about to be stored stays alone. -/
theorem Pairs.outer_unpaired {x : SlotInfo} (outer : t.outer = some x) : x ∉ t.outs ∧ t.Unpaired x := by
  rw [pairs.outer] at outer
  obtain ⟨newcomer, nothing, away⟩ := matched.outer x outer
  have live : s.Live x := Or.inr (Or.inr outer)
  have apart : x ≠ info := by
    rintro rfl
    exact newcomer pairs.connected
  have address := matched.address_ne live (Or.inl pairs.connected) apart
  refine ⟨pairs.outs ▸ newcomer, ?_, fun j member pointed => ?_⟩
  · exact (pairs.same x live (pairs.out_ne matched (Or.inr outer)) apart).trans nothing
  · rcases pairs.points matched unpaired member pointed with ⟨_, same⟩ | ⟨_, old, _, before⟩
    · exact address same
    · exact away j old before

end Pairing

/-- The second critical section pairs two connected sockets. -/
theorem Matched.pair (matched : Matched s) {i : SlotInfo} (phase : s.inner = .pair i info)
    (connected : info ∈ s.outs) :
    Matched s.on_accept := by
  have pairs := matched.pairs phase connected
  have here := (matched.pairing i info phase).2.2 connected
  have unpaired := matched.slot info here connected
  have unpairedI := (matched.busy i (Or.inr (Or.inr ⟨info, phase⟩))).2
  have live := fun x => (pairs.live_iff x).mp
  constructor
  case apart => exact fun x y liveX liveY => matched.apart x y (live x liveX) (live y liveY)
  case sides =>
    rw [pairs.ins, pairs.outs, pairs.outer]
    exact matched.sides
  case known =>
    rw [pairs.ended, pairs.used]
    exact fun x old => matched.known x (old.imp_left (live x))
  case located => exact fun x => pairs.located matched unpaired here unpairedI
  case once => exact fun j memberJ k memberK x => pairs.once matched unpaired memberJ memberK
  case slot =>
    intro x waiting
    rw [pairs.slot] at waiting
    contradiction
  case outer => exact fun x => pairs.outer_unpaired matched unpaired
  case pairing =>
    intro j x phase'
    rw [pairs.inner] at phase'
    contradiction
  case busy =>
    rw [pairs.inner]
    rintro j (phase' | phase' | ⟨_, phase'⟩) <;> contradiction
  case fault => exact pairs.fault.trans matched.fault

/-- Only the place of the in thread changes. -/
theorem Matched.turn (matched : Matched s) {phase : InPhase}
    (pairing : ∀ i info, phase = .pair i info → info ∈ s.outs ∧ s.m_p_info = some info)
    (busy : ∀ i, phase = .read i ∨ phase = .wait i ∨ (∃ info, phase = .pair i info) →
      i ∈ s.ins ∧ s.m_ptr i.address = none) : Matched { s with inner := phase } where
  __ := matched
  pairing i info here := by
    obtain ⟨connected, slot⟩ := pairing i info here
    exact ⟨matched.known info (Or.inl (Or.inl connected)),
      fun outer => (matched.outer info outer).1 connected, fun _ => slot⟩
  busy := busy

/-- Reading the slot leads to the second section, or to `empty` if nobody is waiting. -/
theorem Matched.reads (matched : Matched s) {i : SlotInfo} {empty : InPhase}
    (own : i ∈ s.ins ∧ s.m_ptr i.address = none) (ends : empty = .wait i ∨ empty = .idle)
    (careful : ∀ remote_info, s.m_p_info = some remote_info → remote_info ∈ s.outs) :
    Matched { s with inner := s.m_p_info.elim empty (.pair i) } := by
  refine matched.turn ?_ ?_
  · intro j info phase
    cases slot : s.m_p_info with
    | none =>
      rw [slot] at phase
      rcases ends with rfl | rfl <;> exact nomatch phase
    | some other =>
      rw [slot] at phase
      cases phase
      exact ⟨careful info slot, rfl⟩
  · intro j phase
    cases slot : s.m_p_info with
    | none =>
      rw [slot] at phase
      rcases ends with rfl | rfl <;> rcases phase with phase | phase | ⟨_, phase⟩ <;> cases phase
      exact own
    | some info =>
      rw [slot] at phase
      rcases phase with phase | phase | ⟨_, phase⟩ <;> cases phase
      exact own

/-- The other sections read the slot or leave everything alone. -/
theorem Matched.inSection (matched : Matched s)
    (careful : ∀ remote_info, s.taking = some remote_info → remote_info ∈ s.outs) :
    Matched s.on_accept := by
  rw [taking] at careful
  cases phase : s.inner with
  | idle =>
    simp only [on_accept, phase]
    exact matched
  | read i =>
    have reads : s.on_accept = { s with inner := s.m_p_info.elim (.wait i) (.pair i) } := by
      rw [on_accept, phase]
      cases s.m_p_info <;> rfl
    rw [phase] at careful
    exact reads ▸ matched.reads (matched.busy i (Or.inl phase)) (Or.inl rfl) careful
  | wait i =>
    have reads : s.on_accept = { s with inner := s.m_p_info.elim .idle (.pair i) } := by
      rw [on_accept, phase]
      cases s.m_p_info <;> rfl
    rw [phase] at careful
    exact reads ▸ matched.reads (matched.busy i (Or.inr (Or.inl phase))) (Or.inr rfl) careful
  | pair i info =>
    rw [phase] at careful
    exact matched.pair phase (careful info rfl)
  | connected i =>
    simp only [on_accept, phase]
    refine { matched with busy := ?_, pairing := nofun }
    rintro j (phase' | phase' | ⟨_, phase'⟩) <;> cases phase'

theorem Matched.step (matched : Matched s) (step : CarefulStep s event t) : Matched t := by
  obtain ⟨⟨enabled, rfl⟩, careful⟩ := step
  cases event with
  | outSocket info => exact matched.outSocket enabled.2 careful
  | outAccept =>
    obtain ⟨info, here⟩ := Option.ne_none_iff_exists'.mp enabled
    exact matched.outAccept here careful
  | outConnected => exact { matched with }
  | outDisconnected info => exact matched.outDisconnected
  | inAccept info => exact matched.inAccept enabled.2
  | inDisconnected info => exact matched.inDisconnected enabled.1 enabled.2
  | inSection => exact matched.inSection careful

/-- A socket that is stored over a connected one takes its place. -/
theorem Matched.loses (matched : Matched s) {waiting : SlotInfo} (here : s.outer = some info)
    (member : waiting ∈ s.outs) (slot : s.m_p_info = some waiting) : ¬ (s.apply .outAccept).Tracked := by
  have stored : s.apply .outAccept =
      { s with m_p_info := some info, outs := insert info s.outs, outer := none } := by
    rw [apply, here]
  have unpaired := (matched.slot waiting slot member).1
  rw [stored]
  rintro ⟨located, _⟩
  rcases located waiting (Finset.mem_insert_of_mem member)
    (fun i _ points => nomatch unpaired.symm.trans points) with
    same | ⟨i, _, out, _⟩
  · obtain rfl := Option.some.inj same
    exact (matched.outer _ here).1 member
  · exact nomatch unpaired.symm.trans out

/-- As long as no in socket ends, there is none that has. -/
theorem ended_of_run {events : List SlotEvent} (run : Run Step initial events s) :
    (∀ info, .inDisconnected info ∉ events) → s.ended = ∅ := by
  refine run.history (fun events s => (∀ info, .inDisconnected info ∉ events) → s.ended = ∅) ?_
    fun _ => rfl
  rintro events s event t ih ⟨_, rfl⟩ stay
  have before := ih fun info member => stay info (List.mem_append_left _ member)
  cases event with
  | inDisconnected info => exact absurd (List.mem_append_right _ (List.mem_singleton.mpr rfl)) (stay info)
  | outAccept =>
    rw [apply]
    split <;> exact before
  | inSection =>
    rw [apply, on_accept]
    split
    · exact before
    · split <;> exact before
    · split <;> exact before
    · exact before
    · exact before
  | _ => exact before

/-- In every careful run each connected out socket whose in socket has not ended is in the slot or paired
with one in socket, none is taken twice, and no deleted one is paired; if no in socket ends, that is each
connected out socket. The first store over a connected socket loses that one. -/
theorem out_sockets_tracked {events : List SlotEvent} (run : Run CarefulStep initial events s) :
    s.Tracked ∧ s.fault = false ∧
    ((∀ info, .inDisconnected info ∉ events) → ∀ info ∈ s.outs, s.Located info) ∧
      (s.Enabled .outAccept → ¬ s.Careful .outAccept → ¬ (s.apply .outAccept).Tracked) := by
  have matched : Matched s := run.invariant Matched (fun _ _ _ matched step => matched.step step)
    matched_initial
  refine ⟨matched.tracked, matched.fault, fun stay info member => ?_, fun enabled careless => ?_⟩
  · have nobody := ended_of_run (run.mono fun _ _ _ step => step.1) stay
    refine matched.located info member fun i ended => ?_
    rw [nobody] at ended
    exact absurd ended (Finset.notMem_empty i)
  · obtain ⟨info, here⟩ := Option.ne_none_iff_exists'.mp enabled
    simp only [Careful, not_forall, not_not] at careless
    obtain ⟨waiting, member, slot⟩ := careless
    exact matched.loses here member slot

end Steps

/-- An in socket takes the first out socket before the second one comes. When that pair has ended, its
addresses are given out again. -/
def oneByOne : List SlotEvent :=
  [.inAccept ⟨16, 7⟩, .inSection, .outSocket ⟨32, 1⟩, .outAccept, .inSection, .inSection,
    .outConnected, .outSocket ⟨48, 2⟩, .outAccept, .inSection, .outDisconnected ⟨32, 1⟩,
    .inDisconnected ⟨16, 7⟩, .inAccept ⟨32, 8⟩, .inSection, .inSection,
    .outSocket ⟨16, 3⟩, .outAccept]

theorem oneByOne_tracked : (oneByOne.foldl apply initial).Tracked ∧
    (oneByOne.foldl apply initial).fault = false := by
  have replays : Run.Replays (fun s event => s.Enabled event ∧ s.Careful event) apply initial
    oneByOne := by
    decide +kernel
  have facts := out_sockets_tracked (Run.of_replays_guarded oneByOne _ replays)
  exact ⟨facts.1, facts.2.1⟩

/-- The second out socket comes after the in thread has read the slot and before it empties it. -/
def betweenSections : List SlotEvent :=
  [.outSocket ⟨32, 1⟩, .outAccept, .inAccept ⟨16, 7⟩, .inSection, .outSocket ⟨48, 2⟩,
    .outAccept, .inSection]

theorem betweenSections_lost : ∃ s, Run Step initial betweenSections s ∧ ¬ s.Tracked := by
  have replays : Run.Replays Enabled apply initial betweenSections := by decide +kernel
  refine ⟨_, Run.of_replays betweenSections _ replays, ?_⟩
  rintro ⟨located, _⟩
  rcases located ⟨48, 2⟩ (by decide +kernel) (by decide +kernel) with nothing | ⟨i, _, out, _⟩
  · exact nomatch nothing
  · exact nomatch out

end VpnServerOi

end LinuxZero.Svpn
