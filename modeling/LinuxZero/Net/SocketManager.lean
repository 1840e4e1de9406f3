import LinuxZero.Lib.Heap
import LinuxZero.Lib.Run
import LinuxZero.Net.SocketDefine
import Mathlib.Data.List.Sort

/-! # The socket manager

`socket_manager` gives every connection a number from a 32-bit counter that all managers of the
program share, and keeps two maps from numbers. `get_clinet_info` overwrites the entries of a number
that is still in use; as long as the counter never meets such a number, the maps and the live objects
agree.
-/

namespace LinuxZero

variable {ρ : Type}

/-- `socket_manager`, the static counter `m_idx`, and the objects. -/
structure SocketManager (ρ : Type) where
  idx : UInt32
  infos : Heap (SocketInfo ρ)
  shFd2SocketInfo : UInt32 → Option ℕ
  sh2Fd : UInt32 → Option ℤ

/-- The calls on a manager, and those on another one, which take a number. -/
inductive ManagerEvent where
  | takeIdx
  | get (fd : ℤ)
  | del (p : ℕ)
deriving DecidableEq, Repr

namespace SocketManager

section Calls

variable (m : SocketManager ρ)

abbrev info (p : ℕ) : SocketInfo ρ := m.infos.content p

/-- A manager without connections; no number has been taken yet. -/
def initial : SocketManager ρ where
  idx := 1
  infos := .empty {}
  shFd2SocketInfo _ := none
  sh2Fd _ := none

/-- `get_clinet_info`. -/
def getClinetInfo (fd : ℤ) : ℕ × SocketManager ρ :=
  (m.infos.next,
    { idx := m.idx + 1
      infos := m.infos.new { fd := fd, shFd := m.idx }
      shFd2SocketInfo := Function.update m.shFd2SocketInfo m.idx (some m.infos.next)
      sh2Fd := Function.update m.sh2Fd m.idx (some fd) })

/-- `del_clinet_info`. -/
def delClinetInfo (p : ℕ) : SocketManager ρ :=
  match m.shFd2SocketInfo (m.info p).shFd with
  | none => { m with infos := m.infos.use p }
  | some _ =>
    { m with
      infos := m.infos.delete p
      shFd2SocketInfo := Function.update m.shFd2SocketInfo (m.info p).shFd none
      sh2Fd := Function.update m.sh2Fd (m.info p).shFd none }

/-- The connections that a loop over the manager visits, in the order of their numbers. -/
def sockets : List ℕ :=
  ((List.range m.infos.next).filter fun p => m.shFd2SocketInfo (m.info p).shFd = some p).insertionSort
    fun p q => (m.info p).shFd ≤ (m.info q).shFd

/-- `close` of the manager, without the `::close` of each descriptor. -/
def close : SocketManager ρ := { m with infos := m.sockets.foldl Heap.delete m.infos }

/-- `del_clinet_info` is called for live objects. -/
def Enabled : ManagerEvent → Prop
  | .del p => m.infos.live p = true
  | _ => True

def apply : ManagerEvent → SocketManager ρ
  | .takeIdx => { m with idx := m.idx + 1 }
  | .get fd => (m.getClinetInfo fd).2
  | .del p => m.delClinetInfo p

/-- The counter stands at a number that is not in use. -/
def FindsUnused : ManagerEvent → Prop
  | .get _ => m.shFd2SocketInfo m.idx = none
  | _ => True

end Calls

def Step (m : SocketManager ρ) (event : ManagerEvent) (n : SocketManager ρ) : Prop :=
  m.Enabled event ∧ n = m.apply event

def UnusedStep (m : SocketManager ρ) (event : ManagerEvent) (n : SocketManager ρ) : Prop :=
  Step m event n ∧ m.FindsUnused event

/-- Live objects have numbers of their own, both maps lead from a live number to its object, and no
entry is left of a deleted one. -/
structure Numbered (m : SocketManager ρ) : Prop where
  distinct : ∀ p q, m.infos.live p = true → m.infos.live q = true →
    (m.info p).shFd = (m.info q).shFd → p = q
  found : ∀ p, m.infos.live p = true → m.shFd2SocketInfo (m.info p).shFd = some p
  descriptor : ∀ p, m.infos.live p = true → m.sh2Fd (m.info p).shFd = some (m.info p).fd
  entry : ∀ shFd p, m.shFd2SocketInfo shFd = some p → m.infos.live p = true ∧ (m.info p).shFd = shFd

/-- `p` is deleted, with its entries and no others. -/
structure Deletes (m : SocketManager ρ) (p : ℕ) (n : SocketManager ρ) : Prop where
  live : ∀ q, n.infos.live q = true ↔ m.infos.live q = true ∧ q ≠ p
  content : n.infos.content = m.infos.content
  fault : n.infos.fault = m.infos.fault
  entries : ∀ shFd, n.shFd2SocketInfo shFd = if shFd = (m.info p).shFd then none
    else m.shFd2SocketInfo shFd
  descriptors : ∀ shFd, n.sh2Fd shFd = if shFd = (m.info p).shFd then none else m.sh2Fd shFd
  idx : n.idx = m.idx

variable {m n : SocketManager ρ}

theorem numbered_initial : Numbered (initial : SocketManager ρ) :=
  ⟨fun _ _ alive => (nomatch alive), fun _ alive => (nomatch alive), fun _ alive => (nomatch alive),
    fun _ _ entry => (nomatch entry)⟩

/-- The objects after `get_clinet_info`: a new one, and the old ones. -/
theorem info_getClinetInfo (m : SocketManager ρ) (fd : ℤ) :
    (m.getClinetInfo fd).2.info m.infos.next = { fd := fd, shFd := m.idx } ∧
      ∀ p, p ≠ m.infos.next → (m.getClinetInfo fd).2.info p = m.info p :=
  ⟨Function.update_self .., fun _ apart => Function.update_of_ne apart ..⟩

theorem entries_getClinetInfo (m : SocketManager ρ) (fd : ℤ) : (m.getClinetInfo fd).2.shFd2SocketInfo =
    Function.update m.shFd2SocketInfo m.idx (some m.infos.next) := rfl

theorem live_getClinetInfo (m : SocketManager ρ) (fd : ℤ) (p : ℕ) :
    (m.getClinetInfo fd).2.infos.live p = true ↔ p = m.infos.next ∨ m.infos.live p = true := by
  rcases eq_or_ne p m.infos.next with rfl | apart
  · simp [getClinetInfo]
  · simp [getClinetInfo, apart]

theorem entries_delClinetInfo (m : SocketManager ρ) (p : ℕ) : (m.delClinetInfo p).shFd2SocketInfo =
    Function.update m.shFd2SocketInfo (m.info p).shFd none := by
  rw [delClinetInfo]
  split
  · next absent => exact (Function.update_eq_self_iff.mpr absent.symm).symm
  · rfl

theorem content_delClinetInfo (m : SocketManager ρ) (p : ℕ) :
    (m.delClinetInfo p).infos.content = m.infos.content ∧ (m.delClinetInfo p).infos.next =
    m.infos.next := by
  rw [delClinetInfo]
  split <;> exact ⟨rfl, rfl⟩

theorem live_delClinetInfo (m : SocketManager ρ) {p q : ℕ} (apart : q ≠ p) :
    (m.delClinetInfo p).infos.live q = m.infos.live q := by
  rw [delClinetInfo]
  split
  · rfl
  · exact Function.update_of_ne apart ..

theorem content_close (m : SocketManager ρ) :
    m.close.infos.content = m.infos.content ∧ m.close.infos.next = m.infos.next := by
  rw [close]
  dsimp only
  generalize m.sockets = sockets
  generalize m.infos = infos
  induction sockets generalizing infos with
  | nil => exact ⟨rfl, rfl⟩
  | cons p rest ih => exact ih (infos.delete p)

theorem mem_sockets {p : ℕ} : p ∈ m.sockets ↔ p < m.infos.next ∧ m.shFd2SocketInfo (m.info p).shFd =
    some p := by
  rw [sockets, List.mem_insertionSort, List.mem_filter, List.mem_range, decide_eq_true_eq]

theorem nodup_sockets (m : SocketManager ρ) : m.sockets.Nodup :=
  (List.perm_insertionSort ..).nodup_iff.mpr (List.nodup_range.filter _)

/-- A new connection with a number that is not in use. -/
theorem Numbered.getClinetInfo (numbered : Numbered m) (unused : m.shFd2SocketInfo m.idx = none)
    (fd : ℤ) :
    Numbered (m.getClinetInfo fd).2 := by
  obtain ⟨own, other⟩ := m.info_getClinetInfo fd
  have old : ∀ p, m.infos.live p = true → (m.getClinetInfo fd).2.info p = m.info p ∧
    (m.info p).shFd ≠ m.idx := by
    intro p alive
    refine ⟨other p (Heap.ne_next alive), fun same => ?_⟩
    have entry := numbered.found p alive
    rw [same, unused] at entry
    contradiction
  refine ⟨fun p q aliveP aliveQ same => ?_, fun p alive => ?_, fun p alive => ?_, fun shFd p entry => ?_⟩
  · rw [live_getClinetInfo] at aliveP aliveQ
    rcases aliveP with rfl | aliveP <;> rcases aliveQ with rfl | aliveQ
    · rfl
    · rw [own, (old q aliveQ).1] at same
      exact absurd same.symm (old q aliveQ).2
    · rw [own, (old p aliveP).1] at same
      exact absurd same (old p aliveP).2
    · rw [(old p aliveP).1, (old q aliveQ).1] at same
      exact numbered.distinct p q aliveP aliveQ same
  · rw [live_getClinetInfo] at alive
    rcases alive with rfl | alive
    · rw [own]
      exact Function.update_self ..
    · rw [(old p alive).1]
      exact (Function.update_of_ne (old p alive).2 ..).trans (numbered.found p alive)
  · rw [live_getClinetInfo] at alive
    rcases alive with rfl | alive
    · rw [own]
      exact Function.update_self ..
    · rw [(old p alive).1]
      exact (Function.update_of_ne (old p alive).2 ..).trans (numbered.descriptor p alive)
  · rw [live_getClinetInfo]
    rw [entries_getClinetInfo] at entry
    rcases eq_or_ne shFd m.idx with rfl | apart
    · rw [Function.update_self] at entry
      obtain rfl := Option.some.inj entry
      rw [own]
      exact ⟨Or.inl rfl, rfl⟩
    · rw [Function.update_of_ne apart] at entry
      obtain ⟨alive, isNumber⟩ := numbered.entry shFd p entry
      rw [(old p alive).1]
      exact ⟨Or.inr alive, isNumber⟩

/-- With a number in use there are two live objects of this number, and the maps lead to the new one. -/
theorem Numbered.reuses (numbered : Numbered m) (used : m.shFd2SocketInfo m.idx ≠ none) (fd : ℤ) :
    ∃ p, p ≠ m.infos.next ∧ (m.getClinetInfo fd).2.infos.live p = true ∧
      (m.getClinetInfo fd).2.infos.live m.infos.next = true ∧
      ((m.getClinetInfo fd).2.info p).shFd = ((m.getClinetInfo fd).2.info m.infos.next).shFd ∧
      (m.getClinetInfo fd).2.shFd2SocketInfo ((m.getClinetInfo fd).2.info p).shFd =
        some m.infos.next := by
  obtain ⟨p, entry⟩ := Option.ne_none_iff_exists'.mp used
  obtain ⟨alive, isNumber⟩ := numbered.entry m.idx p entry
  obtain ⟨new, old⟩ := m.info_getClinetInfo fd
  have apart := Heap.ne_next alive
  refine ⟨p, apart, (m.live_getClinetInfo fd p).mpr (Or.inr alive),
    (m.live_getClinetInfo fd _).mpr (Or.inl rfl), ?_, ?_⟩
  · rw [new, old p apart, isNumber]
  · rw [old p apart, isNumber]
    exact Function.update_self ..

theorem Numbered.deletes (numbered : Numbered m) {p : ℕ} (alive : m.infos.live p = true) :
    Deletes m p (m.delClinetInfo p) := by
  rw [delClinetInfo, numbered.found p alive]
  refine ⟨fun q => ?_, rfl, ?_, fun shFd => Function.update_apply ..,
    fun shFd => Function.update_apply .., rfl⟩
  · rw [and_comm]
    exact m.infos.live_delete_iff p q
  · simp [alive]

theorem Numbered.delClinetInfo (numbered : Numbered m) {p : ℕ} (alive : m.infos.live p = true) :
    Numbered (m.delClinetInfo p) := by
  have deletes := numbered.deletes alive
  have same : ∀ q, (m.delClinetInfo p).info q = m.info q := fun q => congrFun deletes.content q
  have kept : ∀ q, (m.delClinetInfo p).infos.live q = true →
      m.infos.live q = true ∧ (m.info q).shFd ≠ (m.info p).shFd := by
    intro q stays
    obtain ⟨aliveQ, apart⟩ := (deletes.live q).mp stays
    exact ⟨aliveQ, fun same => apart (numbered.distinct q p aliveQ alive same)⟩
  refine ⟨fun q r staysQ staysR sameNumber => ?_, fun q stays => ?_, fun q stays => ?_,
    fun shFd q entry => ?_⟩
  · rw [same q, same r] at sameNumber
    exact numbered.distinct q r (kept q staysQ).1 (kept r staysR).1 sameNumber
  · rw [same q, deletes.entries, if_neg (kept q stays).2]
    exact numbered.found q (kept q stays).1
  · rw [same q, deletes.descriptors, if_neg (kept q stays).2]
    exact numbered.descriptor q (kept q stays).1
  · rw [deletes.entries] at entry
    split_ifs at entry with gone
    obtain ⟨aliveQ, isNumber⟩ := numbered.entry shFd q entry
    rw [same q, deletes.live]
    refine ⟨⟨aliveQ, ?_⟩, isNumber⟩
    rintro rfl
    exact gone isNumber.symm

theorem Numbered.step {event : ManagerEvent} (numbered : Numbered m) (step : UnusedStep m event n) :
    Numbered n := by
  obtain ⟨⟨enabled, rfl⟩, unused⟩ := step
  cases event with
  | takeIdx => exact { numbered with }
  | get fd => exact numbered.getClinetInfo unused fd
  | del p => exact numbered.delClinetInfo enabled

/-- After every sequence of calls in which the counter never stands at a number in use when a
connection is made: the live objects have distinct numbers that lead to them and to their descriptors,
and deleting one removes its entries and no others. -/
theorem live_sockets_numbered {events : List ManagerEvent} (run : Run UnusedStep initial events m) :
    Numbered m ∧ ∀ p, m.infos.live p = true → Deletes m p (m.delClinetInfo p) := by
  have numbered : Numbered m :=
    run.invariant Numbered (fun _ _ _ numbered step => numbered.step step) numbered_initial
  exact ⟨numbered, fun _ alive => numbered.deletes alive⟩

/-- One connection that stays, and `n` more that come and go. -/
def comeAndGo : ℕ → List ManagerEvent
  | 0 => [.get 5]
  | n + 1 => (comeAndGo n ++ [.get 6]) ++ [.del (n + 2)]

/-- The manager when only the first connection is left. -/
structure FirstStays (n : ℕ) (m : SocketManager ℕ) : Prop where
  numbered : Numbered m
  idx : m.idx = UInt32.ofNat (n + 2)
  next : m.infos.next = n + 2
  live : m.infos.live 1 = true
  number : (m.info 1).shFd = 1
  entries : ∀ shFd, shFd ≠ 1 → m.shFd2SocketInfo shFd = none

private theorem number_ne_one {n : ℕ} (bound : n + 2 ≤ 2 ^ 32) : UInt32.ofNat (n + 2) ≠ 1 := by
  intro same
  have value := congrArg UInt32.toNat same
  rw [UInt32.toNat_ofNat', UInt32.toNat_one] at value
  omega

/-- Below the period of the counter every number is unused when it is taken. -/
private theorem run_comeAndGo (n : ℕ) (bound : n + 1 ≤ 2 ^ 32) :
    ∃ m : SocketManager ℕ, Run UnusedStep initial (comeAndGo n) m ∧ FirstStays n m := by
  induction n with
  | zero =>
    refine ⟨_, .next .start ⟨⟨trivial, rfl⟩, rfl⟩, numbered_initial.getClinetInfo rfl 5, rfl, rfl,
      rfl, rfl, ?_⟩
    intro shFd apart
    exact Function.update_of_ne apart ..
  | succ n ih =>
    obtain ⟨m, run, stays⟩ := ih (by omega)
    have apart : m.idx ≠ 1 := by
      rw [stays.idx]
      exact number_ne_one (by omega)
    have unused := stays.entries m.idx apart
    have came := stays.numbered.getClinetInfo unused 6
    obtain ⟨new, old⟩ := m.info_getClinetInfo 6
    have first : 1 ≠ m.infos.next := by
      rw [stays.next]
      omega
    have alive := (m.live_getClinetInfo 6 _).mpr (Or.inl rfl)
    have deletes := came.deletes alive
    have same : ((m.getClinetInfo 6).2.delClinetInfo m.infos.next).info 1 = m.info 1 :=
      (congrFun deletes.content 1).trans (old 1 first)
    have next : ((m.getClinetInfo 6).2.delClinetInfo m.infos.next).infos.next = m.infos.next + 1 := by
      rw [delClinetInfo, came.found _ alive]
      rfl
    refine ⟨_, .next (.next run ⟨⟨trivial, rfl⟩, unused⟩) ⟨⟨stays.next ▸ alive, rfl⟩, trivial⟩, ?_⟩
    rw [← stays.next]
    refine ⟨came.delClinetInfo alive, ?_, ?_, ?_, ?_, fun shFd apart' => ?_⟩
    · refine deletes.idx.trans ?_
      rw [getClinetInfo, stays.idx, UInt32.ofNat_add (n + 2) 1]
      rfl
    · exact next.trans (by rw [stays.next])
    · exact (deletes.live 1).mpr ⟨(m.live_getClinetInfo 6 1).mpr (Or.inr stays.live), first⟩
    · exact (congrArg SocketInfo.shFd same).trans stays.number
    · refine (deletes.entries shFd).trans ?_
      split_ifs with gone
      · rfl
      · rw [new] at gone
        exact (Function.update_of_ne gone ..).trans (stays.entries shFd apart')

theorem firstStays_numbered : ∃ m : SocketManager ℕ, Run UnusedStep initial (comeAndGo 1) m ∧
    m.infos.live 1 = true ∧ Numbered m ∧ Deletes m 1 (m.delClinetInfo 1) := by
  obtain ⟨m, run, stays⟩ := run_comeAndGo 1 (by decide)
  obtain ⟨numbered, deletes⟩ := live_sockets_numbered run
  exact ⟨m, run, stays.live, numbered, deletes 1 stays.live⟩

/-- After `2 ^ 32 - 1` more connections the next one gets the number of the first, which is still live. -/
theorem number_given_twice : ¬ ∀ (events : List ManagerEvent) (m : SocketManager ℕ),
    Run Step initial events m → ∀ p q, m.infos.live p = true → m.infos.live q = true →
      (m.info p).shFd = (m.info q).shFd → p = q := by
  intro claimed
  obtain ⟨m, run, stays⟩ := run_comeAndGo (2 ^ 32 - 1) (by decide)
  have idx : m.idx = 1 := stays.idx.trans (by decide)
  have found := stays.numbered.found 1 stays.live
  rw [stays.number] at found
  have used : m.shFd2SocketInfo m.idx ≠ none := by
    rw [idx, found]
    exact Option.some_ne_none 1
  obtain ⟨p, apart, aliveP, aliveNew, same, _⟩ := stays.numbered.reuses used 6
  have whole := run.mono fun _ _ _ step => step.1
  have last : Step m (.get 6) (m.getClinetInfo 6).2 := ⟨trivial, rfl⟩
  exact apart (claimed _ _ (.next whole last) p m.infos.next aliveP aliveNew same)

end SocketManager

end LinuxZero
