import Mathlib.Logic.Function.Basic
import Mathlib.Algebra.Order.Ring.Int

/-! # Descriptors, epoll sets and byte streams

The part of the operating system that the servers rely on. What a call does is determined by the
state of the descriptors and by a choice of the environment (the descriptor a new file gets, the
number of bytes `send` accepts), and a choice that the system cannot make turns the call into the
failure the program sees. Closing a descriptor drops its registrations in every epoll set.
-/

namespace LinuxZero

inductive FileKind where
  | stream
  | listening
  | connection
  | epoll
  | other
deriving DecidableEq, Repr

/-- The one interest bit that the code ever sets. -/
inductive Interest where
  | epollIn
  | epollOut
deriving DecidableEq, Repr

/-- `epoll_event` as registered: its interest and its `data.ptr`. -/
structure Registration (δ : Type) where
  events : Interest
  data : δ
deriving DecidableEq, Repr

structure Kernel (δ : Type) where
  files : ℤ → Option FileKind
  /-- The registration of a descriptor in an epoll set. -/
  epoll : ℤ → ℤ → Option (Registration δ)
  /-- What `recv` has returned on an open connection. -/
  received : ℤ → List UInt8
  /-- What `send` has accepted on an open connection. -/
  sent : ℤ → List UInt8
  bounded : ∀ fd, files fd ≠ none → 0 ≤ fd ∧ fd < 2 ^ 31
  registered : ∀ epfd fd, epoll epfd fd ≠ none → files epfd = some .epoll ∧ files fd ≠ none

namespace Kernel

variable {δ : Type} (k : Kernel δ)

/-- A descriptor that the system can hand out. -/
def Available (fd : ℤ) : Prop := 0 ≤ fd ∧ fd < 2 ^ 31 ∧ k.files fd = none

instance (fd : ℤ) : Decidable (k.Available fd) := inferInstanceAs (Decidable (_ ∧ _ ∧ _))

/-- A new file under the given descriptor. -/
def openAt (fd : ℤ) (kind : FileKind) (available : k.Available fd) : Kernel δ where
  files := Function.update k.files fd (some kind)
  epoll := k.epoll
  received := Function.update k.received fd []
  sent := Function.update k.sent fd []
  bounded other isOpen := by
    by_cases same : other = fd
    · rw [same]
      exact ⟨available.1, available.2.1⟩
    · rw [Function.update_of_ne same] at isOpen
      exact k.bounded other isOpen
  registered epfd other present := by
    obtain ⟨instance_, isOpen⟩ := k.registered epfd other present
    have closed := available.2.2
    rw [Function.update_of_ne (by rintro rfl; simp [closed] at instance_),
      Function.update_of_ne (by rintro rfl; exact isOpen closed)]
    exact ⟨instance_, isOpen⟩

/-- A process that has no descriptor open. -/
def empty : Kernel δ where
  files _ := none
  epoll _ _ := none
  received _ := []
  sent _ := []
  bounded _ isOpen := absurd rfl isOpen
  registered _ _ present := absurd rfl present

/-- With no open file, the first descriptor after the standard streams is free. -/
theorem three_available : (empty : Kernel δ).Available 3 := ⟨by decide, by decide, rfl⟩

/-- `epoll_create`: the descriptor that the environment chose, or -1. -/
def epollCreate (fd : ℤ) : ℤ × Kernel δ :=
  if available : k.Available fd then (fd, k.openAt fd .epoll available) else (-1, k)

/-- `socket`: the descriptor that the environment chose, or -1. -/
def socket (fd : ℤ) : ℤ × Kernel δ :=
  if available : k.Available fd then (fd, k.openAt fd .stream available) else (-1, k)

/-- `accept` on a listening socket. -/
def accept (serverFd fd : ℤ) : ℤ × Kernel δ :=
  if available : k.files serverFd = some .listening ∧ k.Available fd then
    (fd, k.openAt fd .connection available.2)
  else (-1, k)

/-- `listen`, which the environment may refuse. -/
def listen (fd : ℤ) (granted : Bool) : Bool × Kernel δ :=
  if fresh : k.files fd = some .stream ∧ granted = true then
    (true, { k with
      files := Function.update k.files fd (some .listening)
      bounded := by
        intro other isOpen
        by_cases same : other = fd
        · rw [same]
          exact k.bounded fd (by simp [fresh.1])
        · rw [Function.update_of_ne same] at isOpen
          exact k.bounded other isOpen
      registered := by
        intro epfd other present
        obtain ⟨instance_, isOpen⟩ := k.registered epfd other present
        rw [Function.update_of_ne (by rintro rfl; simp [fresh.1] at instance_)]
        refine ⟨instance_, ?_⟩
        by_cases same : other = fd
        · simp [same]
        · rwa [Function.update_of_ne same] })
  else (false, k)

/-- `connect`, which the environment may refuse. -/
def connect (fd : ℤ) (granted : Bool) : Bool × Kernel δ :=
  if fresh : k.files fd = some .stream ∧ granted = true then
    (true, { k with
      files := Function.update k.files fd (some .connection)
      bounded := by
        intro other isOpen
        by_cases same : other = fd
        · rw [same]
          exact k.bounded fd (by simp [fresh.1])
        · rw [Function.update_of_ne same] at isOpen
          exact k.bounded other isOpen
      registered := by
        intro epfd other present
        obtain ⟨instance_, isOpen⟩ := k.registered epfd other present
        rw [Function.update_of_ne (by rintro rfl; simp [fresh.1] at instance_)]
        refine ⟨instance_, ?_⟩
        by_cases same : other = fd
        · simp [same]
        · rwa [Function.update_of_ne same] })
  else (false, k)

/-- `close`. -/
def close (fd : ℤ) : Kernel δ where
  files := Function.update k.files fd none
  epoll epfd other := if epfd = fd ∨ other = fd then none else k.epoll epfd other
  received := k.received
  sent := k.sent
  bounded other isOpen := by
    by_cases same : other = fd
    · simp [same] at isOpen
    · rw [Function.update_of_ne same] at isOpen
      exact k.bounded other isOpen
  registered epfd other present := by
    by_cases touched : epfd = fd ∨ other = fd
    · simp [touched] at present
    · rw [if_neg touched] at present
      push Not at touched
      rw [Function.update_of_ne touched.1, Function.update_of_ne touched.2]
      exact k.registered epfd other present

/-- Replace one registration. -/
def setEpoll (epfd fd : ℤ) (entry : Option (Registration δ))
    (allowed : entry ≠ none → k.files epfd = some .epoll ∧ k.files fd ≠ none) : Kernel δ where
  files := k.files
  epoll e f := if e = epfd ∧ f = fd then entry else k.epoll e f
  received := k.received
  sent := k.sent
  bounded := k.bounded
  registered e f present := by
    by_cases here : e = epfd ∧ f = fd
    · obtain ⟨rfl, rfl⟩ := here
      rw [if_pos ⟨rfl, rfl⟩] at present
      exact allowed present
    · rw [if_neg here] at present
      exact k.registered e f present

/-- `epoll_ctl` with `EPOLL_CTL_ADD`; the program ignores its failures. -/
def epollAdd (epfd fd : ℤ) (event : Registration δ) : Kernel δ :=
  if allowed : k.files epfd = some .epoll ∧ k.files fd ≠ none ∧ epfd ≠ fd ∧ k.epoll epfd fd = none then
    k.setEpoll epfd fd (some event) fun _ => ⟨allowed.1, allowed.2.1⟩
  else k

/-- `epoll_ctl` with `EPOLL_CTL_ADD` and its result; the environment may refuse it. -/
def epollCtlAdd (epfd fd : ℤ) (event : Registration δ) (granted : Bool) : Bool × Kernel δ :=
  if granted = true ∧ k.files epfd = some .epoll ∧ k.files fd ≠ none ∧ epfd ≠ fd ∧
    k.epoll epfd fd = none then
    (true, k.epollAdd epfd fd event)
  else (false, k)

/-- `epoll_ctl` with `EPOLL_CTL_MOD`: without a registration it fails. -/
def epollMod (epfd fd : ℤ) (event : Registration δ) : Kernel δ :=
  if present : k.epoll epfd fd ≠ none then
    k.setEpoll epfd fd (some event) fun _ => k.registered epfd fd present
  else k

/-- `epoll_ctl` with `EPOLL_CTL_DEL`. -/
def epollDel (epfd fd : ℤ) : Kernel δ :=
  k.setEpoll epfd fd none fun some_ => absurd rfl some_

/-- `recv` returned these bytes. -/
def recv (fd : ℤ) (bytes : List UInt8) : Kernel δ :=
  { k with received := Function.update k.received fd (k.received fd ++ bytes) }

/-- `send`: the number of bytes that the environment accepted, or -1. -/
def send (fd : ℤ) (bytes : List UInt8) (result : ℤ) : ℤ × Kernel δ :=
  if k.files fd = some .connection ∧ 0 ≤ result ∧ result ≤ bytes.length then
    (result, { k with sent := Function.update k.sent fd (k.sent fd ++ bytes.take result.toNat) })
  else (-1, k)

@[simp] theorem files_openAt (fd : ℤ) (kind : FileKind) (available : k.Available fd) :
    (k.openAt fd kind available).files = Function.update k.files fd (some kind) := rfl
@[simp] theorem epoll_openAt (fd : ℤ) (kind : FileKind) (available : k.Available fd) :
    (k.openAt fd kind available).epoll = k.epoll := rfl
@[simp] theorem received_openAt (fd : ℤ) (kind : FileKind) (available : k.Available fd) :
    (k.openAt fd kind available).received = Function.update k.received fd [] := rfl
@[simp] theorem sent_openAt (fd : ℤ) (kind : FileKind) (available : k.Available fd) :
    (k.openAt fd kind available).sent = Function.update k.sent fd [] := rfl

@[simp] theorem files_close (fd : ℤ) : (k.close fd).files = Function.update k.files fd none := rfl
@[simp] theorem epoll_close (fd epfd other : ℤ) :
    (k.close fd).epoll epfd other = if epfd = fd ∨ other = fd then none else k.epoll epfd other := rfl
@[simp] theorem received_close (fd : ℤ) : (k.close fd).received = k.received := rfl
@[simp] theorem sent_close (fd : ℤ) : (k.close fd).sent = k.sent := rfl

@[simp] theorem files_epollDel (epfd fd : ℤ) : (k.epollDel epfd fd).files = k.files := rfl
@[simp] theorem epoll_epollDel (epfd fd e f : ℤ) :
    (k.epollDel epfd fd).epoll e f = if e = epfd ∧ f = fd then none else k.epoll e f := rfl
@[simp] theorem received_epollDel (epfd fd : ℤ) : (k.epollDel epfd fd).received = k.received := rfl
@[simp] theorem sent_epollDel (epfd fd : ℤ) : (k.epollDel epfd fd).sent = k.sent := rfl

@[simp] theorem files_recv (fd : ℤ) (bytes : List UInt8) : (k.recv fd bytes).files = k.files := rfl
@[simp] theorem epoll_recv (fd : ℤ) (bytes : List UInt8) : (k.recv fd bytes).epoll = k.epoll := rfl
@[simp] theorem received_recv (fd : ℤ) (bytes : List UInt8) :
    (k.recv fd bytes).received = Function.update k.received fd (k.received fd ++ bytes) := rfl
@[simp] theorem sent_recv (fd : ℤ) (bytes : List UInt8) : (k.recv fd bytes).sent = k.sent := rfl

@[simp] theorem files_send (fd : ℤ) (bytes : List UInt8) (result : ℤ) :
    (k.send fd bytes result).2.files = k.files := by
  rw [send]
  split <;> rfl
@[simp] theorem epoll_send (fd : ℤ) (bytes : List UInt8) (result : ℤ) :
    (k.send fd bytes result).2.epoll = k.epoll := by
  rw [send]
  split <;> rfl
@[simp] theorem received_send (fd : ℤ) (bytes : List UInt8) (result : ℤ) :
    (k.send fd bytes result).2.received = k.received := by
  rw [send]
  split <;> rfl

variable {k} in
theorem send_of {fd : ℤ} {bytes : List UInt8} {result : ℤ}
    (accepted : k.files fd = some .connection ∧ 0 ≤ result ∧ result ≤ bytes.length) :
    k.send fd bytes result =
      (result, { k with sent := Function.update k.sent fd (k.sent fd ++ bytes.take result.toNat) }) :=
  if_pos accepted

variable {k} in
theorem send_of_not {fd : ℤ} {bytes : List UInt8} {result : ℤ}
    (refused : ¬ (k.files fd = some .connection ∧ 0 ≤ result ∧ result ≤ bytes.length)) :
    k.send fd bytes result = (-1, k) :=
  if_neg refused

theorem sent_send_other {fd other : ℤ} (apart : other ≠ fd) (bytes : List UInt8) (result : ℤ) :
    (k.send fd bytes result).2.sent other = k.sent other := by
  by_cases accepted : k.files fd = some .connection ∧ 0 ≤ result ∧ result ≤ bytes.length
  · rw [send_of accepted]
    exact Function.update_of_ne apart ..
  · rw [send_of_not accepted]

/-- A send that takes nothing leaves the stream as it is. -/
theorem send_refused {result : ℤ} (refused : result ≤ 0) (fd : ℤ) (bytes : List UInt8) :
    ¬ 0 < (k.send fd bytes result).1 ∧ (k.send fd bytes result).2.sent fd = k.sent fd := by
  by_cases accepted : k.files fd = some .connection ∧ 0 ≤ result ∧ result ≤ bytes.length
  · rw [send_of accepted]
    have nothing : result.toNat = 0 := by omega
    refine ⟨not_lt.mpr refused, ?_⟩
    simp [nothing]
  · rw [send_of_not accepted]
    exact ⟨show ¬ (0 : ℤ) < -1 by decide, rfl⟩

/-- Receiving does not influence a send. -/
theorem send_recv (fd other : ℤ) (bytes content : List UInt8) (result : ℤ) :
    ((k.recv fd bytes).send other content result).1 = (k.send other content result).1 ∧
      ((k.recv fd bytes).send other content result).2.sent = (k.send other content result).2.sent := by
  by_cases accepted : k.files other = some .connection ∧ 0 ≤ result ∧ result ≤ content.length
  · rw [send_of accepted, send_of (k := k.recv fd bytes) accepted]
    exact ⟨rfl, rfl⟩
  · rw [send_of_not accepted, send_of_not (k := k.recv fd bytes) accepted]
    exact ⟨rfl, rfl⟩

section Calls

variable (epfd fd : ℤ) (event : Registration δ)

@[simp] theorem files_epollAdd : (k.epollAdd epfd fd event).files = k.files := by
  rw [epollAdd]
  split <;> rfl

@[simp] theorem received_epollAdd : (k.epollAdd epfd fd event).received = k.received := by
  rw [epollAdd]
  split <;> rfl

@[simp] theorem sent_epollAdd : (k.epollAdd epfd fd event).sent = k.sent := by
  rw [epollAdd]
  split <;> rfl

@[simp] theorem files_epollMod : (k.epollMod epfd fd event).files = k.files := by
  rw [epollMod]
  split <;> rfl

@[simp] theorem received_epollMod : (k.epollMod epfd fd event).received = k.received := by
  rw [epollMod]
  split <;> rfl

@[simp] theorem sent_epollMod : (k.epollMod epfd fd event).sent = k.sent := by
  rw [epollMod]
  split <;> rfl

variable {k epfd fd event}

theorem epollAdd_other {e f : ℤ} (apart : ¬ (e = epfd ∧ f = fd)) :
    (k.epollAdd epfd fd event).epoll e f = k.epoll e f := by
  rw [epollAdd]
  split
  · exact if_neg apart
  · rfl

theorem epollAdd_self (instance_ : k.files epfd = some .epoll) (isOpen : k.files fd ≠ none)
    (apart : epfd ≠ fd) (absent : k.epoll epfd fd = none) :
    (k.epollAdd epfd fd event).epoll epfd fd = some event := by
  rw [epollAdd, dif_pos ⟨instance_, isOpen, apart, absent⟩]
  exact if_pos ⟨rfl, rfl⟩

/-- Every registration after an add is the added one or was there before. -/
theorem epollAdd_some {e f : ℤ} {entry : Registration δ}
    (present : (k.epollAdd epfd fd event).epoll e f = some entry) :
    e = epfd ∧ f = fd ∧ entry = event ∧ k.files epfd = some .epoll ∨ k.epoll e f = some entry := by
  rw [epollAdd] at present
  split at present
  · next allowed =>
    by_cases here : e = epfd ∧ f = fd
    · have same : some event = some entry := (if_pos here).symm.trans present
      exact Or.inl ⟨here.1, here.2, (Option.some.inj same).symm, allowed.1⟩
    · exact Or.inr ((if_neg here).symm.trans present)
  · exact Or.inr present

theorem epollMod_of_none (absent : k.epoll epfd fd = none) : k.epollMod epfd fd event = k := by
  rw [epollMod, dif_neg (by simp [absent])]

theorem epollMod_self (present : k.epoll epfd fd ≠ none) :
    (k.epollMod epfd fd event).epoll epfd fd = some event := by
  rw [epollMod, dif_pos present]
  exact if_pos ⟨rfl, rfl⟩

theorem epollMod_other {e f : ℤ} (apart : ¬ (e = epfd ∧ f = fd)) :
    (k.epollMod epfd fd event).epoll e f = k.epoll e f := by
  rw [epollMod]
  split
  · exact if_neg apart
  · rfl

/-- Modifying neither adds nor drops a registration. -/
theorem epollMod_eq_none {e f : ℤ} :
    (k.epollMod epfd fd event).epoll e f = none ↔ k.epoll e f = none := by
  by_cases present : k.epoll epfd fd = none
  · rw [epollMod_of_none present]
  · by_cases here : e = epfd ∧ f = fd
    · obtain ⟨rfl, rfl⟩ := here
      rw [epollMod_self present]
      exact ⟨fun impossible => absurd impossible (by simp), fun absent => absurd absent present⟩
    · rw [epollMod_other here]

/-- Every registration after a modification is the modified one or was there before. -/
theorem epollMod_some {e f : ℤ} {entry : Registration δ}
    (present : (k.epollMod epfd fd event).epoll e f = some entry) :
    e = epfd ∧ f = fd ∧ entry = event ∧ k.epoll epfd fd ≠ none ∨ k.epoll e f = some entry := by
  by_cases registered : k.epoll epfd fd = none
  · rw [epollMod_of_none registered] at present
    exact Or.inr present
  · by_cases here : e = epfd ∧ f = fd
    · obtain ⟨rfl, rfl⟩ := here
      rw [epollMod_self registered] at present
      exact Or.inl ⟨rfl, rfl, (Option.some.inj present).symm, registered⟩
    · rw [epollMod_other here] at present
      exact Or.inr present

theorem Available.ne {k : Kernel δ} {fd other : ℤ} (available : k.Available fd)
    (isOpen : k.files other ≠ none) : other ≠ fd := by
  rintro rfl
  exact isOpen available.2.2

/-- A descriptor that is not open is registered nowhere. -/
theorem unregistered_of_closed (closed : k.files fd = none) (e : ℤ) : k.epoll e fd = none := by
  by_contra present
  exact (k.registered e fd present).2 closed

theorem no_registration (noSet : k.files epfd ≠ some .epoll) (f : ℤ) : k.epoll epfd f = none := by
  by_contra present
  exact noSet (k.registered epfd f present).1

theorem files_negative (negative : fd < 0) : k.files fd = none := by
  by_contra isOpen
  have bounds := k.bounded fd isOpen
  omega

/-- A new epoll set has no registrations. -/
theorem epollCreate_empty (k : Kernel δ) (fd f : ℤ) :
    (k.epollCreate fd).2.epoll (k.epollCreate fd).1 f = none := by
  rw [epollCreate]
  split
  · next available =>
    refine no_registration (k := k) ?_ f
    rw [available.2.2]
    exact fun impossible => nomatch impossible
  · refine no_registration (k := k) ?_ f
    rw [files_negative (show (-1 : ℤ) < 0 by decide)]
    exact fun impossible => nomatch impossible

theorem epollCreate_instance (k : Kernel δ) (fd : ℤ) :
    (k.epollCreate fd).2.files (k.epollCreate fd).1 = some .epoll ∨ (k.epollCreate fd).1 < 0 := by
  rw [epollCreate]
  split
  · exact Or.inl (Function.update_self ..)
  · exact Or.inr (show (-1 : ℤ) < 0 by decide)

/-- `epoll_create` leaves open descriptors alone, and its result is none of them. -/
theorem epollCreate_other (k : Kernel δ) {other : ℤ} (isOpen : k.files other ≠ none) (fd : ℤ) :
    (k.epollCreate fd).2.files other = k.files other ∧ (k.epollCreate fd).1 ≠ other := by
  rw [epollCreate]
  split
  · next available =>
    have apart := Available.ne available isOpen
    exact ⟨Function.update_of_ne apart .., apart.symm⟩
  · have bounds := k.bounded other isOpen
    exact ⟨rfl, by omega⟩

/-- What `accept` did: nothing, or it opened the descriptor that it returns. -/
theorem accept_cases (k : Kernel δ) (serverFd fd : ℤ) : k.accept serverFd fd = (-1, k) ∨
    ∃ available : k.Available fd, k.accept serverFd fd = (fd, k.openAt fd .connection available) := by
  rw [accept]
  split
  · next granted => exact Or.inr ⟨granted.2, rfl⟩
  · exact Or.inl rfl

theorem listen_granted {granted : Bool} (success : (k.listen fd granted).1 = true) :
    (k.listen fd granted).2.files fd = some .listening := by
  rw [listen] at success ⊢
  split at success
  · next fresh =>
    rw [dif_pos fresh]
    exact Function.update_self ..
  · contradiction

/-- Every descriptor open before is still open, with its registrations and streams. -/
def Extends (k k' : Kernel δ) : Prop :=
  ∀ fd, k.files fd ≠ none → k'.files fd = k.files fd ∧ (∀ e, k'.epoll e fd = k.epoll e fd) ∧
    k'.received fd = k.received fd ∧ k'.sent fd = k.sent fd

theorem Extends.refl (k : Kernel δ) : k.Extends k := fun _ _ => ⟨rfl, fun _ => rfl, rfl, rfl⟩

variable {k' : Kernel δ}

theorem Extends.trans {k'' : Kernel δ} (first : k.Extends k') (second : k'.Extends k'') :
    k.Extends k'' := by
  intro fd isOpen
  obtain ⟨files, epoll, received, sent⟩ := first fd isOpen
  obtain ⟨files', epoll', received', sent'⟩ := second fd (by rwa [files])
  exact ⟨files'.trans files, fun e => (epoll' e).trans (epoll e), received'.trans received,
    sent'.trans sent⟩

theorem Extends.openAt (extension : k.Extends k') (kind : FileKind) (available : k'.Available fd) :
    k.Extends (k'.openAt fd kind available) := by
  intro other isOpen
  obtain ⟨files, epoll, received, sent⟩ := extension other isOpen
  have apart : other ≠ fd := available.ne (by rwa [files])
  refine ⟨?_, epoll, ?_, ?_⟩
  · rw [files_openAt, Function.update_of_ne apart, files]
  · rw [received_openAt, Function.update_of_ne apart, received]
  · rw [sent_openAt, Function.update_of_ne apart, sent]

/-- Closing a descriptor that was opened since. -/
theorem Extends.close (extension : k.Extends k') (closed : k.files fd = none) :
    k.Extends (k'.close fd) := by
  intro other isOpen
  obtain ⟨files, epoll, received, sent⟩ := extension other isOpen
  have apart : other ≠ fd := by
    rintro rfl
    exact isOpen closed
  refine ⟨by rw [files_close, Function.update_of_ne apart, files], fun e => ?_, received, sent⟩
  rw [epoll_close]
  split_ifs with touched
  · by_contra present
    rcases touched with rfl | same
    · have instance_ := (k.registered e other (Ne.symm present)).1
      rw [closed] at instance_
      contradiction
    · exact apart same
  · exact epoll e

/-- Listening on a descriptor that was opened since. -/
theorem Extends.listen (extension : k.Extends k') (closed : k.files fd = none) (granted : Bool) :
    k.Extends (k'.listen fd granted).2 := by
  intro other isOpen
  obtain ⟨files, epoll, received, sent⟩ := extension other isOpen
  have apart : other ≠ fd := by
    rintro rfl
    exact isOpen closed
  rw [Kernel.listen]
  split
  · exact ⟨by rw [← files]; exact Function.update_of_ne apart _ _, epoll, received, sent⟩
  · exact ⟨files, epoll, received, sent⟩

/-- Registering a descriptor that was opened since. -/
theorem Extends.epollAdd (extension : k.Extends k') (closed : k.files fd = none) :
    k.Extends (k'.epollAdd epfd fd event) := by
  intro other isOpen
  obtain ⟨files, epoll, received, sent⟩ := extension other isOpen
  have apart : other ≠ fd := by
    rintro rfl
    exact isOpen closed
  refine ⟨by rw [files_epollAdd, files], fun e => ?_, by rw [received_epollAdd, received],
    by rw [sent_epollAdd, sent]⟩
  rw [epollAdd_other fun here => apart here.2, epoll e]

/-- Dropping the registrations of a descriptor that is not open changes nothing. -/
private theorem drop_closed (closed : k.files fd = none) :
    (fun e f => if e = fd ∨ f = fd then none else k.epoll e f) = k.epoll := by
  funext e f
  split_ifs with touched
  · by_contra present
    obtain ⟨instance_, isOpen⟩ := k.registered e f (Ne.symm present)
    rcases touched with rfl | rfl
    · rw [closed] at instance_
      contradiction
    · exact isOpen closed
  · rfl

theorem close_closed (closed : k.files fd = none) :
    (k.close fd).files = k.files ∧ (k.close fd).epoll = k.epoll :=
  ⟨by rw [files_close, ← closed, Function.update_eq_self], drop_closed closed⟩

/-- Opening a descriptor and closing it again leaves descriptors and registrations as they were. -/
theorem close_openAt (kind : FileKind) (available : k.Available fd) :
    ((k.openAt fd kind available).close fd).files = k.files ∧
      ((k.openAt fd kind available).close fd).epoll = k.epoll :=
  ⟨by rw [files_close, files_openAt, Function.update_idem, ← available.2.2, Function.update_eq_self],
    drop_closed (k := k) available.2.2⟩

theorem connect_stream (fresh : k.files fd = some .stream) (granted : Bool) :
    (k.connect fd granted).1 = granted ∧ (k.connect fd granted).2.epoll = k.epoll ∧
      (k.connect fd granted).2.received = k.received ∧
      (k.connect fd granted).2.files =
        if granted then Function.update k.files fd (some .connection) else k.files := by
  cases granted with
  | true =>
    rw [Kernel.connect, dif_pos ⟨fresh, rfl⟩]
    exact ⟨rfl, rfl, rfl, rfl⟩
  | false =>
    rw [Kernel.connect, dif_neg (by simp)]
    exact ⟨rfl, rfl, rfl, rfl⟩

theorem listen_stream (fresh : k.files fd = some .stream) (granted : Bool) :
    (k.listen fd granted).1 = granted ∧ (k.listen fd granted).2.epoll = k.epoll ∧
      (k.listen fd granted).2.files =
        if granted then Function.update k.files fd (some .listening) else k.files := by
  cases granted with
  | true =>
    rw [Kernel.listen, dif_pos ⟨fresh, rfl⟩]
    exact ⟨rfl, rfl, rfl⟩
  | false =>
    rw [Kernel.listen, dif_neg (by simp)]
    exact ⟨rfl, rfl, rfl⟩

end Calls

end Kernel

end LinuxZero
