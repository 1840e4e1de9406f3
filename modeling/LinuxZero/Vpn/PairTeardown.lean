import LinuxZero.Lib.Run
import LinuxZero.Vpn.ClientPair

/-! # The end of a connection pair of the client

An end that is disconnected asks epoll to close the other one. The request reaches it if the control
thread has registered the other end by then; otherwise the request is lost, and the control thread
later registers a connection that has no peer any more. The invariant below follows both ends through
every interleaving of the three threads in which no request is lost.
-/

namespace LinuxZero.Vpn

/-- `m_ptr` of this end has been set. -/
def ControlThread.linked : ControlThread → PairEnd → Bool
  | .link .sInfo, _ => false
  | .link .lInfo, .lInfo => false
  | _, _ => true

/-- `m_epfd` of this end has been set. -/
def ControlThread.named : ControlThread → PairEnd → Bool
  | .link _, _ => false
  | .reply, _ => false
  | .setEpfd .sInfo, _ => false
  | .setEpfd .lInfo, .lInfo => false
  | .add .sInfo, .lInfo => false
  | _, _ => true

/-- This end has been registered. -/
def ControlThread.added : ControlThread → PairEnd → Bool
  | .setEpfd .lInfo, .sInfo => true
  | .add .lInfo, .sInfo => true
  | .returned, _ => true
  | _, _ => false

theorem ControlThread.linked_of_added {thread : ControlThread} {a b : PairEnd}
    (added : thread.added a = true) :
    thread.linked b = true := by
  revert added
  cases thread with
  | link c => cases c <;> cases a <;> cases b <;> decide
  | setEpfd c => cases c <;> cases a <;> cases b <;> decide
  | add c => cases c <;> cases a <;> cases b <;> decide
  | reply => cases a <;> cases b <;> decide
  | returned => cases a <;> cases b <;> decide

theorem ControlThread.named_of_added {thread : ControlThread} {a : PairEnd}
    (added : thread.added a = true) :
    thread.named a = true := by
  revert added
  cases thread with
  | link c => cases c <;> cases a <;> decide
  | setEpfd c => cases c <;> cases a <;> decide
  | add c => cases c <;> cases a <;> decide
  | reply => cases a <;> decide
  | returned => cases a <;> decide

/-- The descriptor of the end has been closed. -/
def RelayThread.shut : RelayThread → Bool
  | .closed => true
  | .unregistered => true
  | _ => false

/-- The handler's part in the end is over. -/
def RelayThread.settled : RelayThread → Bool
  | .ended => true
  | thread => thread.shut

/-- The other end as the handler has read it. -/
def RelayThread.remote : RelayThread → Option PairEnd
  | .linked remote => some remote
  | .unlinked remote => some remote
  | .closing remote _ => some remote
  | _ => none

@[simp] theorem PairEnd.other_other (a : PairEnd) : a.other.other = a := by cases a <;> rfl

theorem PairEnd.eq_or_other (a b : PairEnd) : b = a ∨ b = a.other := by cases a <;> cases b <;> decide

namespace ClientPair

/-- The end is allocated and nothing happens on it. -/
def Serving (s : ClientPair) (a : PairEnd) : Prop := s.live a = true ∧ s.relay a = .idle

def Shut (s : ClientPair) (a : PairEnd) : Prop := s.live a = false ∨ (s.relay a).shut = true

def Settled (s : ClientPair) (a : PairEnd) : Prop := s.live a = false ∨ (s.relay a).settled = true

/-- The epoll thread of the end deletes it before it takes the next event. -/
def EndsItself (s : ClientPair) (a : PairEnd) : Prop :=
  ∃ n, ((fun t => t.advanceRelay a)^[n] s).live a = false

/-- The end is registered with `EPOLLOUT` in the epoll set that its `m_epfd` names. -/
def CloseRequested (s : ClientPair) (a : PairEnd) : Prop :=
  s.kernel.epoll (s.info a).epfd (s.info a).fd = some ⟨.epollOut, a⟩

/-- The end waits for `EPOLLIN` and has no peer. -/
def Stranded (s : ClientPair) (a : PairEnd) : Prop :=
  s.Serving a ∧ s.kernel.epoll (s.epfd a) (s.info a).fd = some ⟨.epollIn, a⟩ ∧ (s.info a).data.ptr = none

/-- The request of `close_socket` comes after the other end was registered, with the `m_epfd` that it
then had. -/
def Timely (s : ClientPair) : PairEvent → Prop
  | .relay a =>
    match s.relay a with
    | .closing remote epfd => s.control.added remote = true ∧ epfd = s.epfd remote
    | _ => True
  | _ => True

def TimelyStep (s : ClientPair) (event : PairEvent) (t : ClientPair) : Prop :=
  Step s event t ∧ s.Timely event

structure Intact (s : ClientPair) : Prop where
  apart : ∀ a, (s.info a.other).fd ≠ (s.info a).fd
  instances : ∀ a, s.kernel.files (s.epfd a) = some .epoll
  sets : ∀ a b, s.epfd b ≠ (s.info a).fd
  waiting : ∀ a, s.control.added a = false → s.Serving a ∧ ∀ e, s.kernel.epoll e (s.info a).fd = none
  isOpen : ∀ a, ¬ s.Shut a → s.kernel.files (s.info a).fd = some .connection
  shut : ∀ a, s.Shut a → s.kernel.files (s.info a).fd = none
  registered : ∀ a, s.control.added a = true → ¬ s.Shut a →
    ∃ interest, s.kernel.epoll (s.epfd a) (s.info a).fd = some ⟨interest, a⟩
  named : ∀ a, s.control.named a = true → (s.info a).epfd = s.epfd a
  ptr : ∀ a x, (s.info a).data.ptr = some x → x = a.other
  linked : ∀ a, s.control.linked a = true → (s.info a).data.ptr = none → ¬ s.Serving a.other
  remote : ∀ a x, (s.relay a).remote = some x → x = a.other
  orderly : ∀ a, s.orderly a = true → ¬ s.Serving a
  requested : ∀ a, s.orderly a = true → s.Settled a → ¬ s.Serving a.other ∨
    s.kernel.epoll (s.epfd a.other) (s.info a.other).fd = some ⟨.epollOut, a.other⟩

variable {s t : ClientPair} {a b : PairEnd}

theorem intact_initial (pair : ConnectedPair) : Intact (initial pair) where
  apart := pair.apart
  instances := pair.instances
  sets a b same := by
    have kind := pair.instances b
    have same' : pair.epfd b = pair.fd a := same
    rw [same', pair.connected a] at kind
    exact nomatch kind
  waiting a _ := ⟨⟨rfl, rfl⟩, fun e => pair.unregistered e a⟩
  isOpen a _ := pair.connected a
  shut a closed := by
    rcases closed with dead | thread
    · exact nomatch dead
    · exact nomatch thread
  registered a added := nomatch added
  named a named := nomatch named
  ptr a x points := nomatch points
  linked a linked := by cases a <;> exact nomatch linked
  remote a x reads := nomatch reads
  orderly a ended := nomatch ended
  requested a ended := nomatch ended

section Pieces

/-- What a thread of one end does to itself leaves the other end alone. -/
theorem relay_setRelay_of_ne (apart : b ≠ a) (thread : RelayThread) :
    (s.setRelay a thread).relay b = s.relay b :=
  Function.update_of_ne apart ..

theorem Serving.not_shut (serving : s.Serving a) : ¬ s.Shut a := by
  rintro (dead | closed)
  · exact Bool.false_ne_true (dead.symm.trans serving.1)
  · rw [serving.2] at closed
    exact nomatch closed

theorem not_serving_setRelay {thread : RelayThread} (busy : thread ≠ .idle) (ended : ¬ s.Serving b) :
    ¬ (s.setRelay a thread).Serving b := by
  rcases eq_or_ne b a with rfl | apart
  · rintro ⟨_, idle⟩
    rw [relay_setRelay] at idle
    exact busy idle
  · rwa [Serving, relay_setRelay_of_ne apart]

/-- The thread of a registered end goes on, without closing its descriptor. -/
theorem Intact.setRelay (intact : Intact s) {thread : RelayThread} (added : s.control.added a = true)
    (busy : thread ≠ .idle) (shut : thread.shut = (s.relay a).shut)
    (remote : ∀ x, thread.remote = some x → x = a.other)
    (settles : s.orderly a = true → thread.settled = true → ¬ s.Serving a.other ∨
      s.kernel.epoll (s.epfd a.other) (s.info a.other).fd = some ⟨.epollOut, a.other⟩) :
    Intact (s.setRelay a thread) := by
  have shut_iff : ∀ b, (s.setRelay a thread).Shut b ↔ s.Shut b := by
    intro b
    rcases eq_or_ne b a with rfl | apart
    · rw [Shut, relay_setRelay, shut]
      exact Iff.rfl
    · rw [Shut, relay_setRelay_of_ne apart]
      exact Iff.rfl
  have keeps := fun b => not_serving_setRelay (s := s) (a := a) (b := b) busy
  exact { intact with
    waiting := by
      intro b notAdded
      have apart : b ≠ a := by
        rintro rfl
        exact Bool.false_ne_true (notAdded.symm.trans added)
      rw [Serving, relay_setRelay_of_ne apart]
      exact intact.waiting b notAdded
    isOpen := fun b notShut => intact.isOpen b fun closed => notShut ((shut_iff b).mpr closed)
    shut := fun b closed => intact.shut b ((shut_iff b).mp closed)
    registered := fun b added notShut => intact.registered b added fun closed =>
      notShut ((shut_iff b).mpr closed)
    linked := fun b linked ptr => keeps _ (intact.linked b linked ptr)
    remote := by
      intro b x reads
      rcases eq_or_ne b a with rfl | apart
      · rw [relay_setRelay] at reads
        exact remote x reads
      · rw [relay_setRelay_of_ne apart] at reads
        exact intact.remote b x reads
    orderly := fun b ended => keeps b (intact.orderly b ended)
    requested := by
      intro b ended settled
      rcases eq_or_ne b a with rfl | apart
      · rw [Settled, relay_setRelay] at settled
        rcases settled with dead | settled
        · exact (intact.requested b ended (Or.inl dead)).imp_left (keeps _)
        · exact (settles ended settled).imp_left (keeps _)
      · rw [Settled, relay_setRelay_of_ne apart] at settled
        exact (intact.requested b ended settled).imp_left (keeps _) }

/-- A field of one `socket_info` is written, but not its `m_fd`. -/
theorem Intact.modifyInfo (intact : Intact s) {f : SocketInfo PairEnd → SocketInfo PairEnd}
    (fd : (f (s.info a)).fd = (s.info a).fd)
    (named : s.control.named a = true → (f (s.info a)).epfd = s.epfd a)
    (ptr : ∀ x, (f (s.info a)).data.ptr = some x → x = a.other)
    (linked : s.control.linked a = true → (f (s.info a)).data.ptr = none → ¬ s.Serving a.other) :
    Intact (s.modifyInfo a f) := by
  have own : (s.modifyInfo a f).info a = f (s.info a) := Function.update_self ..
  have other : ∀ b, b ≠ a → (s.modifyInfo a f).info b = s.info b := fun b apart =>
    Function.update_of_ne apart ..
  have fds : ∀ b, ((s.modifyInfo a f).info b).fd = (s.info b).fd := by
    intro b
    rcases eq_or_ne b a with rfl | apart
    · rw [own, fd]
    · rw [other b apart]
  constructor
  case apart =>
    intro b
    rw [fds, fds]
    exact intact.apart b
  case instances => exact intact.instances
  case sets =>
    intro b c
    rw [fds]
    exact intact.sets b c
  case waiting =>
    intro b notAdded
    rw [fds]
    exact intact.waiting b notAdded
  case isOpen =>
    intro b notShut
    rw [fds]
    exact intact.isOpen b notShut
  case shut =>
    intro b closed
    rw [fds]
    exact intact.shut b closed
  case registered =>
    intro b added notShut
    rw [fds]
    exact intact.registered b added notShut
  case named =>
    intro b isNamed
    rcases eq_or_ne b a with rfl | apart
    · rw [own]
      exact named isNamed
    · rw [other b apart]
      exact intact.named b isNamed
  case ptr =>
    intro b x points
    rcases eq_or_ne b a with rfl | apart
    · rw [own] at points
      exact ptr x points
    · rw [other b apart] at points
      exact intact.ptr b x points
  case linked =>
    intro b isLinked none_
    rcases eq_or_ne b a with rfl | apart
    · rw [own] at none_
      exact linked isLinked none_
    · rw [other b apart] at none_
      exact intact.linked b isLinked none_
  case remote => exact intact.remote
  case orderly => exact intact.orderly
  case requested =>
    intro b ended settled
    rw [fds]
    exact intact.requested b ended settled

/-- The control thread goes on without registering an end. -/
theorem Intact.setControl (intact : Intact s) {before after : ControlThread}
    (control : s.control = before) (added : after.added = before.added)
    (named : ∀ b, after.named b = true → before.named b = true ∨ (s.info b).epfd = s.epfd b)
    (linked : ∀ b, after.linked b = true → before.linked b = true ∨ (s.info b).data.ptr ≠ none) :
    Intact { s with control := after } := by
  obtain rfl := control
  exact { intact with
    waiting := fun b notAdded => intact.waiting b (added ▸ notAdded)
    registered := fun b isAdded => intact.registered b (added ▸ isAdded)
    named := fun b isNamed => (named b isNamed).elim (intact.named b) id
    linked := fun b isLinked none_ =>
      (linked b isLinked).elim (intact.linked b · none_) fun some_ => absurd none_ some_ }

/-- What happens in the system leaves both connections and their registrations alone. -/
theorem Intact.system (intact : Intact s) {kernel : Kernel PairEnd}
    (files : kernel.files = s.kernel.files) (epoll : kernel.epoll = s.kernel.epoll) :
    Intact { s with kernel := kernel } where
  apart := intact.apart
  instances a := (congrFun files _).trans (intact.instances a)
  sets := intact.sets
  waiting a notAdded :=
    ⟨(intact.waiting a notAdded).1, fun e => (congrFun (congrFun epoll e) _).trans
      ((intact.waiting a notAdded).2 e)⟩
  isOpen a notShut := (congrFun files _).trans (intact.isOpen a notShut)
  shut a closed := (congrFun files _).trans (intact.shut a closed)
  registered a added notShut := by
    obtain ⟨interest, present⟩ := intact.registered a added notShut
    exact ⟨interest, (congrFun (congrFun epoll _) _).trans present⟩
  named := intact.named
  ptr := intact.ptr
  linked := intact.linked
  remote := intact.remote
  orderly := intact.orderly
  requested a ended settled :=
    (intact.requested a ended settled).imp_right ((congrFun (congrFun epoll _) _).trans ·)

/-- `EPOLL_CTL_ADD` of an end that nobody has touched yet. -/
theorem Intact.register (intact : Intact s) {before after : ControlThread} (control : s.control = before)
    (notAdded : before.added a = false)
    (added : ∀ b, after.added b = true ↔ before.added b = true ∨ b = a)
    (named : ∀ b, after.named b = before.named b) (linked : ∀ b, after.linked b = before.linked b) :
    Intact { s.register a with control := after } := by
  obtain rfl := control
  obtain ⟨⟨live, idle⟩, absent⟩ := intact.waiting a notAdded
  have notShut := Serving.not_shut ⟨live, idle⟩
  have isOpen : s.kernel.files (s.info a).fd ≠ none := by
    rw [intact.isOpen a notShut]
    exact Option.some_ne_none _
  have files : (s.register a).kernel.files = s.kernel.files := Kernel.files_epollAdd ..
  have own : (s.register a).kernel.epoll (s.epfd a) (s.info a).fd = some ⟨.epollIn, a⟩ :=
    Kernel.epollAdd_self (intact.instances a) isOpen (intact.sets a a) (absent _)
  have other : ∀ b, b ≠ a → ∀ e, (s.register a).kernel.epoll e (s.info b).fd = s.kernel.epoll e
    (s.info b).fd := by
    intro b apart e
    refine Kernel.epollAdd_other fun here => ?_
    obtain rfl := (PairEnd.eq_or_other a b).resolve_left apart
    exact intact.apart a here.2
  refine ⟨intact.apart, fun b => (congrFun files _).trans (intact.instances b), intact.sets, ?_,
    fun b notShut => (congrFun files _).trans (intact.isOpen b notShut),
    fun b closed => (congrFun files _).trans (intact.shut b closed), ?_,
    fun b isNamed => intact.named b (named b ▸ isNamed), intact.ptr,
    fun b isLinked => intact.linked b (linked b ▸ isLinked), intact.remote, intact.orderly, ?_⟩
  · intro b notYet
    have apart : b ≠ a := by
      rintro rfl
      exact Bool.false_ne_true (notYet.symm.trans ((added b).mpr (Or.inr rfl)))
    have unadded : s.control.added b = false := by
      by_contra isAdded
      exact Bool.false_ne_true
        (notYet.symm.trans ((added b).mpr (Or.inl (Bool.eq_true_of_not_eq_false isAdded))))
    exact ⟨(intact.waiting b unadded).1,
      fun e => (other b apart e).trans ((intact.waiting b unadded).2 e)⟩
  · intro b isAdded bNotShut
    rcases eq_or_ne b a with rfl | apart
    · exact ⟨.epollIn, own⟩
    · obtain ⟨interest, present⟩ :=
        intact.registered b (((added b).mp isAdded).resolve_right apart) bNotShut
      exact ⟨interest, (other b apart _).trans present⟩
  · intro b ended settled
    have requested := intact.requested b ended settled
    rcases eq_or_ne b.other a with rfl | apart
    · rw [absent] at requested
      exact requested.imp_right fun impossible => nomatch impossible
    · exact requested.imp_right ((other _ apart _).trans ·)

/-- `EPOLL_CTL_MOD` of the other end. It reaches an end that is registered and not closed. -/
theorem Intact.closeSocket (intact : Intact s) (a : PairEnd) (epfd : ℤ) :
    Intact (s.closeSocket a epfd) := by
  have files : (s.closeSocket a epfd).kernel.files = s.kernel.files := Kernel.files_epollMod ..
  have kept : ∀ b interest, s.kernel.epoll (s.epfd b) (s.info b).fd = some ⟨interest, b⟩ →
      (s.closeSocket a epfd).kernel.epoll (s.epfd b) (s.info b).fd = some ⟨interest, b⟩ ∨
        (s.closeSocket a epfd).kernel.epoll (s.epfd b) (s.info b).fd = some ⟨.epollOut, b⟩ := by
    intro b interest present
    by_cases here : s.epfd b = epfd ∧ (s.info b).fd = (s.info a).fd
    · obtain ⟨rfl, same⟩ := here
      obtain rfl : b = a := by
        by_contra apart
        obtain rfl := (PairEnd.eq_or_other a b).resolve_left apart
        exact intact.apart a same
      exact Or.inr (Kernel.epollMod_self (by rw [present]; exact Option.some_ne_none _))
    · exact Or.inl ((Kernel.epollMod_other here).trans present)
  exact { intact with
    instances := fun b => (congrFun files _).trans (intact.instances b)
    waiting := fun b notAdded => ⟨(intact.waiting b notAdded).1, fun e =>
      Kernel.epollMod_eq_none.mpr ((intact.waiting b notAdded).2 e)⟩
    isOpen := fun b notShut => (congrFun files _).trans (intact.isOpen b notShut)
    shut := fun b closed => (congrFun files _).trans (intact.shut b closed)
    registered := by
      intro b added notShut
      obtain ⟨interest, present⟩ := intact.registered b added notShut
      rcases kept b interest present with same | out
      · exact ⟨interest, same⟩
      · exact ⟨.epollOut, out⟩
    requested := fun b ended settled =>
      (intact.requested b ended settled).imp_right fun present =>
        or_self_iff.mp (kept b.other _ present) }

/-- What the thread of an end changes from `::close(sock)` on. -/
structure Closes (s : ClientPair) (a : PairEnd) (t : ClientPair) : Prop where
  info : t.info = s.info
  epfd : t.epfd = s.epfd
  control : t.control = s.control
  orderly : t.orderly = s.orderly
  live : ∀ b, b ≠ a → t.live b = s.live b
  relay : ∀ b, b ≠ a → t.relay b = s.relay b
  files : ∀ f, f ≠ (s.info a).fd → t.kernel.files f = s.kernel.files f
  closed : t.kernel.files (s.info a).fd = none
  epoll : ∀ e f, e ≠ (s.info a).fd → f ≠ (s.info a).fd → t.kernel.epoll e f = s.kernel.epoll e f
  absent : ∀ e f, s.kernel.epoll e f = none → t.kernel.epoll e f = none
  shut : t.Shut a
  remote : (t.relay a).remote = none

/-- The descriptors of the two ends differ. -/
theorem Intact.fd_ne (intact : Intact s) (apart : b ≠ a) : (s.info b).fd ≠ (s.info a).fd := by
  obtain rfl := (PairEnd.eq_or_other a b).resolve_left apart
  exact intact.apart a

namespace Closes

variable (closes : Closes s a t)
include closes

theorem not_serving : ¬ t.Serving a := fun serving => serving.not_shut closes.shut

theorem serving_iff (apart : b ≠ a) : t.Serving b ↔ s.Serving b := by
  rw [Serving, closes.live b apart, closes.relay b apart]
  exact Iff.rfl

theorem shut_iff (apart : b ≠ a) : t.Shut b ↔ s.Shut b := by
  rw [Shut, closes.live b apart, closes.relay b apart]
  exact Iff.rfl

theorem ne_of_not_shut (notShut : ¬ t.Shut b) : b ≠ a := by
  rintro rfl
  exact notShut closes.shut

/-- No end is served again. -/
theorem keeps (ended : ¬ s.Serving b) : ¬ t.Serving b := by
  rcases eq_or_ne b a with rfl | apart
  · exact closes.not_serving
  · rwa [closes.serving_iff apart]

theorem waiting (intact : Intact s) (added : s.control.added a = true)
    (notYet : t.control.added b = false) :
    t.Serving b ∧ ∀ e, t.kernel.epoll e (t.info b).fd = none := by
  rw [closes.control] at notYet
  have apart : b ≠ a := by
    rintro rfl
    rw [added] at notYet
    contradiction
  obtain ⟨before, none_⟩ := intact.waiting b notYet
  rw [closes.serving_iff apart, closes.info]
  exact ⟨before, fun e => closes.absent _ _ (none_ e)⟩

theorem isOpen (intact : Intact s) (notShut : ¬ t.Shut b) : t.kernel.files (t.info b).fd =
    some .connection := by
  have apart := closes.ne_of_not_shut notShut
  rw [closes.info, closes.files _ (intact.fd_ne apart)]
  exact intact.isOpen b fun before => notShut ((closes.shut_iff apart).mpr before)

theorem files_of_shut (intact : Intact s) (isShut : t.Shut b) : t.kernel.files (t.info b).fd = none := by
  rw [closes.info]
  rcases eq_or_ne b a with rfl | apart
  · exact closes.closed
  · rw [closes.files _ (intact.fd_ne apart)]
    exact intact.shut b ((closes.shut_iff apart).mp isShut)

theorem registered (intact : Intact s) (isAdded : t.control.added b = true) (notShut : ¬ t.Shut b) :
    ∃ interest, t.kernel.epoll (t.epfd b) (t.info b).fd = some ⟨interest, b⟩ := by
  have apart := closes.ne_of_not_shut notShut
  rw [closes.control] at isAdded
  rw [closes.info, closes.epfd, closes.epoll _ _ (intact.sets a b) (intact.fd_ne apart)]
  exact intact.registered b isAdded fun before => notShut ((closes.shut_iff apart).mpr before)

theorem remote_eq (intact : Intact s) {x : PairEnd} (reads : (t.relay b).remote = some x) :
    x = b.other := by
  rcases eq_or_ne b a with rfl | apart
  · rw [closes.remote] at reads
    contradiction
  · rw [closes.relay b apart] at reads
    exact intact.remote b x reads

/-- The other end has been asked to close, and of the end itself nothing is asked any more. -/
theorem requested (intact : Intact s) (settled : s.Settled a) (ended : t.orderly b = true) :
    ¬ t.Serving b.other ∨
    t.kernel.epoll (t.epfd b.other) (t.info b.other).fd = some ⟨.epollOut, b.other⟩ := by
  rw [closes.orderly] at ended
  rw [closes.info, closes.epfd]
  rcases eq_or_ne b a with rfl | apart
  · rw [closes.epoll _ _ (intact.sets b b.other) (intact.apart b)]
    exact (intact.requested b ended settled).imp_left closes.keeps
  · have own := (PairEnd.eq_or_other b a).resolve_left apart.symm
    rw [← own]
    exact Or.inl closes.not_serving

theorem intact (intact : Intact s) (added : s.control.added a = true) (settled : s.Settled a) :
    Intact t where
  apart := closes.info ▸ intact.apart
  instances b := by
    rw [closes.epfd, closes.files _ (intact.sets a b)]
    exact intact.instances b
  sets := by
    rw [closes.info, closes.epfd]
    exact intact.sets
  waiting _ notYet := closes.waiting intact added notYet
  isOpen _ notShut := closes.isOpen intact notShut
  shut _ isShut := closes.files_of_shut intact isShut
  registered _ isAdded notShut := closes.registered intact isAdded notShut
  named := by
    rw [closes.info, closes.epfd, closes.control]
    exact intact.named
  ptr := closes.info ▸ intact.ptr
  linked b isLinked none_ := by
    rw [closes.control] at isLinked
    rw [closes.info] at none_
    exact closes.keeps (intact.linked b isLinked none_)
  remote _ _ reads := closes.remote_eq intact reads
  orderly b ended := closes.keeps (intact.orderly b (closes.orderly ▸ ended))
  requested _ ended _ := closes.requested intact settled ended

end Closes

/-- `close` of an end by its own thread. -/
theorem closes_closeFd (s : ClientPair) (a : PairEnd) :
    Closes s a ((s.closeFd a).setRelay a .closed) where
  info := rfl
  epfd := rfl
  control := rfl
  orderly := rfl
  live _ _ := rfl
  relay _ apart := relay_setRelay_of_ne apart _
  files _ apart := Function.update_of_ne apart ..
  closed := Function.update_self ..
  epoll _ _ apart apart' := if_neg fun touched => touched.elim apart apart'
  absent _ _ none_ := ite_eq_left_iff.mpr fun _ => none_
  shut := Or.inr (by rw [relay_setRelay]; rfl)
  remote := by rw [relay_setRelay]; rfl

/-- `EPOLL_CTL_DEL` of an end that is closed. -/
theorem closes_unregister (closed : s.kernel.files (s.info a).fd = none) :
    Closes s a ((s.unregister a).setRelay a .unregistered) where
  info := rfl
  epfd := rfl
  control := rfl
  orderly := rfl
  live _ _ := rfl
  relay _ apart := relay_setRelay_of_ne apart _
  files _ _ := rfl
  closed := closed
  epoll _ _ _ apart := if_neg fun here => apart here.2
  absent _ _ none_ := ite_eq_left_iff.mpr fun _ => none_
  shut := Or.inr (by rw [relay_setRelay]; rfl)
  remote := by rw [relay_setRelay]; rfl

/-- `del_clinet_info` of an end that is closed. -/
theorem closes_delClinetInfo (closed : s.kernel.files (s.info a).fd = none) :
    Closes s a ((s.delClinetInfo a).setRelay a .idle) where
  info := rfl
  epfd := rfl
  control := rfl
  orderly := rfl
  live _ apart := Function.update_of_ne apart ..
  relay _ apart := relay_setRelay_of_ne apart _
  files _ _ := rfl
  closed := closed
  epoll _ _ _ _ := rfl
  absent _ _ none_ := none_
  shut := Or.inl (Function.update_self ..)
  remote := by rw [relay_setRelay]; rfl

/-- The request reaches an end that is registered, unless its own thread is ending it. -/
theorem requested_closeSocket (intact : Intact s) (added : s.control.added a = true) :
    ¬ (s.closeSocket a (s.epfd a)).Serving a ∨
      (s.closeSocket a (s.epfd a)).kernel.epoll (s.epfd a) (s.info a).fd = some ⟨.epollOut, a⟩ := by
  by_cases serving : s.Serving a
  · obtain ⟨interest, present⟩ := intact.registered a added serving.not_shut
    exact Or.inr (Kernel.epollMod_self (by rw [present]; exact Option.some_ne_none _))
  · exact Or.inl serving

end Pieces

/-- Setting the `m_ptr` of an end to the other one. -/
theorem Intact.link (intact : Intact s) (a : PairEnd) : Intact (s.setPtr a (some a.other)) :=
  intact.modifyInfo rfl (intact.named a) (fun _ same => (Option.some.inj same).symm) fun _ none_ =>
    nomatch none_

theorem Intact.advanceControl (intact : Intact s) : Intact s.advanceControl := by
  have points : ∀ a : PairEnd, ((s.setPtr a (some a.other)).info a).data.ptr ≠ none := by
    intro a
    rw [info_setPtr]
    exact Option.some_ne_none _
  rw [ClientPair.advanceControl]
  cases control : s.control with
  | link a =>
    cases a with
    | sInfo =>
      refine (intact.link .sInfo).setControl control rfl (fun b named => nomatch named) fun b linked => ?_
      cases b with
      | sInfo => exact Or.inr (points .sInfo)
      | lInfo => exact nomatch linked
    | lInfo =>
      refine (intact.link .lInfo).setControl control rfl (fun b named => nomatch named) fun b linked => ?_
      cases b with
      | sInfo => exact Or.inl rfl
      | lInfo => exact Or.inr (points .lInfo)
  | reply =>
    exact intact.setControl control rfl (fun b named => by cases b <;> exact nomatch named)
      fun _ _ => Or.inl rfl
  | setEpfd a =>
    have set : ((s.setEpfd a).info a).epfd = s.epfd a :=
      congrArg (fun info : SocketInfo PairEnd => info.epfd) (Function.update_self a _ s.info)
    have written : Intact (s.setEpfd a) :=
      intact.modifyInfo rfl (fun _ => rfl) (intact.ptr a) (intact.linked a)
    cases a with
    | sInfo =>
      refine written.setControl control rfl (fun b named => ?_) fun _ _ => Or.inl rfl
      cases b with
      | sInfo => exact Or.inr set
      | lInfo => exact nomatch named
    | lInfo =>
      refine written.setControl control ?_ (fun b named => ?_) fun _ _ => Or.inl rfl
      · funext b
        cases b <;> rfl
      · cases b with
        | sInfo => exact Or.inl rfl
        | lInfo => exact Or.inr set
  | add a =>
    cases a with
    | sInfo =>
      exact intact.register control rfl (fun b => by cases b <;> decide)
        (fun b => by cases b <;> rfl) fun _ => rfl
    | lInfo =>
      exact intact.register control rfl (fun b => by cases b <;> decide)
        (fun b => by cases b <;> rfl) fun _ => rfl
  | returned => exact intact

theorem Intact.setData (intact : Intact s) (a : PairEnd) {f : SocketData PairEnd → SocketData PairEnd}
    (ptr : (f (s.info a).data).ptr = (s.info a).data.ptr) : Intact (s.setData a f) := by
  refine intact.modifyInfo rfl (intact.named a) (fun x points => ?_) fun linked none_ => ?_
  · exact intact.ptr a x (ptr.symm.trans points)
  · exact intact.linked a linked (ptr.symm.trans none_)

theorem Intact.receive (intact : Intact s) (a : PairEnd) (bytes : List UInt8) (result : ℤ) :
    Intact (s.receive a bytes result) := by
  have recvd : Intact (s.recvInto a bytes) :=
    (intact.system (Kernel.files_recv ..) (funext fun _ => rfl)).setData a rfl
  rw [ClientPair.receive, onRecvData]
  cases ((s.recvInto a bytes).info a).data.ptr with
  | none => exact recvd.setData a (SocketData.ptr_consume ..)
  | some remote =>
    exact (recvd.system (Kernel.files_send ..) (Kernel.epoll_send ..)).setData a
      (SocketData.ptr_consume ..)

/-- An end for which an event is reported is registered and served. -/
theorem Intact.ready (intact : Intact s) (idle : s.relay a = .idle) {event : EpollEvent}
    (ready : s.Ready a event) :
    s.control.added a = true ∧ s.Serving a ∧ s.orderly a = false := by
  obtain ⟨interest, present, _⟩ := ready
  have isOpen := (s.kernel.registered _ _ (by rw [present]; exact Option.some_ne_none _)).2
  have live : s.live a = true := by
    by_contra dead
    exact isOpen (intact.shut a (Or.inl (Bool.eq_false_of_not_eq_true dead)))
  have added : s.control.added a = true := by
    by_contra notAdded
    have absent := (intact.waiting a (Bool.eq_false_of_not_eq_true notAdded)).2 (s.epfd a)
    rw [present] at absent
    exact nomatch absent
  refine ⟨added, ⟨live, idle⟩, ?_⟩
  by_contra ended
  exact intact.orderly a (Bool.eq_true_of_not_eq_false ended) ⟨live, idle⟩

/-- `recv` has returned zero, and the handler is about to be called. -/
theorem Intact.disconnect (intact : Intact s) (unsettled : ¬ s.Settled a) (busy : ¬ s.Serving a) :
    Intact { s with orderly := Function.update s.orderly a true } := by
  have other : ∀ b, b ≠ a → Function.update s.orderly a true b = s.orderly b := fun b apart =>
    Function.update_of_ne apart ..
  exact { intact with
    orderly := by
      intro b ended
      rcases eq_or_ne b a with rfl | apart
      · exact busy
      · exact intact.orderly b ((other b apart).symm.trans ended)
    requested := by
      intro b ended settled
      rcases eq_or_ne b a with rfl | apart
      · exact absurd settled unsettled
      · exact intact.requested b ((other b apart).symm.trans ended) settled }

theorem Intact.handle (intact : Intact s) (idle : s.relay a = .idle) {event : EpollEvent}
    (ready : s.Ready a event) :
    Intact (s.handle a event) := by
  obtain ⟨added, serving, unended⟩ := intact.ready idle ready
  have noRemote : ∀ x, (none : Option PairEnd) = some x → x = a.other := fun _ impossible =>
    nomatch impossible
  have ends : Intact (s.setRelay a .ended) := by
    refine intact.setRelay added (by decide) (by rw [idle]; rfl) noRemote fun ended => ?_
    exact absurd (ended.symm.trans unended) (by decide)
  cases event with
  | out => exact ends
  | again => exact intact
  | error => exact ends
  | eof =>
    have called : Intact (s.setRelay a .disconnected) :=
      intact.setRelay added (by decide) (by rw [idle]; rfl) noRemote fun _ settled => nomatch settled
    refine called.disconnect (a := a) ?_ ?_
    · rintro (dead | settled)
      · exact Bool.false_ne_true (dead.symm.trans serving.1)
      · rw [relay_setRelay] at settled
        exact nomatch settled
    · rintro ⟨_, stillIdle⟩
      rw [relay_setRelay] at stillIdle
      exact nomatch stillIdle
  | data bytes result => exact intact.receive a bytes result

theorem Intact.advanceRelay (intact : Intact s) (timely : s.Timely (.relay a)) :
    Intact (s.advanceRelay a) := by
  by_cases idle : s.relay a = .idle
  · rw [advance_idle idle]
    exact intact
  have busy : ¬ s.Serving a := fun serving => idle serving.2
  have added : s.control.added a = true := by
    by_contra notAdded
    exact busy (intact.waiting a (Bool.eq_false_of_not_eq_true notAdded)).1
  rw [ClientPair.advanceRelay]
  rw [Timely] at timely
  cases thread : s.relay a with
  | idle => exact absurd thread idle
  | disconnected =>
    cases ptr : (s.info a).data.ptr with
    | none =>
      refine intact.setRelay added (by decide) (by rw [thread]; rfl) (by rintro _ ⟨⟩) fun _ _ => ?_
      exact Or.inl (intact.linked a (ControlThread.linked_of_added added) ptr)
    | some remote =>
      refine intact.setRelay added (by rintro ⟨⟩) (by rw [thread]; rfl) (fun x same => ?_)
        (by rintro _ ⟨⟩)
      obtain rfl := Option.some.inj same
      exact intact.ptr a _ ptr
  | linked remote =>
    obtain rfl := intact.remote a remote (by rw [thread]; rfl)
    have cleared : Intact (s.setPtr a.other none) := by
      refine intact.modifyInfo rfl (intact.named _) (by rintro _ ⟨⟩) fun _ _ => ?_
      rwa [PairEnd.other_other]
    refine cleared.setRelay added (by rintro ⟨⟩) ?_ (fun x same => (Option.some.inj same).symm)
      (by rintro _ ⟨⟩)
    exact (congrArg RelayThread.shut thread).symm
  | unlinked remote =>
    refine intact.setRelay added (by rintro ⟨⟩) (by rw [thread]; rfl) (fun x same => ?_)
      (by rintro _ ⟨⟩)
    exact intact.remote a x (by rw [thread]; exact same)
  | closing remote epfd =>
    obtain rfl := intact.remote a remote (by rw [thread]; rfl)
    rw [thread] at timely
    obtain ⟨otherAdded, rfl⟩ := timely
    refine (intact.closeSocket a.other _).setRelay added (by decide) ?_ (by rintro _ ⟨⟩) fun _ _ => ?_
    · exact (congrArg RelayThread.shut thread).symm
    · exact requested_closeSocket intact otherAdded
  | ended => exact (closes_closeFd s a).intact intact added (Or.inr (by rw [thread]; rfl))
  | closed =>
    have closed := intact.shut a (Or.inr (by rw [thread]; rfl))
    exact (closes_unregister closed).intact intact added (Or.inr (by rw [thread]; rfl))
  | unregistered =>
    have closed := intact.shut a (Or.inr (by rw [thread]; rfl))
    exact (closes_delClinetInfo closed).intact intact added (Or.inr (by rw [thread]; rfl))

/-- A step of any of the three threads. -/
theorem Intact.step {event : PairEvent} (intact : Intact s) (step : TimelyStep s event t) : Intact t := by
  obtain ⟨⟨enabled, rfl⟩, timely⟩ := step
  cases event with
  | control => exact intact.advanceControl
  | ready a event => exact intact.handle enabled.1 enabled.2.1
  | relay a => exact intact.advanceRelay timely

theorem EndsItself.of_advance (later : (s.advanceRelay a).EndsItself a) : s.EndsItself a := by
  obtain ⟨n, dead⟩ := later
  exact ⟨n + 1, dead⟩

/-- An end that is not served is deleted, or its own thread is deleting it. -/
theorem endsItself (ended : ¬ s.Serving a) : s.EndsItself a := by
  have unregistered : ∀ s : ClientPair, s.relay a = .unregistered → s.EndsItself a := by
    intro s thread
    refine ⟨1, ?_⟩
    change (s.advanceRelay a).live a = false
    rw [ClientPair.advanceRelay, thread]
    exact Function.update_self ..
  have closed : ∀ s : ClientPair, s.relay a = .closed → s.EndsItself a := fun s thread =>
    .of_advance (unregistered _ (by rw [ClientPair.advanceRelay, thread]; exact relay_setRelay ..))
  have onEnded : ∀ s : ClientPair, s.relay a = .ended → s.EndsItself a := fun s thread =>
    .of_advance (closed _ (by rw [ClientPair.advanceRelay, thread]; exact relay_setRelay ..))
  have closing : ∀ (s : ClientPair) remote epfd, s.relay a = .closing remote epfd → s.EndsItself a :=
    fun s remote epfd thread =>
      .of_advance (onEnded _ (by rw [ClientPair.advanceRelay, thread]; exact relay_setRelay ..))
  have unlinked : ∀ (s : ClientPair) remote, s.relay a = .unlinked remote → s.EndsItself a :=
    fun s remote thread =>
    .of_advance (closing _ remote _ (by rw [ClientPair.advanceRelay, thread]; exact relay_setRelay ..))
  have linked : ∀ (s : ClientPair) remote, s.relay a = .linked remote → s.EndsItself a :=
    fun s remote thread =>
    .of_advance (unlinked _ remote (by rw [ClientPair.advanceRelay, thread]; exact relay_setRelay ..))
  cases thread : s.relay a with
  | idle => exact ⟨0, Bool.eq_false_of_not_eq_true fun live => ended ⟨live, thread⟩⟩
  | disconnected =>
    cases ptr : (s.info a).data.ptr with
    | none =>
      exact .of_advance (onEnded _
        (by rw [ClientPair.advanceRelay, thread]; dsimp only; rw [ptr]; exact relay_setRelay ..))
    | some remote =>
      exact .of_advance (linked _ remote
        (by rw [ClientPair.advanceRelay, thread]; dsimp only; rw [ptr]; exact relay_setRelay ..))
  | linked remote => exact linked s remote thread
  | unlinked remote => exact unlinked s remote thread
  | closing remote epfd => exact closing s remote epfd thread
  | ended => exact onEnded s thread
  | closed => exact closed s thread
  | unregistered => exact unregistered s thread

/-- In every run in which no request of `close_socket` comes too early: when one end has been
disconnected and deleted, the other one is deleted too, or its thread is deleting it, or it is
registered with `EPOLLOUT` under its `m_epfd`; it is not left waiting for `EPOLLIN` without a peer.
This is so also before `wait_create_tcp_channel` has returned. -/
theorem peer_not_stranded {pair : ConnectedPair} {events : List PairEvent}
    (run : Run TimelyStep (initial pair) events s) (orderly : s.orderly a = true)
    (deleted : s.live a = false) :
    (s.live a.other = false ∨ s.EndsItself a.other ∨ s.CloseRequested a.other) ∧
    ¬ s.Stranded a.other := by
  have intact : Intact s := run.invariant Intact (fun _ _ _ intact step => intact.step step)
    (intact_initial pair)
  rcases intact.requested a orderly (Or.inl deleted) with ended | requested
  · exact ⟨Or.inr (Or.inl (endsItself ended)), fun stranded => ended stranded.1⟩
  · refine ⟨Or.inr (Or.inr ?_), fun stranded => ?_⟩
    · have added : s.control.added a.other = true := by
        by_contra notAdded
        have absent := (intact.waiting _ (Bool.eq_false_of_not_eq_true notAdded)).2 (s.epfd a.other)
        exact nomatch absent.symm.trans requested
      rw [CloseRequested, intact.named _ (ControlThread.named_of_added added)]
      exact requested
    · rw [Stranded, requested] at stranded
      exact nomatch stranded.2.1

/-- The control thread, then an orderly end of the connection to the server. -/
def lateEnd : List PairEvent :=
  List.replicate 7 .control ++ .ready .sInfo .eof :: List.replicate 7 (.relay .sInfo)

/-- The same with the last two steps of the control thread at the end. -/
def earlyEnd : List PairEvent :=
  List.replicate 5 .control ++ .ready .sInfo .eof :: (List.replicate 7 (.relay .sInfo) ++
    List.replicate 2 .control)

theorem run_lateEnd :
    Run TimelyStep (initial onePair) lateEnd (lateEnd.foldl apply (initial onePair)) := by
  have replays : Run.Replays (fun s event => s.Enabled event ∧ s.Timely event)
    apply (initial onePair) lateEnd :=
    ⟨⟨trivial, trivial⟩, ⟨trivial, trivial⟩, ⟨trivial, trivial⟩, ⟨trivial, trivial⟩, ⟨trivial, trivial⟩,
      ⟨trivial, trivial⟩, ⟨trivial, trivial⟩,
      ⟨⟨by decide +kernel, ⟨.epollIn, by decide +kernel, fun impossible => nomatch impossible⟩,
        fun _ _ impossible => nomatch impossible⟩, trivial⟩,
      ⟨trivial, trivial⟩, ⟨trivial, trivial⟩, ⟨trivial, trivial⟩,
      ⟨trivial, ⟨by decide +kernel, by decide +kernel⟩⟩, ⟨trivial, trivial⟩, ⟨trivial, trivial⟩,
      ⟨trivial, trivial⟩, trivial⟩
  exact Run.of_replays_guarded lateEnd _ replays

theorem lateEnd_not_stranded :
    let s := lateEnd.foldl apply (initial onePair)
    s.control = .returned ∧
    (s.live .lInfo = false ∨ s.EndsItself .lInfo ∨ s.CloseRequested .lInfo) ∧ ¬ s.Stranded .lInfo :=
  ⟨by decide +kernel, peer_not_stranded (a := .sInfo) run_lateEnd (by decide +kernel) (by decide +kernel)⟩

/-- When the connection to the server ends before the local one has been registered, the local one is
registered afterwards and stays. -/
theorem early_end_strands :
    ¬ ∀ (pair : ConnectedPair) (events : List PairEvent) (s : ClientPair) (a : PairEnd),
      Run Step (initial pair) events s → s.control = .returned → s.orderly a = true → s.live a = false →
      (s.live a.other = false ∨ s.EndsItself a.other ∨ s.CloseRequested a.other) ∧
        ¬ s.Stranded a.other := by
  intro claimed
  have replays : Run.Replays Enabled apply (initial onePair) earlyEnd :=
    ⟨trivial, trivial, trivial, trivial, trivial,
      ⟨by decide +kernel, ⟨.epollIn, by decide +kernel, fun impossible => nomatch impossible⟩,
        fun _ _ impossible => nomatch impossible⟩,
      trivial, trivial, trivial, trivial, trivial, trivial, trivial, trivial, trivial, trivial⟩
  refine (claimed onePair earlyEnd _ .sInfo (Run.of_replays earlyEnd _ replays) (by decide +kernel)
    (by decide +kernel)
    (by decide +kernel)).2 ⟨⟨by decide +kernel, by decide +kernel⟩, by decide +kernel, by decide +kernel⟩

end ClientPair

end LinuxZero.Vpn
