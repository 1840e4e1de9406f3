import LinuxZero.Net.AcceptDescriptors

/-! # Registrations and reused descriptors

`run_epoll` closes a descriptor before it takes it out of the epoll set. Between the two calls the
accept thread may get the same number for a new connection and register it, and `EPOLL_CTL_DEL` then
hits the new registration. When no connection is registered at such a moment, nor before `run_epoll`
has made its epoll set, every open connection that was registered still is.
-/

namespace LinuxZero

namespace SocketServerAccept

variable {ρ : Type} {s t : SocketServerAccept ρ}

/-- `EPOLL_CTL_ADD` is called when `m_epfd` names the epoll set of `run_epoll`, and not between the
`::close` and the `EPOLL_CTL_DEL` of the same descriptor number. -/
def AddsSafely (s : SocketServerAccept ρ) : AcceptServerEvent → Prop
  | .acceptor => ∀ p, s.acceptor = .accepted p → s.epoller ≠ .starting ∧
      s.kernel.files s.epfd = some .epoll ∧
      ∀ q sock, s.epoller = .closed q sock → (s.info p).fd ≠ sock
  | _ => True

def SafeStep (s : SocketServerAccept ρ) (event : AcceptServerEvent) (t : SocketServerAccept ρ) : Prop :=
  Step s event t ∧ s.AddsSafely event

/-- `p` is registered in `m_epfd` under its descriptor. -/
def Armed (s : SocketServerAccept ρ) (p : ℕ) : Prop :=
  ∃ interest, s.kernel.epoll s.epfd (s.info p).fd = some ⟨interest, p⟩

structure Registered (s : SocketServerAccept ρ) : Prop where
  started : ∀ p, s.added p = true → s.epoller ≠ .starting
  armed : ∀ p, s.added p = true → Open s p → Armed s p
  deleting : ∀ q sock, s.epoller = .closed q sock → ∀ p, s.added p = true → Open s p →
    (s.info p).fd ≠ sock

/-- Nothing that registrations depend on changes. -/
theorem Registered.same (registered : Registered s) (added : t.added = s.added)
    (isOpen : ∀ p, s.added p = true → Open t p → Open s p)
    (fd : ∀ p, s.added p = true → (t.info p).fd = (s.info p).fd) (epfd : t.epfd = s.epfd)
    (epoll : s.epoller ≠ .starting → ∀ other, t.kernel.epoll s.epfd other =
      s.kernel.epoll s.epfd other)
    (starting : s.epoller ≠ .starting → t.epoller ≠ .starting)
    (closed : ∀ q sock, t.epoller = .closed q sock → s.epoller = .closed q sock) : Registered t where
  started p isAdded := starting (registered.started p (added ▸ isAdded))
  armed p isAdded openP := by
    have isAdded : s.added p = true := added ▸ isAdded
    obtain ⟨interest, present⟩ := registered.armed p isAdded (isOpen p isAdded openP)
    refine ⟨interest, ?_⟩
    rw [fd p isAdded, epfd, epoll (registered.started p isAdded)]
    exact present
  deleting q sock isClosed p isAdded openP := by
    have isAdded : s.added p = true := added ▸ isAdded
    rw [fd p isAdded]
    exact registered.deleting q sock (closed q sock isClosed) p isAdded (isOpen p isAdded openP)

/-- A registered connection is added to the set, and all others stay. -/
theorem Registered.registerInfo (descriptors : Descriptors s) (registered : Registered s) {p : ℕ}
    (accepted : s.acceptor = .accepted p) (safe : s.AddsSafely .acceptor) :
    Registered { s.registerInfo p with acceptor := .added p } := by
  obtain ⟨started, isSet, apart⟩ := safe p accepted
  obtain ⟨isOpen, notAdded⟩ := descriptors.accepted p accepted
  have isConnection := descriptors.opened p isOpen
  have fd := s.fd_registerInfo p
  have absent : s.kernel.epoll s.epfd (s.info p).fd = none := by
    by_contra present
    obtain ⟨⟨interest, q⟩, present⟩ := Option.ne_none_iff_exists'.mp present
    obtain ⟨openQ, addedQ, fdQ⟩ := descriptors.entries started _ _ _ present
    obtain rfl := descriptors.apart q p openQ isOpen fdQ
    rw [notAdded] at addedQ
    contradiction
  have cases_ : ∀ q, (s.registerInfo p).added q = true → q = p ∨ q ≠ p ∧ s.added q = true := by
    intro q isAdded
    have isAdded : Function.update s.added p true q = true := isAdded
    rcases eq_or_ne q p with same | other
    · exact Or.inl same
    · rw [Function.update_of_ne other] at isAdded
      exact Or.inr ⟨other, isAdded⟩
  refine ⟨fun q _ => started, fun q isAdded openQ => ?_, fun r sock closed q isAdded openQ => ?_⟩
  · have present : ∃ interest, (s.registerInfo p).kernel.epoll s.epfd (s.info q).fd =
      some ⟨interest, q⟩ := by
      rcases cases_ q isAdded with rfl | ⟨other, addedQ⟩
      · refine ⟨.epollIn, Kernel.epollAdd_self isSet ?_ ?_ absent⟩
        · rw [isConnection]
          exact Option.some_ne_none _
        · intro same
          rw [same, isConnection] at isSet
          contradiction
      · obtain ⟨interest, present⟩ := registered.armed q addedQ openQ
        refine ⟨interest, (Kernel.epollAdd_other ?_).trans present⟩
        exact fun here => other (descriptors.apart q p openQ isOpen here.2)
    obtain ⟨interest, present⟩ := present
    exact ⟨interest, (congrArg ((s.registerInfo p).kernel.epoll s.epfd) (fd q)).trans present⟩
  · refine (fd q).trans_ne ?_
    rcases cases_ q isAdded with rfl | ⟨_, addedQ⟩
    · exact apart r sock closed
    · exact registered.deleting r sock closed q addedQ openQ

/-- `::close` takes the registration of its own connection along and no other. -/
theorem Registered.closeFd (descriptors : Descriptors s) (registered : Registered s) {p : ℕ} {sock : ℤ}
    (ends : s.epoller = .ended p sock) :
    Registered { s.closeFd p sock with epoller := .closed p sock } := by
  obtain ⟨isOpen, _, isFd⟩ := descriptors.ended p sock ends
  have isConnection : s.kernel.files sock = some .connection := isFd ▸ descriptors.opened p isOpen
  refine ⟨fun q _ impossible => (nomatch impossible), fun q isAdded openQ => ?_,
    fun r fd closed q isAdded openQ => ?_⟩
  · obtain ⟨openQ, apart⟩ := descriptors.open_closeFd ends openQ
    obtain ⟨interest, present⟩ := registered.armed q isAdded openQ
    refine ⟨interest, (if_neg ?_).trans present⟩
    rintro (same | same)
    · have isSet := (s.kernel.registered _ _ (by rw [present]; exact Option.some_ne_none _)).1
      have same : s.epfd = sock := same
      rw [same, isConnection] at isSet
      contradiction
    · exact apart same
  · obtain ⟨rfl, rfl⟩ := EpollThread.closed.inj closed
    exact (descriptors.open_closeFd ends openQ).2

/-- `EPOLL_CTL_DEL` finds no registration of an open connection. -/
theorem Registered.unregister (registered : Registered s) {p : ℕ} {sock : ℤ}
    (closed : s.epoller = .closed p sock) :
    Registered { s.unregister sock with epoller := .unregistered p } := by
  refine ⟨fun q _ impossible => (nomatch impossible), fun q isAdded openQ => ?_,
    fun r fd impossible => (nomatch impossible)⟩
  obtain ⟨interest, present⟩ := registered.armed q isAdded openQ
  refine ⟨interest, (if_neg ?_).trans present⟩
  exact fun here => registered.deleting p sock closed q isAdded openQ here.2

theorem Registered.closeSocket (descriptors : Descriptors s) (registered : Registered s) {p : ℕ}
    (enabled : s.Enabled (.closeSocket p)) : Registered (s.closeSocket p) := by
  obtain ⟨isOpen, isAdded⟩ := descriptors.open_of_enabled enabled
  refine ⟨registered.started, fun q addedQ openQ => ?_, registered.deleting⟩
  rcases eq_or_ne q p with rfl | apart
  · obtain ⟨_, present⟩ := registered.armed q isAdded isOpen
    exact ⟨.epollOut, Kernel.epollMod_self (ne_of_eq_of_ne present (Option.some_ne_none _))⟩
  · obtain ⟨interest, present⟩ := registered.armed q addedQ openQ
    refine ⟨interest, (Kernel.epollMod_other ?_).trans present⟩
    exact fun here => apart (descriptors.apart q p openQ isOpen here.2)

theorem Registered.handle (registered : Registered s) (p : ℕ) (event : ReadyEvent) :
    Registered (s.handle p event) := by
  have ended : ∀ (callback : Callback) (sock : ℤ),
      Registered { (s.useInfo p).call p callback with epoller := .ended p sock } :=
    fun _ _ => registered.same rfl (fun _ _ => id) (fun _ _ => rfl) rfl (fun _ _ => rfl)
      (fun _ impossible => (nomatch impossible)) fun _ _ impossible => nomatch impossible
  cases event with
  | out => exact ended _ _
  | again =>
    exact registered.same rfl (fun _ _ => id) (fun _ _ => rfl) rfl (fun _ _ => rfl) id fun _ _ => id
  | error => exact ended _ _
  | eof => exact ended _ _
  | data bytes buff useLen =>
    exact registered.same rfl (fun _ _ => id)
      (fun q _ => (s.useInfo p).fd_receive p q bytes buff useLen) rfl
      (fun _ _ => rfl) id fun _ _ => id

theorem Registered.accept (descriptors : Descriptors s) (registered : Registered s) (newSocket : ℤ) :
    Registered (s.accept newSocket) := by
  rw [SocketServerAccept.accept, acceptSocket]
  rcases s.kernel.accept_cases s.serverFd newSocket with refused | ⟨available, accepted⟩
  · rw [refused]
    exact registered
  · rw [accepted]
    dsimp only
    rw [if_neg (not_lt.mpr available.1)]
    obtain ⟨_, old⟩ := s.manager.info_getClinetInfo newSocket
    refine registered.same rfl (fun p isAdded openP => ?_) (fun p isAdded => ?_) rfl
      (fun _ _ => rfl) id fun _ _ => id
    · exact ⟨openP.1, (descriptors.added p isAdded).2.1, openP.2.2⟩
    · exact congrArg SocketInfo.fd (old p (Nat.ne_of_lt (descriptors.added p isAdded).2.1))

theorem Registered.step {event : AcceptServerEvent} (descriptors : Descriptors s)
    (registered : Registered s) (step : SafeStep s event t) : Registered t := by
  obtain ⟨⟨enabled, rfl⟩, safe⟩ := step
  have alike : ∀ u : SocketServerAccept ρ, u.added = s.added → u.closed = s.closed →
    u.manager.infos = s.manager.infos →
      u.epfd = s.epfd → u.kernel = s.kernel → u.epoller = s.epoller → Registered u := by
    intro u added closed infos epfd kernel epoller
    refine registered.same added (fun p _ => ?_) (fun p _ => ?_) epfd (by simp [kernel])
      (by simp [epoller]) (by simp [epoller])
    · rw [Open, infos, closed, Open]
      exact id
    · rw [info, SocketManager.info, infos]
  cases event with
  | takeIdx => exact alike _ rfl rfl rfl rfl rfl rfl
  | enterAccept fd =>
    exact registered.same rfl (fun _ _ => id) (fun _ _ => rfl) rfl
      (fun started => descriptors.epoll_enterAccept started fd) id fun _ _ => id
  | enterEpoll fd =>
    have nobody : ∀ p, s.added p ≠ true := fun p isAdded => registered.started p isAdded enabled
    refine ⟨fun p isAdded => absurd isAdded (nobody p), fun p isAdded => absurd isAdded (nobody p), ?_⟩
    rintro _ _ ⟨⟩
  | accept fd => exact registered.accept descriptors fd
  | acceptor =>
    rw [apply, advanceAcceptor]
    split
    · exact registered
    · exact registered
    · next accepted => exact registered.registerInfo descriptors accepted safe
    · exact alike _ rfl rfl rfl rfl rfl rfl
  | epoll p event => exact registered.handle p event
  | epoller =>
    rw [apply, advanceEpoller]
    split
    · exact registered
    · exact registered
    · next ends => exact registered.closeFd descriptors ends
    · next closed => exact registered.unregister closed
    · next p unregistered =>
      obtain ⟨content, next⟩ := s.manager.content_delClinetInfo p
      exact registered.same rfl (fun q _ openQ => ⟨openQ.1, next ▸ openQ.2.1, openQ.2.2⟩)
        (fun q _ => congrArg SocketInfo.fd (congrFun content q)) rfl (fun _ _ => rfl)
        (by rintro _ ⟨⟩) (by rintro _ _ ⟨⟩)
  | closeSocket p => exact registered.closeSocket descriptors enabled
  | peerClose p => exact alike _ rfl rfl rfl rfl rfl rfl

/-- In every run in which `EPOLL_CTL_ADD` is called at a safe moment, each connection that was
registered and whose descriptor has not been closed is registered in `m_epfd`. -/
theorem registered_stay {kernel : Kernel ℕ} {serverFd : ℤ} {idx : UInt32}
    {events : List AcceptServerEvent}
    (run : Run SafeStep (initial kernel serverFd idx : SocketServerAccept ρ) events t) (p : ℕ)
    (added : t.added p = true) (notClosed : t.closed p = false) : Armed t p := by
  have start : Registered (initial kernel serverFd idx : SocketServerAccept ρ) :=
    ⟨fun p isAdded => (nomatch isAdded), fun p isAdded => (nomatch isAdded),
      fun q sock closed => (nomatch closed)⟩
  obtain ⟨descriptors, registered⟩ := run.invariant_with Descriptors Registered
    (fun _ _ _ known step => known.step step.1)
    (fun _ _ _ known registered step => registered.step known step)
    (descriptors_initial kernel serverFd idx) start
  obtain ⟨positive, old, _⟩ := descriptors.added p added
  exact registered.armed p added ⟨positive, old, notClosed⟩

/-- The descriptor of the first connection is closed and deleted, and the second one gets its number. -/
def reuseAfterDelete : List AcceptServerEvent :=
  acceptFirst ++ [.acceptor] ++ [.acceptor] ++ [.epoll 1 .error] ++ [.epoller] ++ [.epoller] ++
    [.accept 5] ++ [.acceptor]

theorem reuseAfterDelete_registered : ∃ t, Run SafeStep listening reuseAfterDelete t ∧ t.closed 1 = true ∧
    (t.info 2).fd = 5 ∧ Armed t 2 := by
  have registered : ∃ interest, ((reuseAfterDelete.take 5).foldl apply listening).kernel.epoll 4 5 =
    some ⟨interest, 1⟩ :=
    ⟨.epollIn, by decide +kernel⟩
  have replays : Run.Replays (fun s event => Enabled s event ∧ s.AddsSafely event) apply listening
    reuseAfterDelete := by
    refine ⟨⟨rfl, trivial⟩, ⟨rfl, trivial⟩, ⟨show _ = _ from rfl, trivial⟩, ⟨trivial, ?_⟩, ⟨trivial, ?_⟩,
      ⟨⟨rfl, registered.imp fun _ present => ⟨present, fun impossible => nomatch impossible⟩,
      trivial⟩, trivial⟩, ⟨trivial, trivial⟩, ⟨trivial, trivial⟩, ⟨show _ = _ from rfl, trivial⟩,
      ⟨trivial, ?_⟩, trivial⟩
    · exact fun p _ => ⟨fun impossible => (nomatch impossible),
        by decide +kernel, fun q sock impossible => (nomatch impossible)⟩
    · exact fun p impossible => nomatch impossible
    · exact fun p _ => ⟨fun impossible => (nomatch impossible),
        by decide +kernel, fun q sock impossible => (nomatch impossible)⟩
  have run : Run SafeStep listening reuseAfterDelete (reuseAfterDelete.foldl apply listening) :=
    Run.of_replays_guarded _ _ replays
  exact ⟨_, run, by decide +kernel, by decide +kernel,
    registered_stay run 2 (by decide +kernel) (by decide +kernel)⟩

/-- The second connection is accepted and registered between the two calls, and loses its
registration. -/
def reuseBeforeDelete : List AcceptServerEvent :=
  acceptFirst ++ [.acceptor] ++ [.acceptor] ++ [.epoll 1 .error] ++ [.epoller] ++ [.accept 5] ++
    [.acceptor] ++
    [.acceptor] ++ [.epoller]

theorem reused_descriptor_unregistered : ∃ t, Run Step listening reuseBeforeDelete t ∧ t.added 2 = true ∧
    t.closed 2 = false ∧ Told t 2 ∧ t.kernel.files (t.info 2).fd = some .connection ∧ ¬ Armed t 2 := by
  have registered : ∃ interest, ((reuseBeforeDelete.take 5).foldl apply listening).kernel.epoll 4
    5 = some ⟨interest, 1⟩ :=
    ⟨.epollIn, by decide +kernel⟩
  have replays : Run.Replays Enabled apply listening reuseBeforeDelete :=
    ⟨rfl, rfl, show _ = _ from rfl, trivial, trivial,
      ⟨rfl, registered.imp fun _ present => ⟨present, fun impossible => nomatch impossible⟩,
      trivial⟩, trivial,
      show _ = _ from rfl, trivial, trivial, trivial, trivial⟩
  have run : Run Step listening reuseBeforeDelete (reuseBeforeDelete.foldl apply listening) :=
    Run.of_replays _ _ replays
  generalize isReused : reuseBeforeDelete.foldl apply listening = t at run
  have state : t.added 2 = true ∧ t.closed 2 = false ∧ .onConnected ∈ callsOf t.calls 2 ∧
      t.kernel.files (t.info 2).fd = some .connection ∧ t.kernel.epoll t.epfd (t.info 2).fd = none := by
    rw [← isReused]
    decide +kernel
  obtain ⟨added, notClosed, told, isOpen, absent⟩ := state
  refine ⟨t, run, added, notClosed, told, isOpen, ?_⟩
  rintro ⟨interest, present⟩
  rw [absent] at present
  contradiction

end SocketServerAccept

end LinuxZero
