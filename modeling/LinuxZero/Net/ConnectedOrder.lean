import LinuxZero.Net.AcceptDescriptors

/-! # `on_connected` comes first

`add_eool` of the accept thread arms the descriptor and calls `on_connected` afterwards, so the epoll
thread may serve the connection, and delete it, before the handler knows it. As long as it does not,
`on_connected` is the first call after `on_accept` and its object is allocated.
-/

namespace LinuxZero

/-- Each call about data or an end comes after `on_connected`, which got an allocated object. -/
def Announced (calls : List CallbackCall) : Prop :=
  ∀ before call after, calls = before ++ call :: after →
    (call.callback = .onRecvData ∨ call.callback.Ends → .onConnected ∈ callsOf before call.info) ∧
      (call.callback = .onConnected → call.live = true)

theorem announced_append {calls : List CallbackCall} {call : CallbackCall} (announced : Announced calls)
    (told : call.callback = .onRecvData ∨ call.callback.Ends → .onConnected ∈ callsOf calls call.info)
    (live : call.callback = .onConnected → call.live = true) : Announced (calls ++ [call]) := by
  intro before other after split_
  rcases List.eq_nil_or_concat after with rfl | ⟨init, last, rfl⟩
  · obtain ⟨rfl, same⟩ := List.append_inj' split_ rfl
    obtain rfl := List.singleton_inj.mp same
    exact ⟨told, live⟩
  · have split_ : calls ++ [call] = (before ++ other :: init) ++ [last] := by simpa using split_
    exact announced before other init (List.append_inj' split_ rfl).1

/-- The connection that the accept thread is busy with. -/
def AcceptThread.Holds (thread : AcceptThread) (p : ℕ) : Prop := thread = .accepted p ∨ thread = .added p

namespace SocketServerAccept

variable {ρ : Type} {s t : SocketServerAccept ρ}

/-- The epoll thread does not serve a connection whose `on_connected` is still to come. -/
def ServesTold (s : SocketServerAccept ρ) : AcceptServerEvent → Prop
  | .epoll p _ => s.acceptor ≠ .added p
  | _ => True

def ToldStep (s : SocketServerAccept ρ) (event : AcceptServerEvent) (t : SocketServerAccept ρ) : Prop :=
  Step s event t ∧ s.ServesTold event

structure Ordered (s : SocketServerAccept ρ) : Prop where
  announced : Announced s.calls
  pending : ∀ p, AcceptThread.Holds s.acceptor p → s.manager.infos.live p = true
  ending : ∀ p, EpollThread.Ends s.epoller p → Told s p

theorem Descriptors.not_told (descriptors : Descriptors s) {p : ℕ}
    (holds : AcceptThread.Holds s.acceptor p) :
    ¬ Told s p := by
  rcases holds with accepted | adding
  · intro isTold
    have notAdded := (descriptors.accepted p accepted).2
    rw [descriptors.told p isTold] at notAdded
    contradiction
  · exact (descriptors.adding p adding).2

theorem Ordered.call (ordered : Ordered s) {p : ℕ} (callback : Callback) (other : callback ≠ .onConnected)
    (isTold : callback = .onRecvData ∨ callback.Ends → Told s p) : Ordered (s.call p callback) where
  announced := announced_append ordered.announced isTold fun isConnected => absurd isConnected other
  pending := ordered.pending
  ending q ends := (told_call other q).mpr (ordered.ending q ends)

/-- The end of a connection that the handler knows. -/
theorem Ordered.endConnection (ordered : Ordered s) {p : ℕ} {callback : Callback} (isEnd : callback.Ends)
    (isTold : Told s p) (sock : ℤ) : Ordered { s.call p callback with epoller := .ended p sock } := by
  have other : callback ≠ .onConnected := by
    rintro rfl
    exact absurd isEnd (by decide)
  have called := ordered.call callback other fun _ => isTold
  refine ⟨called.announced, called.pending, ?_⟩
  rintro q (⟨fd, ends | ends⟩ | ends)
  · obtain ⟨rfl, rfl⟩ := EpollThread.ended.inj ends
    exact (told_call other p).mpr isTold
  all_goals contradiction

theorem Ordered.handle (ordered : Ordered s) {p : ℕ} (isTold : Told s p) (event : ReadyEvent) :
    Ordered (s.handle p event) := by
  have used : Ordered (s.useInfo p) := ⟨ordered.announced, ordered.pending, ordered.ending⟩
  cases event with
  | out => exact used.endConnection (Or.inr rfl) isTold _
  | again => exact used
  | error => exact used.endConnection (Or.inr rfl) isTold _
  | eof => exact used.endConnection (Or.inl rfl) isTold _
  | data bytes buff useLen =>
    have called := used.call .onRecvData (fun impossible => nomatch impossible) fun _ => isTold
    exact ⟨called.announced, called.pending, called.ending⟩

theorem Ordered.accept (ordered : Ordered s) (newSocket : ℤ) : Ordered (s.accept newSocket) := by
  rw [SocketServerAccept.accept, acceptSocket]
  rcases s.kernel.accept_cases s.serverFd newSocket with refused | ⟨available, accepted⟩
  · rw [refused]
    exact ordered
  · rw [accepted]
    dsimp only
    rw [if_neg (not_lt.mpr available.1)]
    have opened : Ordered { s with
        kernel := s.kernel.openAt newSocket .connection available
        manager := (s.manager.getClinetInfo newSocket).2
        acceptor := .accepted s.manager.infos.next } := by
      refine ⟨ordered.announced, ?_, ordered.ending⟩
      rintro p (isAccepted | impossible)
      · obtain rfl := AcceptThread.accepted.inj isAccepted
        exact Function.update_self ..
      · contradiction
    refine opened.call .onAccept (by rintro ⟨⟩) ?_
    rintro (impossible | impossible | impossible) <;> contradiction

theorem Ordered.step {event : AcceptServerEvent} (descriptors : Descriptors s) (ordered : Ordered s)
    (step : ToldStep s event t) : Ordered t := by
  obtain ⟨⟨enabled, rfl⟩, serves⟩ := step
  cases event with
  | takeIdx => exact ⟨ordered.announced, ordered.pending, ordered.ending⟩
  | enterAccept fd =>
    refine ⟨ordered.announced, ?_, ordered.ending⟩
    rintro p (accepted | adding) <;> contradiction
  | enterEpoll fd =>
    refine ⟨ordered.announced, ordered.pending, ?_⟩
    rintro p (⟨fd, ends | ends⟩ | ends) <;> contradiction
  | accept fd => exact ordered.accept fd
  | acceptor =>
    rw [apply, advanceAcceptor]
    split
    · exact ordered
    · exact ordered
    · next p accepted =>
      refine ⟨ordered.announced, ?_, ordered.ending⟩
      rintro q (impossible | adding)
      · contradiction
      · obtain rfl := AcceptThread.added.inj adding
        exact ordered.pending p (Or.inl accepted)
    · next p adding =>
      have live := ordered.pending p (Or.inr adding)
      refine ⟨announced_append ordered.announced ?_ fun _ => live, ?_, fun q ends => ?_⟩
      · rintro (impossible | impossible | impossible) <;> contradiction
      · rintro q (impossible | impossible) <;> contradiction
      · have isTold := ordered.ending q ends
        rcases eq_or_ne q p with rfl | apart
        · exact absurd isTold (descriptors.adding q adding).2
        · have calls := callsOf_call_other s apart .onConnected
          exact (congrArg (Callback.onConnected ∈ ·) calls).mpr isTold
  | epoll p event =>
    obtain ⟨idle, ⟨interest, present, _⟩, _⟩ := enabled
    have started : s.epoller ≠ .starting := by
      rw [idle]
      rintro ⟨⟩
    obtain ⟨_, isAdded, _⟩ := descriptors.entries started _ _ p present
    obtain ⟨_, _, busy | isTold⟩ := descriptors.added p isAdded
    · exact absurd busy serves
    · exact ordered.handle isTold event
  | epoller =>
    rw [apply, advanceEpoller]
    split
    · exact ordered
    · exact ordered
    · next p sock ends =>
      refine ⟨ordered.announced, ordered.pending, ?_⟩
      rintro q (⟨fd, impossible | closed⟩ | impossible)
      · contradiction
      · obtain ⟨rfl, rfl⟩ := EpollThread.closed.inj closed
        exact ordered.ending p (Or.inl ⟨sock, Or.inl ends⟩)
      · contradiction
    · next p sock closed =>
      refine ⟨ordered.announced, ordered.pending, ?_⟩
      rintro q (⟨fd, impossible | impossible⟩ | unregistered)
      · contradiction
      · contradiction
      · obtain rfl := EpollThread.unregistered.inj unregistered
        exact ordered.ending p (Or.inl ⟨sock, Or.inr closed⟩)
    · next p unregistered =>
      have isTold := ordered.ending p (Or.inr unregistered)
      refine ⟨ordered.announced, fun q holds => ?_, ?_⟩
      · have apart : q ≠ p := by
          rintro rfl
          exact descriptors.not_told holds isTold
        exact (s.manager.live_delClinetInfo apart).trans (ordered.pending q holds)
      · rintro q (⟨fd, impossible | impossible⟩ | impossible) <;> contradiction
  | closeSocket p => exact ⟨ordered.announced, ordered.pending, ordered.ending⟩
  | peerClose p => exact ⟨ordered.announced, ordered.pending, ordered.ending⟩

/-- In every run in which the epoll thread serves no connection between its registration and its
`on_connected`, that call comes before every other one about data or an end, and gets an allocated
object. -/
theorem connected_first {kernel : Kernel ℕ} {serverFd : ℤ} {idx : UInt32}
    {events : List AcceptServerEvent}
    (run : Run ToldStep (initial kernel serverFd idx : SocketServerAccept ρ) events t) :
    Announced t.calls := by
  have start : Ordered (initial kernel serverFd idx : SocketServerAccept ρ) := by
    refine ⟨fun before call after split_ => ?_, fun p holds => ?_, fun p ends => ?_⟩
    · cases before <;> contradiction
    · rcases holds with impossible | impossible <;> contradiction
    · rcases ends with ⟨fd, impossible | impossible⟩ | impossible <;> contradiction
  obtain ⟨_, ordered⟩ := run.invariant_with Descriptors Ordered
    (fun _ _ _ known step => known.step step.1)
    (fun _ _ _ known ordered step => ordered.step known step)
    (descriptors_initial kernel serverFd idx) start
  exact ordered.announced

/-- The connection is registered and announced, data comes in, and its peer closes. -/
def announceThenServe : List AcceptServerEvent :=
  acceptFirst ++ [.acceptor] ++ [.acceptor] ++ [.epoll 1 (.data [1, 2] (fun _ => 0) 2)] ++
    [.peerClose 1] ++ [.epoll 1 .eof]

theorem announceThenServe_announced : ∃ t, Run ToldStep listening announceThenServe t ∧
    t.calls.map CallbackCall.callback = [.onAccept, .onConnected, .onRecvData, .onDisconnected] ∧
    Announced t.calls := by
  have replays : Run.Replays (fun s event => Enabled s event ∧ s.ServesTold event) apply listening
    announceThenServe := by
    refine ⟨⟨rfl, trivial⟩, ⟨rfl, trivial⟩, ⟨show _ = _ from rfl, trivial⟩, ⟨trivial, trivial⟩,
      ⟨trivial, trivial⟩, ⟨⟨rfl, ⟨.epollIn, ?_, fun impossible => nomatch impossible⟩, ?_⟩, ?_⟩,
      ⟨trivial, trivial⟩, ⟨⟨rfl, ⟨.epollIn, ?_, fun impossible => nomatch impossible⟩, ?_⟩, ?_⟩,
      trivial⟩
    · decide +kernel
    · exact show SocketData.Fits _ _ by decide +kernel
    · exact fun impossible => nomatch impossible
    · decide +kernel
    · exact Or.inl (by decide +kernel)
    · exact fun impossible => nomatch impossible
  have run : Run ToldStep listening announceThenServe (announceThenServe.foldl apply listening) :=
    Run.of_replays_guarded _ _ replays
  exact ⟨_, run, by decide +kernel, connected_first run⟩

/-- The peer closes at once: its end is served between the registration and `on_connected`, which gets
the deleted object. -/
def serveBeforeAnnounce : List AcceptServerEvent :=
  acceptFirst ++ [.acceptor] ++ [.peerClose 1] ++ [.epoll 1 .eof] ++ [.epoller] ++ [.epoller] ++
    [.epoller] ++ [.acceptor]

theorem served_before_connected : ∃ t, Run Step listening serveBeforeAnnounce t ∧
    t.calls = [⟨1, .onAccept, true, false⟩, ⟨1, .onDisconnected, true, true⟩,
      ⟨1, .onConnected, false, true⟩] ∧
    ¬ Announced t.calls := by
  have replays : Run.Replays Enabled apply listening serveBeforeAnnounce := by
    refine ⟨rfl, rfl, show _ = _ from rfl, trivial, trivial,
      ⟨rfl, ⟨.epollIn, ?_, fun impossible => nomatch impossible⟩, ?_⟩,
      trivial, trivial, trivial, trivial, trivial⟩
    · decide +kernel
    · exact Or.inl (by decide +kernel)
  have run : Run Step listening serveBeforeAnnounce (serveBeforeAnnounce.foldl apply listening) :=
    Run.of_replays _ _ replays
  generalize isServed : serveBeforeAnnounce.foldl apply listening = t at run
  have calls : t.calls =
      [⟨1, .onAccept, true, false⟩, ⟨1, .onDisconnected, true, true⟩,
      ⟨1, .onConnected, false, true⟩] := by
    rw [← isServed]
    decide +kernel
  refine ⟨t, run, calls, fun announced => ?_⟩
  have told := (announced [⟨1, .onAccept, true, false⟩] _ _ calls).1 (Or.inr (Or.inl rfl))
  exact absurd told (by decide)

end SocketServerAccept

end LinuxZero
