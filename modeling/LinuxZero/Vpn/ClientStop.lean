import LinuxZero.Vpn.ReConnect

/-! # Stopping the client

`stop` clears `m_re_connect`, notifies and joins. The thread reads the flag only at the head of its
loop: between the test and the wait it misses the notification, from the wait it goes on to
`connect_server` in any case, and within `connect_server` it tries until it has a connection. It
leaves without any of these only if the flag is cleared while it is on its way to the test and all
that is left to do is to register the connection it has.
-/

namespace LinuxZero.Vpn

/-- `stop` has cleared the flag. -/
def MainThread.stopping : MainThread → Bool
  | .notifyAll => true
  | .join => true
  | .joined => true
  | _ => false

/-- A step of the thread `re_connect` itself. -/
def ClientEvent.ofReConnect : ClientEvent → Bool
  | .reConnect _ => true
  | _ => false

namespace VnpClient

/-- `stop` waits for the thread, and the thread for a notification that does not come. -/
def Deadlocked (s : VnpClient) : Prop := s.main = .join ∧ s.thread = .wait

/-- A call of `connect_server` is made in the step from `s` to `t`. -/
def Starts (s t : VnpClient) : Prop :=
  (s.main.call = none ∧ t.main.call ≠ none) ∨ (s.thread.call = none ∧ t.thread.call ≠ none)

/-- The thread reads the flag before it waits or connects again. -/
def Leaving (s : VnpClient) : Prop :=
  s.thread = .test ∨ (∃ c, s.thread = .connectServer (.addEool c)) ∨ s.thread = .exited

/-- `stop` is called while the thread is about to read the flag, or has the connection that its
`connect_server` was called for. -/
def Punctual (s : VnpClient) : ClientEvent → Prop
  | .stop => s.thread = .test ∨ ∃ c, s.thread = .connectServer (.addEool c)
  | _ => True

def PunctualStep (s : VnpClient) (event : ClientEvent) (t : VnpClient) : Prop :=
  Step s event t ∧ s.Punctual event

structure Stopping (s : VnpClient) : Prop where
  flag : s.reConnect = !s.main.stopping
  leaves : s.reConnect = false → s.Leaving

variable {s t : VnpClient}

theorem stopping_initial : Stopping initial := ⟨rfl, fun impossible => nomatch impossible⟩

theorem Stopping.main_stopping (stopping : Stopping s) (cleared : s.reConnect = false) :
    s.main.stopping = true := by
  have flag := stopping.flag
  rw [cleared] at flag
  exact Bool.not_eq_eq_eq_not.mp flag.symm

/-- A thread that leaves does not wait. -/
theorem Leaving.not_wait (leaving : s.Leaving) : s.thread ≠ .wait := by
  intro waits
  rcases leaving with test | ⟨c, call⟩ | exited
  · exact nomatch waits.symm.trans test
  · exact nomatch waits.symm.trans call
  · exact nomatch waits.symm.trans exited

/-- A thread that leaves does not connect. -/
theorem Leaving.not_connect (leaving : s.Leaving) : s.thread.call ≠ some .connect := by
  rcases leaving with test | ⟨c, call⟩ | exited
  · rw [test]
    exact Option.some_ne_none _ ∘ Eq.symm
  · rw [call]
    exact fun same => nomatch same
  · rw [exited]
    exact Option.some_ne_none _ ∘ Eq.symm

theorem Leaving.notify (leaving : s.Leaving) : s.notify = s := by
  rw [VnpClient.notify, if_neg leaving.not_wait]

/-- The main thread neither touches the flag outside `stop` nor enters or leaves `stop` otherwise. -/
theorem advanceMain_stopping (s : VnpClient) (accepted : Bool) :
    (s.advanceMain accepted).reConnect = s.reConnect ∧ (s.advanceMain accepted).main.stopping =
    s.main.stopping := by
  rw [advanceMain]
  cases main : s.main with
  | connectServer call =>
    cases call with
    | connect => cases accepted <;> exact ⟨rfl, rfl⟩
    | addEool c => exact ⟨rfl, rfl⟩
  | create => exact ⟨rfl, rfl⟩
  | started => exact ⟨rfl, congrArg MainThread.stopping main⟩
  | notifyAll => exact ⟨rfl, rfl⟩
  | join =>
    dsimp only
    split_ifs
    · exact ⟨rfl, rfl⟩
    · exact ⟨rfl, congrArg MainThread.stopping main⟩
  | joined => exact ⟨rfl, congrArg MainThread.stopping main⟩

/-- In `stop` and behind it the main thread does not connect. -/
theorem call_of_stopping (stopping : s.main.stopping = true) : s.main.call = none := by
  cases main : s.main with
  | connectServer call =>
    rw [main] at stopping
    exact nomatch stopping
  | create => rfl
  | started => rfl
  | notifyAll => rfl
  | join => rfl
  | joined => rfl

/-- The step leaves the thread where it is, and neither starts a `connect_server` nor opens a
connection. -/
structure Idle (s t : VnpClient) : Prop where
  thread : t.thread = s.thread
  call : t.main.call = s.main.call
  next : t.next = s.next

theorem Idle.not_starts (idle : Idle s t) : ¬ Starts s t := by
  rintro (⟨none_, some_⟩ | ⟨none_, some_⟩)
  · exact some_ (idle.call.trans none_)
  · exact some_ ((congrArg ReConnectThread.call idle.thread).trans none_)

/-- Within `stop` the main thread leaves the thread alone if it is leaving. -/
theorem Leaving.advanceMain (leaving : s.Leaving) (stopping : s.main.stopping = true) (accepted : Bool) :
    Idle s (s.advanceMain accepted) := by
  rw [VnpClient.advanceMain]
  cases main : s.main with
  | connectServer call =>
    rw [main] at stopping
    exact nomatch stopping
  | create =>
    rw [main] at stopping
    exact nomatch stopping
  | started =>
    rw [main] at stopping
    exact nomatch stopping
  | notifyAll =>
    dsimp only
    rw [leaving.notify]
    exact ⟨rfl, by rw [main]; rfl, rfl⟩
  | join =>
    dsimp only
    split_ifs
    · exact ⟨rfl, by rw [main]; rfl, rfl⟩
    · exact ⟨rfl, rfl, rfl⟩
  | joined => exact ⟨rfl, rfl, rfl⟩

/-- How many steps of its own the thread is away from its end, once it is leaving. -/
def remaining (s : VnpClient) : ℕ :=
  match s.thread with
  | .exited => 0
  | .test => 1
  | _ => 2

/-- With the flag cleared, a thread that is leaving comes a step closer to its end. -/
theorem Leaving.advanceReConnect (leaving : s.Leaving) (cleared : s.reConnect = false) (accepted : Bool) :
    (s.advanceReConnect accepted).Leaving ∧ (s.advanceReConnect accepted).next = s.next ∧
      (s.thread.call = none → (s.advanceReConnect accepted).thread.call = none) ∧
      (s.advanceReConnect accepted).remaining ≤ s.remaining - 1 := by
  rcases leaving with test | ⟨c, call⟩ | exited
  · have exits : s.advanceReConnect accepted = { s with thread := .exited } := by
      simp only [VnpClient.advanceReConnect, test, cleared, Bool.false_eq_true, if_false]
    rw [exits]
    exact ⟨Or.inr (Or.inr rfl), rfl, fun _ => rfl, Nat.zero_le _⟩
  · have registers : s.advanceReConnect accepted =
        { s.setConnection c (.registered .epollIn) with thread := .test } := by
      simp only [VnpClient.advanceReConnect, call, advanceCall]
    have two : s.remaining = 2 := by rw [remaining, call]
    rw [registers, two]
    exact ⟨Or.inl rfl, rfl, fun _ => rfl, le_rfl⟩
  · have stays : s.advanceReConnect accepted = s := by
      simp only [VnpClient.advanceReConnect, exited]
    have zero : s.remaining = 0 := by rw [remaining, exited]
    rw [stays, zero]
    exact ⟨Or.inr (Or.inr exited), rfl, id, le_rfl⟩

/-- Neither a connection nor the epoll thread decides what the other two threads do. -/
structure Aside (s t : VnpClient) : Prop where
  reConnect : t.reConnect = s.reConnect
  main : t.main = s.main
  next : t.next = s.next
  thread : s.Leaving → t.thread = s.thread

theorem Aside.idle (aside : Aside s t) (leaving : s.Leaving) : Idle s t :=
  ⟨aside.thread leaving, congrArg MainThread.call aside.main, aside.next⟩

theorem aside_schedule (s : VnpClient) (c : ℕ) : Aside s (s.schedule c) := by
  rw [schedule]
  cases s.connections c <;> exact ⟨rfl, rfl, rfl, fun _ => rfl⟩

theorem aside_advanceEpoll (s : VnpClient) : Aside s s.advanceEpoll := by
  rw [advanceEpoll]
  cases s.epoll <;> exact ⟨rfl, rfl, rfl, fun _ => rfl⟩

/-- A ready event can at most notify the thread. -/
theorem aside_handle (s : VnpClient) (c : ℕ) (event : EpollEvent) : Aside s (s.handle c event) := by
  cases event with
  | out => exact ⟨rfl, rfl, rfl, fun _ => rfl⟩
  | again => exact ⟨rfl, rfl, rfl, fun _ => rfl⟩
  | error => exact ⟨rfl, rfl, rfl, fun _ => rfl⟩
  | eof =>
    refine ⟨rfl, rfl, rfl, fun leaving => ?_⟩
    rw [handle, leaving.notify]
  | data bytes result => exact ⟨rfl, rfl, rfl, fun _ => rfl⟩

theorem advanceReConnect_frame (s : VnpClient) (accepted : Bool) :
    (s.advanceReConnect accepted).reConnect = s.reConnect ∧ (s.advanceReConnect accepted).main =
    s.main := by
  rw [advanceReConnect]
  cases s.thread with
  | connectServer call =>
    cases call with
    | connect => cases accepted <;> exact ⟨rfl, rfl⟩
    | addEool c => exact ⟨rfl, rfl⟩
  | notCreated => exact ⟨rfl, rfl⟩
  | test => exact ⟨rfl, rfl⟩
  | lock => exact ⟨rfl, rfl⟩
  | wait => exact ⟨rfl, rfl⟩
  | woken => exact ⟨rfl, rfl⟩
  | exited => exact ⟨rfl, rfl⟩

/-- Only `stop` itself changes the flag, and with it the place of the main thread. -/
theorem flag_step {event : ClientEvent} (step : Step s event t) (other : event ≠ .stop) :
    t.reConnect = s.reConnect ∧ t.main.stopping = s.main.stopping := by
  have beside : ∀ {u : VnpClient}, Aside s u → u.reConnect = s.reConnect ∧
    u.main.stopping = s.main.stopping :=
    fun aside => ⟨aside.reConnect, congrArg MainThread.stopping aside.main⟩
  obtain ⟨_, rfl⟩ := step
  cases event with
  | main accepted => exact advanceMain_stopping s accepted
  | stop => exact absurd rfl other
  | reConnect accepted =>
    obtain ⟨reConnect, main⟩ := advanceReConnect_frame s accepted
    exact ⟨reConnect, congrArg MainThread.stopping main⟩
  | wake => exact ⟨rfl, rfl⟩
  | schedule c => exact beside (aside_schedule s c)
  | ready c event => exact beside (aside_handle s c event)
  | epoll => exact beside (aside_advanceEpoll s)

/-- While `stop` is under way and the thread is leaving, every other thread leaves it alone. -/
theorem Stopping.idle_step {event : ClientEvent} (stopping : Stopping s) (cleared : s.reConnect = false)
    (step : Step s event t) (other : event.ofReConnect = false) : Idle s t := by
  have leaving := stopping.leaves cleared
  have inStop := stopping.main_stopping cleared
  obtain ⟨enabled, rfl⟩ := step
  cases event with
  | main accepted => exact leaving.advanceMain inStop accepted
  | stop =>
    have started : s.main = .started := enabled
    rw [started] at inStop
    exact nomatch inStop
  | reConnect accepted => exact nomatch other
  | wake => exact absurd enabled leaving.not_wait
  | schedule c => exact (aside_schedule s c).idle leaving
  | ready c event => exact (aside_handle s c event).idle leaving
  | epoll => exact (aside_advanceEpoll s).idle leaving

/-- While `stop` is under way and the thread is leaving, a step leaves it so, starts no call and opens
no connection. -/
theorem Stopping.step_cleared {event : ClientEvent} (stopping : Stopping s)
    (cleared : s.reConnect = false) (step : Step s event t) : t.Leaving ∧ ¬ Starts s t ∧
    t.next = s.next ∧
      t.remaining ≤ s.remaining - [event].countP ClientEvent.ofReConnect := by
  have leaving := stopping.leaves cleared
  cases other : event.ofReConnect with
  | false =>
    have idle := stopping.idle_step cleared step other
    refine ⟨?_, idle.not_starts, idle.next, ?_⟩
    · rw [Leaving, idle.thread]
      exact leaving
    · rw [List.countP_cons_of_neg (by rw [other]; exact Bool.false_ne_true), remaining, idle.thread]
      exact le_rfl
  | true =>
    cases event with
    | reConnect accepted =>
      obtain ⟨_, rfl⟩ := step
      obtain ⟨stays, next, call, closer⟩ := leaving.advanceReConnect cleared accepted
      refine ⟨stays, ?_, next, closer⟩
      rintro (⟨none_, some_⟩ | ⟨none_, some_⟩)
      · exact some_ ((congrArg MainThread.call (advanceReConnect_frame s accepted).2).trans none_)
      · exact some_ (call none_)
    | _ => contradiction

theorem Stopping.step {event : ClientEvent} (stopping : Stopping s)
    (step : PunctualStep s event t) : Stopping t := by
  obtain ⟨step, punctual⟩ := step
  by_cases stops : event = .stop
  · obtain rfl := stops
    obtain ⟨_, rfl⟩ := step
    exact ⟨rfl, fun _ => punctual.imp_right Or.inl⟩
  · obtain ⟨reConnect, main⟩ := flag_step step stops
    refine ⟨?_, fun cleared => ?_⟩
    · rw [reConnect, main]
      exact stopping.flag
    · exact (stopping.step_cleared (reConnect.symm.trans cleared) step).1

/-- `stop` is called once, so with the flag cleared every step is punctual. -/
theorem Stopping.punctual {event : ClientEvent} (stopping : Stopping s) (cleared : s.reConnect = false)
    (step : Step s event t) : PunctualStep s event t ∧ t.reConnect = false := by
  have other : event ≠ .stop := by
    rintro rfl
    have started : s.main = .started := step.1
    have inStop := stopping.main_stopping cleared
    rw [started] at inStop
    contradiction
  refine ⟨⟨step, ?_⟩, (flag_step step other).1.trans cleared⟩
  cases event with
  | stop => exact absurd rfl other
  | _ => trivial

/-- With the flag cleared the thread ends after two steps of its own, whatever the others do. -/
theorem Stopping.exits {later : List ClientEvent} (stopping : Stopping s) (cleared : s.reConnect = false)
    (run : Run Step s later t) (steps : 2 ≤ later.countP ClientEvent.ofReConnect) :
    t.thread = .exited := by
  have atMost : s.remaining ≤ 2 := by
    rw [remaining]
    split <;> omega
  have all : (Stopping t ∧ t.reConnect = false) ∧
      t.remaining ≤ s.remaining - later.countP ClientEvent.ofReConnect :=
    run.history (fun later t => (Stopping t ∧ t.reConnect = false) ∧
      t.remaining ≤ s.remaining - later.countP ClientEvent.ofReConnect)
      (fun later u event v ⟨⟨stopping, cleared⟩, close⟩ step => by
        obtain ⟨punctual, cleared'⟩ := stopping.punctual cleared step
        refine ⟨⟨stopping.step punctual, cleared'⟩, ?_⟩
        have closer := (stopping.step_cleared cleared step).2.2.2
        rw [List.countP_append]
        omega) ⟨⟨stopping, cleared⟩, by rw [List.countP_nil]; exact le_rfl⟩
  have none_ : t.remaining = 0 := by omega
  rcases all.1.1.leaves all.1.2 with test | ⟨c, call⟩ | exited
  · rw [remaining, test] at none_
    contradiction
  · rw [remaining, call] at none_
    contradiction
  · exact exited

/-- What `stop` leaves to be done once it has cleared the flag. -/
structure ShutsDown (s : VnpClient) : Prop where
  /-- No call of `connect` is made or tried again. -/
  noConnect : s.main.call ≠ some .connect ∧ s.thread.call ≠ some .connect
  /-- No step starts a `connect_server` or opens a connection. -/
  noStart : ∀ event t, Step s event t → ¬ Starts s t ∧ t.next = s.next
  /-- After two steps of the thread it has ended, and `join` returns. -/
  returns : ∀ later t, Run Step s later t → 2 ≤ later.countP ClientEvent.ofReConnect →
    t.thread = .exited ∧ (t.main = .join → ∀ accepted, (t.advanceMain accepted).main = .joined)

/-- In every run in which `stop` is punctual: `stop` and the thread never wait for each other, and once
the flag is cleared, no `connect_server` is started, no connection opened or tried, and `join` returns. -/
theorem stop_is_clean {events : List ClientEvent} (run : Run PunctualStep initial events s) :
    ¬ s.Deadlocked ∧ (s.reConnect = false → s.ShutsDown) := by
  have stopping : Stopping s :=
    run.invariant Stopping (fun _ _ _ stopping step => stopping.step step) stopping_initial
  constructor
  · rintro ⟨joins, waits⟩
    have cleared : s.reConnect = false := by
      rw [stopping.flag, joins]
      rfl
    exact (stopping.leaves cleared).not_wait waits
  · intro cleared
    have idleMain := call_of_stopping (stopping.main_stopping cleared)
    constructor
    case noConnect =>
      rw [idleMain]
      exact ⟨Option.some_ne_none _ ∘ Eq.symm, (stopping.leaves cleared).not_connect⟩
    case noStart =>
      intro event t step
      obtain ⟨_, notStarts, next, _⟩ := stopping.step_cleared cleared step
      exact ⟨notStarts, next⟩
    case returns =>
      intro later t run steps
      have exited := stopping.exits cleared run steps
      refine ⟨exited, fun joins accepted => ?_⟩
      simp only [advanceMain, joins, exited, if_true]

/-- `start` and then `stop`, with the thread having made this many steps in between. -/
def stopAfter (steps : ℕ) : List ClientEvent :=
  [.main true, .main false, .main false] ++ List.replicate steps (.reConnect false) ++ [.stop,
    .main false]

theorem stop_at_test : ¬ ((stopAfter 0).foldl apply initial).Deadlocked ∧
    ((stopAfter 0).foldl apply initial).ShutsDown := by
  have replays : Run.Replays (fun s event => s.Enabled event ∧ s.Punctual event) apply initial
    (stopAfter 0) :=
    ⟨⟨trivial, trivial⟩, ⟨trivial, trivial⟩, ⟨trivial, trivial⟩, ⟨show _ = _ from rfl, Or.inl rfl⟩,
      ⟨trivial, trivial⟩, trivial⟩
  exact (stop_is_clean (Run.of_replays_guarded _ _ replays)).imp_right fun shutsDown => shutsDown rfl

/-- Between the test and the wait, `stop` and the thread wait for each other; during the wait, the
thread connects once more. -/
theorem stop_hangs_or_connects :
    (¬ ∀ (events : List ClientEvent) (s : VnpClient), Run Step initial events s → ¬ s.Deadlocked) ∧
      ¬ ∀ (events : List ClientEvent) (s t : VnpClient) (event : ClientEvent), Run Step initial events s →
        s.reConnect = false → Step s event t → ¬ Starts s t := by
  constructor
  · intro claimed
    have replays : Run.Replays Enabled apply initial (stopAfter 1 ++ [.reConnect false]) :=
      ⟨trivial, trivial, trivial, trivial, show _ = _ from rfl, trivial, trivial, trivial⟩
    exact claimed _ _ (Run.of_replays _ _ replays) ⟨by decide +kernel, by decide +kernel⟩
  · intro claimed
    have replays : Run.Replays Enabled apply initial (stopAfter 2) :=
      ⟨trivial, trivial, trivial, trivial, trivial, show _ = _ from rfl, trivial, trivial⟩
    refine claimed _ _ _ (.reConnect false) (Run.of_replays _ _ replays) (by decide +kernel)
      ⟨trivial, rfl⟩ ?_
    exact Or.inr ⟨by decide +kernel, by decide +kernel⟩

end VnpClient

end LinuxZero.Vpn
