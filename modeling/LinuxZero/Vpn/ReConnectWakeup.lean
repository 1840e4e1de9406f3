import LinuxZero.Vpn.ReConnect

/-! # Waking the re_connect thread

The thread `re_connect` waits without a predicate, so a notification that finds it elsewhere is lost;
and `on_a_disconnected` does not notify it at all. The client reconnects after the end of a control
connection if the thread is waiting and is notified, or if it is going to connect anyway.
-/

namespace LinuxZero.Vpn

namespace VnpClient

/-- The client has no connection, and nothing that it does leads to one. -/
def Stuck (s : VnpClient) : Prop :=
  s.reConnect = true ∧ s.thread = .wait ∧ ¬ s.Connecting ∧ ∀ c, ¬ s.Open c

/-- Without the connection `c`, another one is open or about to be made. -/
def Replaced (s : VnpClient) (c : ℕ) : Prop := s.thread = .woken ∨ s.Connecting ∨ ∃ d, d ≠ c ∧ s.Open d

/-- A connection that ends while the client runs is replaced, or it ends by `on_disconnected` while the
thread is waiting. -/
def Noticed (s : VnpClient) : ClientEvent → Prop
  | .ready c .out => s.reConnect = true → s.Replaced c
  | .ready c .error => s.reConnect = true → s.Replaced c
  | .ready c .eof => s.reConnect = true → s.thread = .wait ∨ s.Replaced c
  | _ => True

def NoticedStep (s : VnpClient) (event : ClientEvent) (t : VnpClient) : Prop :=
  Step s event t ∧ s.Noticed event

/-- What holds between the threads in every run. -/
structure Orderly (s : VnpClient) : Prop where
  fresh : ∀ c, s.next ≤ c → s.connections c = .closed
  ending : ∀ c, s.epoll = .ending c → ∃ interest, s.connections c = .registered interest
  adding : ∀ c, s.main.call = some (.addEool c) ∨ s.thread.call = some (.addEool c) →
    s.connections c = .connected
  starting : s.main.call ≠ none ∨ s.main = .create → s.thread = .notCreated

/-- Somebody will see to the connection. -/
def Attended (s : VnpClient) : Prop :=
  s.reConnect = true → s.thread = .woken ∨ s.Connecting ∨ ∃ c, s.Open c ∧ s.epoll ≠ .ending c

variable {s t : VnpClient}

theorem orderly_initial : Orderly initial where
  fresh _ _ := rfl
  ending _ ends := nomatch ends
  adding _ adds := by
    rcases adds with main | thread
    · exact nomatch main
    · exact nomatch thread
  starting _ := rfl

theorem attended_initial : Attended initial := fun _ => Or.inr (Or.inl (Or.inl (Option.some_ne_none _)))

/-- A connection that is not registered is not the one that the epoll thread is ending. -/
theorem Orderly.not_ending (orderly : Orderly s) {c : ℕ}
    (unregistered : ∀ interest, s.connections c ≠ .registered interest) :
    s.epoll ≠ .ending c := by
  intro ends
  obtain ⟨interest, registered⟩ := orderly.ending c ends
  exact unregistered interest registered

section Connections

variable {c d : ℕ} {main : MainThread} {thread : ReConnectThread}

theorem connections_self (s : VnpClient) (c : ℕ) (connection : ControlConnection) :
    (s.setConnection c connection).connections c = connection := Function.update_self ..

theorem connections_other (s : VnpClient) (apart : d ≠ c) (connection : ControlConnection) :
    (s.setConnection c connection).connections d = s.connections d := Function.update_of_ne apart ..

theorem Orderly.known (orderly : Orderly s) (isOpen : s.Open c) : c < s.next := by
  by_contra beyond
  exact isOpen (orderly.fresh c (by omega))

/-- A connection that is being added is not registered yet. -/
theorem Orderly.open_of_adding (orderly : Orderly s)
    (adds : s.main.call = some (.addEool c) ∨ s.thread.call = some (.addEool c)) : s.Open c := by
  rw [Open, orderly.adding c adds]
  decide

/-- `::connect` has succeeded. -/
theorem Orderly.connect (orderly : Orderly s)
    (adding : ∀ c, main.call = some (.addEool c) ∨ thread.call = some (.addEool c) → c = s.next)
    (starting : main.call ≠ none ∨ main = .create → thread = .notCreated) :
    Orderly { s.setConnection s.next .connected with
      next := s.next + 1, main := main, thread := thread } where
  fresh c beyond := by
    have after : s.next + 1 ≤ c := beyond
    refine (connections_other s (by omega) _).trans (orderly.fresh c (by omega))
  ending c ends := by
    obtain ⟨interest, registered⟩ := orderly.ending c ends
    have known := orderly.known (c := c)
      (by rw [Open, registered]; exact fun impossible => nomatch impossible)
    exact ⟨interest, (connections_other s (by omega) _).trans registered⟩
  adding c adds := by
    obtain rfl := adding c adds
    exact connections_self ..
  starting := starting

/-- `add_eool` has registered the connection. -/
theorem Orderly.addEool (orderly : Orderly s)
    (adds : s.main.call = some (.addEool c) ∨ s.thread.call = some (.addEool c))
    (mainCall : main.call = none) (threadCall : thread.call = none)
    (starting : main = .create → thread = .notCreated) :
    Orderly { s.setConnection c (.registered .epollIn) with main := main, thread := thread } := by
  have known := orderly.known (orderly.open_of_adding adds)
  have unended := orderly.not_ending (c := c) fun interest registered => by
    rw [orderly.adding c adds] at registered
    exact nomatch registered
  refine ⟨fun d beyond => ?_, fun d ends => ?_, fun d adds' => ?_, fun connects => ?_⟩
  · have after : s.next ≤ d := beyond
    exact (connections_other s (by omega) _).trans (orderly.fresh d after)
  · obtain ⟨interest, registered⟩ := orderly.ending d ends
    refine ⟨interest, (connections_other s ?_ _).trans registered⟩
    rintro rfl
    exact unended ends
  · rw [mainCall, threadCall] at adds'
    exact adds'.elim (fun impossible => nomatch impossible) fun impossible => nomatch impossible
  · exact connects.elim (fun some_ => absurd mainCall some_) starting

/-- Outside `connect_server` and behind the creation of the thread, nothing is left of `start`. -/
theorem not_starting {result : Prop} (idle : main.call = none) (created : main ≠ .create)
    (starts : main.call ≠ none ∨ main = .create) : result :=
  starts.elim (absurd idle) (absurd · created)

/-- The main thread or the thread `re_connect` goes on without touching a connection. -/
theorem Orderly.turn (orderly : Orderly s) (reConnect : Bool)
    (mainCall : main.call = none ∨ main = s.main)
    (threadCall : ∀ c, thread.call = some (.addEool c) → s.thread.call = some (.addEool c))
    (starting : main.call ≠ none ∨ main = .create → thread = .notCreated) :
    Orderly { s with reConnect := reConnect, main := main, thread := thread } := by
  refine ⟨orderly.fresh, orderly.ending, fun c adds => ?_, starting⟩
  refine orderly.adding c (adds.imp (fun addsMain => ?_) (threadCall c))
  rcases mainCall with none_ | rfl
  · rw [none_] at addsMain
    exact nomatch addsMain
  · exact addsMain

end Connections

theorem Orderly.notify (orderly : Orderly s) {main : MainThread}
    (mainCall : main.call = none ∨ main = s.main)
    (starting : main.call ≠ none ∨ main = .create → s.thread = .notCreated) :
    Orderly { s.notify with main := main } := by
  refine orderly.turn s.reConnect mainCall (fun c adds => (call_notify s).symm.trans adds)
    fun starts => ?_
  rw [VnpClient.notify, starting starts]
  rfl

/-- Only `start` calls `connect_server` before the thread exists. -/
theorem Orderly.main_idle (orderly : Orderly s) (created : s.thread ≠ .notCreated) :
    s.main.call = none ∧ s.main ≠ .create := by
  refine ⟨?_, fun creates => created (orderly.starting (Or.inr creates))⟩
  by_contra connects
  exact created (orderly.starting (Or.inl connects))

theorem Orderly.advanceMain (orderly : Orderly s) (accepted : Bool) :
    Orderly (s.advanceMain accepted) := by
  rw [VnpClient.advanceMain]
  cases main : s.main with
  | connectServer call =>
    have notCreated : s.thread = .notCreated :=
      orderly.starting (Or.inl (by rw [main]; exact Option.some_ne_none _))
    have noCall : s.thread.call = none := by rw [notCreated]; rfl
    cases call with
    | connect =>
      cases accepted with
      | false =>
        change Orderly { s with main := .connectServer .connect }
        rw [← main]
        exact orderly
      | true =>
        refine orderly.connect (fun c adds => ?_) fun _ => notCreated
        rcases adds with own | other
        · cases own
          rfl
        · exact nomatch noCall.symm.trans other
    | addEool c => exact orderly.addEool (Or.inl (by rw [main]; rfl)) rfl noCall fun _ => notCreated
  | create =>
    exact orderly.turn s.reConnect (Or.inl rfl) (fun c adds => (nomatch adds))
      (not_starting rfl (by decide))
  | started => exact orderly
  | notifyAll =>
    exact orderly.notify (Or.inl rfl) (not_starting rfl (by decide))
  | join =>
    dsimp only
    split_ifs
    · exact orderly.turn s.reConnect (Or.inl rfl) (fun _ adds => adds) (not_starting rfl (by decide))
    · exact orderly
  | joined => exact orderly

theorem Orderly.advanceReConnect (orderly : Orderly s) (accepted : Bool) :
    Orderly (s.advanceReConnect accepted) := by
  by_cases notCreated : s.thread = .notCreated
  · rw [VnpClient.advanceReConnect, notCreated]
    exact orderly
  obtain ⟨mainCall, created⟩ := orderly.main_idle notCreated
  have starting : ∀ thread : ReConnectThread,
      s.main.call ≠ none ∨ s.main = .create → thread = .notCreated :=
    fun _ => not_starting mainCall created
  have turns : ∀ {thread : ReConnectThread}, thread.call = none ∨ thread.call = some .connect →
      Orderly { s with thread := thread } := by
    intro thread idle
    refine orderly.turn s.reConnect (Or.inr rfl) (fun c adds => ?_) (starting thread)
    rcases idle with none_ | connects
    · rw [none_] at adds
      exact nomatch adds
    · rw [connects] at adds
      exact nomatch Option.some.inj adds
  rw [VnpClient.advanceReConnect]
  cases thread : s.thread with
  | notCreated => exact absurd thread notCreated
  | test => exact turns (Or.inl (by split_ifs <;> rfl))
  | lock => exact turns (Or.inl rfl)
  | wait => exact orderly
  | woken => exact turns (Or.inr rfl)
  | connectServer call =>
    cases call with
    | connect =>
      cases accepted with
      | false => exact turns (Or.inr rfl)
      | true =>
        refine orderly.connect (fun c adds => ?_) (starting _)
        rcases adds with other | own
        · exact nomatch mainCall.symm.trans other
        · cases own
          rfl
    | addEool c =>
      exact orderly.addEool (Or.inr (by rw [thread]; rfl)) mainCall rfl
        fun creates => absurd creates created
  | exited => exact orderly

/-- A registered connection changes its interest. -/
theorem Orderly.schedule (orderly : Orderly s) (c : ℕ) : Orderly (s.schedule c) := by
  rw [VnpClient.schedule]
  cases connection : s.connections c with
  | closed => exact orderly
  | connected => exact orderly
  | registered interest =>
    have known := orderly.known (c := c)
      (by rw [Open, connection]; exact fun impossible => nomatch impossible)
    refine ⟨fun d beyond => ?_, fun d ends => ?_, fun d adds => ?_, orderly.starting⟩
    · have after : s.next ≤ d := beyond
      exact (connections_other s (by omega) _).trans (orderly.fresh d after)
    · rcases eq_or_ne d c with rfl | apart
      · exact ⟨.epollOut, connections_self ..⟩
      · obtain ⟨interest, registered⟩ := orderly.ending d ends
        exact ⟨interest, (connections_other s apart _).trans registered⟩
    · have added := orderly.adding d adds
      refine (connections_other s ?_ _).trans added
      rintro rfl
      exact nomatch connection.symm.trans added

/-- The epoll thread is about to close a connection that is registered. -/
theorem Orderly.ends (orderly : Orderly s) {c : ℕ}
    (registered : ∃ interest, s.connections c = .registered interest) :
    Orderly { s with epoll := .ending c } where
  fresh := orderly.fresh
  ending d ends := by
    cases ends
    exact registered
  adding := orderly.adding
  starting := orderly.starting

theorem Orderly.handle (orderly : Orderly s) {c : ℕ} {event : EpollEvent} (ready : s.Ready c event) :
    Orderly (s.handle c event) := by
  have registered : ∃ interest, s.connections c = .registered interest :=
    ready.imp fun _ interest => interest.1
  cases event with
  | out => exact orderly.ends registered
  | again => exact orderly
  | error => exact orderly.ends registered
  | eof => exact (orderly.notify (Or.inr rfl) orderly.starting).ends registered
  | data bytes result => exact orderly

theorem Orderly.advanceEpoll (orderly : Orderly s) : Orderly s.advanceEpoll := by
  rw [VnpClient.advanceEpoll]
  cases epoll : s.epoll with
  | idle => exact orderly
  | ending c =>
    obtain ⟨interest, registered⟩ := orderly.ending c epoll
    refine ⟨fun d beyond => ?_, fun d ends => (nomatch ends), fun d adds => ?_, orderly.starting⟩
    · rcases eq_or_ne d c with rfl | apart
      · exact connections_self ..
      · exact (connections_other s apart _).trans (orderly.fresh d beyond)
    · have added := orderly.adding d adds
      refine (connections_other s ?_ _).trans added
      rintro rfl
      exact nomatch registered.symm.trans added

theorem Orderly.step {event : ClientEvent} (orderly : Orderly s) (step : Step s event t) : Orderly t := by
  obtain ⟨enabled, rfl⟩ := step
  cases event with
  | main accepted => exact orderly.advanceMain accepted
  | stop =>
    exact orderly.turn false (Or.inl rfl) (fun _ adds => adds) (not_starting rfl (by decide))
  | reConnect accepted => exact orderly.advanceReConnect accepted
  | wake =>
    have waits : s.thread = .wait := enabled
    have created : s.thread ≠ .notCreated := by rw [waits]; decide
    obtain ⟨mainCall, created⟩ := orderly.main_idle created
    exact orderly.turn s.reConnect (Or.inr rfl) (fun _ adds => (nomatch adds))
      (not_starting mainCall created)
  | schedule c => exact orderly.schedule c
  | ready c event => exact orderly.handle enabled.2
  | epoll => exact orderly.advanceEpoll

theorem Attended.persists (attended : Attended s) (reConnect : t.reConnect = true → s.reConnect = true)
    (woken : s.thread = .woken → t.thread = .woken) (connecting : s.Connecting → t.Connecting)
    (opens : ∀ c, s.Open c → s.epoll ≠ .ending c → t.Open c ∧ t.epoll ≠ .ending c) : Attended t := by
  intro runs
  rcases attended (reConnect runs) with isWoken | isConnecting | ⟨c, isOpen, unended⟩
  · exact Or.inl (woken isWoken)
  · exact Or.inr (Or.inl (connecting isConnecting))
  · exact Or.inr (Or.inr ⟨c, opens c isOpen unended⟩)

/-- A thread that is neither woken nor connecting may go on. -/
theorem Attended.thread_idle (attended : Attended s) (notWoken : s.thread ≠ .woken)
    (noCall : s.thread.call = none) (thread : ReConnectThread) :
    Attended { s with thread := thread } :=
  attended.persists id (fun woken => absurd woken notWoken)
    (fun connecting => connecting.elim Or.inl fun some_ => absurd noCall some_)
    fun _ isOpen unended => ⟨isOpen, unended⟩

/-- The main thread may go on outside `connect_server`. -/
theorem Attended.main_idle (attended : Attended s) (noCall : s.main.call = none) (main : MainThread) :
    Attended { s with main := main } :=
  attended.persists id id (fun connecting => Or.inr (connecting.resolve_left fun some_ => some_ noCall))
    fun _ isOpen unended => ⟨isOpen, unended⟩

theorem Attended.notify (attended : Attended s) : Attended s.notify := by
  refine attended.persists id (fun woken => ?_) (fun connecting => ?_) fun _ isOpen unended =>
    ⟨isOpen, unended⟩
  · rw [VnpClient.notify, woken]
    rfl
  · rw [Connecting, call_notify]
    exact connecting

/-- The connection that `add_eool` has registered is open. -/
theorem Orderly.attended_addEool (orderly : Orderly s) {c : ℕ} {main : MainThread}
    {thread : ReConnectThread}
    (adds : s.main.call = some (.addEool c) ∨ s.thread.call = some (.addEool c)) :
    Attended { s.setConnection c (.registered .epollIn) with main := main, thread := thread } := by
  refine fun _ => Or.inr (Or.inr ⟨c, ?_, ?_⟩)
  · intro closed
    exact nomatch (connections_self s c _).symm.trans closed
  · refine orderly.not_ending fun interest registered => ?_
    exact nomatch (orderly.adding c adds).symm.trans registered

theorem Attended.advanceMain (attended : Attended s) (orderly : Orderly s) (accepted : Bool) :
    Attended (s.advanceMain accepted) := by
  rw [VnpClient.advanceMain]
  cases main : s.main with
  | connectServer call =>
    cases call with
    | connect => cases accepted <;> exact fun _ => Or.inr (Or.inl (Or.inl (Option.some_ne_none _)))
    | addEool c => exact orderly.attended_addEool (Or.inl (by rw [main]; rfl))
  | create =>
    have notCreated := orderly.starting (Or.inr main)
    refine (attended.thread_idle (by rw [notCreated]; decide) (by rw [notCreated]; rfl)
      .test).main_idle ?_ .started
    exact congrArg MainThread.call main
  | started => exact attended
  | notifyAll => exact attended.notify.main_idle (congrArg MainThread.call main) .join
  | join =>
    dsimp only
    split_ifs
    · exact attended.main_idle (congrArg MainThread.call main) .joined
    · exact attended
  | joined => exact attended

theorem Attended.advanceReConnect (attended : Attended s) (orderly : Orderly s) (accepted : Bool) :
    Attended (s.advanceReConnect accepted) := by
  rw [VnpClient.advanceReConnect]
  cases thread : s.thread with
  | notCreated => exact attended
  | test => exact attended.thread_idle (by rw [thread]; decide) (by rw [thread]; rfl) _
  | lock => exact attended.thread_idle (by rw [thread]; decide) (by rw [thread]; rfl) _
  | wait => exact attended
  | woken => exact fun _ => Or.inr (Or.inl (Or.inr (Option.some_ne_none _)))
  | connectServer call =>
    cases call with
    | connect => cases accepted <;> exact fun _ => Or.inr (Or.inl (Or.inr (Option.some_ne_none _)))
    | addEool c => exact orderly.attended_addEool (Or.inr (by rw [thread]; rfl))
  | exited => exact attended

theorem Attended.schedule (attended : Attended s) (c : ℕ) : Attended (s.schedule c) := by
  rw [VnpClient.schedule]
  cases s.connections c with
  | closed => exact attended
  | connected => exact attended
  | registered interest =>
    refine attended.persists id id id fun d isOpen unended => ⟨?_, unended⟩
    rcases eq_or_ne d c with rfl | apart
    · rw [Open, connections_self]
      exact fun impossible => nomatch impossible
    · rw [Open, connections_other s apart]
      exact isOpen

/-- A connection that is replaced may end. -/
theorem Replaced.attended {c : ℕ} (replaced : s.reConnect = true → s.Replaced c) :
    Attended { s with epoll := .ending c } := by
  intro runs
  rcases replaced runs with woken | connecting | ⟨d, apart, isOpen⟩
  · exact Or.inl woken
  · exact Or.inr (Or.inl connecting)
  · refine Or.inr (Or.inr ⟨d, isOpen, ?_⟩)
    rintro ⟨⟩
    exact apart rfl

theorem Attended.handle (attended : Attended s) {c : ℕ} {event : EpollEvent}
    (noticed : s.Noticed (.ready c event)) :
    Attended (s.handle c event) := by
  cases event with
  | out => exact Replaced.attended noticed
  | again => exact attended
  | error => exact Replaced.attended noticed
  | eof =>
    refine Replaced.attended (s := s.notify) fun runs => ?_
    rcases noticed runs with waits | woken | connecting | other
    · refine Or.inl ?_
      rw [VnpClient.notify, waits]
      rfl
    · refine Or.inl ?_
      rw [VnpClient.notify, woken]
      rfl
    · refine Or.inr (Or.inl ?_)
      rw [Connecting, call_notify]
      exact connecting
    · exact Or.inr (Or.inr other)
  | data bytes result => exact attended

theorem Attended.advanceEpoll (attended : Attended s) : Attended s.advanceEpoll := by
  rw [VnpClient.advanceEpoll]
  cases epoll : s.epoll with
  | idle => exact attended
  | ending c =>
    refine attended.persists id id id fun d isOpen unended => ⟨?_, fun impossible => nomatch impossible⟩
    have apart : d ≠ c := by
      rintro rfl
      exact unended epoll
    exact fun closed => isOpen ((connections_other s apart _).symm.trans closed)

theorem Attended.step {event : ClientEvent} (attended : Attended s) (orderly : Orderly s)
    (step : NoticedStep s event t) :
    Attended t := by
  obtain ⟨⟨enabled, rfl⟩, noticed⟩ := step
  cases event with
  | main accepted => exact attended.advanceMain orderly accepted
  | stop => exact fun runs => nomatch runs
  | reConnect accepted => exact attended.advanceReConnect orderly accepted
  | wake => exact fun _ => Or.inl rfl
  | schedule c => exact attended.schedule c
  | ready c event => exact attended.handle noticed
  | epoll => exact attended.advanceEpoll

/-- In every run in which each end of a control connection is noticed, the client never waits for ever
without a connection. -/
theorem never_stuck {events : List ClientEvent} (run : Run NoticedStep initial events s) : ¬ s.Stuck := by
  have both : Orderly s ∧ Attended s := run.invariant_with Orderly Attended
    (fun _ _ _ orderly step => orderly.step step.1)
    (fun _ _ _ orderly attended step => attended.step orderly step)
    orderly_initial attended_initial
  rintro ⟨runs, waits, idle, closed⟩
  rcases both.2 runs with woken | connecting | ⟨c, isOpen, _⟩
  · exact nomatch waits.symm.trans woken
  · exact idle connecting
  · exact closed c isOpen

/-- The client connects, the thread waits, and the connection ends in this way. -/
def endsBy (event : EpollEvent) : List ClientEvent :=
  [.main true, .main false, .main false, .reConnect false, .reConnect false, .ready 0 event, .epoll]

theorem eof_not_stuck : ¬ ((endsBy .eof).foldl apply initial).Stuck := by
  have ready : (((endsBy .eof).take 5).foldl apply initial).Ready 0 .eof :=
    ⟨.epollIn, by decide +kernel, fun impossible => nomatch impossible⟩
  have replays : Run.Replays (fun s event => s.Enabled event ∧ s.Noticed event) apply initial
    (endsBy .eof) :=
    ⟨⟨trivial, trivial⟩, ⟨trivial, trivial⟩, ⟨trivial, trivial⟩, ⟨trivial, trivial⟩, ⟨trivial, trivial⟩,
      ⟨⟨by decide +kernel, ready⟩, fun _ => Or.inl (by decide +kernel)⟩, ⟨trivial, trivial⟩, trivial⟩
  exact never_stuck (Run.of_replays_guarded _ _ replays)

/-- The server resets the only connection: nobody wakes the thread. -/
theorem reset_sticks : ¬ ∀ (events : List ClientEvent) (s : VnpClient), Run Step initial events s →
    ¬ s.Stuck := by
  intro claimed
  have ready : (((endsBy .error).take 5).foldl apply initial).Ready 0 .error :=
    ⟨.epollIn, by decide +kernel, fun impossible => nomatch impossible⟩
  have replays : Run.Replays Enabled apply initial (endsBy .error) :=
    ⟨trivial, trivial, trivial, trivial, trivial, ⟨by decide +kernel, ready⟩, trivial, trivial⟩
  have run := Run.of_replays (endsBy .error) initial replays
  have orderly := run.invariant Orderly (fun _ _ _ orderly step => orderly.step step) orderly_initial
  refine claimed _ _ run ⟨by decide +kernel, by decide +kernel, ?_, fun c isOpen => ?_⟩
  · rintro (main | thread)
    · exact main (by decide +kernel)
    · exact thread (by decide +kernel)
  · have known : c < 1 := orderly.known isOpen
    obtain rfl : c = 0 := by omega
    exact isOpen (by decide +kernel)

end VnpClient

end LinuxZero.Vpn
