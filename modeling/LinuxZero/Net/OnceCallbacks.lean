import LinuxZero.Net.SocketClientOnce

/-! # The callbacks of the client of one connection

`connect` calls `on_connected` before it registers the descriptor. If that fails it closes the
connection without calling either end, and the retry announces the next one. As long as the
registration succeeds, every announced connection is ended once before the next one, and nothing is
delivered in between.
-/

namespace LinuxZero

namespace OnceCall

/-- One of the two ends of a connection. -/
def Ends (call : OnceCall) : Prop := call = .onDisconnected ∨ call = .onADisconnected

instance (call : OnceCall) : Decidable call.Ends := inferInstanceAs (Decidable (_ ∨ _))

/-- `on_connected` or an end. -/
def Turns (call : OnceCall) : Prop := call = .onConnected ∨ call.Ends

instance (call : OnceCall) : Decidable call.Turns := inferInstanceAs (Decidable (_ ∨ _))

end OnceCall

open OnceCall

/-- The last `on_connected` or end was an `on_connected`. -/
def LastConnected (calls : List OnceCall) : Prop := (calls.filter (Turns ·)).getLast? = some .onConnected

instance (calls : List OnceCall) : Decidable (LastConnected calls) := inferInstanceAs (Decidable (_ = _))

/-- Connections are announced and ended in turn, and nothing else is delivered outside of one. -/
structure Alternate (calls : List OnceCall) : Prop where
  /-- Between two `on_connected` there is exactly one end. -/
  between : ∀ before middle after, calls = before ++ .onConnected :: (middle ++ .onConnected :: after) →
    .onConnected ∉ middle → (middle.filter (Ends ·)).length = 1
  /-- Every other call is made while the last of these was `on_connected`. -/
  served : ∀ before call after, calls = before ++ call :: after → call ≠ .onConnected →
    LastConnected before

section Calls

variable {calls : List OnceCall} {call : OnceCall}

theorem not_lastConnected_nil : ¬ LastConnected [] := by
  rintro ⟨⟩

theorem lastConnected_connected (calls : List OnceCall) : LastConnected (calls ++ [.onConnected]) := by
  simp [LastConnected, List.filter_append, Turns]

theorem not_lastConnected_end (calls : List OnceCall) (ends : call.Ends) :
    ¬ LastConnected (calls ++ [call]) := by
  have turns : call.Turns := Or.inr ends
  rw [LastConnected, List.filter_append, List.filter_cons_of_pos (by simpa using turns)]
  rcases ends with rfl | rfl <;> simp

theorem lastConnected_other (calls : List OnceCall) (neither : ¬ call.Turns) :
    LastConnected (calls ++ [call]) ↔ LastConnected calls := by
  rw [LastConnected, List.filter_append, List.filter_cons_of_neg (by simpa using neither),
    List.filter_nil, List.append_nil, LastConnected]

/-- Calls that neither connect nor end leave the last turn as it was. -/
theorem lastConnected_append (calls more : List OnceCall) (none_ : ∀ call ∈ more, ¬ call.Turns) :
    LastConnected (calls ++ more) ↔ LastConnected calls := by
  have filtered : more.filter (Turns ·) = [] := by
    simpa [List.filter_eq_nil_iff] using none_
  rw [LastConnected, List.filter_append, filtered, List.append_nil, LastConnected]

/-- Behind an `on_connected`, up to a moment at which the connection has ended, there is one end. -/
theorem Alternate.one_end (alternate : Alternate calls) {before middle : List OnceCall}
    (same : calls = before ++ .onConnected :: middle) (first : .onConnected ∉ middle)
    (ended : ¬ LastConnected calls) : (middle.filter (Ends ·)).length = 1 := by
  have turns : ∀ call ∈ middle, call.Turns → call.Ends := by
    intro call member turn
    rcases turn with rfl | ends
    · exact absurd member first
    · exact ends
  cases ends : middle.filter (Ends ·) with
  | nil =>
    have none_ : ∀ call ∈ middle, ¬ call.Turns := by
      intro call member turn
      have absent := List.filter_eq_nil_iff.mp ends call member
      simp [turns call member turn] at absent
    have up := (lastConnected_append (before ++ [.onConnected]) middle none_).mpr
      (lastConnected_connected before)
    rw [List.append_assoc, List.singleton_append, ← same] at up
    exact absurd up ended
  | cons last rest =>
    cases rest with
    | nil => rfl
    | cons second more =>
      -- a second end would have come while the connection was already ended
      obtain ⟨front, back, rfl, _, isEnd, tail⟩ := List.filter_eq_cons_iff.mp ends
      obtain ⟨inner, back', rfl, quiet, isEnd', _⟩ := List.filter_eq_cons_iff.mp tail
      have notConnected : second ≠ .onConnected := by
        rintro rfl
        simp [Ends] at isEnd'
      have up := alternate.served (before ++ .onConnected :: (front ++ last :: inner)) second back'
        (by rw [same]; simp) notConnected
      have down := not_lastConnected_end (before ++ .onConnected :: front)
        (by simpa using isEnd : last.Ends)
      have none_ : ∀ call ∈ inner, ¬ call.Turns := by
        intro call member turn
        have absent := quiet call member
        simp [turns call (by simp [member]) turn] at absent
      rw [← lastConnected_append _ inner none_] at down
      exact absurd (by simpa using up) down

/-- A connection is announced when none is open. -/
theorem Alternate.connected (alternate : Alternate calls) (ended : ¬ LastConnected calls) :
    Alternate (calls ++ [.onConnected]) where
  between before middle after same first := by
    rcases List.eq_nil_or_concat after with rfl | ⟨after, last, rfl⟩
    · have whole : calls = before ++ .onConnected :: middle := by
        have joined : calls ++ [.onConnected] = (before ++ .onConnected :: middle) ++ [.onConnected] := by
          rw [same]
          simp
        exact List.append_cancel_right joined
      exact alternate.one_end whole first ended
    · have joined : calls ++ [.onConnected] =
        (before ++ .onConnected :: (middle ++ .onConnected :: after)) ++ [last] := by
        rw [same]
        simp
      exact alternate.between before middle after (List.append_inj_left' joined rfl) first
  served before call after same other := by
    rcases List.eq_nil_or_concat after with rfl | ⟨after, last, rfl⟩
    · obtain ⟨_, last⟩ := List.append_inj' same rfl
      exact absurd (List.cons.inj last).1.symm other
    · have joined : calls ++ [.onConnected] = (before ++ call :: after) ++ [last] := by
        rw [same]
        simp
      exact alternate.served before call after (List.append_inj_left' joined rfl) other

/-- Anything else is delivered while a connection is open. -/
theorem Alternate.other (alternate : Alternate calls) (other : call ≠ .onConnected)
    (up : LastConnected calls) :
    Alternate (calls ++ [call]) where
  between before middle after same first := by
    rcases List.eq_nil_or_concat after with rfl | ⟨after, last, rfl⟩
    · have joined : calls ++ [call] = (before ++ .onConnected :: middle) ++ [.onConnected] := by
        rw [same]
        simp
      exact absurd (List.cons.inj (List.append_inj_right' joined rfl)).1 other
    · have joined : calls ++ [call] =
        (before ++ .onConnected :: (middle ++ .onConnected :: after)) ++ [last] := by
        rw [same]
        simp
      exact alternate.between before middle after (List.append_inj_left' joined rfl) first
  served before call' after same other' := by
    rcases List.eq_nil_or_concat after with rfl | ⟨after, last, rfl⟩
    · rw [← List.append_inj_left' same rfl]
      exact up
    · have joined : calls ++ [call] = (before ++ call' :: after) ++ [last] := by
        rw [same]
        simp
      exact alternate.served before call' after (List.append_inj_left' joined rfl) other'

theorem alternate_nil : Alternate [] where
  between before middle after same := by simp at same
  served before call after same := by simp at same

end Calls

namespace SocketClientOnce

variable {ρ : Type} {s t : SocketClientOnce ρ} {event : SocketClientOnceEvent}

/-- A connection that was announced is registered. -/
def Registers (s : SocketClientOnce ρ) : SocketClientOnceEvent → Prop
  | .connect answers => s.Connects answers → answers.add = true
  | _ => True

def RegistersStep (s : SocketClientOnce ρ) (event : SocketClientOnceEvent)
    (t : SocketClientOnce ρ) : Prop :=
  Step s event t ∧ s.Registers event

/-- Where the thread is says whether a connection is open for the handler. -/
def Agrees (s : SocketClientOnce ρ) : Prop :=
  match s.phase with
  | .loopConnect _ | .connect _ | .sleep _ _ | .ended => ¬ LastConnected s.calls
  | .test => LastConnected s.calls ∨ s.epollRun = false
  | .poll => LastConnected s.calls
  | .exited => True

/-- The calls alternate, and the thread is where the last of them says. -/
structure InTurn (s : SocketClientOnce ρ) : Prop where
  alternate : Alternate s.calls
  agrees : Agrees s

theorem inTurn_initial (kernel : Kernel Unit) (epfd : ℤ) (available : kernel.Available epfd)
    (localIp : Bool) (autoReconnectS : ℤ) :
    InTurn (initial kernel epfd available localIp autoReconnectS : SocketClientOnce ρ) :=
  ⟨alternate_nil, not_lastConnected_nil⟩

theorem InTurn.advance (inTurn : InTurn s) : InTurn s.advance := by
  have agrees := inTurn.agrees
  unfold SocketClientOnce.advance
  cases phase : s.phase with
  | loopConnect interval =>
    simp only [Agrees, phase] at agrees
    cases running : s.epollRun with
    | true => exact ⟨inTurn.alternate, agrees⟩
    | false => exact ⟨inTurn.alternate, Or.inr rfl⟩
  | connect interval => exact inTurn
  | sleep interval elapsed =>
    simp only [Agrees, phase] at agrees
    dsimp only
    split_ifs <;> exact ⟨inTurn.alternate, agrees⟩
  | test =>
    simp only [Agrees, phase] at agrees
    dsimp only
    split_ifs with running
    · exact ⟨inTurn.alternate, agrees.resolve_right (by simp [running])⟩
    · exact ⟨inTurn.alternate, trivial⟩
  | poll => exact inTurn
  | ended =>
    simp only [Agrees, phase] at agrees
    dsimp only
    split_ifs
    · exact ⟨inTurn.alternate, agrees⟩
    · exact ⟨inTurn.alternate, Or.inr rfl⟩
  | exited => exact inTurn

/-- The handler is told the end of the connection. -/
theorem InTurn.endConnection (inTurn : InTurn s) (phase : s.phase = .poll) {call : OnceCall}
    (ends : call.Ends) :
    InTurn (s.call call).endConnection := by
  have up : LastConnected s.calls := by simpa only [Agrees, phase] using inTurn.agrees
  have other : call ≠ .onConnected := by
    rintro rfl
    exact absurd ends (by decide)
  exact ⟨inTurn.alternate.other other up, not_lastConnected_end s.calls ends⟩

/-- The handler is called while the connection stays. -/
theorem InTurn.delivered (inTurn : InTurn s) (phase : s.phase = .poll) (call : OnceCall)
    (neither : ¬ call.Turns) (calls : t.calls = s.calls ++ [call]) (test : t.phase = .test) :
    InTurn t := by
  have up : LastConnected s.calls := by simpa only [Agrees, phase] using inTurn.agrees
  refine ⟨calls ▸ inTurn.alternate.other ?_ up, ?_⟩
  · rintro rfl
    exact neither (Or.inl rfl)
  · simp only [Agrees, test, calls]
    exact Or.inl ((lastConnected_other s.calls neither).mpr up)

theorem InTurn.step (inTurn : InTurn s) (wired : Wired s) (step : RegistersStep s event t) :
    InTurn t := by
  obtain ⟨⟨enabled, rfl⟩, registers⟩ := step
  have agrees := inTurn.agrees
  cases event with
  | thread => exact inTurn.advance
  | connect answers =>
    obtain ⟨interval, phase⟩ := enabled
    simp only [Agrees, phase] at agrees
    simp only [apply, phase]
    rcases wired.loopConnect (by simp [phase]) interval answers with
      ⟨_, kernel, _, result⟩ | ⟨connects, kernel, _, ⟨_, result⟩ | ⟨refused, _⟩⟩
    · rw [result]
      exact ⟨inTurn.alternate, agrees⟩
    · rw [result]
      exact ⟨inTurn.alternate.connected agrees, Or.inl (lastConnected_connected s.calls)⟩
    · exact absurd (refused.symm.trans (registers connects)) Bool.false_ne_true
  | poll result =>
    cases result with
    | failed => exact ⟨inTurn.alternate, trivial⟩
    | timeOut => exact inTurn.delivered enabled .onTimeOut (by decide) rfl rfl
    | ready event =>
      obtain ⟨phase, _⟩ := enabled
      cases event with
      | out => exact inTurn.endConnection phase (by decide)
      | again =>
        simp only [Agrees, phase] at agrees
        exact ⟨inTurn.alternate, Or.inl agrees⟩
      | error => exact inTurn.endConnection phase (by decide)
      | eof => exact inTurn.endConnection phase (by decide)
      | data bytes buff useLen =>
        refine inTurn.delivered phase (.onRecvData (s.info.data.received bytes).content
          ((s.kernel.recv s.info.fd bytes).received s.info.fd)) ?_ rfl rfl
        rintro (impossible | impossible | impossible) <;> contradiction
  | stopRun =>
    refine ⟨inTurn.alternate, ?_⟩
    change Agrees { s with epollRun := false }
    unfold Agrees at agrees ⊢
    dsimp only
    cases phase : s.phase <;> simp only [phase] at agrees ⊢ <;>
      first | exact agrees | exact Or.inr trivial
  | stopReconnect => exact ⟨inTurn.alternate, agrees⟩
  | closeSocket => exact ⟨inTurn.alternate, agrees⟩

/-- If every announced connection is registered, the callbacks alternate. -/
theorem callbacks_alternate (kernel : Kernel Unit) (epfd : ℤ) (available : kernel.Available epfd)
    (localIp : Bool) (autoReconnectS : ℤ) {events : List SocketClientOnceEvent}
    (run : Run RegistersStep (initial kernel epfd available localIp autoReconnectS) events s) :
    Alternate s.calls :=
  (run.invariant_with Wired InTurn (fun _ _ _ wired step => wired.step step.1)
    (fun _ _ _ wired inTurn step => inTurn.step wired step)
    (wired_initial kernel epfd available localIp autoReconnectS)
    (inTurn_initial kernel epfd available localIp autoReconnectS)).2.alternate

/-- A client with the epoll set 3 that tries again after one second. -/
def reconnecting : SocketClientOnce ℕ := initial .empty 3 Kernel.three_available false 1

/-- A connection is served and ended, and the next one is made. -/
def connectTwice : List SocketClientOnceEvent :=
  [.thread, .connect { newSocket := 4 }, .thread, .poll .timeOut, .thread, .poll (.ready .eof),
    .thread, .thread, .connect { newSocket := 4 }]

theorem connectTwice_alternates : Alternate (connectTwice.foldl apply reconnecting).calls := by
  have replays : Run.Replays (fun s event => s.Enabled event ∧ s.Registers event) apply reconnecting
    connectTwice := by
    refine ⟨⟨trivial, trivial⟩, ⟨⟨5, rfl⟩, fun _ => rfl⟩, ⟨trivial, trivial⟩, ⟨rfl, trivial⟩,
      ⟨trivial, trivial⟩, ⟨⟨rfl, .epollIn, by decide +kernel, nofun, trivial⟩, trivial⟩,
      ⟨trivial, trivial⟩, ⟨trivial, trivial⟩, ⟨⟨1, rfl⟩, fun _ => rfl⟩, trivial⟩
  exact callbacks_alternate .empty 3 Kernel.three_available false 1
    (Run.of_replays_guarded connectTwice _ replays)

/-- The registration fails once, and `connect` is called again five seconds later. -/
def addFailsOnce : List SocketClientOnceEvent :=
  [.thread, .connect { newSocket := 4, add := false }] ++ List.replicate 7 .thread ++
    [.connect { newSocket := 4 }]

/-- Two connections are announced, and no end comes in between. -/
theorem announced_twice : ∃ s, Run Step reconnecting addFailsOnce s ∧ ¬ Alternate s.calls := by
  have replays : Run.Replays Enabled apply reconnecting addFailsOnce :=
    ⟨trivial, ⟨5, rfl⟩, trivial, trivial, trivial, trivial, trivial, trivial, trivial, ⟨5, rfl⟩, trivial⟩
  refine ⟨_, Run.of_replays addFailsOnce _ replays, fun alternate => ?_⟩
  have one := alternate.between [] [] [] (by decide +kernel) List.not_mem_nil
  exact absurd one (by decide)

end SocketClientOnce

end LinuxZero
