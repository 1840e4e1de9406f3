import Mathlib.Data.List.Basic

/-! # The callbacks of a connection

`socket_event` is what a server calls on its handler. What the handler of one connection may rely on
is an order: it is connected, then data comes in, then the connection ends in one of two ways.
-/

namespace LinuxZero

/-- The functions of `socket_event`. -/
inductive Callback where
  | onAccept
  | onConnected
  | onDisconnected
  | onADisconnected
  | onRecvData
deriving DecidableEq, Repr

/-- One call: for which `socket_info`, whether that was allocated, and whether the peer had closed
its side. -/
structure CallbackCall where
  info : ℕ
  callback : Callback
  live : Bool
  peerClosed : Bool
deriving DecidableEq, Repr

/-- The calls for `p`, in their order. -/
def callsOf (calls : List CallbackCall) (p : ℕ) : List Callback :=
  (calls.filter fun call => call.info = p).map CallbackCall.callback

def Callback.Ends (callback : Callback) : Prop := callback = .onDisconnected ∨ callback = .onADisconnected

instance (callback : Callback) : Decidable callback.Ends := inferInstanceAs (Decidable (_ ∨ _))

/-- A prefix of: one `on_connected`, any number of `on_recv_data`, one of the two ends. -/
def FollowsProtocol (calls : List Callback) : Prop :=
  ∃ n last, Callback.Ends last ∧ calls <+: .onConnected :: (List.replicate n .onRecvData ++ [last])

/-- How far the calls of a connection have come. -/
inductive CallbackPhase where
  | fresh
  | connected
  | ended
deriving DecidableEq, Repr

/-- The calls that lead to a phase. -/
inductive Spoken : List Callback → CallbackPhase → Prop
  | fresh : Spoken [] .fresh
  | connect : Spoken [.onConnected] .connected
  | data {calls : List Callback} (before : Spoken calls .connected) :
      Spoken (calls ++ [.onRecvData]) .connected
  | ends {calls : List Callback} {last : Callback} (before : Spoken calls .connected)
      (isEnd : last.Ends) :
      Spoken (calls ++ [last]) .ended

section Calls

variable (calls : List CallbackCall) (p : ℕ)

theorem callsOf_append (more : List CallbackCall) : callsOf (calls ++ more) p = callsOf calls p ++
    callsOf more p := by
  rw [callsOf, List.filter_append, List.map_append]
  rfl

theorem callsOf_self (callback : Callback) (live peerClosed : Bool) :
    callsOf (calls ++ [⟨p, callback, live, peerClosed⟩]) p = callsOf calls p ++ [callback] := by
  rw [callsOf_append]
  simp [callsOf]

theorem callsOf_other {call : CallbackCall} (apart : p ≠ call.info) :
    callsOf (calls ++ [call]) p = callsOf calls p := by
  rw [callsOf_append]
  simp [callsOf, apart.symm]

/-- The same call for each of several connections. -/
theorem callsOf_each (ps : List ℕ) (distinct : ps.Nodup) (callback : Callback)
    (live peerClosed : ℕ → Bool) :
    callsOf (calls ++ ps.map fun q => ⟨q, callback, live q, peerClosed q⟩) p =
      callsOf calls p ++ if p ∈ ps then [callback] else [] := by
  rw [callsOf_append]
  congr 1
  induction ps with
  | nil => rfl
  | cons q rest ih =>
    obtain ⟨absent, distinct⟩ := List.nodup_cons.mp distinct
    have tail := ih distinct
    rcases eq_or_ne p q with rfl | apart
    · rw [if_neg absent] at tail
      rw [List.map_cons, ← List.singleton_append, callsOf_append, tail]
      simp [callsOf]
    · rw [List.map_cons, ← List.singleton_append, callsOf_append, tail]
      simp [callsOf, apart, apart.symm]

end Calls

namespace Spoken

variable {calls : List Callback} {phase : CallbackPhase}

theorem of_connected (spoken : Spoken calls .connected) :
    ∃ n, calls = .onConnected :: List.replicate n .onRecvData := by
  generalize isConnected : CallbackPhase.connected = phase at spoken
  induction spoken with
  | fresh => contradiction
  | connect => exact ⟨0, rfl⟩
  | data before ih =>
    obtain ⟨n, rfl⟩ := ih rfl
    exact ⟨n + 1, by rw [List.replicate_succ', List.cons_append]⟩
  | ends => contradiction

theorem follows (spoken : Spoken calls phase) : FollowsProtocol calls := by
  cases spoken with
  | fresh => exact ⟨0, .onDisconnected, Or.inl rfl, List.nil_prefix⟩
  | connect => exact ⟨0, .onDisconnected, Or.inl rfl, [.onDisconnected], rfl⟩
  | @data calls before =>
    obtain ⟨n, rfl⟩ := before.of_connected
    refine ⟨n + 1, .onDisconnected, Or.inl rfl, [.onDisconnected], ?_⟩
    rw [List.replicate_succ', List.cons_append, List.cons_append]
  | @ends calls last before isEnd =>
    obtain ⟨n, rfl⟩ := before.of_connected
    exact ⟨n, last, isEnd, List.prefix_rfl⟩

/-- A connection that the handler knows and that has not ended. -/
theorem connected_of (spoken : Spoken calls phase) (known : .onConnected ∈ calls)
    (notEnded : ∀ last ∈ calls, ¬ Callback.Ends last) : Spoken calls .connected := by
  cases spoken with
  | fresh => exact absurd known List.not_mem_nil
  | connect => exact .connect
  | data before => exact .data before
  | ends before isEnd => exact absurd isEnd (notEnded _ (by simp))

end Spoken

end LinuxZero
