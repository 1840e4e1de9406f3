import Mathlib.Data.List.Basic

/-! # Runs of a labelled step relation

A run is a sequence of events together with the state that it leads to. What holds at the start and
is kept by every step holds after every run, and a property of runs may depend on the events so far.
-/

namespace LinuxZero

variable {σ ε : Type*}

inductive Run (step : σ → ε → σ → Prop) (s : σ) : List ε → σ → Prop
  | start : Run step s [] s
  | next {events : List ε} {event : ε} {t u : σ} (run : Run step s events t) (last : step t event u) :
      Run step s (events ++ [event]) u

namespace Run

variable {step : σ → ε → σ → Prop} {s t : σ} {events : List ε}

/-- The induction over a run, with the events seen so far. -/
theorem history (Inv : List ε → σ → Prop)
    (keeps : ∀ events t event u, Inv events t → step t event u → Inv (events ++ [event]) u)
    (start : Inv [] s) (run : Run step s events t) : Inv events t := by
  induction run with
  | start => exact start
  | next _ last ih => exact keeps _ _ _ _ ih last

theorem invariant (Inv : σ → Prop) (keeps : ∀ t event u, Inv t → step t event u → Inv u)
    (start : Inv s) (run : Run step s events t) : Inv t :=
  run.history (fun _ => Inv) (fun _ t event u => keeps t event u) start

/-- A step that keeps an invariant may use another invariant of the same runs. -/
theorem invariant_with (Known Inv : σ → Prop) (known : ∀ t event u, Known t → step t event u → Known u)
    (keeps : ∀ t event u, Known t → Inv t → step t event u → Inv u) (startKnown : Known s) (start : Inv s)
    (run : Run step s events t) : Known t ∧ Inv t :=
  run.invariant (fun t => Known t ∧ Inv t) (fun t event u both last =>
    ⟨known t event u both.1 last, keeps t event u both.1 both.2 last⟩) ⟨startKnown, start⟩

/-- Runs of a narrower step relation are runs of the wider one. -/
theorem mono {wider : σ → ε → σ → Prop} (weaken : ∀ t event u, step t event u → wider t event u)
    (run : Run step s events t) : Run wider s events t := by
  induction run with
  | start => exact .start
  | next _ last ih => exact .next ih (weaken _ _ _ last)

theorem cons {event : ε} {u : σ} (first : step s event t) (run : Run step t events u) :
    Run step s (event :: events) u := by
  induction run with
  | start => exact .next .start first
  | next _ last ih => exact .next ih last

theorem append {later : List ε} {u : σ} (run : Run step s events t) (last : Run step t later u) :
    Run step s (events ++ later) u := by
  induction last with
  | start => rwa [List.append_nil]
  | next _ last ih => exact List.append_assoc .. ▸ .next ih last

/-- Each event of the list is enabled in the state that its predecessors lead to. -/
def Replays (enabled : σ → ε → Prop) (apply : σ → ε → σ) : σ → List ε → Prop
  | _, [] => True
  | s, event :: rest => enabled s event ∧ Replays enabled apply (apply s event) rest

instance decidableReplays (enabled : σ → ε → Prop) (apply : σ → ε → σ)
    [∀ s event, Decidable (enabled s event)] :
    (events : List ε) → (s : σ) → Decidable (Replays enabled apply s events)
  | [], _ => .isTrue trivial
  | event :: rest, s =>
    have := decidableReplays enabled apply rest (apply s event)
    inferInstanceAs (Decidable (_ ∧ _))

/-- Enabled events applied one after the other are a run. -/
theorem of_replays {enabled : σ → ε → Prop} {apply : σ → ε → σ} (events : List ε) (s : σ)
    (replays : Replays enabled apply s events) :
    Run (fun s event t => enabled s event ∧ t = apply s event) s events (events.foldl apply s) := by
  induction events generalizing s with
  | nil => exact .start
  | cons event rest ih => exact .cons ⟨replays.1, rfl⟩ (ih _ replays.2)

/-- The same for runs in which every event meets a condition. -/
theorem of_replays_guarded {enabled guard : σ → ε → Prop} {apply : σ → ε → σ} (events : List ε) (s : σ)
    (replays : Replays (fun s event => enabled s event ∧ guard s event) apply s events) :
    Run (fun s event t => (enabled s event ∧ t = apply s event) ∧ guard s event) s events
      (events.foldl apply s) :=
  (of_replays events s replays).mono fun _ _ _ step => ⟨⟨step.1.1, step.2⟩, step.1.2⟩

end Run

end LinuxZero
