import LinuxZero.Lib.Computes
import Mathlib.Data.List.Basic

/-! # Programs that record their accesses

A program over a state records an event for each access. Which event is permitted may depend on the events
before it. The rules follow the program: each access needs its own permission, a loop needs one round for
every state of an invariant, and it returns because the same loop without the record does.
-/

namespace LinuxZero

universe u

variable {σ ε α β τ ρ : Type u}

structure Recorded (σ ε : Type u) where
  state : σ
  log : List ε

abbrev Recording (σ ε : Type u) := StateT (Recorded σ ε) Option

namespace Recording

/-- What needs no record. -/
def look (f : σ → α) : Recording σ ε α := fun s => some (f s.state, s)

def access (event : ε) (f : σ → α) : Recording σ ε α :=
  fun s => some (f s.state, ⟨s.state, s.log ++ [event]⟩)

def update (event : ε) (f : σ → σ) : Recording σ ε PUnit :=
  fun s => some (⟨⟩, ⟨f s.state, s.log ++ [event]⟩)

def note (event : ε) : Recording σ ε PUnit := update event id

/-- Another round, or the result; no result when the rounds run out. -/
def loop (body : τ → Recording σ ε (τ ⊕ ρ)) : ℕ → τ → Recording σ ε ρ
  | 0, _ => fun _ => none
  | fuel + 1, x => body x >>= fun
    | .inl next => loop body fuel next
    | .inr result => pure result

end Recording

/-- Every event was permitted after the events before it. -/
inductive Lawful (permits : List ε → ε → Prop) : List ε → Prop
  | nil : Lawful permits []
  | snoc {log : List ε} {event : ε} (lawful : Lawful permits log) (permitted : permits log event) :
      Lawful permits (log ++ [event])

theorem Lawful.permitted {permits : List ε → ε → Prop} {log before after : List ε} {event : ε}
    (lawful : Lawful permits log) (split : log = before ++ event :: after) :
    permits before event := by
  induction lawful generalizing after with
  | nil => exact absurd split.symm (by simp)
  | @snoc log last lawful permitted ih =>
    rcases List.eq_nil_or_concat after with rfl | ⟨rest, final, rfl⟩
    · obtain ⟨rfl, rfl⟩ := List.append_inj' split rfl |>.imp id List.head_eq_of_cons_eq
      exact permitted
    · have shape : before ++ event :: rest.concat final = (before ++ event :: rest) ++ [final] := by simp
      exact ih (List.append_inj' (split.trans shape) rfl).1

/-- After any lawful log that has the facts in it the program returns the value in the new state, and its own events
are lawful. -/
def Performs (permits : List ε → ε → Prop) (facts : List ε) (s : σ) (program : Recording σ ε α)
    (value : α) (s' : σ) : Prop :=
  ∀ log, Lawful permits log → facts ⊆ log →
    ∃ more, program ⟨s, log⟩ = some (value, ⟨s', log ++ more⟩) ∧ Lawful permits (log ++ more)

/-- The same with enough rounds for the loops. -/
def Completes (permits : List ε → ε → Prop) (facts : List ε) (s : σ) (program : ℕ → Recording σ ε α)
    (value : α) (s' : σ) :
    Prop :=
  ∀ log, Lawful permits log → facts ⊆ log →
    ∃ more, Computes (fun fuel => program fuel ⟨s, log⟩) (value, ⟨s', log ++ more⟩) ∧
    Lawful permits (log ++ more)

namespace Performs

variable {permits : List ε → ε → Prop} {facts : List ε} {s s' s'' : σ} {program : Recording σ ε α}
  {value : α} {result : β}
  {next : α → Recording σ ε β}

theorem pure (value : α) : Performs permits facts s (Pure.pure value : Recording σ ε α) value s :=
  fun log lawful _ =>
  ⟨[], by rw [List.append_nil]; rfl, by rwa [List.append_nil]⟩

theorem look (f : σ → α) : Performs permits facts s (Recording.look f : Recording σ ε α) (f s) s :=
  fun log lawful _ =>
  ⟨[], by rw [List.append_nil]; rfl, by rwa [List.append_nil]⟩

theorem access {event : ε} (f : σ → α) (permitted : ∀ log, facts ⊆ log → permits log event) :
    Performs permits facts s (Recording.access event f) (f s) s := fun log lawful known =>
  ⟨[event], rfl, lawful.snoc (permitted log known)⟩

theorem update {event : ε} (f : σ → σ) (permitted : ∀ log, facts ⊆ log → permits log event) :
    Performs permits facts s (Recording.update event f) ⟨⟩ (f s) := fun log lawful known =>
  ⟨[event], rfl, lawful.snoc (permitted log known)⟩

theorem note {event : ε} (permitted : ∀ log, facts ⊆ log → permits log event) :
    Performs permits facts s (Recording.note event) ⟨⟩ s := update id permitted

theorem bind (first : Performs permits facts s program value s')
    (second : Performs permits facts s' (next value) result s'') :
    Performs permits facts s (program >>= next) result s'' := by
  intro log lawful known
  obtain ⟨more, returns, lawful'⟩ := first log lawful known
  obtain ⟨rest, returns', lawful''⟩ :=
    second _ lawful' (List.Subset.trans known (List.subset_append_left log more))
  rw [List.append_assoc] at returns' lawful''
  refine ⟨more ++ rest, ?_, lawful''⟩
  change (program ⟨s, log⟩).bind _ = _
  rw [returns]
  exact returns'

theorem of_pos {condition : Prop} [Decidable condition] {other : Recording σ ε α} (holds : condition)
    (performs : Performs permits facts s program value s') :
    Performs permits facts s (if condition then program else other) value s' := by rwa [if_pos holds]

theorem of_neg {condition : Prop} [Decidable condition] {other : Recording σ ε α} (fails : ¬ condition)
    (performs : Performs permits facts s program value s') :
    Performs permits facts s (if condition then other else program) value s' := by rwa [if_neg fails]

theorem completes (performs : Performs permits facts s program value s') :
    Completes permits facts s (fun _ => program) value s' := fun log lawful known => by
  obtain ⟨more, returns, lawful'⟩ := performs log lawful known
  exact ⟨more, ⟨0, fun _ _ => returns⟩, lawful'⟩

end Performs

namespace Completes

variable {permits : List ε → ε → Prop} {facts : List ε} {s s' s'' : σ} {program : ℕ →
  Recording σ ε α} {value : α} {result : β}

theorem bind {next : ℕ → α → Recording σ ε β} (first : Completes permits facts s program value s')
    (second : Completes permits facts s' (fun fuel => next fuel value) result s'') :
    Completes permits facts s (fun fuel => program fuel >>= next fuel) result s'' := by
  intro log lawful known
  obtain ⟨more, computes, lawful'⟩ := first log lawful known
  obtain ⟨rest, computes', lawful''⟩ :=
    second _ lawful' (List.Subset.trans known (List.subset_append_left log more))
  rw [List.append_assoc] at computes' lawful''
  exact ⟨more ++ rest, Computes.bind computes computes', lawful''⟩

/-- What an update has recorded is known from there on. -/
theorem bind_update {event : ε} {f : σ → σ} {next : ℕ → PUnit → Recording σ ε β}
    (permitted : ∀ log, facts ⊆ log → permits log event)
    (second : Completes permits (event :: facts) (f s) (fun fuel => next fuel ⟨⟩) result s'') :
    Completes permits facts s (fun fuel => Recording.update event f >>= next fuel) result s'' := by
  intro log lawful known
  have known' : event :: facts ⊆ log ++ [event] := List.cons_subset.mpr
    ⟨List.mem_append_right log List.mem_cons_self,
    List.Subset.trans known (List.subset_append_left log [event])⟩
  obtain ⟨rest, computes, lawful'⟩ := second _ (lawful.snoc (permitted log known)) known'
  rw [List.append_assoc] at computes lawful'
  exact ⟨[event] ++ rest, computes, lawful'⟩

theorem of_pos {condition : Prop} [Decidable condition] {other : ℕ → Recording σ ε α} (holds : condition)
    (completes : Completes permits facts s program value s') :
    Completes permits facts s (fun fuel => if condition then program fuel else other fuel) value s' := by
  simpa only [if_pos holds] using completes

theorem of_neg {condition : Prop} [Decidable condition] {other : ℕ → Recording σ ε α}
    (fails : ¬ condition) (completes : Completes permits facts s program value s') :
    Completes permits facts s (fun fuel => if condition then other fuel else program fuel) value s' := by
  simpa only [if_neg fails] using completes

end Completes

/-- One round with the record does what a round without it does. -/
def Mirrors (permits : List ε → ε → Prop) (facts : List ε) {υ ω : Type*} (state : υ → σ)
    (index : υ → τ) (final : ω → σ) (value : ω → ρ) (body : τ → Recording σ ε (τ ⊕ ρ))
    (u : υ) : υ ⊕ ω → Prop
  | .inl v => Performs permits facts (state u) (body (index u)) (.inl (index v)) (state v)
  | .inr w => Performs permits facts (state u) (body (index u)) (.inr (value w)) (final w)

/-- A loop with the record returns when the loop without it does. -/
theorem Completes.loop {permits : List ε → ε → Prop} {facts : List ε} {υ ω : Type*} {plain : Loop υ ω}
    {state : υ → σ} {index : υ → τ} {final : ω → σ} {value : ω → ρ}
    {body : τ → Recording σ ε (τ ⊕ ρ)} (Inv : υ → Prop)
    (keeps : ∀ u v, Inv u → plain u = .inl v → Inv v)
    (mirrors : ∀ u, Inv u → Mirrors permits facts state index final value body u (plain u)) {u : υ}
    {w : ω} (returns : Loop.Returns plain u w) (start : Inv u) :
    Completes permits facts (state u) (fun fuel => Recording.loop body fuel (index u)) (value w)
      (final w) := by
  obtain ⟨enough, success⟩ := returns
  induction enough generalizing u with
  | zero => exact nomatch success
  | succ enough ih =>
    have round := mirrors u start
    have rounds {result : σ} (completes : Completes permits facts (state u)
        (fun fuel => Recording.loop body (fuel + 1) (index u)) (value w) result) :
        Completes permits facts (state u) (fun fuel => Recording.loop body fuel (index u))
          (value w) result :=
      fun log lawful known => (completes log lawful known).imp fun _ both => ⟨both.1.of_succ, both.2⟩
    cases outcome : plain u with
    | inl v =>
      simp only [Loop.run, outcome] at success
      rw [outcome] at round
      exact rounds (Completes.bind (Performs.completes round) (ih (keeps u v start outcome) success))
    | inr w' =>
      simp only [Loop.run, outcome] at success
      obtain rfl := Option.some.inj success
      rw [outcome] at round
      exact rounds (Completes.bind (Performs.completes round) (Performs.completes (.pure _)))

end LinuxZero
