import Mathlib.Data.List.Basic

/-! # Names written with a separator

A sequence of names is written as one text with a separator between the names. One text begins with another
when the last name of that other merely begins the name at its place: text prefixes are coarser than prefixes of
the sequences.
-/

namespace LinuxZero.JoinedNames

variable {α : Type*} {s : α}

/-- The text of a sequence of names. -/
def text (s : α) (names : List (List α)) : List α := [s].intercalate names

/-- No name holds the separator. -/
def Clean (s : α) (names : List (List α)) : Prop := ∀ name ∈ names, s ∉ name

/-- The first sequence leads to a name that the name of the second sequence at that place begins with. -/
def Begins (first second : List (List α)) : Prop :=
  ∃ front last name rest, first = front ++ [last] ∧ second = front ++ name :: rest ∧ last <+: name

/-- A name that is begun, but not the same. -/
def Resembles (first second : List (List α)) : Prop :=
  ∃ front last name rest, first = front ++ [last] ∧ second = front ++ name :: rest ∧
    last <+: name ∧ last ≠ name

theorem text_single (s : α) (name : List α) : text s [name] = name := List.intercalate_singleton

theorem text_cons (s : α) (name next : List α) (rest : List (List α)) :
    text s (name :: next :: rest) = name ++ s :: text s (next :: rest) := by
  rw [text, List.intercalate_cons_cons, List.append_assoc, List.singleton_append]
  rfl

theorem text_append_single {names : List (List α)} (some_ : names ≠ []) (last : List α) :
    text s (names ++ [last]) = text s names ++ s :: last := by
  induction names with
  | nil => contradiction
  | cons name rest ih =>
    cases rest with
    | nil => rw [List.singleton_append, text_cons, text_single, text_single]
    | cons next rest =>
      have tail := ih (List.cons_ne_nil _ _)
      rw [List.cons_append] at tail
      rw [List.cons_append, List.cons_append, text_cons, tail, text_cons, List.append_assoc,
        List.cons_append]

/-- Behind the first name every character is a separator or one of a name. -/
theorem text_first {name : List α} {names : List (List α)} :
    ∃ rest, text s (name :: names) = name ++ rest ∧ ∀ c ∈ rest, c = s ∨ ∃ other ∈ names, c ∈ other := by
  induction names generalizing name with
  | nil => exact ⟨[], by rw [text_single, List.append_nil], fun c member => nomatch member⟩
  | cons next names ih =>
    obtain ⟨rest, first, chars⟩ := @ih next
    refine ⟨s :: (next ++ rest), by rw [text_cons, first], fun c member => ?_⟩
    rcases List.mem_cons.mp member with same | inNext
    · exact .inl same
    · rcases List.mem_append.mp inNext with inName | later
      · exact .inr ⟨next, List.mem_cons_self, inName⟩
      · exact (chars c later).imp id fun ⟨other, member, inOther⟩ =>
          ⟨other, List.mem_cons_of_mem next member, inOther⟩

/-- A text without the separator does not reach behind the first separator of another. -/
theorem prefix_append_iff {name other behind : List α} (clean : s ∉ name) :
    name <+: other ++ s :: behind ↔ name <+: other := by
  constructor
  · intro isPrefix
    rcases List.prefix_or_prefix_of_prefix isPrefix (List.prefix_append other (s :: behind)) with
        within | ⟨more, rfl⟩
    · exact within
    · rw [List.prefix_append_right_inj] at isPrefix
      cases more with
      | nil => exact ⟨[], by rw [List.append_nil, List.append_nil]⟩
      | cons head tail =>
        obtain ⟨rfl, _⟩ := List.cons_prefix_cons.mp isPrefix
        exact absurd (List.mem_append_right other List.mem_cons_self) clean
  · exact fun isPrefix => isPrefix.trans (List.prefix_append ..)

/-- Texts that go on behind their first separator. -/
theorem append_prefix_append_iff {name other behind behind' : List α} (clean : s ∉ name)
    (clean' : s ∉ other) :
    name ++ s :: behind <+: other ++ s :: behind' ↔ name = other ∧ behind <+: behind' := by
  constructor
  · intro isPrefix
    have first : name <+: other := (prefix_append_iff clean).mp ((List.prefix_append ..).trans isPrefix)
    obtain ⟨more, rfl⟩ := first
    rw [List.append_assoc, List.prefix_append_right_inj] at isPrefix
    cases more with
    | nil =>
      rw [List.nil_append, List.cons_prefix_cons] at isPrefix
      exact ⟨(List.append_nil name).symm, isPrefix.2⟩
    | cons head tail =>
      rw [List.cons_append, List.cons_prefix_cons] at isPrefix
      obtain ⟨rfl, _⟩ := isPrefix
      exact absurd (List.mem_append_right name List.mem_cons_self) clean'
  · rintro ⟨rfl, later⟩
    exact (List.prefix_append_right_inj name).mpr (List.cons_prefix_cons.mpr ⟨rfl, later⟩)

theorem begins_single {last name : List α} {rest : List (List α)} : Begins [last] (name :: rest) ↔
    last <+: name := by
  constructor
  · rintro ⟨front, last', name', rest', single, second, isPrefix⟩
    obtain ⟨rfl, single⟩ := List.append_eq_singleton_iff.mp single.symm |>.resolve_right fun both =>
      nomatch both.2
    obtain rfl := List.singleton_inj.mp single
    obtain rfl := (List.cons.inj second).1
    exact isPrefix
  · exact fun isPrefix => ⟨[], last, name, rest, rfl, rfl, isPrefix⟩

theorem begins_cons {name name' next : List α} {rest rest' : List (List α)} :
    Begins (name :: next :: rest) (name' :: rest') ↔ name = name' ∧ Begins (next :: rest) rest' := by
  constructor
  · rintro ⟨front, last, other, others, first, second, isPrefix⟩
    cases front with
    | nil => exact absurd (List.cons.inj first).2 (List.cons_ne_nil _ _)
    | cons head front =>
      obtain ⟨rfl, behind⟩ := List.cons.inj first
      obtain ⟨rfl, behind'⟩ := List.cons.inj second
      exact ⟨rfl, front, last, other, others, behind, behind', isPrefix⟩
  · rintro ⟨rfl, front, last, other, others, first, second, isPrefix⟩
    exact ⟨name :: front, last, other, others, congrArg _ first, congrArg _ second, isPrefix⟩

/-- One text begins with another exactly when its names do up to the last one, which may be longer. -/
theorem text_prefix_iff {first second : List (List α)} (some_ : first ≠ []) (some' : second ≠ [])
    (clean : Clean s first) (clean' : Clean s second) : text s first <+: text s second ↔
    Begins first second := by
  induction first generalizing second with
  | nil => contradiction
  | cons name rest ih =>
    obtain ⟨cleanName, cleanRest⟩ := List.forall_mem_cons.mp clean
    match second, some' with
    | name' :: rest', _ =>
      obtain ⟨cleanName', cleanRest'⟩ := List.forall_mem_cons.mp clean'
      match rest, rest' with
      | [], [] => rw [text_single, text_single, begins_single]
      | [], next' :: rest' => rw [text_single, text_cons, begins_single, prefix_append_iff cleanName]
      | next :: rest, [] =>
        rw [text_single, text_cons, begins_cons]
        constructor
        · intro isPrefix
          exact absurd (isPrefix.subset (List.mem_append_right name List.mem_cons_self)) cleanName'
        · rintro ⟨_, front, last, other, others, _, second, _⟩
          exact absurd second.symm (by simp)
      | next :: rest, next' :: rest' =>
        rw [text_cons, text_cons, begins_cons, append_prefix_append_iff cleanName cleanName']
        exact and_congr_right fun _ => ih (List.cons_ne_nil _ _) (List.cons_ne_nil _ _)
          cleanRest cleanRest'

/-- The last name is the same, or merely begins the other. -/
theorem begins_iff {first second : List (List α)} (some_ : first ≠ []) :
    Begins first second ↔ first <+: second ∨ Resembles first second := by
  constructor
  · rintro ⟨front, last, name, rest, rfl, rfl, isPrefix⟩
    by_cases same : last = name
    · subst same
      exact .inl ⟨rest, by rw [List.append_assoc, List.singleton_append]⟩
    · exact .inr ⟨front, last, name, rest, rfl, rfl, isPrefix, same⟩
  · rintro (⟨rest, rfl⟩ | ⟨front, last, name, rest, rfl, rfl, isPrefix, _⟩)
    · obtain ⟨front, last, rfl⟩ := (List.eq_nil_or_concat first).resolve_left some_
      refine ⟨front, last, last, rest, List.concat_eq_append, ?_, List.prefix_refl last⟩
      rw [List.concat_eq_append, List.append_assoc, List.singleton_append]
    · exact ⟨front, last, name, rest, rfl, rfl, isPrefix⟩

end LinuxZero.JoinedNames
