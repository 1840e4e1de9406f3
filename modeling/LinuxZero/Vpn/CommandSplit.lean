import LinuxZero.Lib.Computes
import Mathlib.Algebra.Group.Nat.Defs
import Mathlib.Data.List.Basic
import Mathlib.Order.Nat

/-! # Splitting a console line

`lambda_split` of `vpn_core::exec`. Positions are of type `size_type`, so that the position after `npos` is
zero and the length from a start to `npos` is longer than every string. The loop ends with the token after the
last space, and its result is the line split at every space.
-/

namespace LinuxZero.Vpn

/-- `std::string`: the characters, at most `max_size()` of them. -/
structure StdString where
  chars : List UInt8
  bound : chars.length < 2 ^ 63

namespace StdString

/-- The largest value of `size_type`. -/
def npos : UInt64 := -1

/-- `find_first_of` for a single character. -/
def findFirstOf (s : StdString) (c : UInt8) (start : UInt64) : UInt64 :=
  match (s.chars.drop start.toNat).idxOf? c with
  | some i => start + UInt64.ofNat i
  | none => npos

/-- There is no result when `std::out_of_range` is thrown. -/
def substr (s : StdString) (start count : UInt64) : Option (List UInt8) :=
  if start.toNat ≤ s.chars.length then some ((s.chars.drop start.toNat).take count.toNat) else none

end StdString

open StdString

def space : UInt8 := 32

/-- The variables of the loop. -/
structure Splitting where
  ret : List (List UInt8)
  start : UInt64
  stop : UInt64

/-- One round; the result is none if `substr` throws. -/
def lambdaSplitBody (s : StdString) : Loop Splitting (Option (List (List UInt8))) := fun v =>
  if v.stop ≠ npos then
    let stop := s.findFirstOf space v.start
    match s.substr v.start (stop - v.start) with
    | none => .inr none
    | some token => .inl ⟨v.ret ++ [token], stop + 1, stop⟩
  else .inr (some v.ret)

def lambdaSplit (s : StdString) (fuel : ℕ) : Option (Option (List (List UInt8))) :=
  (lambdaSplitBody s).run fuel ⟨[], 0, 0⟩

variable {s : StdString} {v : Splitting} {front back : List UInt8}

theorem npos_toNat : npos.toNat = 2 ^ 64 - 1 := rfl

theorem drop_start (chars : s.chars = front ++ back) (start : v.start.toNat = front.length) :
    s.chars.drop v.start.toNat = back := by rw [chars, start, List.drop_left]

/-- A round that finds a space takes the token before it. -/
theorem lambdaSplitBody_found {token rest : List UInt8} (more : v.stop ≠ npos)
    (chars : s.chars = front ++ (token ++ space :: rest)) (start : v.start.toNat = front.length)
    (free : space ∉ token) :
    ∃ w, lambdaSplitBody s v = .inl w ∧ w.ret = v.ret ++ [token] ∧ w.stop ≠ npos ∧
      w.start.toNat = (front ++ token ++ [space]).length := by
  have bound := s.bound
  rw [chars, List.length_append, List.length_append, List.length_cons] at bound
  have found : s.findFirstOf space v.start = v.start + UInt64.ofNat token.length := by
    have index : (token ++ space :: rest).idxOf? space = some token.length := by
      rw [List.idxOf?_eq_some_iff]
      grind
    rw [StdString.findFirstOf, drop_start chars start, index]
  have length : (v.start + UInt64.ofNat token.length).toNat = front.length + token.length := by
    rw [UInt64.toNat_add, UInt64.toNat_ofNat', start]
    omega
  have count : (v.start + UInt64.ofNat token.length - v.start).toNat = token.length := by
    rw [UInt64.toNat_sub, length, start]
    omega
  have taken : s.substr v.start (v.start + UInt64.ofNat token.length - v.start) = some token := by
    rw [StdString.substr, drop_start chars start, count, List.take_left, if_pos]
    rw [start, chars, List.length_append]
    omega
  refine ⟨⟨v.ret ++ [token], v.start + UInt64.ofNat token.length + 1,
    v.start + UInt64.ofNat token.length⟩, ?_, rfl, ?_, ?_⟩
  · rw [lambdaSplitBody, if_pos more, found]
    dsimp only
    rw [taken]
  · intro same
    have lengths := congrArg UInt64.toNat same
    rw [length, npos_toNat] at lengths
    omega
  · rw [UInt64.toNat_add, length, List.length_append, List.length_append]
    change (front.length + token.length + 1) % 2 ^ 64 = front.length + token.length + 1
    omega

/-- A round that finds no space takes the rest of the line, and is the last one. -/
theorem lambdaSplitBody_last (more : v.stop ≠ npos) (chars : s.chars = front ++ back)
    (start : v.start.toNat = front.length) (free : space ∉ back) :
    lambdaSplitBody s v = .inl ⟨v.ret ++ [back], npos + 1, npos⟩ := by
  have bound := s.bound
  rw [chars, List.length_append] at bound
  have found : s.findFirstOf space v.start = npos := by
    rw [StdString.findFirstOf, drop_start chars start, List.idxOf?_eq_none_iff.mpr free]
  have count : back.length ≤ (npos - v.start).toNat := by
    rw [UInt64.toNat_sub, npos_toNat, start]
    omega
  have taken : s.substr v.start (npos - v.start) = some back := by
    rw [StdString.substr, drop_start chars start, List.take_of_length_le count, if_pos]
    rw [start, chars, List.length_append]
    omega
  rw [lambdaSplitBody, if_pos more, found]
  dsimp only
  rw [taken]

/-- From a start inside the line the loop adds the tokens of the rest. -/
theorem lambdaSplitBody_returns (more : v.stop ≠ npos) (chars : s.chars = front ++ back)
    (start : v.start.toNat = front.length) :
    (lambdaSplitBody s).Returns v (some (v.ret ++ back.splitOn space)) := by
  induction length : back.length using Nat.strongRecOn generalizing v front back with
  | ind n ih =>
    by_cases inside : space ∈ back
    · obtain ⟨token, rest, rfl, free⟩ := List.eq_append_cons_of_mem inside
      obtain ⟨w, round, ret, more', start'⟩ := lambdaSplitBody_found more chars start free
      have chars' : s.chars = (front ++ token ++ [space]) ++ rest := by
        rw [chars, List.append_assoc, List.append_assoc, List.singleton_append]
      have shorter : rest.length < n := by
        rw [← length, List.length_append, List.length_cons]
        omega
      rw [Loop.returns_iff_of_round round, List.splitOn_append_cons_self_of_not_mem free,
        ← List.singleton_append, ← List.append_assoc, ← ret]
      exact ih _ shorter more' chars' start' rfl
    · have round := lambdaSplitBody_last more chars start inside
      rw [Loop.returns_iff_of_round round, List.splitOn_eq_singleton inside]
      exact Loop.returns_of_exit (if_neg (not_not.mpr rfl))

/-- The tokens of a line are the line split at every space. -/
theorem lambdaSplit_computes (s : StdString) :
    Computes (lambdaSplit s) (some (s.chars.splitOn space)) := by
  have chars : s.chars = [] ++ s.chars := (List.nil_append _).symm
  exact Computes.of_returns (lambdaSplitBody_returns (v := ⟨[], 0, 0⟩) nofun chars rfl)

/-- No token has a space. -/
theorem notMem_of_mem_splitOn {α : Type*} [BEq α] [LawfulBEq α] {sep : α} {part line : List α}
    (member : part ∈ line.splitOn sep) : sep ∉ part := by
  induction line generalizing part with
  | nil =>
    rw [List.splitOn_nil, List.mem_singleton] at member
    exact member ▸ List.not_mem_nil
  | cons c line ih =>
    rw [List.splitOn_cons_eq_if_modifyHead] at member
    split at member
    · rcases List.mem_cons.mp member with rfl | later
      · exact List.not_mem_nil
      · exact ih later
    · next other =>
      obtain ⟨first, rest, split⟩ := List.exists_cons_of_ne_nil (List.splitOn_ne_nil sep line)
      rw [split, List.modifyHead_cons] at member
      rw [split] at ih
      rcases List.mem_cons.mp member with rfl | later
      · rw [List.mem_cons, not_or]
        exact ⟨fun same => other (beq_iff_eq.mpr same.symm), ih List.mem_cons_self⟩
      · exact ih (List.mem_cons_of_mem first later)

/-- Every line is split without an exception, and splitting and joining with single spaces are inverse. -/
theorem lambdaSplit_join (s : StdString) : ∃ tokens, Computes (lambdaSplit s) (some tokens) ∧
    tokens ≠ [] ∧ (∀ token ∈ tokens, space ∉ token) ∧ [space].intercalate tokens = s.chars ∧
    ∀ parts : List (List UInt8), parts ≠ [] → (∀ part ∈ parts, space ∉ part) →
      [space].intercalate parts = s.chars → parts = tokens := by
  refine ⟨_, lambdaSplit_computes s, List.splitOn_ne_nil _ _, fun token => notMem_of_mem_splitOn,
    List.intercalate_splitOn _, ?_⟩
  intro parts nonempty free joined
  rw [← joined, List.splitOn_intercalate space free nonempty]

end LinuxZero.Vpn
