import LinuxZero.Lib.Computes
import LinuxZero.Lib.Runs
import Mathlib.Algebra.Order.Ring.Int

/-! # Splitting a string in place

`sh_strsplit` goes through the string once. The first character of a run is a token, and the delimiter behind a run
becomes its terminator unless the token was the last one that is asked for. A character that is not in the buffer
has no value, so that a result on the string and its terminator alone shows that nothing else is accessed.
-/

namespace LinuxZero.Dpdk

open Runs

/-- The buffer, the tokens as positions in it, and the local variables. -/
structure Tokenizer where
  string : List UInt8
  tokens : List ℕ
  tokstart : Bool
  i : ℕ
deriving DecidableEq, Repr

namespace Tokenizer

def next (v : Tokenizer) : Tokenizer := { v with i := v.i + 1 }

/-- `tokens[tok++] = &string[i]`. -/
def token (v : Tokenizer) : Tokenizer := { v with tokstart := false, tokens := v.tokens ++ [v.i] }

def terminate (v : Tokenizer) : Tokenizer := { v with string := v.string.set v.i 0, tokstart := true }

end Tokenizer

/-- One round of the loop; there is no result after an access behind the buffer. -/
def strsplitBody (stringlen maxtokens : ℤ) (delim : UInt8) : Loop Tokenizer (Option Tokenizer) := fun v =>
  if v.i < stringlen then
    match v.string[v.i]? with
    | none => .inr none
    | some c =>
      if c = 0 ∨ maxtokens ≤ v.tokens.length then .inr (some v)
      else if v.tokstart ∧ c = delim then .inl v.next
      else
        let v := if v.tokstart then v.token else v
        .inl (if c = delim then v.terminate.next else v.next)
  else .inr (some v)

/-- Null pointers are none; the array that `tokens` points at need not be initialised. -/
def sh_strsplit (string : Option (List UInt8)) (tokens : Option Unit) (stringlen maxtokens : ℤ)
    (delim : UInt8) (fuel : ℕ) :
    Option (Option Tokenizer) :=
  match string, tokens with
  | some string, some _ => (strsplitBody stringlen maxtokens delim).run fuel ⟨string, [], true, 0⟩
  | string, _ => some (some ⟨string.getD [], [], true, 0⟩)

/-- The C string at a position of the buffer. -/
def cString (buffer : List UInt8) (p : ℕ) : List UInt8 := (buffer.drop p).takeWhile (· ≠ 0)

/-- The string when at most `limit` more tokens are taken from it. -/
def cut (delim : UInt8) : Bool → ℕ → List UInt8 → List UInt8
  | _, _, [] => []
  | fresh, limit, c :: s =>
    if limit = 0 then c :: s
    else if c = delim then (if fresh then c else 0) :: cut delim true limit s
    else c :: cut delim false (if fresh then limit - 1 else limit) s

variable {delim : UInt8} {fresh : Bool} {limit : ℕ} {s rest : List UInt8}

section Cut

@[simp] theorem cut_zero : cut delim fresh 0 s = s := by
  cases s with
  | nil => rfl
  | cons c s => exact if_pos rfl

theorem cut_cons (c : UInt8) : cut delim fresh (limit + 1) (c :: s) =
    if c = delim then (if fresh then c else 0) :: cut delim true (limit + 1) s
    else c :: cut delim false (if fresh then limit else limit + 1) s := if_neg (Nat.succ_ne_zero limit)

theorem length_cut (s : List UInt8) : (cut delim fresh limit s).length = s.length := by
  induction s generalizing fresh limit with
  | nil => rfl
  | cons c s ih =>
    rw [cut]
    split_ifs
    · rfl
    · rw [List.length_cons, ih, List.length_cons]
    · rw [List.length_cons, ih, List.length_cons]
    · rw [List.length_cons, ih, List.length_cons]
    · rw [List.length_cons, ih, List.length_cons]

/-- Only delimiters are overwritten. -/
theorem getElem?_cut (s : List UInt8) (i : ℕ) :
    (cut delim fresh limit s)[i]? = s[i]? ∨ s[i]? = some delim ∧ (cut delim fresh limit s)[i]? =
    some 0 := by
  induction s generalizing fresh limit i with
  | nil => exact Or.inl rfl
  | cons c s ih =>
    rw [cut]
    cases i with
    | zero =>
      split_ifs with none isDelim
      · exact Or.inl rfl
      · exact Or.inl rfl
      · exact Or.inr ⟨congrArg some isDelim, rfl⟩
      · exact Or.inl rfl
      · exact Or.inl rfl
    | succ i =>
      split_ifs
      · exact Or.inl rfl
      · exact ih i
      · exact ih i
      · exact ih i
      · exact ih i

theorem cString_append (free : 0 ∉ s) : (s ++ 0 :: rest).takeWhile (· ≠ 0) = s := by
  have nonzero : ∀ c ∈ s, decide (c ≠ 0) = true := fun c member =>
    decide_eq_true fun zero : c = 0 => free (zero ▸ member)
  rw [List.takeWhile_append_of_pos nonzero, List.takeWhile_cons_of_neg (by simp), List.append_nil]

/-- A token that has been started ends with its run if more tokens may follow. -/
theorem cString_cut_inside (free : 0 ∉ s) :
    (cut delim false (limit + 1) s ++ 0 :: rest).takeWhile (· ≠ 0) = s.takeWhile (· ≠ delim) := by
  induction s with
  | nil => exact List.takeWhile_cons_of_neg (by simp)
  | cons c s ih =>
    rw [List.mem_cons, not_or] at free
    rw [cut_cons]
    by_cases isDelim : c = delim
    · rw [if_pos isDelim, List.cons_append, List.takeWhile_cons_of_neg (by simp),
        List.takeWhile_cons_of_neg (by simpa using isDelim)]
    · rw [if_neg isDelim, List.cons_append, List.takeWhile_cons_of_pos (by simpa using Ne.symm free.1),
        List.takeWhile_cons_of_pos (by simpa using isDelim)]
      exact congrArg (c :: ·) (ih free.2)

/-- What the tokens are: the last one that is asked for has the rest of the string, every other one its run. -/
theorem cString_cut {j p : ℕ} (free : 0 ∉ s) (token : ((starts delim fresh s).take limit)[j]? = some p) :
    cString (cut delim fresh limit s ++ 0 :: rest) p = if j + 1 =
    limit then s.drop p else run delim s p := by
  induction s generalizing fresh limit j p with
  | nil => simp [starts] at token
  | cons c s ih =>
    have freeTail : 0 ∉ s := fun member => free (List.mem_cons_of_mem c member)
    cases limit with
    | zero => simp at token
    | succ limit =>
      rw [cut_cons]
      -- a token behind the first character is one of the tail
      have tail : ∀ {fresh : Bool} {limit j : ℕ} (x : UInt8),
        (((starts delim fresh s).map (· + 1)).take limit)[j]? = some p →
          cString (x :: cut delim fresh limit s ++ 0 :: rest) p = if j + 1 = limit
          then (c :: s).drop p else run delim (c :: s) p := by
        intro fresh limit j x below
        rw [← List.map_take, List.getElem?_map, Option.map_eq_some_iff] at below
        obtain ⟨q, here, rfl⟩ := below
        exact ih freeTail here
      by_cases isDelim : c = delim
      · subst isDelim
        rw [starts_cons_sep] at token
        rw [if_pos rfl]
        exact tail _ token
      · rw [if_neg isDelim]
        cases fresh with
        | false =>
          rw [starts_cons_inside isDelim] at token
          exact tail c token
        | true =>
          rw [starts_cons_fresh isDelim, List.take_succ_cons] at token
          cases j with
          | zero =>
            obtain rfl := Option.some.inj token
            rw [if_pos rfl, cString, List.drop_zero, run, List.drop_zero]
            cases limit with
            | zero => rw [if_pos rfl, cut_zero, List.cons_append, ← List.cons_append, cString_append free]
            | succ limit =>
              have nonzero : c ≠ 0 := fun zero => free (zero ▸ List.mem_cons_self)
              rw [if_neg (by omega), List.cons_append,
                List.takeWhile_cons_of_pos (by simpa using nonzero), cString_cut_inside freeTail,
                List.takeWhile_cons_of_pos (by simpa using isDelim)]
          | succ j =>
            rw [List.getElem?_cons_succ] at token
            rw [if_pos rfl, tail c token]
            simp only [Nat.add_right_cancel_iff]

end Cut

section Loop

variable {stringlen maxtokens : ℤ} {out : List UInt8} {v : Tokenizer}

theorem getElem?_front (c : UInt8) (back : List UInt8) : (out ++ c :: back)[out.length]? = some c := by
  rw [List.getElem?_append_right le_rfl, Nat.sub_self]
  rfl

/-- Positions in the tail are positions in the list, moved by one. -/
theorem moved (positions : List ℕ) (count : ℕ) :
    ((positions.map (· + 1)).take count).map (· + out.length) =
    (positions.take count).map (· + (out.length + 1)) := by
  rw [← List.map_take, List.map_map]
  exact List.map_congr_left fun i _ => Nat.add_right_comm i 1 out.length

theorem strsplitBody_exit {c : UInt8} (inside : v.i < stringlen) (read : v.string[v.i]? = some c)
    (ends : c = 0 ∨ maxtokens ≤ v.tokens.length) : strsplitBody stringlen maxtokens delim v =
    .inr (some v) := by
  rw [strsplitBody, if_pos inside, read]
  exact if_pos ends

variable (delim) in
theorem strsplitBody_round {c : UInt8} (inside : v.i < stringlen) (read : v.string[v.i]? = some c)
    (nonzero : c ≠ 0) (more : v.tokens.length < maxtokens) :
    strsplitBody stringlen maxtokens delim v = .inl (
      if v.tokstart ∧ c = delim then v.next
      else if c = delim then (if v.tokstart then v.token else v).terminate.next
      else (if v.tokstart then v.token else v).next) := by
  rw [strsplitBody, if_pos inside, read]
  refine (if_neg (not_or.mpr ⟨nonzero, not_le.mpr more⟩)).trans ?_
  split_ifs <;> rfl

variable (stringlen maxtokens delim rest) in
/-- From a position in the string on, with `out` before it, the loop adds the tokens of the rest and cuts the rest. -/
def Splits (v : Tokenizer) (out s : List UInt8) (limit : ℕ) : Prop :=
  ∃ w, (strsplitBody stringlen maxtokens delim).Returns v (some w) ∧
    w.string = out ++ (cut delim v.tokstart limit s ++ 0 :: rest) ∧
    w.tokens = v.tokens ++ ((starts delim v.tokstart s).take limit).map (· + out.length)

/-- One round goes on behind a character that it may have changed and whose token it may have added. -/
theorem Splits.of_round {u : Tokenizer} {c x : UInt8} {more : ℕ}
    (round : strsplitBody stringlen maxtokens delim v = .inl u)
    (splits : Splits delim rest stringlen maxtokens u (out ++ [x]) s more)
    (character : cut delim v.tokstart limit (c :: s) = x :: cut delim u.tokstart more s)
    (token : v.tokens ++ ((starts delim v.tokstart (c :: s)).take limit).map (· + out.length) =
      u.tokens ++ ((starts delim u.tokstart s).take more).map (· + (out.length + 1))) :
    Splits delim rest stringlen maxtokens v out (c :: s) limit := by
  obtain ⟨w, returned, string, tokens⟩ := splits
  refine ⟨w, (Loop.returns_iff_of_round round _).mpr returned, ?_, ?_⟩
  · rw [string, character, List.append_assoc]
    rfl
  · rw [tokens, token, List.length_append, List.length_singleton]

variable (delim) in
/-- The loop splits every string that ends within the given length. -/
theorem strsplitBody_returns (free : 0 ∉ s) (string : v.string = out ++ (s ++ 0 :: rest))
    (here : v.i = out.length) (fits : out.length + s.length < stringlen)
    (left : maxtokens = v.tokens.length + limit) :
    Splits delim rest stringlen maxtokens v out s limit := by
  have inside : (v.i : ℤ) < stringlen := by
    rw [here]
    omega
  induction s generalizing v out limit with
  | nil =>
    have read : v.string[v.i]? = some 0 := by rw [string, here, List.nil_append, getElem?_front]
    refine ⟨v, Loop.returns_of_exit (strsplitBody_exit inside read (Or.inl rfl)), string, ?_⟩
    simp [starts]
  | cons c s ih =>
    rw [List.mem_cons, not_or] at free
    have read : v.string[v.i]? = some c := by rw [string, here, List.cons_append, getElem?_front]
    cases limit with
    | zero =>
      refine ⟨v, Loop.returns_of_exit (strsplitBody_exit inside read (Or.inr (by omega))), ?_, ?_⟩
      · rw [cut_zero, string]
      · simp
    | succ limit =>
      have round := strsplitBody_round delim inside read (Ne.symm free.1)
        (by omega : v.tokens.length < maxtokens)
      -- the next round starts behind this character, whatever is there now
      have later : ∀ {u : Tokenizer} {x : UInt8} {more : ℕ}, u.string =
        out ++ (x :: (s ++ 0 :: rest)) → u.i = v.i + 1 →
          maxtokens = u.tokens.length + more → Splits delim rest stringlen maxtokens u
            (out ++ [x]) s more := by
        intro u x more string' here' left'
        have length : (out ++ [x]).length = out.length + 1 := List.length_append
        have stringTail : u.string = (out ++ [x]) ++ (s ++ 0 :: rest) := by
          rw [string', List.append_assoc]
          rfl
        rw [List.length_cons] at fits
        exact ih free.2 stringTail (by rw [here', here, length]) (by rw [length]; omega) left' (by omega)
      by_cases isDelim : c = delim
      · subst isDelim
        cases start : v.tokstart with
        | true =>
          rw [start, if_pos ⟨rfl, rfl⟩] at round
          refine .of_round round (later string rfl left) ?_ ?_
          · rw [start, cut_cons, if_pos rfl, show v.next.tokstart = true from start]
            rfl
          · rw [start, starts_cons_sep, moved, show v.next.tokstart = true from start]
            rfl
        | false =>
          rw [start, if_neg (fun both => Bool.false_ne_true both.1), if_pos rfl] at round
          have ended : v.terminate.next.string = out ++ (0 :: (s ++ 0 :: rest)) := by
            change v.string.set v.i 0 = _
            rw [string, here, List.set_append_right _ _ le_rfl, Nat.sub_self]
            rfl
          refine .of_round round (later ended rfl left) ?_ ?_
          · rw [start, cut_cons, if_pos rfl]
            rfl
          · rw [start, starts_cons_sep, moved]
            rfl
      · cases start : v.tokstart with
        | true =>
          rw [start, if_neg (fun both => isDelim both.2), if_neg isDelim] at round
          have counted : maxtokens = v.token.next.tokens.length + limit := by
            change maxtokens = ((v.tokens ++ [v.i]).length : ℤ) + limit
            rw [List.length_append, List.length_singleton]
            omega
          refine .of_round round (later string rfl counted) ?_ ?_
          · rw [start, cut_cons, if_neg isDelim]
            rfl
          · rw [start, starts_cons_fresh isDelim, List.take_succ_cons, List.map_cons, moved,
              Nat.zero_add, ← here]
            exact List.append_cons ..
        | false =>
          rw [start, if_neg (fun both => Bool.false_ne_true both.1), if_neg isDelim,
            if_neg Bool.false_ne_true] at round
          refine .of_round round (later string rfl left) ?_ ?_
          · rw [start, cut_cons, if_neg isDelim, show v.next.tokstart = false from start]
            rfl
          · rw [start, starts_cons_inside isDelim, moved, show v.next.tokstart = false from start]
            rfl

end Loop

/-- Every string that ends within the given length is split into its runs. -/
theorem sh_strsplit_splits {stringlen maxtokens : ℤ} (free : 0 ∉ s) (fits : s.length < stringlen)
    (limited : 0 ≤ maxtokens) (rest : List UInt8) :
    ∃ w after, Computes (sh_strsplit (some (s ++ 0 :: rest)) (some ()) stringlen maxtokens delim)
      (some w) ∧
      (w.tokens.length : ℤ) = min ((starts delim true s).length : ℤ) maxtokens ∧
      (∀ (j p : ℕ), w.tokens[j]? = some p → (starts delim true s)[j]? = some p ∧
        cString w.string p = if (j : ℤ) = maxtokens - 1 then s.drop p else run delim s p) ∧
      w.string = after ++ 0 :: rest ∧ after.length = s.length ∧
      ∀ i : ℕ, after[i]? = s[i]? ∨ s[i]? = some delim ∧ after[i]? = some 0 := by
  obtain ⟨limit, rfl⟩ : ∃ limit : ℕ, maxtokens = limit := ⟨maxtokens.toNat, by omega⟩
  have start : ((⟨s ++ 0 :: rest, [], true, 0⟩ : Tokenizer).tokens.length : ℤ) + limit = limit := by simp
  have whole : (⟨s ++ 0 :: rest, [], true, 0⟩ : Tokenizer).string = [] ++ (s ++ 0 :: rest) := rfl
  obtain ⟨w, returned, string, tokens⟩ := strsplitBody_returns delim free whole rfl
    (by simpa using fits) start.symm
  have taken : w.tokens = (starts delim true s).take limit := by simpa using tokens
  refine ⟨w, cut delim true limit s, Computes.of_returns returned, ?_, fun j p token => ?_, string,
    length_cut s, getElem?_cut s⟩
  · rw [taken, List.length_take]
    omega
  · rw [taken] at token
    have below : j < limit := by
      by_contra beyond
      rw [List.getElem?_take_eq_none (Nat.le_of_not_lt beyond)] at token
      exact nomatch token
    refine ⟨(List.getElem?_take_of_lt below).symm.trans token, ?_⟩
    have last : (j : ℤ) = limit - 1 ↔ j + 1 = limit := by omega
    rw [string, List.nil_append, cString_cut free token]
    simp only [last]

/-- Two tokens of three runs: the second one has the rest of the string. -/
theorem sh_strsplit_splits_two :
    ∃ w, Computes (sh_strsplit (some ([97, 32, 32, 98, 99, 32, 100] ++ 0 :: [])) (some ()) 8 2 32)
      (some w) ∧
    w.tokens = [0, 3] ∧ cString w.string 0 = [97] ∧ cString w.string 3 = [98, 99, 32, 100] := by
  have fits : (([97, 32, 32, 98, 99, 32, 100] : List UInt8).length : ℤ) < 8 := by decide
  obtain ⟨w, _, computes, count, tokens, _⟩ := @sh_strsplit_splits 32 _ _ _ (by decide) fits
    (by decide : (0 : ℤ) ≤ 2) []
  have runs : Runs.starts (32 : UInt8) true [97, 32, 32, 98, 99, 32, 100] = [0, 3, 6] := by decide
  rw [runs] at count tokens
  match held : w.tokens, count with
  | [p, q], _ =>
    obtain ⟨first, firstHas⟩ := tokens 0 p (by rw [held]; rfl)
    obtain ⟨second, secondHas⟩ := tokens 1 q (by rw [held]; rfl)
    obtain rfl := Option.some.inj first
    obtain rfl := Option.some.inj second
    exact ⟨w, computes, held, firstHas, secondHas⟩

end LinuxZero.Dpdk
