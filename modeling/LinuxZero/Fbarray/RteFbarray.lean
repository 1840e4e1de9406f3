import Mathlib.Order.Bounds.Basic
import LinuxZero.Lib.BitMask
import LinuxZero.Lib.Run

/-! # File-backed arrays

An array is described by the number of its used elements and by a mask with one bit for each element, which lies
behind the elements. A request that is refused sets `rte_errno` and returns -1; any other returns a number.
-/

namespace LinuxZero.Fbarray

def ENOENT : ℤ := 2
def EINVAL : ℤ := 22
def ENOSPC : ℤ := 28
def ENAMETOOLONG : ℤ := 36
def INT_MAX : ℕ := 2147483647
def RTE_FBARRAY_NAME_LEN : ℕ := 64

def MASK_SHIFT : ℕ := 6
def MASK_ALIGN : ℕ := 1 <<< MASK_SHIFT

/-- `~(align - 1)` in 32 bits; `align` is a power of two. -/
def RTE_ALIGN_FLOOR (val align : ℕ) : ℕ := val &&& (2 ^ 32 - align)
def RTE_ALIGN_CEIL (val align : ℕ) : ℕ := RTE_ALIGN_FLOOR ((val + (align - 1)) % 2 ^ 32) align

def MASK_LEN_TO_IDX (x : ℕ) : ℕ := x >>> MASK_SHIFT
def MASK_LEN_TO_MOD (x : ℕ) : ℕ := x - RTE_ALIGN_FLOOR x MASK_ALIGN
def MASK_GET_IDX (idx mod : ℕ) : ℕ := (idx <<< MASK_SHIFT) + mod

/-- The difference of two numbers of 32 bits. -/
def sub32 (m n : ℕ) : ℕ := if n ≤ m then m - n else 2 ^ 32 - (n - m)

/-- `sizeof(struct used_mask)` and `sizeof(uint64_t)`. -/
def sizeofUsedMask : ℕ := 8
def sizeofWord : ℕ := 8

def calc_mask_size (len : ℕ) : ℕ :=
  sizeofUsedMask + sizeofWord * MASK_LEN_TO_IDX (RTE_ALIGN_CEIL len MASK_ALIGN)

/-- The length of the mapping, a whole number of pages; the product is one of 32-bit numbers. -/
def calc_data_size (page_sz elt_sz len : ℕ) : ℕ :=
  (elt_sz * len % 2 ^ 32 + calc_mask_size len + (page_sz - 1)) &&& (2 ^ 64 - page_sz)

def get_used_mask (data elt_sz len : ℕ) : ℕ := data + elt_sz * len % 2 ^ 32

structure UsedMask where
  n_masks : ℕ
  data : ℕ → BitVec 64

/-- `data` is where the elements start; the mask behind them is `msk`. -/
structure RteFbarray where
  name : List UInt8
  count : ℕ
  len : ℕ
  elt_sz : ℕ
  data : ℕ
  msk : UsedMask

def fully_validate (name : Option (List UInt8)) (elt_sz len : ℕ) : Except ℤ (List UInt8) :=
  match name with
  | none => .error EINVAL
  | some name =>
    if elt_sz = 0 ∨ len = 0 ∨ len > INT_MAX then .error EINVAL
    else if RTE_FBARRAY_NAME_LEN ≤ name.length then .error ENAMETOOLONG
    else .ok name

/-- `mapped` is the address at which the file is mapped, or the error of the call that fails before that. -/
def rte_fbarray_init (mapped : Except ℤ ℕ) (name : Option (List UInt8)) (len elt_sz : ℕ) :
    Except ℤ RteFbarray := do
  let name ← fully_validate name elt_sz len
  let data ← mapped
  return { name, count := 0, len, elt_sz, data,
           msk := ⟨MASK_LEN_TO_IDX (RTE_ALIGN_CEIL len MASK_ALIGN), fun _ => 0⟩ }

namespace RteFbarray

variable (arr : RteFbarray)

/-- A word of the mask, inverted when free elements are looked for. -/
def word (used : Bool) (idx : ℕ) : BitVec 64 := if used then arr.msk.data idx else ~~~arr.msk.data idx

def ignore_msk (first_mod : ℕ) : BitVec 64 := ~~~((1#64 <<< first_mod) - 1#64)

def last_msk : BitVec 64 := ~~~(BitVec.allOnes 64 <<< MASK_LEN_TO_MOD arr.len)

def notFound (used : Bool) : ℤ := if used then -ENOENT else -ENOSPC

/-- What `find_next` looks at in a word. -/
def nextWord (start : ℕ) (used : Bool) (idx : ℕ) : BitVec 64 :=
  let cur := arr.word used idx
  let cur := if idx = MASK_LEN_TO_IDX arr.len then cur &&& arr.last_msk else cur
  if idx = MASK_LEN_TO_IDX start then cur &&& ignore_msk (MASK_LEN_TO_MOD start) else cur

def find_next (start : ℕ) (used : Bool) : Except ℤ ℕ :=
  let first := MASK_LEN_TO_IDX start
  let found := (List.range' first (arr.msk.n_masks - first)).findSome? fun idx =>
    let cur := arr.nextWord start used idx
    if cur = 0 then none else some (MASK_GET_IDX idx cur.ctz.toNat)
  match found with
  | some idx => .ok idx
  | none => .error (notFound used)

/-- What `find_contig` looks at in a word: its lowest bit is the first element that counts. -/
def contigWord (start : ℕ) (used : Bool) (idx : ℕ) : BitVec 64 :=
  let cur := arr.word used idx
  let cur := if idx = MASK_LEN_TO_IDX arr.len then cur &&& arr.last_msk else cur
  if idx = MASK_LEN_TO_IDX start then cur >>> MASK_LEN_TO_MOD start else cur

/-- The loop of `find_contig`, over the words that are left. -/
def contigLoop (start : ℕ) (used : Bool) : List ℕ → ℕ → ℕ
  | [], result => result
  | idx :: rest, result =>
    let need_len := if idx = MASK_LEN_TO_IDX start then MASK_ALIGN - MASK_LEN_TO_MOD start else MASK_ALIGN
    let cur := ~~~arr.contigWord start used idx
    if cur = 0 then contigLoop start used rest (result + need_len)
    else
      let run_len := cur.ctz.toNat
      if run_len < need_len then result + run_len else contigLoop start used rest (result + need_len)

def find_contig (start : ℕ) (used : Bool) : ℕ :=
  let first := MASK_LEN_TO_IDX start
  arr.contigLoop start used (List.range' first (arr.msk.n_masks - first)) 0

/-- How a lookahead ends. -/
inductive Lookahead
  | found
  | lost (lookahead_idx need : ℕ)
  | ended
deriving DecidableEq, Repr

def lookahead (used : Bool) : List ℕ → ℕ → Lookahead
  | [], _ => .ended
  | lookahead_idx :: rest, left =>
    let need := min left MASK_ALIGN
    if shiftAnd (arr.word used lookahead_idx) (sub32 need 1) &&& 1#64 = 0#64 then .lost lookahead_idx need
    else if left - need = 0 then .found
    else lookahead used rest (left - need)

/-- How many zeros lead the inverted mask; `__builtin_clzll` has no value for zero. -/
def clzInverted (cur_msk : BitVec 64) : ℕ := if ~~~cur_msk = 0 then 64 else (~~~cur_msk).clz.toNat

/-- `1ULL << k`. A shift by 64 is not defined: processors take the count modulo 64, or nothing is left of the one. -/
def shiftOne (wraps : Bool) (k : ℕ) : BitVec 64 := if wraps then 1#64 <<< (k % 64) else 1#64 <<< k

/-- What `find_next_n` looks at in a word. The masks are joined, so that on the last word neither of them hides what it
should; a mask that is zero hides nothing. -/
def nextNWord (used : Bool) (msk_idx : ℕ) (ignore_msk : BitVec 64) : BitVec 64 :=
  let ignore_msk := if msk_idx = MASK_LEN_TO_IDX arr.len then ignore_msk ||| arr.last_msk else ignore_msk
  if ignore_msk = 0 then arr.word used msk_idx else arr.word used msk_idx &&& ignore_msk

/-- The loop of `find_next_n`; `fuel` bounds the rounds, and each round goes on to a later word. -/
def nextNLoop (wraps : Bool) (n : ℕ) (used : Bool) : ℕ → ℕ → BitVec 64 → Option ℕ
  | 0, _, _ => none
  | fuel + 1, msk_idx, ignore_msk =>
    if arr.msk.n_masks ≤ msk_idx then none
    else
      let cur_msk := arr.nextNWord used msk_idx ignore_msk
      let tmp_msk := shiftAnd cur_msk (sub32 n 1)
      if n ≤ MASK_ALIGN ∧ tmp_msk ≠ 0 then some (MASK_GET_IDX msk_idx tmp_msk.ctz.toNat)
      else
        let clz := clzInverted cur_msk
        if clz = 0 then nextNLoop wraps n used fuel (msk_idx + 1) 0
        else
          match arr.lookahead used (List.range' (msk_idx + 1) (arr.msk.n_masks - (msk_idx + 1)))
            (sub32 n clz) with
          | .found => some (MASK_GET_IDX msk_idx (MASK_ALIGN - clz))
          | .lost lookahead_idx need => nextNLoop wraps n used fuel (lookahead_idx + 1)
              (~~~(shiftOne wraps need - 1#64))
          | .ended => nextNLoop wraps n used fuel (msk_idx + 1) 0

def find_next_n (wraps : Bool) (start n : ℕ) (used : Bool) : Except ℤ ℕ :=
  let first := MASK_LEN_TO_IDX start
  match arr.nextNLoop wraps n used (arr.msk.n_masks - first) first
    (ignore_msk (MASK_LEN_TO_MOD start)) with
  | some idx => .ok idx
  | none => .error (notFound used)

/-- A word of the mask and the count are replaced. -/
def setWord (msk_idx : ℕ) (word : BitVec 64) (count : ℕ) : RteFbarray :=
  { arr with count, msk := { arr.msk with data := Function.update arr.msk.data msk_idx word } }

def isBitSet (idx : ℕ) : Bool :=
  arr.msk.data (MASK_LEN_TO_IDX idx) &&& (1#64 <<< MASK_LEN_TO_MOD idx) ≠ 0#64

def set_used (idx : ℕ) (used : Bool) : RteFbarray × Except ℤ ℕ :=
  let msk_bit := 1#64 <<< MASK_LEN_TO_MOD idx
  let msk_idx := MASK_LEN_TO_IDX idx
  if idx ≥ arr.len then (arr, .error EINVAL)
  else if used = arr.isBitSet idx then (arr, .ok 0)
  else if used then (arr.setWord msk_idx (arr.msk.data msk_idx ||| msk_bit)
  ((arr.count + 1) % 2 ^ 32), .ok 0)
  else (arr.setWord msk_idx (arr.msk.data msk_idx &&& ~~~msk_bit) (sub32 arr.count 1), .ok 0)

def rte_fbarray_set_used (idx : ℕ) : RteFbarray × Except ℤ ℕ := arr.set_used idx true

def rte_fbarray_set_free (idx : ℕ) : RteFbarray × Except ℤ ℕ := arr.set_used idx false

def rte_fbarray_is_used (idx : ℕ) : Except ℤ ℕ :=
  if idx ≥ arr.len then .error EINVAL else .ok (if arr.isBitSet idx then 1 else 0)

def rte_fbarray_find_next_free (start : ℕ) : Except ℤ ℕ :=
  if start ≥ arr.len then .error EINVAL
  else if arr.len = arr.count then .error ENOSPC
  else arr.find_next start false

def rte_fbarray_find_next_used (start : ℕ) : Except ℤ ℕ :=
  if start ≥ arr.len then .error EINVAL
  else if arr.count = 0 then .error ENOENT
  else arr.find_next start true

def rte_fbarray_find_next_n_free (wraps : Bool) (start n : ℕ) : Except ℤ ℕ :=
  if start ≥ arr.len ∨ n > arr.len then .error EINVAL
  else if arr.len = arr.count ∨ arr.len - arr.count < n then .error ENOSPC
  else arr.find_next_n wraps start n false

def rte_fbarray_find_next_n_used (wraps : Bool) (start n : ℕ) : Except ℤ ℕ :=
  if start ≥ arr.len ∨ n > arr.len then .error EINVAL
  else if arr.count < n then .error ENOENT
  else arr.find_next_n wraps start n true

def rte_fbarray_find_contig_free (start : ℕ) : Except ℤ ℕ :=
  if start ≥ arr.len then .error EINVAL
  else if arr.len = arr.count then .error ENOSPC
  else if arr.count = 0 then .ok (arr.len - start)
  else .ok (arr.find_contig start false)

def rte_fbarray_find_contig_used (start : ℕ) : Except ℤ ℕ :=
  if start ≥ arr.len then .error EINVAL else .ok (arr.find_contig start true)

/-- The address of an element; the product is one of 32-bit numbers. -/
def rte_fbarray_get (idx : ℕ) : Except ℤ ℕ :=
  if idx ≥ arr.len then .error EINVAL else .ok (arr.data + idx * arr.elt_sz % 2 ^ 32)

def rte_fbarray_find_idx (elt : ℕ) : Except ℤ ℕ :=
  if elt = 0 then .error EINVAL
  else if elt < arr.data ∨ elt ≥ arr.data + arr.elt_sz * arr.len % 2 ^ 32 then .error EINVAL
  else .ok ((elt - arr.data) / arr.elt_sz)

end RteFbarray

end LinuxZero.Fbarray
