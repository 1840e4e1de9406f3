import LinuxZero.Pcap.NetData
import Mathlib.Algebra.Group.Nat.Defs
import Mathlib.Data.List.Forall2

/-! # The records of a capture file

The loop of `main` keeps its own position next to that of the stream. It checks that the header of a record is
in the file, but not that the captured bytes are: the last record may be cut short, and it is handed on like the others.
-/

namespace LinuxZero.Pcap

/-- The content of a regular file; its length is a `streamoff`. -/
structure CaptureFile where
  content : List UInt8
  bound : content.length < 2 ^ 63

/-- An input stream: its position, and whether no flag is set. -/
structure Stream where
  gpos : ℕ
  good : Bool
deriving DecidableEq, Repr

/-- `std::istream::read`: the bytes that are stored. A short read sets the flags, and nothing is read after that. -/
def Stream.read (stream : Stream) (content : List UInt8) (count : ℕ) : List UInt8 × Stream :=
  if stream.good then
    let bytes := (content.drop stream.gpos).take count
    (bytes, ⟨stream.gpos + bytes.length, decide (bytes.length = count)⟩)
  else ([], stream)

/-- A buffer with these bytes stored at its front. -/
def store (buff bytes : List UInt8) : List UInt8 := bytes ++ buff.drop bytes.length

abbrev pcap_head_size : ℕ := 24

abbrev pcap_data_size : ℕ := 16

/-- The field `caplen` of a `pcap_data`. -/
def caplen (data_head : List UInt8) : UInt32 :=
  UInt32.ofNat (Memory.ofLittleEndian ((data_head.drop 8).take 4))

/-- The arguments of a call of `proc_net_data`: the buffer with its content, and the length. -/
structure Call where
  data : List UInt8
  len : UInt32
deriving DecidableEq, Repr

structure State where
  f_pos : ℕ
  r_file : Stream
  calls : List Call
deriving DecidableEq, Repr

/-- One round of the `while` loop of `main`. -/
def readLoop (content : List UInt8) : Loop State (List Call) := fun s =>
  let f_size := content.length
  if s.f_pos < f_size then
    if (s.f_pos + pcap_data_size) % 2 ^ 64 > f_size then .inr s.calls
    else
      let (bytes, r_file) := s.r_file.read content pcap_data_size
      let data_head := store (List.replicate pcap_data_size 0) bytes
      let f_pos := (s.f_pos + pcap_data_size) % 2 ^ 64
      let arry := List.replicate 8192 0
      let buff := if caplen data_head > 8192 then List.replicate (caplen data_head).toNat 0 else arry
      let (bytes, r_file) := r_file.read content (caplen data_head).toNat
      let call : Call := ⟨store buff bytes, caplen data_head⟩
      .inl ⟨(f_pos + (caplen data_head).toNat) % 2 ^ 64, r_file, s.calls ++ [call]⟩
  else .inr s.calls

/-- The calls that `main` makes, in their order. -/
def main (file : CaptureFile) (fuel : ℕ) : Option (List Call) :=
  let (_, r_file) := Stream.read ⟨0, true⟩ file.content pcap_head_size
  Loop.run (readLoop file.content) fuel ⟨pcap_head_size, r_file, []⟩

section Records

/-- The header of a record and its captured bytes are in front. -/
def Complete (bytes : List UInt8) : Prop :=
  pcap_data_size ≤ bytes.length ∧ pcap_data_size + (caplen bytes).toNat ≤ bytes.length

instance (bytes : List UInt8) : Decidable (Complete bytes) := inferInstanceAs (Decidable (_ ∧ _))

/-- The captured bytes of the record in front. -/
def body (bytes : List UInt8) : List UInt8 := (bytes.drop pcap_data_size).take (caplen bytes).toNat

/-- The bytes behind the record in front. -/
def behind (bytes : List UInt8) : List UInt8 := bytes.drop (pcap_data_size + (caplen bytes).toNat)

theorem behind_length {bytes : List UInt8} (complete : Complete bytes) :
    (behind bytes).length < bytes.length := by
  have whole := complete.1
  simp only [behind, List.length_drop, pcap_data_size] at whole ⊢
  omega

/-- The captured bytes of the records that are completely in the file. -/
def records (bytes : List UInt8) : List (List UInt8) :=
  if Complete bytes then body bytes :: records (behind bytes) else []
termination_by bytes.length
decreasing_by exact behind_length ‹_›

/-- What is left of the file behind its last complete record. -/
def rest (bytes : List UInt8) : List UInt8 :=
  if Complete bytes then rest (behind bytes) else bytes
termination_by bytes.length
decreasing_by exact behind_length ‹_›

/-- Nothing but an incomplete header follows the last complete record. -/
def EndsOutsideBody (file : CaptureFile) : Prop :=
  (rest (file.content.drop pcap_head_size)).length < pcap_data_size

/-- The call hands on the captured bytes, and zero bytes behind them. -/
def Call.Holds (call : Call) (record : List UInt8) : Prop :=
  call.len.toNat = record.length ∧ ∃ count, call.data = record ++ List.replicate count 0

/-- The calls are those for the complete records, and each stays inside its buffer. -/
def Analyzes (file : CaptureFile) (calls : List Call) : Prop :=
  List.Forall₂ Call.Holds calls (records (file.content.drop pcap_head_size)) ∧
    ∀ call ∈ calls, ReadsInside call.data call.len

end Records

section Reading

variable {content : List UInt8} {f_pos : ℕ}

theorem Stream.read_whole {count : ℕ} (whole : count ≤ (content.drop f_pos).length) :
    Stream.read ⟨f_pos, true⟩ content count =
    ((content.drop f_pos).take count, ⟨f_pos + count, true⟩) := by
  have length : ((content.drop f_pos).take count).length = count := List.length_take_of_le whole
  simp only [Stream.read, if_pos, length, decide_true]

theorem Stream.read_fst (count : ℕ) :
    (Stream.read ⟨f_pos, true⟩ content count).1 = (content.drop f_pos).take count := by
  simp only [Stream.read, if_pos]

theorem store_zeros (size : ℕ) (bytes : List UInt8) :
    store (List.replicate size 0) bytes = bytes ++ List.replicate (size - bytes.length) 0 := by
  rw [store, List.drop_replicate]

/-- The header has its four bytes within the size of the struct. -/
theorem caplen_take (bytes : List UInt8) : caplen (bytes.take pcap_data_size) = caplen bytes := by
  rw [caplen, List.drop_take, List.take_take]
  rfl

/-- The size of the buffer for a record. -/
def room (len : UInt32) : ℕ := if len > 8192 then len.toNat else 8192

theorem le_room (len : UInt32) : 8192 ≤ room len ∧ len.toNat ≤ room len := by
  unfold room
  split
  · next large =>
    have bound : 8192 < len.toNat := UInt32.lt_iff_toNat_lt.mp large
    omega
  · next small =>
    have bound : ¬ 8192 < len.toNat := fun large => small (UInt32.lt_iff_toNat_lt.mpr large)
    omega

/-- The call for the record in front, of which the file may hold only a part. -/
def callOf (bytes : List UInt8) : Call :=
  ⟨store (List.replicate (room (caplen bytes)) 0) (body bytes), caplen bytes⟩

theorem callOf_holds {bytes : List UInt8} (complete : Complete bytes) :
    (callOf bytes).Holds (body bytes) := by
  have whole := complete.2
  refine ⟨?_, _, store_zeros ..⟩
  rw [body, List.length_take_of_le]
  · rfl
  · rw [List.length_drop]
    omega

/-- Every buffer is long enough for the headers. -/
theorem callOf_readsInside (bytes : List UInt8) : ReadsInside (callOf bytes).data (callOf bytes).len := by
  have large := (le_room (caplen bytes)).1
  apply proc_net_data_readsInside
  rw [callOf, store_zeros, List.length_append, List.length_replicate]
  omega

/-- A round for a header that is in the file, whether the captured bytes are or not. -/
theorem readLoop_round (bound : content.length < 2 ^ 63)
    (header : pcap_data_size ≤ (content.drop f_pos).length) (calls : List Call) :
    ∃ r_file, readLoop content ⟨f_pos, ⟨f_pos, true⟩, calls⟩ =
      .inl ⟨f_pos + (pcap_data_size + (caplen (content.drop f_pos)).toNat), r_file,
      calls ++ [callOf (content.drop f_pos)]⟩ ∧
    (Complete (content.drop f_pos) →
      r_file = ⟨f_pos + (pcap_data_size + (caplen (content.drop f_pos)).toNat), true⟩) := by
  have length : (content.drop f_pos).length = content.length - f_pos := List.length_drop
  have small := (caplen (content.drop f_pos)).toNat_lt
  have inFile : f_pos < content.length := by
    simp only [pcap_data_size] at header
    omega
  have noWrap : (f_pos + pcap_data_size) % 2 ^ 64 = f_pos + pcap_data_size :=
    Nat.mod_eq_of_lt (by simp only [pcap_data_size]; omega)
  have noWrap' : (f_pos + pcap_data_size + (caplen (content.drop f_pos)).toNat) % 2 ^ 64 =
      f_pos + (pcap_data_size + (caplen (content.drop f_pos)).toNat) := by
    rw [Nat.add_assoc]
    exact Nat.mod_eq_of_lt (by simp only [pcap_data_size]; omega)
  have fits : ¬ f_pos + pcap_data_size > content.length := by omega
  have data_head : store (List.replicate pcap_data_size 0) ((content.drop f_pos).take pcap_data_size) =
      (content.drop f_pos).take pcap_data_size := by
    rw [store_zeros, List.length_take_of_le header, Nat.sub_self, List.replicate_zero, List.append_nil]
  have captured : (content.drop (f_pos + pcap_data_size)).take (caplen (content.drop f_pos)).toNat =
      body (content.drop f_pos) := by
    rw [body, List.drop_drop]
  refine ⟨(Stream.read ⟨f_pos + pcap_data_size, true⟩ content
    (caplen (content.drop f_pos)).toNat).2, ?_, fun complete => ?_⟩
  · simp only [readLoop, if_pos inFile, noWrap, if_neg fits, Stream.read_whole header, data_head,
      caplen_take, noWrap', Stream.read_fst, captured, callOf, room]
    split <;> rfl
  · have whole := complete.2
    rw [Stream.read_whole (by rw [List.length_drop]; omega), Nat.add_assoc]

/-- Without a whole header in front the loop is left. -/
theorem readLoop_exit (bound : content.length < 2 ^ 63)
    (short : (content.drop f_pos).length < pcap_data_size) (r_file : Stream) (calls : List Call) :
    readLoop content ⟨f_pos, r_file, calls⟩ = .inr calls := by
  have length : (content.drop f_pos).length = content.length - f_pos := List.length_drop
  by_cases inFile : f_pos < content.length
  · have noWrap : (f_pos + pcap_data_size) % 2 ^ 64 = f_pos + pcap_data_size :=
      Nat.mod_eq_of_lt (by simp only [pcap_data_size]; omega)
    simp only [readLoop, if_pos inFile, noWrap]
    exact if_pos (by omega)
  · simp only [readLoop, if_neg inFile]

/-- From a position in the file on, the calls are those for the complete records and one more for a record that is
cut short. -/
theorem readLoop_returns (bound : content.length < 2 ^ 63) {bytes : List UInt8}
    (here : content.drop f_pos = bytes) {r_file : Stream}
    (ready : bytes ≠ [] → r_file = ⟨f_pos, true⟩) (calls : List Call) :
    ∃ complete cut, Loop.Returns (readLoop content) ⟨f_pos, r_file, calls⟩ (calls ++ (complete ++ cut)) ∧
      List.Forall₂ Call.Holds complete (records bytes) ∧
      (cut = [] ↔ (rest bytes).length < pcap_data_size) ∧
      ∀ call ∈ complete ++ cut, ReadsInside call.data call.len := by
  induction bytes using records.induct generalizing f_pos r_file calls with
  | case1 bytes complete ih =>
    obtain rfl := ready (List.ne_nil_of_length_pos (Nat.lt_of_lt_of_le (by decide) complete.1))
    obtain ⟨r_file, round, good⟩ := readLoop_round bound (here ▸ complete.1) calls
    rw [here] at round good
    have next : content.drop (f_pos + (pcap_data_size + (caplen bytes).toNat)) = behind bytes := by
      rw [← List.drop_drop, here, behind]
    obtain ⟨others, cut, returns, hold, cutShort, inside⟩ :=
      ih next (fun _ => good complete) (calls ++ [callOf bytes])
    refine ⟨callOf bytes :: others, cut, ?_, ?_, ?_, ?_⟩
    · rw [Loop.returns_iff_of_round round]
      simpa only [List.append_assoc, List.cons_append, List.nil_append] using returns
    · rw [records, if_pos complete]
      exact .cons (callOf_holds complete) hold
    · rwa [rest, if_pos complete]
    · intro call member
      rcases List.mem_cons.mp member with rfl | later
      · exact callOf_readsInside bytes
      · exact inside call later
  | case2 bytes incomplete =>
    rw [records, if_neg incomplete, rest, if_neg incomplete]
    by_cases header : pcap_data_size ≤ bytes.length
    · -- the header is in the file, the captured bytes are not: one more call, and the position is
      -- behind the end
      obtain rfl := ready (List.ne_nil_of_length_pos (Nat.lt_of_lt_of_le (by decide) header))
      obtain ⟨r_file, round, _⟩ := readLoop_round bound (here ▸ header) calls
      rw [here] at round
      have past : (content.drop (f_pos + (pcap_data_size + (caplen bytes).toNat))).length <
        pcap_data_size := by
        rw [← List.drop_drop, here, List.length_drop]
        simp only [Complete, header, true_and] at incomplete
        simp only [pcap_data_size] at incomplete ⊢
        omega
      refine ⟨[], [callOf bytes], ?_, .nil, ?_, ?_⟩
      · rw [Loop.returns_iff_of_round round]
        exact Loop.returns_of_exit (readLoop_exit bound past r_file _)
      · exact iff_of_false (List.cons_ne_nil _ _) (Nat.not_lt.mpr header)
      · rintro call member
        obtain rfl := List.mem_singleton.mp member
        exact callOf_readsInside bytes
    · have short := Nat.not_le.mp header
      refine ⟨[], [], ?_, .nil, iff_of_true rfl short, fun call member => nomatch member⟩
      rw [List.append_nil, List.append_nil]
      exact Loop.returns_of_exit (readLoop_exit bound (here ▸ short) r_file calls)

end Reading

/-- The loop ends for every file, with the calls for the complete records, and with one more exactly for a record that
is cut short. -/
theorem main_returns (file : CaptureFile) : ∃ complete cut, Computes (main file) (complete ++ cut) ∧
    List.Forall₂ Call.Holds complete (records (file.content.drop pcap_head_size)) ∧
    (cut = [] ↔ EndsOutsideBody file) ∧
    ∀ call ∈ complete ++ cut, ReadsInside call.data call.len := by
  have ready : file.content.drop pcap_head_size ≠ [] →
      (Stream.read ⟨0, true⟩ file.content pcap_head_size).2 = ⟨pcap_head_size, true⟩ := by
    intro more
    have large : pcap_head_size < file.content.length := by
      by_contra small
      exact more (List.drop_eq_nil_of_le (Nat.not_lt.mp small))
    rw [Stream.read_whole large.le, Nat.zero_add]
  obtain ⟨complete, cut, returns, facts⟩ := readLoop_returns file.bound rfl ready []
  exact ⟨complete, cut, .of_returns returns, facts⟩

/-- The calls are those for the complete records exactly when the file does not end within the captured bytes of a
record. -/
theorem main_analyzes_iff (file : CaptureFile) :
    (∃ calls, Computes (main file) calls ∧ Analyzes file calls) ↔ EndsOutsideBody file := by
  obtain ⟨complete, cut, computes, hold, cutShort, inside⟩ := main_returns file
  constructor
  · rintro ⟨calls, computes', analyzes, _⟩
    obtain rfl := computes.unique computes'
    have lengths := analyzes.length_eq.trans hold.length_eq.symm
    rw [List.length_append] at lengths
    exact cutShort.mp (List.length_eq_zero_iff.mp (by omega))
  · intro outside
    obtain rfl := cutShort.mpr outside
    rw [List.append_nil] at computes inside
    exact ⟨complete, computes, hold, inside⟩

/-- Two of five captured bytes. -/
private def cutFile : CaptureFile where
  content := List.replicate 24 0 ++ [0, 0, 0, 0, 0, 0, 0, 0, 5, 0, 0, 0, 5, 0, 0, 0] ++ [1, 2]
  bound := by decide

/-- The record is handed on with three zero bytes in the place of those that the file does not have. -/
theorem main_analyzes_cut : ¬ ∃ calls, Computes (main cutFile) calls ∧ Analyzes cutFile calls := by
  have incomplete : ¬ Complete (cutFile.content.drop pcap_head_size) := by decide
  rw [main_analyzes_iff, EndsOutsideBody, rest, if_neg incomplete]
  decide

end LinuxZero.Pcap
