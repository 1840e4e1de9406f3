import LinuxZero.CodeScp.OsPath
import LinuxZero.Lib.Run
import Mathlib.Data.Set.Function
import Mathlib.Logic.Function.Basic

/-! # Copying changed files

`check_and_copy_files` uploads a file and records its digest in two steps, for a new file in this order and for a
changed one in the other. Local edits fall between any two steps, also between the chunks that `calc_md5` reads.
-/

namespace LinuxZero.CodeScp

abbrev Content := List UInt8

/-- The local files: which file a path leads to, and what the files hold. -/
structure Disk where
  inode : List Char → Option ℕ
  data : ℕ → Content

def Disk.content (disk : Disk) (file_name : List Char) : Option Content :=
  (disk.inode file_name).map disk.data

/-- The arguments that the paths depend on; `normpath` is that of `os.path`. -/
structure Setup where
  os : OsPath
  normpath : List Char → List Char
  local_path : List Char
  remote_path : List Char

/-- `text.replace(old, '', 1)`. -/
def replaceFirst (old : List Char) : List Char → List Char
  | [] => []
  | c :: rest => if old.isPrefixOf (c :: rest) then (c :: rest).drop old.length
      else c :: replaceFirst old rest

namespace Setup

variable (setup : Setup)

def path_to_linux (path : List Char) : List Char :=
  (setup.normpath path).map fun c => if c = '\\' then '/' else c

def path_join_linux (path file : List Char) : List Char := setup.path_to_linux (setup.os.join path file)

def remote_file (file_name : List Char) : List Char :=
  setup.path_join_linux setup.remote_path (replaceFirst setup.local_path file_name)

end Setup

/-- The loop of `calc_md5`: the open file and what has been read of it. -/
structure Reading where
  inode : ℕ
  read : Content

/-- `f.read(1024)`. -/
def Reading.chunk (reading : Reading) (disk : Disk) : Content :=
  ((disk.data reading.inode).drop reading.read.length).take 1024

/-- What `check_and_copy_files` does next; `reading` is `none` before the file is open. -/
inductive Phase where
  | list_files
  /-- `for file_name in set_c`, with the files that are left. -/
  | new_files (set_c : List (List Char))
  /-- `sftp.stat(remote_file_path)`, with `mkdir` if it fails. -/
  | stat_path (file_name : List Char) (set_c : List (List Char))
  /-- `sftp.stat(remote_file)`. -/
  | stat (file_name : List Char) (set_c : List (List Char))
  | md5sum (file_name : List Char) (set_c : List (List Char))
  | put (file_name : List Char) (set_c : List (List Char))
  /-- `calc_md5` behind the upload of a new file; `copied` is what was uploaded. -/
  | digest (file_name : List Char) (set_c : List (List Char)) (copied : Content)
      (reading : Option Reading)
  /-- `for file_name in file_list`, with the files that are left. -/
  | check (file_list : List (List Char))
  /-- `calc_md5` before the comparison. -/
  | compare (file_name : List Char) (file_list : List (List Char)) (reading : Option Reading)
  /-- The upload of a changed file, whose new digest is recorded; `digested` is what `calc_md5` has read. -/
  | put_changed (file_name : List Char) (file_list : List (List Char)) (digested : Content)
  /-- The end of an iteration. -/
  | sleep
  /-- An exception has left the loop. -/
  | stopped

structure State (δ : Type) where
  disk : Disk
  remote : List Char → Option Content
  ssh_file_md5 : List Char → Option δ
  file_list : List (List Char)
  new_list : List (List Char)
  phase : Phase

inductive Event (δ : Type) where
  /-- Somebody edits, creates or removes local files. -/
  | edit (disk : Disk)
  /-- The listing, during which files may be edited, and the new files in the order of the set. -/
  | list_files (new_list set_c : List (List Char))
  /-- The head of a `for` loop. -/
  | advance
  | stat_path
  | stat (found : Bool)
  /-- The first word that `md5sum` prints, if there is one. -/
  | md5sum (answer : Option δ)
  | put
  | open_
  | read
  | sleep
  /-- An exception that is not caught. -/
  | raise

variable {δ : Type} (setup : Setup) (md5 : Content → δ)

def State.initial (disk : Disk) (remote : List Char → Option Content) : State δ where
  disk := disk
  remote := remote
  ssh_file_md5 _ := none
  file_list := []
  new_list := []
  phase := .list_files

/-- What one event does, if it is possible. `sftp.put` copies the content that the file has at that moment. -/
def State.next [DecidableEq δ] (s : State δ) : Event δ → Option (State δ)
  | .edit disk => some { s with disk := disk }
  | .list_files new_list set_c =>
    match s.phase with
    | .list_files =>
      if set_c.Nodup ∧ (∀ f ∈ set_c, f ∈ new_list ∧ f ∉ s.file_list) ∧
        ∀ f ∈ new_list, f ∉ s.file_list → f ∈ set_c then
        some { s with new_list := new_list, phase := .new_files set_c }
      else none
    | _ => none
  | .advance =>
    match s.phase with
    | .new_files (file_name :: set_c) => some { s with phase := .stat_path file_name set_c }
    | .new_files [] => some { s with file_list := s.new_list, phase := .check s.new_list }
    | .check (file_name :: file_list) => some { s with phase := .compare file_name file_list none }
    | .check [] => some { s with phase := .sleep }
    | _ => none
  | .stat_path =>
    match s.phase with
    | .stat_path file_name set_c => some { s with phase := .stat file_name set_c }
    | _ => none
  | .stat found =>
    match s.phase with
    | .stat file_name set_c =>
        some { s with phase := if found then .md5sum file_name set_c else .put file_name set_c }
    | _ => none
  | .md5sum (some answer) =>
    match s.phase with
    | .md5sum file_name set_c =>
      some { s with
        ssh_file_md5 := Function.update s.ssh_file_md5 file_name (some answer)
        phase := .new_files set_c }
    | _ => none
  | .md5sum none =>
    match s.phase with
    | .md5sum file_name set_c => some { s with phase := .put file_name set_c }
    | _ => none
  | .put =>
    match s.phase with
    | .put file_name set_c =>
      (s.disk.content file_name).map fun content =>
        { s with
          remote := Function.update s.remote (setup.remote_file file_name) (some content)
          phase := .digest file_name set_c content none }
    | .put_changed file_name file_list _ =>
      (s.disk.content file_name).map fun content =>
        { s with
          remote := Function.update s.remote (setup.remote_file file_name) (some content)
          phase := .check file_list }
    | _ => none
  | .open_ =>
    match s.phase with
    | .digest file_name set_c copied none =>
      (s.disk.inode file_name).map fun inode =>
        { s with phase := .digest file_name set_c copied (some ⟨inode, []⟩) }
    | .compare file_name file_list none =>
      (s.disk.inode file_name).map fun inode =>
        { s with phase := .compare file_name file_list (some ⟨inode, []⟩) }
    | _ => none
  | .read =>
    match s.phase with
    | .digest file_name set_c copied (some reading) =>
      let data := reading.chunk s.disk
      if data = [] then
        some { s with
          ssh_file_md5 := Function.update s.ssh_file_md5 file_name (some (md5 reading.read))
          phase := .new_files set_c }
      else some { s with
        phase := .digest file_name set_c copied (some ⟨reading.inode, reading.read ++ data⟩) }
    | .compare file_name file_list (some reading) =>
      let data := reading.chunk s.disk
      if data = [] then
        match s.ssh_file_md5 file_name with
        -- a `KeyError`
        | none => some { s with phase := .stopped }
        | some recorded =>
          if md5 reading.read ≠ recorded then
            some { s with
              ssh_file_md5 := Function.update s.ssh_file_md5 file_name (some (md5 reading.read))
              phase := .put_changed file_name file_list reading.read }
          else some { s with phase := .check file_list }
      else some { s with
        phase := .compare file_name file_list (some ⟨reading.inode, reading.read ++ data⟩) }
    | _ => none
  | .sleep =>
    match s.phase with
    | .sleep => some { s with phase := .list_files }
    | _ => none
  | .raise => some { s with phase := .stopped }

/-- The digest is taken of what is uploaded, `md5sum` answers for the remote copy, and no two files of a listing or
with a recorded digest have one remote copy. -/
def State.Meets (s : State δ) : Event δ → Prop
  | .list_files new_list _ => ∀ f ∈ new_list, ∀ g, g ∈ new_list ∨ s.ssh_file_md5 g ≠ none →
      setup.remote_file f = setup.remote_file g → f = g
  | .md5sum (some answer) => ∀ file_name set_c, s.phase = .md5sum file_name set_c →
      ∃ content, s.remote (setup.remote_file file_name) = some content ∧ answer = md5 content
  | .read => ∀ file_name set_c copied reading, s.phase = .digest file_name set_c copied (some reading) →
      reading.chunk s.disk = [] → reading.read = copied
  | .put => ∀ file_name file_list digested, s.phase = .put_changed file_name file_list digested →
      s.disk.content file_name = some digested
  | _ => True

def Step [DecidableEq δ] (s : State δ) (event : Event δ) (t : State δ) : Prop :=
  s.next setup md5 event = some t

def MetStep [DecidableEq δ] (s : State δ) (event : Event δ) (t : State δ) : Prop :=
  Step setup md5 s event t ∧ s.Meets setup md5 event

/-- A recorded digest of the current content is the digest of the remote copy. -/
def State.Synchronised (s : State δ) : Prop :=
  ∀ file_name content, s.disk.content file_name = some content →
  s.ssh_file_md5 file_name = some (md5 content) → s.remote (setup.remote_file file_name) = some content

section Invariant

/-- The files that are still to be visited in this iteration. -/
def Phase.todo : Phase → List (List Char)
  | .new_files set_c => set_c
  | .stat_path file_name set_c | .stat file_name set_c | .md5sum file_name set_c | .put file_name set_c
  | .digest file_name set_c _ _ => file_name :: set_c
  | .check file_list => file_list
  | .compare file_name file_list _ | .put_changed file_name file_list _ => file_name :: file_list
  | .list_files | .sleep | .stopped => []

/-- The file that is between its upload and the record of its digest. -/
def Phase.uploading : Phase → Option (List Char)
  | .digest file_name _ _ _ | .put_changed file_name _ _ => some file_name
  | _ => none

variable {setup md5} {s t : State δ} {event : Event δ}

/-- The file is in the listing or has a recorded digest. -/
def State.Known (s : State δ) (file_name : List Char) : Prop :=
  file_name ∈ s.new_list ∨ s.ssh_file_md5 file_name ≠ none

variable (setup md5) in
/-- The recorded digests are those of the remote copies, but for the file that is being uploaded. -/
structure Recorded (s : State δ) : Prop where
  apart : ∀ f g, s.Known f → s.Known g → setup.remote_file f = setup.remote_file g → f = g
  listed : ∀ f ∈ s.phase.todo, f ∈ s.new_list
  copied : ∀ f set_c content reading, s.phase = .digest f set_c content reading →
    s.remote (setup.remote_file f) = some content
  digested : ∀ f file_list content, s.phase = .put_changed f file_list content →
    s.ssh_file_md5 f = some (md5 content)
  recorded : s.phase ≠ .stopped → ∀ f digest, s.phase.uploading ≠ some f →
    s.ssh_file_md5 f = some digest →
    ∃ content, s.remote (setup.remote_file f) = some content ∧ digest = md5 content

theorem recorded_initial (disk : Disk) (remote : List Char → Option Content) :
    Recorded setup md5 (State.initial disk remote : State δ) where
  apart f g known := by simp [State.Known, State.initial] at known
  listed _ member := nomatch member
  copied _ _ _ _ phase := nomatch phase
  digested _ _ _ phase := nomatch phase
  recorded _ _ _ _ record := nomatch record

namespace Recorded

variable {phase : Phase} {f : List Char} {content : Content}

/-- Nothing is uploaded or recorded. -/
theorem move (kept : Recorded setup md5 s) {before : Phase} (here : s.phase = before)
    (quiet : before.uploading = none) (alive : before ≠ .stopped)
    (within : ∀ f ∈ phase.todo, f ∈ s.new_list) (quiet' : phase.uploading = none)
    {file_list : List (List Char)} :
    Recorded setup md5 { s with file_list := file_list, phase := phase } where
  apart := kept.apart
  listed := within
  copied f set_c content reading same := by
    obtain rfl : phase = _ := same
    exact nomatch quiet'
  digested f file_list content same := by
    obtain rfl : phase = _ := same
    exact nomatch quiet'
  recorded _ f digest _ record := by
    subst here
    exact kept.recorded alive f digest (quiet ▸ nofun) record

/-- The same with files that were to be visited before. -/
theorem move_on (kept : Recorded setup md5 s) {before : Phase} (here : s.phase = before)
    (quiet : before.uploading = none) (alive : before ≠ .stopped)
    (within : phase.todo ⊆ before.todo) (quiet' : phase.uploading = none) :
    Recorded setup md5 { s with phase := phase } :=
  kept.move here quiet alive (fun f member => kept.listed f (here ▸ within member)) quiet'

/-- A listed file that gets a digest was known before. -/
theorem known_of_update (own : f ∈ s.new_list) {digest : δ} {g : List Char}
    (known : g ∈ s.new_list ∨ Function.update s.ssh_file_md5 f (some digest) g ≠ none) : s.Known g := by
  rcases known with inList | recorded
  · exact .inl inList
  · by_cases same : g = f
    · exact .inl (same ▸ own)
    · exact .inr (by rwa [Function.update_of_ne same] at recorded)

/-- The digest of the remote copy is recorded. -/
theorem record (kept : Recorded setup md5 s) (alive : s.phase ≠ .stopped) (own : f ∈ s.new_list)
    (upload : ∀ g, s.phase.uploading = some g → g = f)
    (copy : s.remote (setup.remote_file f) = some content)
    (within : ∀ f ∈ phase.todo, f ∈ s.new_list) (quiet : phase.uploading = none) :
    Recorded setup md5
      { s with ssh_file_md5 := Function.update s.ssh_file_md5 f (some (md5 content)), phase := phase } where
  apart g h knownG knownH := kept.apart g h (known_of_update own knownG) (known_of_update own knownH)
  listed := within
  copied f set_c content reading same := by
    obtain rfl : phase = _ := same
    exact nomatch quiet
  digested f file_list content same := by
    obtain rfl : phase = _ := same
    exact nomatch quiet
  recorded _ g digest _ record := by
    by_cases same : g = f
    · subst same
      obtain rfl := Option.some.inj ((Function.update_self g _ s.ssh_file_md5).symm.trans record)
      exact ⟨content, copy, rfl⟩
    · dsimp only at record
      rw [Function.update_of_ne same] at record
      exact kept.recorded alive g digest (fun upload' => same (upload g upload')) record

/-- The remote copies of the other files stay as they are. -/
theorem other_copy (kept : Recorded setup md5 s) (own : f ∈ s.new_list) {g : List Char}
    (known : s.Known g) (other : g ≠ f) :
    Function.update s.remote (setup.remote_file f) (some content)
      (setup.remote_file g) = s.remote (setup.remote_file g) :=
  Function.update_of_ne (fun same => other (kept.apart g f known (.inl own) same)) _ _

/-- A new file is uploaded. -/
theorem put (kept : Recorded setup md5 s) (own : f ∈ s.new_list) (alive : s.phase ≠ .stopped)
    (quiet : s.phase.uploading = none) {set_c : List (List Char)}
    (within : ∀ f ∈ set_c, f ∈ s.new_list) :
    Recorded setup md5 { s with
      remote := Function.update s.remote (setup.remote_file f) (some content)
      phase := .digest f set_c content none } where
  apart := kept.apart
  listed := List.forall_mem_cons.mpr ⟨own, within⟩
  copied := by
    rintro g set_c' content' reading ⟨⟩
    exact Function.update_self ..
  digested _ _ _ phase := nomatch phase
  recorded _ g digest other record := by
    have apart : g ≠ f := fun same => other (congrArg some same.symm)
    have known : s.Known g := .inr (Option.ne_none_iff_exists'.mpr ⟨digest, record⟩)
    dsimp only
    rw [kept.other_copy own known apart]
    exact kept.recorded alive g digest (quiet ▸ nofun) record

/-- A changed file is uploaded, with the digest that is recorded. -/
theorem put_changed (kept : Recorded setup md5 s) (own : f ∈ s.new_list) {file_list : List (List Char)}
    (here : s.phase = .put_changed f file_list content) (within : ∀ f ∈ file_list, f ∈ s.new_list) :
    Recorded setup md5 { s with
      remote := Function.update s.remote (setup.remote_file f) (some content)
      phase := .check file_list } where
  apart := kept.apart
  listed := within
  copied _ _ _ _ phase := nomatch phase
  digested _ _ _ phase := nomatch phase
  recorded _ g digest _ record := by
    dsimp only at record ⊢
    by_cases same : g = f
    · subst same
      obtain rfl := Option.some.inj ((kept.digested g _ _ here).symm.trans record)
      exact ⟨content, Function.update_self .., rfl⟩
    · have known : s.Known g := .inr (Option.ne_none_iff_exists'.mpr ⟨digest, record⟩)
      rw [kept.other_copy own known same]
      refine kept.recorded (by simp [here]) g digest ?_ record
      rw [here]
      exact fun upload => same (Option.some.inj upload).symm

/-- A new listing, of files with remote copies of their own. -/
theorem list_files (kept : Recorded setup md5 s) (here : s.phase = .list_files)
    {new_list set_c : List (List Char)} (within : ∀ f ∈ set_c, f ∈ new_list)
    (apart : ∀ f ∈ new_list, ∀ g, g ∈ new_list ∨ s.ssh_file_md5 g ≠ none →
      setup.remote_file f = setup.remote_file g → f = g) :
    Recorded setup md5 { s with new_list := new_list, phase := .new_files set_c } where
  apart := by
    rintro f g (listed | recorded) known same
    · exact apart f listed g known same
    · rcases known with listed' | recorded'
      · exact (apart g listed' f (.inr recorded) same.symm).symm
      · exact kept.apart f g (.inr recorded) (.inr recorded') same
  listed := within
  copied _ _ _ _ phase := nomatch phase
  digested _ _ _ phase := nomatch phase
  recorded _ f digest _ record := kept.recorded (by simp [here]) f digest
    (by simp [here, Phase.uploading]) record

/-- Reading on behind the upload of a new file. -/
theorem reads (kept : Recorded setup md5 s) {set_c : List (List Char)} {reading reading' : Option Reading}
    (here : s.phase = .digest f set_c content reading) :
    Recorded setup md5 { s with phase := .digest f set_c content reading' } where
  apart := kept.apart
  listed := by
    have listed := kept.listed
    rwa [here] at listed
  copied := by
    rintro _ _ _ _ ⟨⟩
    exact kept.copied f set_c content reading here
  digested _ _ _ phase := nomatch phase
  recorded _ g digest other record := kept.recorded (by simp [here]) g digest (by rwa [here]) record

/-- The new digest of a changed file is recorded before the upload. -/
theorem digest_changed (kept : Recorded setup md5 s) {file_list : List (List Char)}
    {reading : Option Reading} (here : s.phase = .compare f file_list reading)
    (digested : Content) :
    Recorded setup md5 { s with
      ssh_file_md5 := Function.update s.ssh_file_md5 f (some (md5 digested))
      phase := .put_changed f file_list digested } where
  apart g h knownG knownH := by
    have own : f ∈ s.new_list := kept.listed f (by simp [here, Phase.todo])
    exact kept.apart g h (known_of_update own knownG) (known_of_update own knownH)
  listed := by
    have listed := kept.listed
    rwa [here] at listed
  copied _ _ _ _ phase := nomatch phase
  digested := by
    rintro g file_list' content' ⟨⟩
    exact Function.update_self ..
  recorded _ g digest other record := by
    have apart : g ≠ f := fun same => other (congrArg some same.symm)
    dsimp only at record
    rw [Function.update_of_ne apart] at record
    exact kept.recorded (by simp [here]) g digest (by simp [here, Phase.uploading]) record

variable [DecidableEq δ]

theorem advance (kept : Recorded setup md5 s) (step : s.next setup md5 .advance = some t) :
    Recorded setup md5 t := by
  simp only [State.next] at step
  split at step
  · next here =>
    obtain rfl := Option.some.inj step
    exact kept.move_on here rfl nofun (List.Subset.refl _) rfl
  · next here =>
    obtain rfl := Option.some.inj step
    exact kept.move here rfl nofun (fun _ => id) rfl
  · next here =>
    obtain rfl := Option.some.inj step
    exact kept.move_on here rfl nofun (List.Subset.refl _) rfl
  · next here =>
    obtain rfl := Option.some.inj step
    exact kept.move_on here rfl nofun (List.nil_subset _) rfl
  · contradiction

theorem uploads (kept : Recorded setup md5 s) (step : s.next setup md5 .put = some t)
    (meets : s.Meets setup md5 (.put : Event δ)) : Recorded setup md5 t := by
  have listed := kept.listed
  simp only [State.next] at step
  split at step
  · next f set_c here =>
    obtain ⟨content, _, rfl⟩ := Option.map_eq_some_iff.mp step
    rw [here] at listed
    obtain ⟨own, within⟩ := List.forall_mem_cons.mp listed
    exact kept.put own (by simp [here]) (by simp [here, Phase.uploading]) within
  · next f file_list digested here =>
    obtain ⟨content, current, rfl⟩ := Option.map_eq_some_iff.mp step
    obtain rfl := Option.some.inj (current.symm.trans (meets f file_list digested here))
    rw [here] at listed
    obtain ⟨own, within⟩ := List.forall_mem_cons.mp listed
    exact kept.put_changed own here within
  · contradiction

theorem read (kept : Recorded setup md5 s) (step : s.next setup md5 .read = some t)
    (meets : s.Meets setup md5 (.read : Event δ)) : Recorded setup md5 t := by
  have listed := kept.listed
  simp only [State.next] at step
  split at step
  · next f set_c copied reading here =>
    split at step
    · next ended =>
      obtain rfl := Option.some.inj step
      have copy := kept.copied f set_c copied _ here
      rw [← meets f set_c copied reading here ended] at copy
      rw [here] at listed
      obtain ⟨own, within⟩ := List.forall_mem_cons.mp listed
      refine kept.record (by simp [here]) own (fun g upload => ?_) copy within rfl
      rw [here] at upload
      exact (Option.some.inj upload).symm
    · obtain rfl := Option.some.inj step
      exact kept.reads here
  · next f file_list reading here =>
    split at step
    · split at step
      · obtain rfl := Option.some.inj step
        exact kept.move_on here rfl nofun (List.nil_subset _) rfl
      · split at step
        · obtain rfl := Option.some.inj step
          exact kept.digest_changed here _
        · obtain rfl := Option.some.inj step
          exact kept.move_on here rfl nofun (List.subset_cons_self f file_list) rfl
    · obtain rfl := Option.some.inj step
      exact kept.move_on here rfl nofun (List.Subset.refl _) rfl
  · contradiction

theorem step (kept : Recorded setup md5 s) (step : MetStep setup md5 s event t) :
    Recorded setup md5 t := by
  obtain ⟨step, meets⟩ := step
  have listed := kept.listed
  rw [Step] at step
  cases event with
  | edit disk =>
    obtain rfl := Option.some.inj step
    exact ⟨kept.apart, kept.listed, kept.copied, kept.digested, kept.recorded⟩
  | list_files new_list set_c =>
    simp only [State.next] at step
    split at step
    · next here =>
      split at step
      · next new =>
        obtain rfl := Option.some.inj step
        exact kept.list_files here (fun f member => (new.2.1 f member).1) meets
      · contradiction
    · contradiction
  | advance => exact kept.advance step
  | stat_path =>
    simp only [State.next] at step
    split at step
    · next here =>
      obtain rfl := Option.some.inj step
      exact kept.move_on here rfl nofun (List.Subset.refl _) rfl
    · contradiction
  | stat found =>
    simp only [State.next] at step
    split at step
    · next here =>
      obtain rfl := Option.some.inj step
      cases found with
      | false => exact kept.move_on here rfl nofun (List.Subset.refl _) rfl
      | true => exact kept.move_on here rfl nofun (List.Subset.refl _) rfl
    · contradiction
  | md5sum answer =>
    cases answer with
    | none =>
      simp only [State.next] at step
      split at step
      · next here =>
        obtain rfl := Option.some.inj step
        exact kept.move_on here rfl nofun (List.Subset.refl _) rfl
      · contradiction
    | some answer =>
      simp only [State.next] at step
      split at step
      · next f set_c here =>
        obtain rfl := Option.some.inj step
        obtain ⟨content, copy, rfl⟩ := meets f set_c here
        rw [here] at listed
        obtain ⟨own, within⟩ := List.forall_mem_cons.mp listed
        exact kept.record (by simp [here]) own (by simp [here, Phase.uploading]) copy within rfl
      · contradiction
  | put => exact kept.uploads step meets
  | open_ =>
    simp only [State.next] at step
    split at step
    · next here =>
      obtain ⟨inode, _, rfl⟩ := Option.map_eq_some_iff.mp step
      exact kept.reads here
    · next here =>
      obtain ⟨inode, _, rfl⟩ := Option.map_eq_some_iff.mp step
      exact kept.move_on here rfl nofun (List.Subset.refl _) rfl
    · contradiction
  | read => exact kept.read step meets
  | sleep =>
    simp only [State.next] at step
    split at step
    · next here =>
      obtain rfl := Option.some.inj step
      exact kept.move_on here rfl nofun (List.nil_subset _) rfl
    · contradiction
  | raise =>
    obtain rfl := Option.some.inj step
    exact ⟨kept.apart, nofun, nofun, nofun, fun alive => absurd rfl alive⟩

end Recorded

end Invariant

variable {setup md5} [DecidableEq δ]

/-- In a run whose steps all meet the condition, the remote copies are those that the recorded digests stand for at
the end of every iteration. -/
theorem check_and_copy_files_synchronises (collisionFree : Function.Injective md5) {disk : Disk}
    {remote : List Char → Option Content} {events : List (Event δ)} {s : State δ}
    (run : Run (MetStep setup md5) (State.initial disk remote) events s) (ended : s.phase = .sleep) :
    s.Synchronised setup md5 := by
  have kept : Recorded setup md5 s := run.invariant (Recorded setup md5)
    (fun _ _ _ kept step => kept.step step)
    (recorded_initial disk remote)
  intro f content _ record
  obtain ⟨content', copy, same⟩ :=
    kept.recorded (by simp [ended]) f _ (by simp [ended, Phase.uploading]) record
  rwa [collisionFree same]

section Runs

/-- The state behind an event that is possible. -/
def State.after (setup : Setup) (md5 : Content → δ) (s : State δ) (event : Event δ) : State δ :=
  (s.next setup md5 event).getD s

theorem step_after {s : State δ} {event : Event δ} (possible : (s.next setup md5 event).isSome) :
    Step setup md5 s event (s.after setup md5 event) := by
  obtain ⟨t, step⟩ := Option.isSome_iff_exists.mp possible
  rw [Step, State.after, step, Option.getD_some]

theorem run_of_replays {events : List (Event δ)} {s : State δ}
    (replays : Run.Replays (fun s event => (s.next setup md5 event).isSome)
      (State.after setup md5) s events) :
    Run (Step setup md5) s events (events.foldl (State.after setup md5) s) := by
  refine (Run.of_replays events s replays).mono fun t event u step => ?_
  obtain ⟨possible, rfl⟩ := step
  exact step_after possible

theorem metRun_of_replays {events : List (Event δ)} {s : State δ}
    (replays : Run.Replays (fun s event => (s.next setup md5 event).isSome ∧ s.Meets setup md5 event)
      (State.after setup md5) s events) :
    Run (MetStep setup md5) s events (events.foldl (State.after setup md5) s) := by
  refine (Run.of_replays events s replays).mono fun t event u step => ?_
  obtain ⟨⟨possible, meets⟩, rfl⟩ := step
  exact ⟨step_after possible, meets⟩

/-- Copying from the current directory to `/r`. -/
private def toRemote : Setup where
  os := posixpath
  normpath := id
  local_path := "./".toList
  remote_path := "/r/".toList

/-- One file with this content. -/
private def oneFile (content : Content) : Disk where
  inode file_name := if file_name = "./f".toList then some 0 else none
  data _ := content

/-- The new file is uploaded, edited or not, and then read. -/
private def newFile (edits : List (Event Content)) : List (Event Content) :=
  [.list_files ["./f".toList] ["./f".toList], .advance, .stat_path, .stat false, .put] ++ edits ++
    [.open_, .read, .read, .advance, .advance, .open_, .read, .read, .advance]

/-- Without an edit the remote copy is the file. -/
theorem check_and_copy_files_synchronises_new : ∃ s : State Content,
    Run (MetStep toRemote id) (State.initial (oneFile [1]) fun _ => none) (newFile []) s ∧
    s.phase = .sleep ∧
      s.Synchronised toRemote id := by
  have replays : Run.Replays (fun s event => (State.next toRemote id s event).isSome ∧
    State.Meets toRemote id s event)
      (State.after toRemote id) (State.initial (oneFile [1]) fun _ => none) (newFile []) := by
    refine ⟨⟨rfl, ?_⟩, ⟨rfl, trivial⟩, ⟨rfl, trivial⟩, ⟨rfl, trivial⟩, ⟨rfl, nofun⟩, ⟨rfl, trivial⟩,
      ⟨rfl, ?_⟩, ⟨rfl, ?_⟩, ⟨rfl, trivial⟩, ⟨rfl, trivial⟩, ⟨rfl, trivial⟩, ⟨rfl, nofun⟩,
      ⟨rfl, nofun⟩, ⟨rfl, trivial⟩, trivial⟩
    · intro f listed g known _
      have only : g = "./f".toList := known.elim List.mem_singleton.mp fun recorded => absurd rfl recorded
      exact (List.mem_singleton.mp listed).trans only.symm
    · rintro _ _ _ _ ⟨⟩ ended
      exact absurd ended (by decide)
    · rintro _ _ _ _ ⟨⟩ _
      rfl
  have run := metRun_of_replays replays
  exact ⟨_, run, rfl, check_and_copy_files_synchronises Function.injective_id run rfl⟩

/-- An edit between the upload and the digest is recorded as uploaded. -/
theorem check_and_copy_files_loses_edit : ∃ s : State Content,
    Run (Step toRemote id) (State.initial (oneFile [1]) fun _ => none) (newFile [.edit (oneFile [2])]) s ∧
      s.phase = .sleep ∧ ¬ s.Synchronised toRemote id := by
  have replays : Run.Replays (fun s event => (State.next toRemote id s event).isSome = true)
      (State.after toRemote id) (State.initial (oneFile [1]) fun _ => none)
      (newFile [.edit (oneFile [2])]) :=
    ⟨rfl, rfl, rfl, rfl, rfl, rfl, rfl, rfl, rfl, rfl, rfl, rfl, rfl, rfl, rfl, trivial⟩
  refine ⟨_, run_of_replays replays, rfl, fun synchronised => ?_⟩
  have lost := synchronised "./f".toList [2] rfl rfl
  exact absurd lost (by decide)

end Runs

end LinuxZero.CodeScp
