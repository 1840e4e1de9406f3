import Mathlib.Data.List.Basic

/-! # `os.path.join`

`os.path` is `posixpath` or `ntpath`. Both put a relative name behind a path, with a separator between them where
the path needs one: behind a path that ends with a name it always does.
-/

namespace LinuxZero.CodeScp

/-- The parts of `os.path` that the walk over a directory tree rests on. -/
structure OsPath where
  sep : Char
  /-- No name of a file or directory holds one of these. -/
  reserved : List Char
  join : List Char → List Char → List Char
  /-- What is put between a path and a relative name. -/
  glue : List Char → List Char
  sep_reserved : sep ∈ reserved
  join_relative (path name rest : List Char) : name ≠ [] → (∀ c ∈ name, c ∉ reserved) →
    (∀ c ∈ rest, c ∈ reserved → c = sep) →
    join path (name ++ rest) = path ++ (glue path ++ (name ++ rest))
  glue_name (path name : List Char) : name ≠ [] → (∀ c ∈ name, c ∉ reserved) → glue (path ++ name) = [sep]

section Posix

/-- Nothing behind an empty path or one that ends with a separator. -/
def posixGlue (path : List Char) : List Char :=
  if path = [] ∨ path.getLast? = some '/' then [] else ['/']

/-- `posixpath.join`. -/
def posixJoin (path b : List Char) : List Char :=
  if b.head? = some '/' then b
  else if path = [] ∨ path.getLast? = some '/' then path ++ b
  else path ++ '/' :: b

theorem posixJoin_relative (path name rest : List Char) (some_ : name ≠ [])
    (legal : ∀ c ∈ name, c ∉ ['/']) :
    posixJoin path (name ++ rest) = path ++ (posixGlue path ++ (name ++ rest)) := by
  obtain ⟨head, tail, rfl⟩ := List.exists_cons_of_ne_nil some_
  have relative : ¬ (head :: tail ++ rest).head? = some '/' := by
    intro absolute
    exact legal head List.mem_cons_self (List.mem_singleton.mpr (Option.some.inj absolute))
  rw [posixJoin, if_neg relative, posixGlue]
  split <;> rfl

theorem posixGlue_name (path name : List Char) (some_ : name ≠ []) (legal : ∀ c ∈ name, c ∉ ['/']) :
    posixGlue (path ++ name) = ['/'] := by
  refine if_neg ?_
  rintro (empty | last)
  · exact some_ (List.append_eq_nil_iff.mp empty).2
  · rw [List.getLast?_append_of_ne_nil _ some_] at last
    exact legal '/' (List.mem_of_getLast? last) (List.mem_singleton.mpr rfl)

def posixpath : OsPath where
  sep := '/'
  reserved := ['/']
  join := posixJoin
  glue := posixGlue
  sep_reserved := List.mem_singleton.mpr rfl
  join_relative path name rest some_ legal _ := posixJoin_relative path name rest some_ legal
  glue_name := posixGlue_name

end Posix

section Windows

abbrev seps : List Char := ['\\', '/']

abbrev colon_seps : List Char := [':', '\\', '/']

/-- `normp.find(sep, start)`. -/
def findSep (normp : List Char) (start : ℕ) : Option ℕ :=
  ((normp.drop start).findIdx? (· = '\\')).map (start + ·)

/-- `ntpath.splitroot`: the drive, the root and the rest of a path. -/
def splitroot (p : List Char) : List Char × List Char × List Char :=
  let normp := p.map fun c => if c = '/' then '\\' else c
  if normp[0]? = some '\\' then
    if normp[1]? = some '\\' then
      let start := if (normp.take 8).map Char.toUpper = ['\\', '\\', '?', '\\', 'U', 'N', 'C', '\\']
        then 8 else 2
      match findSep normp start with
      | none => (p, [], [])
      | some index =>
        match findSep normp (index + 1) with
        | none => (p, [], [])
        | some index2 => (p.take index2, (p.drop index2).take 1, p.drop (index2 + 1))
    else ([], p.take 1, p.drop 1)
  else if normp[1]? = some ':' then
    if normp[2]? = some '\\' then (p.take 2, (p.drop 2).take 1, p.drop 3) else (p.take 2, [], p.drop 2)
  else ([], [], p)

/-- The path ends with one of these characters. -/
def endsIn (chars path : List Char) : Bool := path.getLast?.any (chars.contains ·)

/-- `ntpath.join`. -/
def ntJoin (path p : List Char) : List Char :=
  let (result_drive, result_root, result_path) := splitroot path
  let (p_drive, p_root, p_path) := splitroot p
  let (result_drive, result_root, result_path) :=
    if p_root ≠ [] then (if p_drive ≠ [] ∨ result_drive = [] then p_drive else result_drive,
      p_root, p_path)
    else if p_drive ≠ [] ∧ p_drive ≠ result_drive ∧
    p_drive.map Char.toLower ≠ result_drive.map Char.toLower then
      (p_drive, p_root, p_path)
    else
      (if p_drive ≠ [] then p_drive else result_drive, result_root,
        (if result_path ≠ [] ∧ !endsIn seps result_path then result_path ++ ['\\']
        else result_path) ++ p_path)
  if result_path ≠ [] ∧ result_root = [] ∧ result_drive ≠ [] ∧ !endsIn colon_seps result_drive then
    result_drive ++ '\\' :: result_path
  else result_drive ++ (result_root ++ result_path)

/-- Nothing behind an empty path, a separator or the colon of a drive. -/
def ntGlue (path : List Char) : List Char :=
  let (drive, root, tail) := splitroot path
  if tail ≠ [] then if endsIn seps tail then [] else ['\\']
  else if root = [] ∧ drive ≠ [] ∧ !endsIn colon_seps drive then ['\\']
  else []

/-- The parts of a path: a root is one separator, and without a root only a drive with a colon has a rest. -/
structure Parts (p drive root tail : List Char) : Prop where
  whole : drive ++ (root ++ tail) = p
  rooted : root = [] ∨ ∃ c ∈ seps, root = [c]
  driven : root = [] → tail = [] ∨ drive = [] ∨ endsIn colon_seps drive = true

theorem exists_of_norm {p : List Char} {index : ℕ}
    (here : (p.map fun c => if c = '/' then '\\' else c)[index]? = some '\\') :
    ∃ c ∈ seps, p[index]? = some c := by
  rw [List.getElem?_map] at here
  obtain ⟨c, found, same⟩ := Option.map_eq_some_iff.mp here
  refine ⟨c, ?_, found⟩
  by_cases slash : c = '/'
  · simp [slash]
  · rw [if_neg slash] at same
    simp [same]

/-- A path cut at a separator. -/
theorem parts_at {p : List Char} {index : ℕ} {c : Char} (found : p[index]? = some c) (isSep : c ∈ seps) :
    Parts p (p.take index) ((p.drop index).take 1) (p.drop (index + 1)) := by
  obtain ⟨bound, rfl⟩ := List.getElem?_eq_some_iff.mp found
  have one : (p.drop index).take 1 = [p[index]] := by
    rw [List.drop_eq_getElem_cons bound]
    rfl
  refine ⟨?_, .inr ⟨_, isSep, one⟩, fun empty => absurd (one.symm.trans empty) (List.cons_ne_nil _ _)⟩
  rw [← List.drop_drop, List.take_append_drop, List.take_append_drop]

theorem findSep_spec {normp : List Char} {start index : ℕ} (found : findSep normp start = some index) :
    normp[index]? = some '\\' := by
  obtain ⟨k, at_, rfl⟩ := Option.map_eq_some_iff.mp found
  obtain ⟨bound, isSep, _⟩ := List.findIdx?_eq_some_iff_getElem.mp at_
  rw [← List.getElem?_drop, List.getElem?_eq_getElem bound]
  exact congrArg some (of_decide_eq_true isSep)

theorem splitroot_parts (p : List Char) :
    Parts p (splitroot p).1 (splitroot p).2.1 (splitroot p).2.2 := by
  have all : Parts p p [] [] := ⟨by simp, .inl rfl, fun _ => .inl rfl⟩
  unfold splitroot
  dsimp only
  split
  · next first =>
    obtain ⟨c, isSep, found⟩ := exists_of_norm first
    split
    · split
      · exact all
      · split
        · exact all
        · next at_ =>
          obtain ⟨c, isSep, found⟩ := exists_of_norm (findSep_spec at_)
          exact parts_at found isSep
    · exact parts_at found isSep
  · split
    · next colon =>
      split
      · next at_ =>
        obtain ⟨c, isSep, found⟩ := exists_of_norm at_
        exact parts_at found isSep
      · refine ⟨by simp, .inl rfl, fun _ => .inr (.inr ?_)⟩
        match p, colon with
        | _ :: c :: _, colon =>
          simp only [List.map_cons, List.getElem?_cons_succ, List.getElem?_cons_zero,
            Option.some.injEq] at colon
          have isColon : c = ':' := by
            by_contra other
            split at colon
            · exact absurd colon (by decide)
            · exact other colon
          simp [endsIn, isColon]
    · exact ⟨rfl, .inl rfl, fun _ => .inr (.inl rfl)⟩

/-- A relative name has neither a drive nor a root. -/
theorem splitroot_relative {name rest : List Char} (some_ : name ≠ [])
    (legal : ∀ c ∈ name, c ∉ colon_seps) (separated : ∀ c ∈ rest, c ∈ colon_seps → c = '\\') :
    splitroot (name ++ rest) = ([], [], name ++ rest) := by
  obtain ⟨head, tail, rfl⟩ := List.exists_cons_of_ne_nil some_
  have noRoot : ¬ ((head :: tail ++ rest).map fun c => if c = '/' then '\\' else c)[0]? = some '\\' := by
    intro first
    obtain ⟨c, isSep, found⟩ := exists_of_norm first
    obtain rfl := Option.some.inj found
    exact legal _ List.mem_cons_self (List.mem_cons_of_mem _ isSep)
  have noDrive : ¬ ((head :: tail ++ rest).map fun c => if c = '/' then '\\' else c)[1]? = some ':' := by
    intro colon
    rw [List.getElem?_map] at colon
    obtain ⟨c, found, same⟩ := Option.map_eq_some_iff.mp colon
    have isColon : c = ':' := by
      by_contra other
      split at same
      · exact absurd same (by decide)
      · exact other same
    rcases List.mem_append.mp (List.mem_of_getElem? found) with inName | inRest
    · exact legal c inName (by simp [isColon])
    · exact absurd (separated c inRest (by simp [isColon])) (by simp [isColon])
  rw [splitroot]
  dsimp only
  rw [if_neg noRoot, if_neg noDrive]

theorem ntJoin_relative (path name rest : List Char) (some_ : name ≠ [])
    (legal : ∀ c ∈ name, c ∉ colon_seps) (separated : ∀ c ∈ rest, c ∈ colon_seps → c = '\\') :
    ntJoin path (name ++ rest) = path ++ (ntGlue path ++ (name ++ rest)) := by
  have parts := splitroot_parts path
  have longer : name ++ rest ≠ [] := fun empty => some_ (List.append_eq_nil_iff.mp empty).1
  rw [ntJoin, splitroot_relative some_ legal separated, ntGlue]
  generalize splitroot path = split_ at parts
  obtain ⟨drive, root, tail⟩ := split_
  dsimp only at parts ⊢
  have whole := parts.whole
  by_cases noTail : tail = []
  · subst noTail
    rw [List.append_nil] at whole
    by_cases bare : root = [] ∧ ¬ drive = [] ∧ endsIn colon_seps drive = false
    · simp [bare, longer, ← whole]
    · simp [bare, longer, ← whole]
  · have noGap : ¬ (root = [] ∧ ¬ drive = [] ∧ endsIn colon_seps drive = false) := by
      rintro ⟨rootless, someDrive, open_⟩
      rcases parts.driven rootless with empty | empty | colon
      · exact noTail empty
      · exact someDrive empty
      · exact absurd (open_.symm.trans colon) (by decide)
    cases endsIn seps tail with
    | true => simp [noTail, noGap, ← whole]
    | false => simp [noTail, noGap, ← whole]

theorem endsIn_append {chars path name : List Char} (some_ : name ≠ []) :
    endsIn chars (path ++ name) = endsIn chars name := by
  rw [endsIn, List.getLast?_append_of_ne_nil _ some_, endsIn]

theorem endsIn_name {chars name : List Char} (legal : ∀ c ∈ name, c ∉ chars) :
    endsIn chars name = false := by
  rw [endsIn]
  cases last : name.getLast? with
  | none => rfl
  | some c => simpa using legal c (List.mem_of_getLast? last)

/-- Behind a name a separator is needed. -/
theorem ntGlue_name (path name : List Char) (some_ : name ≠ []) (legal : ∀ c ∈ name, c ∉ colon_seps) :
    ntGlue (path ++ name) = ['\\'] := by
  have parts := splitroot_parts (path ++ name)
  have closed : endsIn colon_seps (path ++ name) = false := (endsIn_append some_).trans
    (endsIn_name legal)
  have closed' : endsIn seps (path ++ name) = false :=
    (endsIn_append some_).trans
      (endsIn_name fun c member isSep => legal c member (List.mem_cons_of_mem _ isSep))
  rw [ntGlue]
  generalize splitroot (path ++ name) = split_ at parts
  obtain ⟨drive, root, tail⟩ := split_
  dsimp only at parts ⊢
  rw [← parts.whole] at closed closed'
  by_cases noTail : tail = []
  · subst noTail
    rw [List.append_nil] at closed closed'
    rcases parts.rooted with rfl | ⟨c, isSep, rfl⟩
    · have someDrive : drive ≠ [] := by
        rintro rfl
        exact some_ (List.append_eq_nil_iff.mp parts.whole.symm).2
      rw [List.append_nil] at closed
      simp [someDrive, closed]
    · rw [endsIn_append (List.cons_ne_nil _ _)] at closed'
      exact absurd closed' (by simpa [endsIn, ← or_iff_not_imp_left] using isSep)
  · rw [← List.append_assoc, endsIn_append noTail] at closed'
    simp [noTail, closed']

def ntpath : OsPath where
  sep := '\\'
  reserved := colon_seps
  join := ntJoin
  glue := ntGlue
  sep_reserved := by decide
  join_relative := ntJoin_relative
  glue_name := ntGlue_name

end Windows

end LinuxZero.CodeScp
