import LinuxZero.CodeScp.OsPath
import LinuxZero.Lib.JoinedNames
import Mathlib.Data.List.Induction

/-! # Listing the files to synchronise

`list_files` walks a directory tree and leaves out the directories whose path begins with that of a filtered one.
It compares characters, not names: a directory beside a filtered one is left out too when its name is longer and
begins the same.
-/

namespace LinuxZero.CodeScp

/-- The name of a file or a directory. -/
structure Name (os : OsPath) where
  chars : List Char
  some_ : chars ≠ []
  legal : ∀ c ∈ chars, c ∉ os.reserved
  ordinary : chars ≠ ['.'] ∧ chars ≠ ['.', '.']
deriving DecidableEq

/-- The content of a directory, in the order of `os.scandir`. -/
inductive Entries (os : OsPath) where
  | nil
  | file (name : Name os) (rest : Entries os)
  | dir (name : Name os) (inside rest : Entries os)

namespace Entries

variable {os : OsPath}

def dirs : Entries os → List (Name os)
  | nil => []
  | file _ rest => rest.dirs
  | dir name _ rest => name :: rest.dirs

def files : Entries os → List (Name os)
  | nil => []
  | file name rest => name :: rest.files
  | dir _ _ rest => rest.files

/-- What `os.walk` yields below a directory with this path. -/
def subwalk (top : List Char) : Entries os → List (List Char × List (Name os) × List (Name os))
  | nil => []
  | file _ rest => rest.subwalk top
  | dir name inside rest =>
    let new_path := os.join top name.chars
    (new_path, inside.dirs, inside.files) :: inside.subwalk new_path ++ rest.subwalk top

/-- `os.walk`: each directory with its path, its subdirectories and its files, from the top on. -/
def walk (top : List Char) (tree : Entries os) : List (List Char × List (Name os) × List (Name os)) :=
  (top, tree.dirs, tree.files) :: tree.subwalk top

end Entries

/-- `os.path.commonprefix` of two paths: character by character. -/
def commonprefix : List Char → List Char → List Char
  | a :: as, b :: bs => if a = b then a :: commonprefix as bs else []
  | _, _ => []

def is_subdirectory (path : List Char) (parents : List (List Char)) : Bool :=
  parents.any fun parent =>
    let common_prefix := commonprefix path parent
    common_prefix = parent ∧ path.length ≥ parent.length

def list_files {os : OsPath} (startpath : List Char) (tree : Entries os)
    (filter : List (List Char)) : List (List Char) :=
  let filter_prefixed_paths := filter.map (os.join startpath)
  (tree.walk startpath).flatMap fun (root, _, files) =>
    if is_subdirectory root filter_prefixed_paths then [] else files.map fun file =>
      os.join root file.chars

section Places

variable {os : OsPath}

/-- A file of a tree: the directories above it, from the top on, and its name. -/
abbrev Place (os : OsPath) := List (Name os) × Name os

/-- The files below a directory. -/
def Entries.deeper (above : List (Name os)) : Entries os → List (Place os)
  | .nil => []
  | .file _ rest => rest.deeper above
  | .dir name inside rest =>
    inside.files.map (above ++ [name], ·) ++ inside.deeper (above ++ [name]) ++ rest.deeper above

/-- All files of a tree, each once, in the order of the walk. -/
def Entries.places (tree : Entries os) : List (Place os) := tree.files.map ([], ·) ++ tree.deeper []

def dirPath (startpath : List Char) (above : List (Name os)) : List Char :=
  above.foldl (fun path name => os.join path name.chars) startpath

def filePath (startpath : List Char) (place : Place os) : List Char :=
  os.join (dirPath startpath place.1) place.2.chars

/-- A relative directory name. -/
structure Relative (os : OsPath) where
  components : List (Name os)
  some_ : components ≠ []

def Relative.str (f : Relative os) : List Char := JoinedNames.text os.sep (f.components.map Name.chars)

/-- A filtered directory is among the ancestors of the file. -/
def Filtered (filter : List (Relative os)) (place : Place os) : Prop :=
  ∃ f ∈ filter, f.components <+: place.1

instance (filter : List (Relative os)) (place : Place os) : Decidable (Filtered filter place) :=
  inferInstanceAs (Decidable (∃ f ∈ filter, f.components <+: place.1))

/-- One of the ancestors lies beside a filtered directory and has a longer name that begins with its name. -/
def BesideFiltered (filter : List (Relative os)) (place : Place os) : Prop :=
  ∃ f ∈ filter, JoinedNames.Resembles (f.components.map Name.chars) (place.1.map Name.chars)

/-- The paths of the files that are not below a filtered directory. -/
def wanted (startpath : List Char) (tree : Entries os) (filter : List (Relative os)) : List (List Char) :=
  (tree.places.filter fun place => ¬ Filtered filter place).map (filePath startpath)

end Places

section Prefixes

theorem commonprefix_eq_iff (path parent : List Char) : commonprefix path parent = parent ↔
    parent <+: path := by
  induction parent generalizing path with
  | nil => cases path <;> simp [ commonprefix]
  | cons b bs ih =>
    cases path with
    | nil => simp [ commonprefix]
    | cons a as =>
      rw [ commonprefix, List.cons_prefix_cons, ← ih as]
      by_cases same : a = b
      · rw [if_pos same, same, List.cons_inj_right]
        exact (and_iff_right rfl).symm
      · rw [if_neg same]
        exact iff_of_false (List.cons_ne_nil _ _).symm fun both => same both.1.symm

theorem is_subdirectory_iff (path : List Char) (parents : List (List Char)) :
    is_subdirectory path parents = true ↔ ∃ parent ∈ parents, parent <+: path := by
  simp only [is_subdirectory, List.any_eq_true, decide_eq_true_eq]
  refine exists_congr fun parent => and_congr_right fun _ => ?_
  rw [commonprefix_eq_iff]
  exact and_iff_left_of_imp List.IsPrefix.length_le

variable {os : OsPath}

theorem join_name (path : List Char) (name : Name os) : os.join path name.chars =
    path ++ (os.glue path ++ name.chars) := by
  have joined := os.join_relative path name.chars [] name.some_ name.legal fun c member => nomatch member
  rwa [List.append_nil] at joined

theorem dirPath_append (startpath : List Char) (above : List (Name os)) (name : Name os) :
    dirPath startpath (above ++ [name]) = os.join (dirPath startpath above) name.chars := by
  rw [dirPath, List.foldl_append]
  rfl

/-- A directory's path is the start path and the text of the names behind it. -/
theorem dirPath_eq (startpath : List Char) {above : List (Name os)} (some_ : above ≠ []) :
    dirPath startpath above =
    startpath ++ (os.glue startpath ++ JoinedNames.text os.sep (above.map Name.chars)) := by
  induction above using List.reverseRecOn with
  | nil => contradiction
  | append_singleton front last ih =>
    rw [dirPath_append, List.map_append, List.map_singleton]
    rcases List.eq_nil_or_concat front with rfl | ⟨front, name, rfl⟩
    · rw [List.map_nil, List.nil_append, JoinedNames.text_single]
      exact join_name startpath last
    · rw [List.concat_eq_append] at ih ⊢
      have more : front ++ [name] ≠ [] := List.append_ne_nil_of_right_ne_nil _ (List.cons_ne_nil _ _)
      have glue : os.glue (dirPath startpath (front ++ [name])) = [os.sep] := by
        rw [dirPath_append, join_name, ← List.append_assoc]
        exact os.glue_name _ _ name.some_ name.legal
      rw [join_name, glue, ih more, JoinedNames.text_append_single (by simp)]
      simp only [List.append_assoc, List.singleton_append]

theorem join_str (startpath : List Char) (f : Relative os) :
    os.join startpath f.str = startpath ++ (os.glue startpath ++ f.str) := by
  obtain ⟨first, others, split⟩ := List.exists_cons_of_ne_nil f.some_
  obtain ⟨rest, text, chars⟩ := @JoinedNames.text_first _ os.sep first.chars (others.map Name.chars)
  rw [Relative.str, split, List.map_cons, text]
  refine os.join_relative startpath _ rest first.some_ first.legal fun c member reserved => ?_
  rcases chars c member with same | ⟨other, isOther, inOther⟩
  · exact same
  · obtain ⟨name, _, rfl⟩ := List.mem_map.mp isOther
    exact absurd reserved (name.legal c inOther)

theorem str_ne_nil (f : Relative os) : f.str ≠ [] := by
  obtain ⟨first, others, split⟩ := List.exists_cons_of_ne_nil f.some_
  obtain ⟨rest, text, _⟩ := @JoinedNames.text_first _ os.sep first.chars (others.map Name.chars)
  rw [Relative.str, split, List.map_cons, text]
  exact List.append_ne_nil_of_left_ne_nil first.some_ rest

theorem clean (names : List (Name os)) : JoinedNames.Clean os.sep (names.map Name.chars) := by
  intro chars member
  obtain ⟨name, _, rfl⟩ := List.mem_map.mp member
  exact fun holds => name.legal _ holds os.sep_reserved

/-- The paths of two directories compare like their texts. -/
theorem str_prefix_iff (startpath : List Char) (f : Relative os) (above : List (Name os)) :
    os.join startpath f.str <+: dirPath startpath above ↔
      f.components <+: above ∨ JoinedNames.Resembles (f.components.map Name.chars)
    (above.map Name.chars) := by
  have someNames : f.components.map Name.chars ≠ [] := fun empty => f.some_ (List.map_eq_nil_iff.mp empty)
  have injective : Function.Injective (Name.chars : Name os → List Char) := by
    rintro ⟨_, _, _, _⟩ ⟨_, _, _, _⟩ rfl
    rfl
  rw [join_str, ← List.prefix_map_iff_of_injective injective, ← JoinedNames.begins_iff someNames]
  by_cases top : above = []
  · subst top
    -- the start path is shorter than the path of every filtered directory
    apply iff_of_false
    · intro isPrefix
      have short := isPrefix.length_le
      have longer := List.length_pos_of_ne_nil (str_ne_nil f)
      change _ ≤ startpath.length at short
      rw [List.length_append, List.length_append] at short
      omega
    · rintro ⟨front, last, name, rest, _, empty, _⟩
      exact absurd empty.symm (by simp)
  · have someAbove : above.map Name.chars ≠ [] := fun empty => top (List.map_eq_nil_iff.mp empty)
    rw [dirPath_eq startpath top, List.prefix_append_right_inj, List.prefix_append_right_inj,
      Relative.str, JoinedNames.text_prefix_iff someNames someAbove (clean _) (clean _)]

theorem excluded_iff (startpath : List Char) (filter : List (Relative os)) (place : Place os) :
    is_subdirectory (dirPath startpath place.1)
      ((filter.map Relative.str).map (os.join startpath)) = true ↔
      Filtered filter place ∨ BesideFiltered filter place := by
  rw [is_subdirectory_iff, Filtered, BesideFiltered]
  simp only [List.mem_map, exists_exists_and_eq_and, str_prefix_iff, and_or_left, exists_or]

end Prefixes

section Walk

variable {os : OsPath} (startpath : List Char) (parents : List (List Char))

/-- The file is in a directory that is not left out. -/
def Listed (place : Place os) : Bool := !is_subdirectory (dirPath startpath place.1) parents

/-- What one directory of the walk adds to the list. -/
def listDirectory (visit : List Char × List (Name os) × List (Name os)) : List (List Char) :=
  if is_subdirectory visit.1 parents then [] else visit.2.2.map fun file => os.join visit.1 file.chars

theorem listDirectory_eq (above dirs files : List (Name os)) :
    listDirectory parents (dirPath startpath above, dirs, files) =
    ((files.map (above, ·)).filter (Listed startpath parents)).map (filePath startpath) := by
  rw [List.filter_map, List.map_map, listDirectory]
  cases excluded : is_subdirectory (dirPath startpath above) parents with
  | true => simp [Listed, excluded, Function.comp_def]
  | false => simp [Listed, excluded, Function.comp_def, filePath]

/-- Below a directory the walk adds the files that are not left out, in their order. -/
theorem subwalk_eq (above : List (Name os)) (tree : Entries os) :
    (tree.subwalk (dirPath startpath above)).flatMap (listDirectory parents) =
      ((tree.deeper above).filter (Listed startpath parents)).map (filePath startpath) := by
  induction tree generalizing above with
  | nil => rfl
  | file name rest ih => exact ih above
  | dir name inside rest inner outer =>
    simp only [Entries.subwalk, Entries.deeper, List.flatMap_cons, List.cons_append,
      List.flatMap_append, List.filter_append, List.map_append, ← dirPath_append, listDirectory_eq,
      inner, outer, List.append_assoc]

theorem list_files_eq (tree : Entries os) (filter : List (List Char)) : list_files startpath tree filter =
    (tree.places.filter (Listed startpath (filter.map (os.join startpath)))).map
      (filePath startpath) := by
  rw [Entries.places, List.filter_append, List.map_append, ← subwalk_eq,
    ← listDirectory_eq startpath _ [] tree.dirs]
  rfl

end Walk

/-- The sublist of a stronger condition is the whole one only if the conditions agree on the list. -/
theorem map_filter_eq_iff {α β : Type*} {l : List α} {p q : α → Bool}
    (stronger : ∀ x ∈ l, p x → q x) (f : α → β) :
    (l.filter p).map f = (l.filter q).map f ↔ ∀ x ∈ l, q x → p x := by
  have within : l.filter p = (l.filter q).filter p := by
    rw [List.filter_filter]
    refine List.filter_congr fun x member => ?_
    cases holds : p x with
    | true => rw [stronger x member holds, Bool.and_self]
    | false => rw [Bool.false_and]
  constructor
  · intro same x member wanted
    have lengths := congrArg List.length same
    rw [List.length_map, List.length_map, within, List.length_filter_eq_length_iff] at lengths
    exact lengths x (List.mem_filter.mpr ⟨member, wanted⟩)
  · intro weaker
    rw [List.filter_congr fun x member => Bool.eq_iff_iff.mpr ⟨stronger x member, weaker x member⟩]

variable {os : OsPath}

/-- The files outside the filtered directories are listed, and no others, exactly when each file below a directory
whose name merely begins with that of a filtered one beside it is below a filtered directory as well. -/
theorem list_files_eq_iff (startpath : List Char) (tree : Entries os) (filter : List (Relative os)) :
    list_files startpath tree (filter.map Relative.str) = wanted startpath tree filter ↔
      ∀ place ∈ tree.places, BesideFiltered filter place → Filtered filter place := by
  rw [list_files_eq, wanted, map_filter_eq_iff]
  · refine forall₂_congr fun place _ => ?_
    simp only [Listed, Bool.not_eq_true', ← Bool.not_eq_true, excluded_iff, decide_eq_true_eq]
    tauto
  · intro place _ listed
    simp only [Listed, Bool.not_eq_true', ← Bool.not_eq_true, excluded_iff, decide_eq_true_eq] at listed ⊢
    exact fun filtered => listed (.inl filtered)

private def git : Name posixpath := ⟨['.', 'g', 'i', 't'], nofun, by simp [posixpath], nofun, nofun⟩

private def github : Name posixpath :=
  ⟨['.', 'g', 'i', 't', 'h', 'u', 'b'], nofun, by simp [posixpath], nofun, nofun⟩

private def config : Name posixpath :=
  ⟨['c', 'o', 'n', 'f', 'i', 'g'], nofun, by simp [posixpath], nofun, nofun⟩

/-- A file in the directory `.github`. -/
private def githubTree : Entries posixpath := .dir github (.file config .nil) .nil

private def gitFilter : List (Relative posixpath) := [⟨[git], by decide⟩]

/-- With `.git` filtered, the files in `.github` are not listed. -/
theorem list_files_github :
    list_files ['.'] githubTree (gitFilter.map Relative.str) ≠
    wanted ['.'] githubTree gitFilter := by decide

end LinuxZero.CodeScp
