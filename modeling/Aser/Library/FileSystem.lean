import Mathlib.Data.List.Basic

namespace Aser.Library

/-- What the lookups of a process see: files of type `ι`, each directory with its entries. An entry that is
a link stands for the file the link leads to. -/
structure FileSystem (ι : Type*) where
  root : ι
  cwd : ι
  isDirectory : ι → Bool
  executable : ι → Bool
  entry : ι → List Char → Option ι
  root_isDirectory : isDirectory root = true
  cwd_isDirectory : isDirectory cwd = true
  not_executable_of_isDirectory {file : ι} : isDirectory file = true → executable file = false
  isDirectory_of_entry {dir : ι} {name : List Char} {file : ι} : entry dir name = some file → isDirectory dir = true

namespace FileSystem

variable {ι : Type*} (fs : FileSystem ι)

/-- One component of a path. An empty one, as two slashes make it, stays in a directory. -/
def step (file : ι) (name : List Char) : Option ι :=
  if name = [] then if fs.isDirectory file then some file else none else fs.entry file name

def walk (file : ι) : List (List Char) → Option ι
  | [] => some file
  | name :: names => (fs.step file name).bind fun next => walk next names

def start (path : List Char) : ι := if path.head? = some '/' then fs.root else fs.cwd

/-- The file a path leads to. -/
def stat (path : List Char) : Option ι :=
  if path = [] then none else fs.walk (fs.start path) (path.splitOn '/')

/-- Where a search tries for `name` in one of its directories; an empty one is the working directory. -/
def candidate (dir name : List Char) : List Char := if dir = [] then name else dir ++ '/' :: name

/-- The search for a program: the first candidate that there is and that can be executed. -/
def search (dirs : List (List Char)) (name : List Char) : Option ι :=
  dirs.findSome? fun dir => (fs.stat (candidate dir name)).filter fs.executable

/-- The directory that an element of a search list stands for. -/
def directory (dir : List Char) : Option ι := if dir = [] then some fs.cwd else fs.stat dir

/-- The program called `name` in such a directory. -/
def programIn (name dir : List Char) : Option ι :=
  ((fs.directory dir).bind fun d => fs.entry d name).filter fs.executable

/-- `program` is what the first of the directories has that has a program called `name`. -/
def FirstProgram (dirs : List (List Char)) (name : List Char) (program : ι) : Prop :=
  ∃ before dir after, dirs = before ++ dir :: after ∧ fs.programIn name dir = some program ∧
    ∀ earlier ∈ before, fs.programIn name earlier = none

@[simp] theorem stat_nil : fs.stat [] = none := if_pos rfl

theorem step_of_ne_nil (file : ι) {name : List Char} (named : name ≠ []) : fs.step file name = fs.entry file name :=
  if_neg named

theorem walk_append (file : ι) (names more : List (List Char)) :
    fs.walk file (names ++ more) = (fs.walk file names).bind fun next => fs.walk next more := by
  induction names generalizing file with
  | nil => rfl
  | cons name names ih =>
    rw [List.cons_append, walk, walk, Option.bind_assoc]
    congr 1
    funext next
    exact ih next

theorem walk_singleton (file : ι) (name : List Char) : fs.walk file [name] = fs.step file name :=
  Option.bind_fun_some _

variable {name : List Char} (named : name ≠ []) (bare : '/' ∉ name)
include named bare

/-- A name without a slash is an entry of the working directory. -/
theorem stat_bare : fs.stat name = fs.entry fs.cwd name := by
  have relative : name.head? ≠ some '/' := fun slash => bare (List.mem_of_mem_head? slash)
  rw [stat, if_neg named, start, if_neg relative, List.splitOn_eq_singleton bare, walk_singleton,
    fs.step_of_ne_nil _ named]

/-- A candidate is an entry of the directory it is made from. -/
theorem stat_candidate (dir : List Char) :
    fs.stat (candidate dir name) = (fs.directory dir).bind fun d => fs.entry d name := by
  cases dir with
  | nil => exact fs.stat_bare named bare
  | cons c dir =>
    have split : (c :: dir ++ '/' :: name).splitOn '/' = (c :: dir).splitOn '/' ++ [name] := by
      rw [List.splitOn_append_cons_self, List.splitOn_eq_singleton bare]
    have same : fs.start (c :: dir ++ '/' :: name) = fs.start (c :: dir) := rfl
    have nonempty : c :: dir ++ '/' :: name ≠ [] := List.cons_ne_nil _ _
    rw [candidate, if_neg (List.cons_ne_nil c dir), stat, if_neg nonempty, split, same, walk_append, directory,
      if_neg (List.cons_ne_nil c dir), stat, if_neg (List.cons_ne_nil c dir)]
    congr 1
    funext d
    rw [walk_singleton, fs.step_of_ne_nil _ named]

theorem search_eq_findSome? (dirs : List (List Char)) : fs.search dirs name = dirs.findSome? (fs.programIn name) := by
  rw [search]
  congr 1
  funext dir
  rw [fs.stat_candidate named bare, programIn]

theorem search_eq_none_iff (dirs : List (List Char)) :
    fs.search dirs name = none ↔ ∀ dir ∈ dirs, fs.programIn name dir = none := by
  rw [fs.search_eq_findSome? named bare, List.findSome?_eq_none_iff]

theorem search_eq_some_iff (dirs : List (List Char)) (program : ι) :
    fs.search dirs name = some program ↔ fs.FirstProgram dirs name program := by
  rw [fs.search_eq_findSome? named bare, List.findSome?_eq_some_iff]
  rfl

end FileSystem

end Aser.Library
