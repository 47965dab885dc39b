import Aser.Library.FileSystem
import Aser.Util.Process

namespace Aser

open Library

variable {ι : Type*}

/-- What a C function sees of a string: it ends at the first NUL. -/
def cStr (s : String) : List Char := s.toList.takeWhile (· ≠ Char.ofNat 0)

/-- The lookup of `execvp`. A name with a slash in it is used as a path, whether or not that file can be executed;
any other one is searched in the directories of `PATH`, and what cannot be executed is passed over there. -/
def execvpFile (fs : FileSystem ι) (PATH : String) (file : List Char) : Option ι :=
  if file = [] then none else if '/' ∈ file then fs.stat file else fs.search ((cStr PATH).splitOn ':') file

namespace Process

/-- `args_[0]`. -/
def path (p : Process) : String := p.args.headD ""

/-- What `start` does before anything else. -/
def checkPath (p : Process) (fs : FileSystem ι) : Except Exception Unit :=
  if (fs.stat (cStr p.path)).isSome then .ok () else .error (.invalidArgument (pathError p.path))

def startIn (p : Process) (fs : FileSystem ι) (fork : ForkResult) : Except Exception Unit × Process :=
  p.start (fs.stat (cStr p.path)).isSome fork

/-- The check agrees with the lookup: what passes is the very file that runs, and what is turned away would
not have been found. -/
structure ChecksLookup (p : Process) (fs : FileSystem ι) (PATH : String) : Prop where
  passes : p.checkPath fs = .ok () →
    ∃ file, fs.stat (cStr p.path) = some file ∧ execvpFile fs PATH (cStr p.path) = some file
  throws : ∀ e, p.checkPath fs = .error e → execvpFile fs PATH (cStr p.path) = none

/-- When the two lookups of a name are one: it is a path, or it is empty, or neither the working directory
nor `PATH` has it, or what the working directory has is the first program of that name in `PATH`. -/
def SameLookup (fs : FileSystem ι) (PATH : String) (name : List Char) : Prop :=
  '/' ∈ name ∨ name = [] ∨
    (fs.entry fs.cwd name = none ∧ ∀ dir ∈ (cStr PATH).splitOn ':', fs.programIn name dir = none) ∨
    ∃ program, fs.entry fs.cwd name = some program ∧ fs.FirstProgram ((cStr PATH).splitOn ':') name program

theorem startIn_eq (p : Process) (fs : FileSystem ι) (fork : ForkResult) :
    p.startIn fs fork = match p.checkPath fs with
      | .error e => (.error e, p)
      | .ok () => p.start true fork := by
  unfold startIn checkPath
  cases fs.stat (cStr p.path) with
  | none => rfl
  | some file => rfl

theorem checkPath_eq_ok_iff (p : Process) (fs : FileSystem ι) :
    p.checkPath fs = .ok () ↔ ∃ file, fs.stat (cStr p.path) = some file := by
  rw [checkPath]
  cases fs.stat (cStr p.path) with
  | none => simp
  | some file => simp

theorem checkPath_eq_error_iff (p : Process) (fs : FileSystem ι) (e : Exception) :
    p.checkPath fs = .error e ↔
      fs.stat (cStr p.path) = none ∧ e = .invalidArgument (pathError p.path) := by
  rw [checkPath]
  cases fs.stat (cStr p.path) with
  | none => simp [eq_comm]
  | some file => simp

/-- The check and the lookup agree exactly if they come to the same file, or to none. -/
theorem checksLookup_iff_eq (p : Process) (fs : FileSystem ι) (PATH : String) :
    p.ChecksLookup fs PATH ↔ fs.stat (cStr p.path) = execvpFile fs PATH (cStr p.path) := by
  constructor
  · intro agrees
    cases found : fs.stat (cStr p.path) with
    | none => exact (agrees.throws _ ((p.checkPath_eq_error_iff fs _).mpr ⟨found, rfl⟩)).symm
    | some file =>
      obtain ⟨same, atCheck, atLookup⟩ := agrees.passes ((p.checkPath_eq_ok_iff fs).mpr ⟨file, found⟩)
      rw [atLookup, ← atCheck, found]
  · intro same
    refine ⟨fun ok => ?_, fun e error => ?_⟩
    · obtain ⟨file, found⟩ := (p.checkPath_eq_ok_iff fs).mp ok
      exact ⟨file, found, same ▸ found⟩
    · rw [← same]
      exact ((p.checkPath_eq_error_iff fs e).mp error).1

/-- For a name that is searched, in terms of the directories alone. -/
theorem stat_eq_search_iff (fs : FileSystem ι) (dirs : List (List Char)) {name : List Char} (named : name ≠ [])
    (bare : '/' ∉ name) : fs.stat name = fs.search dirs name ↔
      (fs.entry fs.cwd name = none ∧ ∀ dir ∈ dirs, fs.programIn name dir = none) ∨
      ∃ program, fs.entry fs.cwd name = some program ∧ fs.FirstProgram dirs name program := by
  rw [fs.stat_bare named bare, ← fs.search_eq_none_iff named bare]
  constructor
  · intro same
    rw [← same]
    cases here : fs.entry fs.cwd name with
    | none => exact .inl ⟨rfl, rfl⟩
    | some program => exact .inr ⟨program, rfl, (fs.search_eq_some_iff named bare dirs program).mp (same ▸ here)⟩
  · intro cases
    rcases cases with ⟨here, nowhere⟩ | ⟨program, here, first⟩
    · rw [here, nowhere]
    · rw [here, (fs.search_eq_some_iff named bare dirs program).mpr first]

/-- The check of `start` looks the first argument up as a path, `execvp` looks it up in `PATH`. -/
theorem checksLookup_iff (p : Process) (fs : FileSystem ι) (PATH : String) :
    p.ChecksLookup fs PATH ↔ SameLookup fs PATH (cStr p.path) := by
  rw [checksLookup_iff_eq, execvpFile, SameLookup]
  by_cases named : cStr p.path = []
  · simp [named]
  · by_cases bare : '/' ∈ cStr p.path
    · simp [named, bare]
    · rw [if_neg named, if_neg bare, stat_eq_search_iff fs _ named bare]
      simp only [named, bare, false_or]

end Process

inductive SampleFile
  | root | bin | ls | home | notes
  deriving DecidableEq

namespace SampleFile

/-- `/bin/ls` is a program; `/home` has a file of its own under that name. -/
def entry : SampleFile → List Char → Option SampleFile
  | root, name => if name = "bin".toList then some bin else if name = "home".toList then some home else none
  | bin, name => if name = "ls".toList then some ls else none
  | home, name => if name = "ls".toList then some notes else none
  | ls, _ | notes, _ => none

/-- A process that works in `/`. -/
def fileSystem : FileSystem SampleFile where
  root := root
  cwd := root
  isDirectory file := file = root || file = bin || file = home
  executable file := file = ls
  entry := entry
  root_isDirectory := rfl
  cwd_isDirectory := rfl
  not_executable_of_isDirectory {file} := by cases file <;> decide
  isDirectory_of_entry {dir name file} found := by
    cases dir with
    | root | bin | home => rfl
    | ls | notes => cases found

/-- A process that works in `/home`. -/
def atHome : FileSystem SampleFile := { fileSystem with cwd := home, cwd_isDirectory := rfl }

end SampleFile

namespace Process

/-- With `PATH` as `/bin`, `ls` is turned away in `/`, where `execvp` runs `/bin/ls`; in `/home` it passes for
`/home/ls`, and `execvp` runs `/bin/ls` all the same. -/
theorem checks_other_file :
    let p : Process := { config := {}, args := ["ls"] }
    (∀ fork, p.startIn SampleFile.fileSystem fork =
        (.error (.invalidArgument "Path \"ls\" does not exist"), p)) ∧
      execvpFile SampleFile.fileSystem "/bin" (cStr p.path) = some .ls ∧
      ¬ p.ChecksLookup SampleFile.fileSystem "/bin" ∧
      p.checkPath SampleFile.atHome = .ok () ∧
      SampleFile.atHome.stat (cStr p.path) = some .notes ∧
      execvpFile SampleFile.atHome "/bin" (cStr p.path) = some .ls ∧
      ¬ p.ChecksLookup SampleFile.atHome "/bin" := by
  intro p
  have turnedAway : SampleFile.fileSystem.stat (cStr p.path) = none := by decide
  have program : execvpFile SampleFile.fileSystem "/bin" (cStr p.path) = some .ls := by decide
  have passes : SampleFile.atHome.stat (cStr p.path) = some .notes := by decide
  have programAtHome : execvpFile SampleFile.atHome "/bin" (cStr p.path) = some .ls := by decide
  refine ⟨fun fork => ?_, program, ?_, (p.checkPath_eq_ok_iff _).mpr ⟨_, passes⟩, passes, programAtHome, ?_⟩
  · rw [startIn_eq, (p.checkPath_eq_error_iff _ _).mpr ⟨turnedAway, rfl⟩]
    rfl
  · rw [checksLookup_iff_eq, turnedAway, program]
    decide
  · rw [checksLookup_iff_eq, passes, programAtHome]
    decide

end Process

end Aser
