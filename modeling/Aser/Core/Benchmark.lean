import Aser.Library.Spacing
import Aser.Util.Process

namespace Aser

open Library

/-- What is asked of a `ptree`: `get<std::string>` and `get<unsigned>` at a path, `get_child`, and the children
with their keys, in order. How a tree finds its answers is left open. -/
class PropertyTree (τ : Type) where
  getString : τ → String → Except Exception String
  getUnsigned : τ → String → Except Exception UInt32
  getChild : τ → String → Except Exception τ
  children : τ → List (String × τ)

/-- A small tree, by what is written at the paths that a program asks for. -/
inductive WrittenTree
  | node (texts : List (String × String)) (numbers : List (String × UInt32))
    (children : List (String × WrittenTree))

namespace WrittenTree

def find {α : Type} (entries : List (String × α)) (path : String) : Except Exception α :=
  match entries.lookup path with
  | some value => .ok value
  | none => .error (.runtimeError ("No such node (" ++ path ++ ")"))

instance : PropertyTree WrittenTree where
  getString | node texts _ _, path => find texts path
  getUnsigned | node _ numbers _, path => find numbers path
  getChild | node _ _ children, path => find children path
  children | node _ _ children => children

end WrittenTree

structure Benchmark where
  id : Nat
  name : String
  args : List String
  deriving DecidableEq

/-- `boost::split` with the default token compression cuts at every single separator. -/
def parseCmd (cmd : String) : List String := (cmd.toList.splitOn ' ').map String.ofList

namespace Util

variable {τ : Type} [PropertyTree τ]

def parse (pt : τ) : Except Exception Benchmark := do
  let name ← PropertyTree.getString pt "name"
  let cmd ← PropertyTree.getString pt "cmd"
  return { id := 0, name, args := parseCmd cmd }

/-- The first child that does not parse ends it. -/
def parseVector (pt : τ) : Except Exception (List Benchmark) :=
  (PropertyTree.children pt).mapM fun elem => parse elem.2

theorem parseCmd_text (line : Line ' ') :
    parseCmd (String.ofList line.text) = line.tokens.map String.ofList := by
  rw [parseCmd, String.toList_ofList, line.splitOn_text]

/-- A line of words becomes these words exactly if it has no space too many; otherwise there is an empty
argument among them. The executable is the first word exactly if no space stands before it. -/
theorem parse_words_iff (line : Line ' ') {pt : τ} {name : String}
    (named : PropertyTree.getString pt "name" = .ok name)
    (commanded : PropertyTree.getString pt "cmd" = .ok (String.ofList line.text)) :
    ∃ b, parse pt = .ok b ∧ b.name = name ∧ (b.args = line.words.map String.ofList ↔ line.Tight) ∧
      ("" ∈ b.args ↔ ¬ line.Tight) ∧
      (b.args.head? = some (String.ofList line.first.letters) ↔ line.lead = 0) := by
  have distinct : Function.Injective String.ofList := fun _ _ => String.ofList_injective
  have parsed : parse pt = .ok { id := 0, name, args := parseCmd (String.ofList line.text) } := by
    rw [parse, named, commanded]
    rfl
  refine ⟨_, parsed, rfl, ?_, ?_, ?_⟩
  · rw [parseCmd_text, (List.map_injective_iff.mpr distinct).eq_iff, line.tokens_eq_words_iff]
  · rw [parseCmd_text, ← String.ofList_nil, List.mem_map_of_injective distinct, line.nil_mem_tokens_iff]
  · rw [parseCmd_text, List.head?_map, ← line.head?_tokens_iff, ← Option.map_some,
      (Option.map_injective distinct).eq_iff]

/-- A benchmark as it is written in a configuration. -/
def benchmarkTree (name cmd : String) : WrittenTree := .node [("name", name), ("cmd", cmd)] [] []

/-- Single spaces. -/
theorem parse_words_iff_single : ∃ b, parse (benchmarkTree "sleep" "/usr/bin/env sleep 5") = .ok b ∧
    b.args = ["/usr/bin/env", "sleep", "5"] ∧ "" ∉ b.args := by
  let line : Line ' ' :=
    { lead := 0
      first := ⟨"/usr/bin/env".toList, by decide, by decide⟩
      rest := [(0, ⟨"sleep".toList, by decide, by decide⟩), (0, ⟨"5".toList, by decide, by decide⟩)]
      trail := 0 }
  have tight : line.Tight := by simp [line, Line.Tight]
  have named : PropertyTree.getString (benchmarkTree "sleep" "/usr/bin/env sleep 5") "name" = .ok "sleep" := rfl
  obtain ⟨b, parsed, _, args, empty, _⟩ := parse_words_iff line named rfl
  exact ⟨b, parsed, args.mpr tight, fun member => empty.mp member tight⟩

/-- Two spaces between the words make an empty argument, and so does one before them. -/
theorem parse_empty_args : ∃ line : Line ' ', String.ofList line.text = "ls  -l" ∧
    line.words.map String.ofList = ["ls", "-l"] ∧
    parse (benchmarkTree "list" "ls  -l") = .ok { id := 0, name := "list", args := ["ls", "", "-l"] } ∧
    parse (benchmarkTree "list" " ls -l") = .ok { id := 0, name := "list", args := ["", "ls", "-l"] } :=
  ⟨{ lead := 0
     first := ⟨"ls".toList, by decide, by decide⟩
     rest := [(1, ⟨"-l".toList, by decide, by decide⟩)]
     trail := 0 }, rfl, rfl, rfl, rfl⟩

end Util

end Aser
