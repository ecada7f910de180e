import RepoDocs.Proofs.Tree.Preorder
import RepoDocs.Tree.MainFiles

/-! The main files of some trees as the front of one list.  The search for them stops as soon as it has
enough; what it finds are the first of all main files, in the order in which the nodes come each before
those below it.  What stands below a file is no part of this order. -/

namespace RepoDocs.FileNode

mutual

/-- The tree without what stands below its files. -/
def pruned : FileNode → FileNode
  | ⟨name, path, .file, _, size?⟩ => ⟨name, path, .file, none, size?⟩
  | ⟨name, path, .directory, some children, size?⟩ =>
    ⟨name, path, .directory, some (prunedEach children), size?⟩
  | ⟨name, path, .directory, none, size?⟩ => ⟨name, path, .directory, none, size?⟩

def prunedEach : List FileNode → List FileNode
  | [] => []
  | n :: rest => pruned n :: prunedEach rest

end

/-- The paths of all main files in some trees. -/
def mainPaths (forest : List FileNode) : List String :=
  ((nodes (prunedEach forest)).filter fun n => n.isFile && n.hasMainName).map (·.path)

variable {n : FileNode} {forest : List FileNode}

theorem mainPaths_cons (n : FileNode) (rest : List FileNode) :
    mainPaths (n :: rest) = mainPaths [n] ++ mainPaths rest := by
  simp [mainPaths, prunedEach, nodes]

/-- A file is a main file by its name, whatever stands below it. -/
theorem mainPaths_file {name path : String} {children? : Option (List FileNode)} {size? : Option Nat} :
    mainPaths [⟨name, path, .file, children?, size?⟩] =
      if hasMainName ⟨name, path, .file, children?, size?⟩ then [path] else [] := by
  have named : hasMainName ⟨name, path, .file, none, size?⟩ =
      hasMainName ⟨name, path, .file, children?, size?⟩ := rfl
  simp only [mainPaths, prunedEach, pruned, nodes, preorder, List.append_nil, List.filter_cons,
    List.filter_nil, isFile, decide_true, Bool.true_and, named]
  split <;> rfl

/-- A directory has the main files of its children. -/
theorem mainPaths_directory {name path : String} {children : List FileNode} {size? : Option Nat} :
    mainPaths [⟨name, path, .directory, some children, size?⟩] = mainPaths children := by
  simp [mainPaths, prunedEach, pruned, nodes, preorder, isFile]

theorem mainPaths_bare {name path : String} {size? : Option Nat} :
    mainPaths [⟨name, path, .directory, none, size?⟩] = [] := by
  simp [mainPaths, prunedEach, pruned, nodes, preorder, isFile]

/-- Where each tree is searched for as many main files as are still to be found, so are all of them. -/
theorem mainFiles_of_each (each : ∀ n ∈ forest, ∀ limit, mainFilesIn limit n = (mainPaths [n]).take limit)
    (limit : Nat) : mainFiles limit forest = (mainPaths forest).take limit := by
  induction forest generalizing limit with
  | nil => simp [mainFiles, mainPaths, prunedEach, nodes]
  | cons n rest ih =>
    obtain ⟨first, others⟩ := List.forall_mem_cons.1 each
    have remaining : limit - ((mainPaths [n]).take limit).length = limit - (mainPaths [n]).length := by
      rw [List.length_take]
      omega
    rw [mainPaths_cons n rest, List.take_append, ← remaining, ← first limit, ← ih others, mainFiles]

theorem mainFilesIn_eq_take (n : FileNode) (limit : Nat) :
    mainFilesIn limit n = (mainPaths [n]).take limit := by
  induction n using induction generalizing limit with
  | step n ih =>
    obtain ⟨name, path, kind, children?, size?⟩ := n
    rw [mainFilesIn.eq_def]
    dsimp only
    by_cases enough : limit = 0
    · rw [if_pos enough, enough, List.take_zero]
    rw [if_neg enough]
    cases kind with
    | file =>
      have fits : 1 ≤ limit := Nat.one_le_iff_ne_zero.2 enough
      rw [if_pos rfl, mainPaths_file]
      split
      · exact (List.take_of_length_le fits).symm
      · exact List.take_nil.symm
    | directory =>
      rw [if_neg nofun]
      cases children? with
      | none => rw [mainPaths_bare, List.take_nil]
      | some children =>
        rw [mainPaths_directory]
        exact mainFiles_of_each ih limit

/-- A name is that of a main file if it is an entry point or ends as the name of a file with code. -/
theorem hasMainName_iff : n.hasMainName = true ↔ Text.asciiLower n.name ∈ entryPoints ∨
    ∃ stem, ∃ ending ∈ codeEndings, Text.asciiLower n.name = stem ++ ending := by
  have suffix (name ending : String) :
      ending.toList.isSuffixOf name.toList = true ↔ ∃ stem, name = stem ++ ending := by
    rw [List.isSuffixOf_iff_suffix]
    constructor
    · rintro ⟨stem, same⟩
      exact ⟨String.ofList stem, String.toList_injective (by simp [same])⟩
    · rintro ⟨stem, rfl⟩
      exact ⟨stem.toList, by simp⟩
  simp only [hasMainName, Bool.or_eq_true, List.contains_iff_mem, List.any_eq_true, suffix]
  refine or_congr_right ⟨?_, ?_⟩
  · rintro ⟨ending, code, stem, same⟩
    exact ⟨stem, ending, code, same⟩
  · rintro ⟨stem, ending, code, same⟩
    exact ⟨ending, code, stem, same⟩

/-- What is found of the main files, up to a limit, are the first of all of them, so that less is found
under a smaller limit but nothing else. -/
theorem mainFiles_eq_take (limit : Nat) (forest : List FileNode) :
    mainFiles limit forest = (mainPaths forest).take limit ∧
      (∀ fewer ≤ limit, mainFiles fewer forest <+: mainFiles limit forest) ∧
      ∀ n : FileNode, n.hasMainName = true ↔ Text.asciiLower n.name ∈ entryPoints ∨
        ∃ stem, ∃ ending ∈ codeEndings, Text.asciiLower n.name = stem ++ ending := by
  have found (limit : Nat) : mainFiles limit forest = (mainPaths forest).take limit :=
    mainFiles_of_each (fun n _ => mainFilesIn_eq_take n) limit
  refine ⟨found limit, fun fewer less => ?_, fun n => hasMainName_iff⟩
  rw [found, found]
  exact List.take_prefix_take_left less

/-- A directory with a file that others stand below, and one without a list of what it holds. -/
def oddTrees : List FileNode :=
  [.directory "src" [⟨"Main.PY", "src/Main.PY", .file, some [.file "src/Main.PY/x.js" none], none⟩,
      ⟨"lib", "src/lib", .directory, none, none⟩, .file "src/a.ts" (some 1), .file "src/b.tsx" none],
    .file "README.md" none]

theorem mainFiles_oddTrees :
    mainPaths oddTrees = ["src/Main.PY", "src/a.ts", "README.md"] ∧
      mainFiles 2 oddTrees = ["src/Main.PY", "src/a.ts"] ∧
      mainFiles 1 oddTrees <+: mainFiles 2 oddTrees := by
  have all : mainPaths oddTrees = ["src/Main.PY", "src/a.ts", "README.md"] := by
    decide +kernel
  obtain ⟨found, less, -⟩ := mainFiles_eq_take 2 oddTrees
  exact ⟨all, by rw [found, all]; rfl, less 1 (by decide)⟩

end RepoDocs.FileNode
