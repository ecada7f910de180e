import RepoDocs.Outline.Script

/-! The first fault of a syntax tree.  The search for it keeps a list of trees that are still to be
searched, and below a node it takes up only those that have an error.  What it finds is what a search of
all nodes finds, each node before those below it and the nodes in the order of the text. -/

namespace RepoDocs.Grammar.Node

mutual

/-- The nodes of a tree, tokens among them, each before the nodes below it. -/
def preorder : Node → List Node
  | ⟨kind, label, startRow, endRow, text, children⟩ =>
    ⟨kind, label, startRow, endRow, text, children⟩ :: nodes children

/-- The nodes of some trees, one tree behind the other. -/
def nodes : List Node → List Node
  | [] => []
  | n :: rest => preorder n ++ nodes rest

end

variable {root : Node}

theorem preorder_eq (n : Node) : n.preorder = n :: nodes n.children := by
  cases n
  rw [preorder]

theorem nodes_append (ns ms : List Node) : nodes (ns ++ ms) = nodes ns ++ nodes ms := by
  induction ns with
  | nil => rfl
  | cons n ns ih => rw [List.cons_append, nodes, nodes, ih, List.append_assoc]

mutual

/-- There is an error in a tree just when one of its nodes is a fault. -/
theorem hasError_iff : (n : Node) → (n.hasError = true ↔ ∃ m ∈ n.preorder, m.isFault = true)
  | ⟨kind, label, startRow, endRow, text, children⟩ => by
    simp [hasError, preorder, isFault, anyError_iff children]

theorem anyError_iff : (ns : List Node) → (anyError ns = true ↔ ∃ m ∈ nodes ns, m.isFault = true)
  | [] => by simp [anyError, nodes]
  | n :: rest => by
    rw [anyError, nodes, Bool.or_eq_true, hasError_iff n, anyError_iff rest]
    simp only [List.mem_append, or_and_right, exists_or]

end

/-- A tree without an error can be left out of a search for a fault. -/
theorem find?_nodes_suspects (ns : List Node) :
    (nodes (ns.filter hasError)).find? isFault = (nodes ns).find? isFault := by
  induction ns with
  | nil => rfl
  | cons n ns ih =>
    rw [nodes, List.find?_append]
    by_cases broken : n.hasError = true
    · rw [List.filter_cons_of_pos broken, nodes, List.find?_append, ih]
    · have sound : n.preorder.find? isFault = none := by
        rw [List.find?_eq_none]
        exact fun m hm fault => broken ((hasError_iff n).2 ⟨m, hm, fault⟩)
      rw [List.filter_cons_of_neg broken, ih, sound, Option.none_or]

/-- The search that leaves out what has no error finds the row of the fault that comes first among all
nodes of the pending trees. -/
theorem firstFaultRow?_eq (pending : List Node) :
    firstFaultRow? pending = ((nodes pending).find? isFault).map startRow := by
  fun_induction firstFaultRow? pending with
  | case1 => rfl
  | case2 n pending fault => simp [nodes, preorder_eq, fault]
  | case3 n pending sound ih =>
    rw [ih, nodes, preorder_eq, List.cons_append, List.find?_cons_of_neg sound, nodes_append,
      List.find?_append, List.find?_append, suspects, find?_nodes_suspects]

theorem firstErrorLine_eq (root : Node) :
    root.firstErrorLine = ((root.preorder.find? isFault).map (·.startRow + 1)).getD 0 := by
  rw [firstErrorLine, firstFaultRow?_eq, nodes, nodes, List.append_nil]
  cases root.preorder.find? isFault <;> rfl

/-- The line that is reported of a tree with an error is that of its first fault: no node before that is
one, however deep they stand. -/
theorem firstErrorLine_of_hasError (broken : root.hasError = true) :
    ∃ before fault after, root.preorder = before ++ fault :: after ∧ fault.isFault = true ∧
      (∀ m ∈ before, m.isFault = false) ∧ root.firstErrorLine = fault.startRow + 1 := by
  obtain ⟨m, hm, isFault⟩ := (hasError_iff root).1 broken
  obtain ⟨fault, found⟩ := Option.isSome_iff_exists.1 (List.find?_isSome.2 ⟨m, hm, isFault⟩)
  obtain ⟨fault_isFault, before, after, split, sound⟩ := List.find?_eq_some_iff_append.1 found
  refine ⟨before, fault, after, split, fault_isFault, fun m hm => ?_, ?_⟩
  · simpa using sound m hm
  · rw [firstErrorLine_eq, found, Option.map_some, Option.getD_some]

/-- A tree in which a token is missing deep in its second branch, behind a branch that is sound and before
one that is an error. -/
def brokenTwice : Node :=
  let node (kind : Kind) (row : Nat) (children : List Node) : Node :=
    { kind, startRow := row, endRow := row, children }
  node (.other "program") 0 [
    node (.other "expression_statement") 0 [node .identifier 0 []],
    node .functionDeclaration 1 [node (.token "function") 1 [], node (.other "statement_block") 2 [
      node (.token "\x7b") 2 [], node .missing 3 []]],
    node .error 4 [node .identifier 4 []]]

theorem firstErrorLine_of_hasError_brokenTwice :
    brokenTwice.hasError = true ∧ brokenTwice.firstErrorLine = 4 ∧
      ∃ before fault after, brokenTwice.preorder = before ++ fault :: after ∧ fault.isFault = true ∧
        (∀ m ∈ before, m.isFault = false) ∧ brokenTwice.firstErrorLine = fault.startRow + 1 := by
  have broken : brokenTwice.hasError = true := by decide
  refine ⟨broken, ?_, firstErrorLine_of_hasError broken⟩
  rw [firstErrorLine_eq]
  rfl

end RepoDocs.Grammar.Node

namespace RepoDocs.Outline

open Grammar

/-- A line is reported of a script just when its tree has a fault, and it is that of the first one. -/
theorem scriptErrorLine?_eq (source : String) (d : Script.Dialect) : scriptErrorLine? source d =
    ((Script.parse d source).preorder.find? Node.isFault).map (·.startRow + 1) := by
  rw [scriptErrorLine?, Node.firstErrorLine_eq]
  cases found : (Script.parse d source).preorder.find? Node.isFault with
  | none =>
    have sound : (Script.parse d source).hasError ≠ true := fun broken => by
      obtain ⟨m, hm, fault⟩ := (Node.hasError_iff _).1 broken
      exact List.find?_eq_none.1 found m hm fault
    simp [sound]
  | some fault =>
    have broken : (Script.parse d source).hasError = true :=
      (Node.hasError_iff _).2 ⟨fault, List.mem_of_find?_eq_some found, List.find?_some found⟩
    simp [broken]

end RepoDocs.Outline
