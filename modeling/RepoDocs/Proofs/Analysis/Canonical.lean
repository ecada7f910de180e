import RepoDocs.Proofs.Analysis.Timeliness
import RepoDocs.Proofs.Process.Likeness
import RepoDocs.Proofs.Text.ByteOrder
import RepoDocs.Proofs.Tree.Order

/-! The order in which a source lists what is in a repository.  A run looks at the files only when they
have been sorted, so it does not depend on the order in which siblings with distinct paths were listed. -/

namespace RepoDocs

open FileNode

/-- The second metadata are the first ones with siblings, which have distinct paths, in another order. -/
inductive RepositoryMetadata.Reordered (m : RepositoryMetadata) : RepositoryMetadata → Prop
  | mk {files : List FileNode} (each : ReorderedEach m.files files) (distinct : Distinct m.files) :
      Reordered m { m with files }

/-- The replies are the same, or they are metadata that differ in the order of siblings. -/
inductive Call.Reorders : (c : Call) → c.Reply → c.Reply → Prop
  | same {c : Call} (x : c.Reply) : Reorders c x x
  | metadata (url : String) {m m' : RepositoryMetadata} (reordered : m.Reordered m') :
      Reorders (.metadata url) (.ok m) (.ok m')

namespace Analysis

open Program

theorem describe_eq_of_reordered {m m' : RepositoryMetadata} (h : m.Reordered m') :
    describe m' = describe m := by
  obtain ⟨each, distinct⟩ := h
  simp only [describe, sortForest_eq_of_reordered each distinct]

/-! ### What runs overlook -/

/-- Only the replies to a request for metadata may differ. -/
theorem distinguishes {c : Call} {deadline? : Option Nat} (other : ∀ url, c ≠ .metadata url) :
    Effect.Distinguishes Call.Reorders (.call c deadline?) := by
  intro x y alike
  cases alike with
  | same => rfl
  | metadata url => exact absurd rfl (other url)

theorem overlooks_advance (id : String) (c : Checkpoint) :
    (advance id c).run.Overlooks Call.Reorders :=
  (asks_advance trivial fun _ => trivial).overlooks

theorem overlooks_onRecord (c : StoreCall) : (onRecord c).run.Overlooks Call.Reorders :=
  (asks_onRecord trivial).overlooks

/-- What follows the metadata depends on no more of them than is put on record. -/
theorem overlooks_fetchMetadata_bind {β : Type} (config : AnalysisConfig) (url : String)
    {f : RepositoryMetadata → Attempt AnalysisError Effects β}
    (recorded : ∀ m m', describe m' = describe m → f m' = f m)
    (hf : ∀ m, (f m).run.Overlooks Call.Reorders) :
    (fetchMetadata config url >>= f).run.Overlooks Call.Reorders := by
  refine ⟨fun x y alike => ?_, fun x => ?_⟩
  · cases alike with
    | same => rfl
    | @metadata url m m' reordered =>
      exact congrArg ExceptT.run (recorded m m' (describe_eq_of_reordered reordered)).symm
  · rcases x with _ | (e | m)
    · exact Overlooks.pure _
    · exact Overlooks.pure _
    · exact hf m

theorem overlooks_execute (config : AnalysisConfig) (id : String) (r : Repository) :
    (execute config id r).run.Overlooks Call.Reorders := by
  refine (overlooks_advance id _).run_bind fun _ => ?_
  refine (overlooks_onRecord _).run_bind fun _ => ?_
  refine overlooks_fetchMetadata_bind config r.url (fun m m' same => by rw [same]) fun m => ?_
  refine (overlooks_onRecord _).run_bind fun r => ?_
  refine (overlooks_advance id _).run_bind fun _ => ?_
  refine (asks_fetchMany (fun _ => distinguishes nofun) _).overlooks.run_lift.run_bind fun files => ?_
  refine (overlooks_advance id _).run_bind fun _ => ?_
  refine (asks_reportQuality (distinguishes nofun)).overlooks.run_bind fun report => ?_
  refine (overlooks_advance id _).run_bind fun _ => ?_
  refine (overlooks_onRecord _).run_bind fun d => ?_
  refine (overlooks_onRecord _).run_bind fun r => ?_
  exact (overlooks_advance id _).run_bind fun _ => Overlooks.pure _

theorem overlooks_run (config : AnalysisConfig) (id : String) :
    (run config id).run.Overlooks Call.Reorders := by
  refine (asks_loadJob trivial).overlooks.run_bind fun job => ?_
  refine (asks_loadRepository trivial).overlooks.run_bind fun r => ?_
  refine (overlooks_execute config id r).run_tryCatch fun cause => ?_
  have failed : (fail id r.id cause).Overlooks Call.Reorders :=
    (asks_fail trivial (fun _ => trivial) (fun _ => trivial) cause).overlooks
  exact failed.run_lift.run_bind fun _ => Overlooks.pure _

theorem overlooks_background (config : AnalysisConfig) (id : String) :
    (background config id).Overlooks Call.Reorders :=
  (overlooks_run config id).bind fun _ => Overlooks.pure _

/-! ### Sorting as a canonical form -/

/-- Sorting moves siblings alone and puts them in the order of the bytes of their paths, sorting again
changes nothing, and trees that differ in the order of siblings with distinct paths are sorted to the
same trees.  So where the metadata that a source gives differ in this way, a run comes to the same
outcome, with the same in the store, by the same calls. -/
theorem run_overlooks_order :
    (∀ forest, ReorderedEach forest (sortForest forest) ∧
      (sortForest forest).Pairwise (fun a b => Text.bytes a.path ≤ Text.bytes b.path) ∧
      (∀ n ∈ nodes (sortForest forest), ∀ children, n.children? = some children →
        children.Pairwise fun a b => Text.bytes a.path ≤ Text.bytes b.path) ∧
      sortForest (sortForest forest) = sortForest forest) ∧
    (∀ forest others, ReorderedEach forest others → Distinct forest →
      sortForest others = sortForest forest) ∧
    ∀ {σ : Type} {w w' : World σ}, w.Resembles Call.Reorders w' →
      ∀ (config : AnalysisConfig) (jobId : String) (limit : Nat) (e : Engine (σ × List Call)),
        (∀ r ∈ e.ready ++ e.asleep.map (·.run), ∃ events,
          (background config r.job).Leads events r.rest) →
        e.run w'.logging (background config) limit (run config jobId).run.lift =
          e.run w.logging (background config) limit (run config jobId).run.lift := by
  refine ⟨fun forest => ⟨reordered_sortForest forest, ?_, fun n hn children same => ?_,
    sortForest_sortForest forest⟩, fun forest others reordered distinct => ?_, ?_⟩
  · exact (inOrder_sortForest forest).imp Text.bytes_le_iff.2
  · have inOrder := inOrder_below_sortForest hn
    rw [FileNode.children, same] at inOrder
    exact inOrder.imp Text.bytes_le_iff.2
  · exact (sortForest_eq_of_reordered reordered distinct).symm
  · intro σ w w' resembles config jobId limit e left
    have overlooks (r : BackgroundRun) (hr : r ∈ e.ready ++ e.asleep.map (·.run)) :
        r.rest.Overlooks Call.Reorders := by
      obtain ⟨events, leads⟩ := left r hr
      exact leads.overlooks (overlooks_background config r.job)
    refine Engine.run_eq resembles.logging _ limit (overlooks_run config jobId) ⟨?_, ?_⟩
    · exact fun r hr => overlooks r (List.mem_append_left _ hr)
    · exact fun p hp => overlooks p.run (List.mem_append_right _ (List.mem_map_of_mem hp))

/-- Some files in an order, and in another one. -/
def listedFirst : List FileNode :=
  [.directory "src" [.file "src/b.py" (some 1), .file "src/a.py" none], .file "main.py" none]

def listedAgain : List FileNode :=
  [.file "main.py" none, .directory "src" [.file "src/a.py" none, .file "src/b.py" (some 1)]]

/-- A source that lists some files, all of which are empty. -/
def listing (files : List FileNode) : (c : Call) → Conduct c.Reply
  | .metadata _ => .after 5 (.ok { name := "r", owner := "o", files })
  | .file _ _ => .after 1 (.ok "")
  | .quality _ => .after 2 (.ok { score := 1 })
  | .readme _ | .apiDocs _ | .comments _ _ => .never

theorem run_overlooks_order_listedAgain :
    let e : Engine (Unit × List Call) := { world := ((), []), store := .single }
    let ended (files : List FileNode) :=
      e.run (conducting .unary (listing files)).logging (background {}) 100 (run {} "j").run.lift
    ended listedAgain = ended listedFirst ∧ sortForest listedFirst = listedAgain := by
  have src : ReorderedEach [.file "src/b.py" (some 1), .file "src/a.py" none]
      [.file "src/a.py" none, .file "src/b.py" (some 1)] :=
    .cons .bare (.swap ..) (.cons .bare (.refl _) .nil)
  have each : ReorderedEach listedFirst listedAgain :=
    .cons (.inner src) (.swap ..) (.cons .bare (.refl _) .nil)
  have distinct : Distinct listedFirst := ⟨by decide, by decide⟩
  have resembles : (conducting .unary (listing listedFirst)).Resembles Call.Reorders
      (conducting .unary (listing listedAgain)) := by
    refine ⟨rfl, rfl, rfl, fun c _ => ?_, fun _ _ => rfl⟩
    cases c with
    | metadata url => exact .after 5 (.metadata url (.mk each distinct))
    | file url path => exact .after 1 (.same _)
    | quality files => exact .after 2 (.same _)
    | readme | apiDocs | comments => exact .never
  have inOrder : sortForest listedAgain = listedAgain := by
    refine sortForest_of_inOrder ?_ ?_ <;> decide
  obtain ⟨-, canonical, overlooks⟩ := run_overlooks_order
  exact ⟨overlooks resembles {} "j" 100 _ nofun,
    (canonical _ _ each distinct).symm.trans inOrder⟩

end Analysis

end RepoDocs
