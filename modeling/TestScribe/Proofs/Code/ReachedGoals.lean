import TestScribe.Proofs.Code.GoalTags
import TestScribe.Proofs.Marking.Search
import TestScribe.Proofs.Tree.Reachable

/-!
# The goals that a path reaches

A path reaches a goal where the marking of one of its nodes fulfils it. The scan of the path names just these goals
(`goalsReached_eq`), and so does a sweep that drops each goal when it is reached and stops when none is pending
(`goalsReached_eq_sweep`). So only which nodes are on the path counts, and the names are those that stand after its
steps when tags are written there (`goalsReached_scan`).
-/

namespace TestScribe.ExecutionTree

/-- What the scan of a path names, for the tag at the start of the test along it. -/
def goalsReached (t : ExecutionTree) (goals : List Goal) (path : List NodeId) : List String :=
  goalsOnPath goals ((path.filterMap t.node?).map fun n => n.marking)

/-- The marking of the node satisfies the goal. -/
def firesAt (t : ExecutionTree) (g : Goal) (id : NodeId) : Bool :=
  (t.node? id).any fun n => n.marking.satisfies g

/-- Go along a path with the goals that are pending, each with its position. A goal that is reached is pending no
longer, and where none is pending the rest of the path is not looked at. -/
def sweep (t : ExecutionTree) : List (Goal × Nat) → List NodeId → List (Goal × Nat)
  | [], _ => []
  | _ :: _, [] => []
  | g :: pending, id :: path =>
    let (reached, pending) := (g :: pending).partition fun g => t.firesAt g.1 id
    reached ++ t.sweep pending path

variable {t : ExecutionTree} {goals : List Goal} {g : Goal} {path path' : List NodeId} {id : NodeId} {name : String}

theorem firesAt_iff : t.firesAt g id = true ↔ ∃ n, t.node? id = some n ∧ n.marking.satisfies g = true := by
  rw [firesAt, Option.any_eq_true]

theorem goalsReached_eq (t : ExecutionTree) (goals : List Goal) (path : List NodeId) :
    t.goalsReached goals path = (goals.filter fun g => path.any (t.firesAt g)).map Goal.name := by
  have hany (g : Goal) : ((path.filterMap t.node?).map fun n => n.marking).any (fun m => m.satisfies g) =
      path.any (t.firesAt g) := by
    rw [List.any_map, List.any_filterMap]
    rfl
  rw [goalsReached, goalsOnPath_eq]
  simp only [hany]

theorem mem_goalsReached_iff : name ∈ t.goalsReached goals path ↔
    ∃ g ∈ goals, g.name = name ∧ ∃ id ∈ path, t.firesAt g id = true := by
  simp only [goalsReached_eq, List.mem_map, List.mem_filter, List.any_eq_true]
  constructor
  · rintro ⟨g, ⟨hg, hreached⟩, rfl⟩
    exact ⟨g, hg, rfl, hreached⟩
  · rintro ⟨g, hg, rfl, hreached⟩
    exact ⟨g, ⟨hg, hreached⟩, rfl⟩

/-- A goal that is dropped was reached, and one that stays pending to the end was not. -/
theorem mem_sweep_iff {g : Goal × Nat} {pending : List (Goal × Nat)} :
    g ∈ t.sweep pending path ↔ g ∈ pending ∧ path.any (t.firesAt g.1) = true := by
  induction path generalizing pending with
  | nil => cases pending <;> simp [sweep]
  | cons id path ih =>
    cases pending with
    | nil => simp [sweep]
    | cons g' pending =>
      rw [sweep, List.partition_eq_filter_filter, List.mem_append, ih, List.mem_filter, List.mem_filter,
        List.any_cons, Bool.or_eq_true, Function.comp_apply, Bool.not_eq_true']
      cases t.firesAt g.1 id <;> simp

/-- The reached goals, put back into their order, are those that the scan names. -/
theorem goalsReached_eq_sweep (t : ExecutionTree) (goals : List Goal) (path : List NodeId) :
    t.goalsReached goals path =
      (goals.zipIdx.filter fun g => (t.sweep goals.zipIdx path).any (·.2 == g.2)).map (·.1.name) := by
  have hswept : ∀ g ∈ goals.zipIdx,
      (t.sweep goals.zipIdx path).any (·.2 == g.2) = path.any (t.firesAt g.1) := by
    intro g hg
    rw [Bool.eq_iff_iff, List.any_eq_true]
    constructor
    · rintro ⟨g', hg', hposition⟩
      obtain ⟨hmem, hreached⟩ := mem_sweep_iff.mp hg'
      -- There is one goal at a position.
      have hsome := List.mem_zipIdx_iff_getElem?.mp hmem
      rw [eq_of_beq hposition, List.mem_zipIdx_iff_getElem?.mp hg] at hsome
      rwa [Option.some.inj hsome]
    · intro hreached
      exact ⟨g, mem_sweep_iff.mpr ⟨hg, hreached⟩, beq_self_eq_true g.2⟩
  have hgoals : goals = goals.zipIdx.map Prod.fst := (List.zipIdx_map_fst 0 goals).symm
  rw [goalsReached_eq, List.filter_congr hswept]
  nth_rewrite 1 [hgoals]
  rw [List.filter_map, List.map_map]
  rfl

/-- More nodes reach more goals, and the order of the goals stays. -/
theorem goalsReached_sublist (h : path ⊆ path') :
    (t.goalsReached goals path).Sublist (t.goalsReached goals path') := by
  rw [goalsReached_eq, goalsReached_eq]
  refine (List.monotone_filter_right goals fun g hg => ?_).map Goal.name
  obtain ⟨id, hid, hfires⟩ := List.any_eq_true.mp hg
  exact List.any_eq_true.mpr ⟨id, h hid, hfires⟩

theorem goalsReached_congr (h : ∀ id, id ∈ path' ↔ id ∈ path) :
    t.goalsReached goals path' = t.goalsReached goals path :=
  (goalsReached_sublist fun id => (h id).mp).antisymm (goalsReached_sublist fun id => (h id).mpr)

theorem mem_goalsHere_iff {m : Marking} :
    name ∈ goalsHere goals m ↔ name ≠ defaultGoal ∧ ∃ g ∈ goals, g.name = name ∧ m.satisfies g = true := by
  simp only [goalsHere, List.mem_map, List.mem_filter, Bool.and_eq_true, bne_iff_ne]
  constructor
  · rintro ⟨g, ⟨hg, hne, hsatisfies⟩, rfl⟩
    exact ⟨hne, g, hg, rfl, hsatisfies⟩
  · rintro ⟨hne, g, hg, rfl, hsatisfies⟩
    exact ⟨g, ⟨hg, hne, hsatisfies⟩, rfl⟩

/-- The scan of a path names, in the order of the goals, just those that the marking of one of its nodes fulfils:
testing every goal at every node gives the same as dropping each goal when it is reached. More nodes only add names,
and neither the order nor the repetition of nodes counts. But for the default goal the names are those of the goals
tagged after the steps of the path, together; and where no two goals have the same name, none is repeated. -/
theorem goalsReached_scan (t : ExecutionTree) (goals : List Goal) (path : List NodeId) :
    t.goalsReached goals path = (goals.filter fun g => path.any fun id => t.firesAt g id).map Goal.name ∧
      t.goalsReached goals path =
        (goals.zipIdx.filter fun g => (t.sweep goals.zipIdx path).any (·.2 == g.2)).map (·.1.name) ∧
      (∀ g id, t.firesAt g id = true ↔
        ∃ n, t.node? id = some n ∧ ∃ σ, n.marking.Fulfils g.condition g.negated σ) ∧
      (∀ path', path ⊆ path' → (t.goalsReached goals path).Sublist (t.goalsReached goals path')) ∧
      (∀ path', (∀ id, id ∈ path' ↔ id ∈ path) → t.goalsReached goals path' = t.goalsReached goals path) ∧
      (∀ name, name ∈ t.goalsReached goals path ∧ name ≠ defaultGoal ↔
        ∃ id ∈ path, ∃ n, t.node? id = some n ∧ name ∈ goalsHere goals n.marking) ∧
      ((goals.map Goal.name).Nodup → (t.goalsReached goals path).Nodup) := by
  refine ⟨goalsReached_eq t goals path, goalsReached_eq_sweep t goals path, fun g id => ?_,
    fun path' => goalsReached_sublist, fun path' => goalsReached_congr, fun name => ?_, fun hnodup => ?_⟩
  · simp only [firesAt_iff, ← Marking.exists_findBinding_iff]
    rfl
  · simp only [mem_goalsReached_iff, firesAt_iff, mem_goalsHere_iff]
    constructor
    · rintro ⟨⟨g, hg, hname, id, hid, n, hn, hsatisfies⟩, hne⟩
      exact ⟨id, hid, n, hn, hne, g, hg, hname, hsatisfies⟩
    · rintro ⟨id, hid, n, hn, hne, g, hg, hname, hsatisfies⟩
      exact ⟨⟨g, hg, hname, id, hid, n, hn, hsatisfies⟩, hne⟩
  · rw [goalsReached_eq]
    exact (List.filter_sublist.map Goal.name).nodup hnodup

/-- The first node reaches the goals of a low limit and the second that of a high one, which comes first. -/
theorem goalsReached_scan_limits :
    let limit (name value : String) : Goal := ⟨name, [⟨"limit", [.const value]⟩], []⟩
    let goals := [limit "goalHigh" "high", limit "default" "low", limit "goalNone" "none", limit "goalLow" "low"]
    let step (value : String) : Step :=
      { Step.firing (.named "withdraw") with marking := (∅ : Marking).add "limit" [value] }
    let t := ((rooted .standard (.constructor "new") ∅).withStep 0 (step "low")).withStep 1 (step "high")
    (goals.map Goal.name).Nodup ∧ t.goalsReached goals [1, 2] = ["goalHigh", "default", "goalLow"] ∧
      (t.goalsReached goals [1, 2]).Nodup ∧
      ([1] ⊆ [1, 2] ∧ (t.goalsReached goals [1]).Sublist (t.goalsReached goals [1, 2])) ∧
      t.goalsReached goals [2, 1, 2] = t.goalsReached goals [1, 2] ∧
      ("goalLow" ∈ t.goalsReached goals [1, 2] ∧ ∃ id ∈ [1, 2], ∃ n, t.node? id = some n ∧
        "goalLow" ∈ goalsHere goals n.marking) := by
  intro limit goals step t
  have hnodup : (goals.map Goal.name).Nodup := by decide
  have hreached : t.goalsReached goals [1, 2] = ["goalHigh", "default", "goalLow"] := by decide +kernel
  have hlow : "goalLow" ∈ t.goalsReached goals [1, 2] := by rw [hreached]; decide
  obtain ⟨-, -, -, -, hsame, hunion, hnames⟩ := goalsReached_scan t goals [1, 2]
  exact ⟨hnodup, hreached, hnames hnodup, ⟨by simp, (goalsReached_scan t goals [1]).2.2.2.1 [1, 2] (by simp)⟩,
    hsame [2, 1, 2] (by simp), hlow, (hunion "goalLow").mp ⟨hlow, by decide⟩⟩

end TestScribe.ExecutionTree
