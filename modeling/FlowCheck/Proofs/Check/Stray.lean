import FlowCheck.Proofs.Build.Handling
import FlowCheck.Proofs.Check.Agreement

/-!
# Jumps that find no target

A jump runs the `finally` blocks on its way while it is still looking for a place to land. Where
there is none, the edges through these blocks stay, and the cursor stays at the end of the last one,
which may be nowhere. All else is as it was before the jump, so a misplaced jump is like any other
statement only where no `finally` block surrounds it.
-/
namespace FlowCheck

/-- The graph with some edges more, added in their order. -/
def Graph.addEdges (g : Graph) (edges : List (BlockId × BlockId)) : Graph :=
  edges.foldl (fun g e => g.addEdge e.1 e.2) g

namespace Graph

variable (g : Graph) (edges edges' : List (BlockId × BlockId)) (b : BlockId)

theorem addEdges_append : g.addEdges (edges ++ edges') = (g.addEdges edges).addEdges edges' :=
  List.foldl_append

theorem connect_eq_addEdges (c : Option BlockId) :
    g.connect c b = g.addEdges (c.toList.map (·, b)) := by
  cases c <;> rfl

@[simp] theorem size_addEdges : (g.addEdges edges).blocks.size = g.blocks.size := by
  induction edges generalizing g with
  | nil => rfl
  | cons e edges ih => exact (ih _).trans (size_addEdge g e.1 e.2)

@[simp] theorem nodes_addEdges : (g.addEdges edges).nodes b = g.nodes b := by
  induction edges generalizing g with
  | nil => rfl
  | cons e edges ih => exact (ih _).trans (nodes_addEdge g e.1 e.2 b)

theorem kind_addEdges : ((g.addEdges edges).block b).kind = (g.block b).kind := by
  induction edges generalizing g with
  | nil => rfl
  | cons e edges ih => exact (ih _).trans (kind_addEdge g e.1 e.2 b)

theorem mem_succs_addEdges {c : BlockId} (h : c ∈ (g.addEdges edges).succs b) :
    c ∈ g.succs b ∨ (b, c) ∈ edges := by
  induction edges generalizing g with
  | nil => exact .inl h
  | cons e edges ih =>
    rcases ih _ h with h | h
    · rcases mem_succs_of_addEdge h with h | ⟨rfl, rfl⟩
      · exact .inl h
      · exact .inr List.mem_cons_self
    · exact .inr (List.mem_cons_of_mem _ h)

end Graph

/-- What is said about a jump that finds no target. -/
def Jump.unplaced : Jump → String
  | .toEnd => "no enclosing loop or switch statement found"
  | .toNext => "no enclosing loop found"

namespace Build

/-- Nothing among the targets takes a jump of the kind, and nothing forbids it. -/
def Untaken (wanted : Exit) (T : List Target) : Prop :=
  .barrier ∉ T ∧ ∀ b, .landing wanted b ∉ T

/-- The edges from a block through the `finally` blocks among targets, as far as these complete. -/
def passage : Option BlockId → List Target → List (BlockId × BlockId)
  | _, [] => []
  | c, .cleanup entry last :: T => c.toList.map (·, entry) ++ passage last T
  | c, _ :: T => passage c T

/-- Where the way from a block through the `finally` blocks among targets ends. -/
def arrival : Option BlockId → List Target → Option BlockId
  | c, [] => c
  | _, .cleanup _ last :: T => arrival last T
  | c, _ :: T => arrival c T

/-- The state after the `finally` blocks among targets have been run. -/
def State.carried (s : State) (T : List Target) : State :=
  { s with graph := s.graph.addEdges (passage s.cursor T), cursor := arrival s.cursor T }

section

variable {wanted : Exit} {t : Target} {T : List Target} {s : State}

theorem Untaken.tail (h : Untaken wanted (t :: T)) : Untaken wanted T := by
  simp only [Untaken, List.mem_cons, not_or] at h ⊢
  exact ⟨h.1.2, fun b => (h.2 b).2⟩

theorem carried_cons (ht : ∀ entry last, t ≠ .cleanup entry last) :
    s.carried (t :: T) = s.carried T := by
  cases t with
  | cleanup entry last => exact absurd rfl (ht entry last)
  | _ => rfl

theorem carried_cleanup (entry : BlockId) (last : Option BlockId) :
    s.carried (.cleanup entry last :: T) =
      { s.withEdge s.cursor entry with cursor := last }.carried T := by
  simp only [State.carried, passage, arrival, State.withEdge, Graph.addEdges_append,
    Graph.connect_eq_addEdges]

/-- Without a `finally` block there is nothing to run. -/
theorem carried_eq_self (h : ∀ entry last, .cleanup entry last ∉ T) : s.carried T = s := by
  induction T with
  | nil => rfl
  | cons t T ih =>
    simp only [List.mem_cons, not_or] at h
    rw [carried_cons fun entry last => Ne.symm (h entry last).1]
    exact ih fun entry last => (h entry last).2

/-- A jump that nothing takes runs all `finally` blocks and is not found. -/
theorem jump_eq_carried (h : Untaken wanted T) (pos : Pos) (s : State) :
    jump pos wanted T s = .ok false (s.carried T) := by
  induction T generalizing s with
  | nil => rfl
  | cons t T ih =>
    cases t with
    | landing exit b =>
      have hexit : exit ≠ wanted := by
        rintro rfl
        exact h.2 b List.mem_cons_self
      rw [jump, if_neg hexit, carried_cons (by simp)]
      exact ih h.tail s
    | escape b =>
      rw [jump, carried_cons (by simp)]
      · exact ih h.tail s
      all_goals simp
    | handler accepts b =>
      rw [jump, carried_cons (by simp)]
      · exact ih h.tail s
      all_goals simp
    | cleanup entry last =>
      rw [carried_cleanup]
      exact ih h.tail _
    | barrier => exact absurd List.mem_cons_self h.1

/-- A misplaced jump statement is reported where it stands. -/
theorem stmt_jump_of_untaken {m : Mark} {kind : Jump} {b : BlockId} (facts : Facts)
    (h : Untaken kind.exit T) (hb : s.cursor = some b) :
    stmt facts T (.jump m kind) s = .ok ()
      (((s.withNode b (.stmt (.jump m kind))).carried T).reported .noEnclosingLoop m.pos
        kind.unplaced) := by
  have hcursor : cursor s = .ok (some b) s := congrArg (EStateM.Result.ok · s) hb
  have hadd : add (.stmt (.jump m kind)) s = .ok () (s.withNode b (.stmt (.jump m kind))) := by
    rw [add, bind_of_ok hcursor]
    rfl
  rw [stmt, whenReached, bind_of_ok hcursor, Option.isSome_some, if_pos rfl]
  cases kind with
  | toEnd =>
    rw [jumpStmt.eq_def, bind_of_ok hadd]
    exact bind_of_ok (jump_eq_carried h m.pos _)
  | toNext =>
    rw [jumpStmt.eq_def, bind_of_ok hadd]
    exact bind_of_ok (jump_eq_carried h m.pos _)

end

/-- A jump that nothing takes or forbids is not found, and what it leaves behind is the way through
the `finally` blocks around it: the edges of this way, and the cursor at its end. Where there is no
`finally` block, it changes nothing. A statement with such a jump is reported and leaves the same
behind. -/
theorem strays_of_untaken {wanted : Exit} {T : List Target} (h : Untaken wanted T) (pos : Pos)
    (s : State) :
    jump pos wanted T s = .ok false (s.carried T) ∧
    ((s.carried T).graph.blocks.size = s.graph.blocks.size ∧
      ∀ x, ((s.carried T).graph.block x).kind = (s.graph.block x).kind ∧
        (s.carried T).graph.nodes x = s.graph.nodes x ∧
        ∀ y ∈ (s.carried T).graph.succs x, y ∈ s.graph.succs x ∨ (x, y) ∈ passage s.cursor T) ∧
    ((∀ entry last, .cleanup entry last ∉ T) → s.carried T = s) ∧
    ∀ (facts : Facts) (m : Mark) (kind : Jump) (b : BlockId), kind.exit = wanted →
      s.cursor = some b → stmt facts T (.jump m kind) s = .ok ()
        (((s.withNode b (.stmt (.jump m kind))).carried T).reported .noEnclosingLoop m.pos
          kind.unplaced) := by
  refine ⟨jump_eq_carried h pos s, ⟨?_, fun x => ⟨?_, ?_, fun y hy => ?_⟩⟩, carried_eq_self, ?_⟩
  · exact s.graph.size_addEdges _
  · exact s.graph.kind_addEdges _ x
  · exact s.graph.nodes_addEdges _ x
  · exact s.graph.mem_succs_addEdges _ x hy
  · intro facts m kind b hkind hb
    exact stmt_jump_of_untaken facts (hkind ▸ h) hb

/-- The targets in a try statement of a function, if its `finally` block never completes. -/
def endlessTargets : List Target := .cleanup 4 none :: bodyTargets

theorem strays_bareState : bareState.cursor = some 0 ∧
    ∀ pos, jump pos .loopEnd endlessTargets bareState = .ok false (bareState.carried endlessTargets) :=
  ⟨rfl, fun pos => (strays_of_untaken (by simp [Untaken, endlessTargets, bodyTargets]) pos _).1⟩

end Build

namespace Construction

open Build

/-- A misplaced jump in a try statement whose `finally` block never completes. -/
def misplacedSource : Source := .ofText "" ("package p\nfunc f() \x7b " ++
  "try \x7b break; f() \x7d finally \x7b for \x7b \x7d \x7d \x7d").toList

def misplacedFacts : Facts := (Resolution.ofFile (Parsed.ofSource misplacedSource).file).facts

/-- The jump is reported, and so is the call behind it, as unreachable. -/
theorem built_misplacedSource :
    (Parsed.ofSource misplacedSource).reports = [] ∧
    (Resolution.ofFile (Parsed.ofSource misplacedSource).file).reports = [] ∧
    (Parsed.ofSource misplacedSource).file.funcs.map (fun d =>
      ((ofFunc misplacedFacts d).outcome.toOption.map fun g => [3, 5].map g.succs,
        (ofFunc misplacedFacts d).diagnostics.map (·.code),
        (ofFunc misplacedFacts d).dead.isEmpty)) =
      [(some [[5], [6]], [.noEnclosingLoop, .unreachableCode], false)] := by
  cbv

/-- The edge to the `finally` block and the loss of the cursor come from the jump that found no
target. -/
theorem misled_misplacedSource :
    (Untaken .loopEnd endlessTargets ∧ ∃ s', jump ⟨"", 2, 18⟩ .loopEnd endlessTargets bareState =
        .ok false s' ∧ s'.graph.succs 0 = [4] ∧ bareState.graph.succs 0 = [] ∧ s'.cursor = none ∧
      bareState.cursor = some 0) ∧
    ∃ d ∈ (Parsed.ofSource misplacedSource).file.funcs, ∃ x ∈ (ofFunc misplacedFacts d).diagnostics,
      x.code = .unreachableCode := by
  have huntaken : Untaken .loopEnd endlessTargets := by simp [Untaken, endlessTargets, bodyTargets]
  refine ⟨⟨huntaken, _, jump_eq_carried huntaken _ _, by decide, by decide, rfl, rfl⟩, ?_⟩
  obtain ⟨d, hfuncs, hbuilt⟩ := List.map_eq_singleton_iff.mp built_misplacedSource.2.2
  obtain ⟨-, hrest⟩ := Prod.mk.inj hbuilt
  have hcode : Code.unreachableCode ∈ (ofFunc misplacedFacts d).diagnostics.map (·.code) := by
    simp [(Prod.mk.inj hrest).1]
  obtain ⟨x, hx, hxcode⟩ := List.mem_map.mp hcode
  exact ⟨d, by simp [hfuncs], x, hx, hxcode⟩

end Construction

end FlowCheck
