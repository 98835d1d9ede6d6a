import FlowCheck.Proofs.Build.Frame

/-!
# Building nodes

A node is added to the block at the cursor. If it may raise errors, these leave from the block as it
stood before and the node opens a new one; a throw stands in the block that its errors leave from.
-/
namespace FlowCheck.Build

open Execution

section

variable {s : State} {b : BlockId} {n : Node} {T : List Target} {facts : Facts}

/-! ### One node -/

/-- The state with a node more. -/
def State.withNode (s : State) (b : BlockId) (n : Node) : State :=
  { s with graph := s.graph.addNode b n }

theorem runs_add (hb : s.cursor = some b) {Q : Unit → State → Prop} :
    Runs (add n) s Q ↔ Q () (s.withNode b n) := by
  rw [add, runs_bind, runs_cursor, hb]
  rfl

theorem safe_withNode (hs : Safe s) (b : BlockId) (n : Node) : Safe (s.withNode b n) := by
  refine ⟨hs.sane.addNode b n, fun c hc => ?_⟩
  obtain ⟨h₁, h₂⟩ := hs.cursor c hc
  exact ⟨by simpa [State.withNode] using h₁, h₂⟩

theorem later_withNode (s : State) (b : BlockId) (n : Node) : Later s (s.withNode b n) :=
  ⟨by simp [State.withNode], rfl, rfl, List.prefix_rfl, by simp [State.withNode]⟩

theorem grows_withNode (hb : s.graph.succs b = []) (n : Node) :
    s.graph.Grows (s.withNode b n).graph where
  nodes c := by
    by_cases hc : b = c
    · subst hc
      by_cases hlt : b < s.graph.blocks.size
      · rw [State.withNode, Graph.nodes_addNode_self n hlt]
        exact List.prefix_append _ _
      · rw [Graph.nodes_of_size_le (not_lt.mp hlt)]
        exact List.nil_prefix
    · rw [State.withNode, Graph.nodes_addNode_ne n hc]
  closed c hc := by
    refine Graph.nodes_addNode_ne n ?_
    rintro rfl
    exact hc hb
  succs hc := by simpa [State.withNode] using hc

theorem frame_withNode {own : BlockId → Prop} {L : List BlockId} (hb : s.graph.succs b = [])
    (hown : own b) (n : Node) : Frame own L s.graph (s.withNode b n).graph where
  grows := grows_withNode hb n
  nodes c hc := Graph.nodes_addNode_ne n fun h => hc (h ▸ hown)
  succs c _ _ := by simp [State.withNode]

theorem nodes_withNode (hb : b < s.graph.blocks.size) (n : Node) :
    (s.withNode b n).graph.nodes b = s.graph.nodes b ++ [n] :=
  Graph.nodes_addNode_self n hb

/-- A new node of a block is the next one for whoever stands at its former end. -/
theorem getElem?_withNode {G : Graph} (hb : b < s.graph.blocks.size)
    (hG : (s.withNode b n).graph.Grows G) :
    (G.nodes b)[(s.graph.nodes b).length]? = some n := by
  refine hG.getElem? ?_
  rw [nodes_withNode hb, List.getElem?_append_right le_rfl]
  simp

theorem built_withNode (hs : Safe s) (hb : s.cursor = some b) :
    Built T (Visits n) s (s.withNode b n) := by
  have hlt := (hs.cursor b hb).1
  refine ⟨safe_withNode hs b n, later_withNode s b n, ?_, ?_⟩
  · intro _ ht
    obtain ⟨hopen, hlast⟩ := ht b hb
    refine ⟨frame_withNode hopen (.inl hb) n, fun c hc => .inl hc, ?_⟩
    intro c hc
    obtain rfl : b = c := Option.some_inj.mp (hb.symm.trans hc)
    exact ⟨by simpa [State.withNode] using hopen, hlast⟩
  · rintro _ - G hG t t' e ⟨c, hc, htrace⟩ hrun
    obtain rfl : b = c := Option.some_inj.mp (hb.symm.trans hc)
    have hnext := getElem?_withNode hlt hG
    cases hrun with
    | before => exact .of_cut (by simpa using htrace)
    | during => exact .of_cut (htrace.start hnext)
    | completes =>
      refine .of_normal ⟨b, hb, ?_⟩
      rw [nodes_withNode hlt, List.length_append]
      simpa using (htrace.start hnext).complete hnext

/-! ### New blocks -/

/-- The cursor moves to a new block with an edge to it. -/
def State.branched (s : State) (k : BlockKind) (a : Option BlockId) : State :=
  ((s.withBlock k).withEdge a s.graph.blocks.size).movedTo (some s.graph.blocks.size)

theorem runs_branch {k : BlockKind} {a : Option BlockId} {Q : Unit → State → Prop} :
    Runs (branch k a) s Q ↔ Q () (s.branched k a) := Iff.rfl

theorem wired_branched {a : Option BlockId} (hs : Sane s.graph)
    (ha : ∀ x, a = some x → Source s.graph x) (k : BlockKind) :
    Wired (fun c => a = some c) s (s.branched k a) := by
  have hblock := wired_withBlock hs k
  have hedge := wired_withEdge (a := a) hblock.sane (fun x hx => hblock.later.source (ha x hx))
    (goal_withBlock hs k)
  have hall := (hblock.mono (by simp)).trans hedge
  exact hall.trans (wired_movedTo hall.sane _)

theorem safe_branched {a : Option BlockId} (hs : Sane s.graph)
    (ha : ∀ x, a = some x → Source s.graph x) (k : BlockKind) : Safe (s.branched k a) := by
  have hblock := wired_withBlock hs k
  have hedge := wired_withEdge (a := a) hblock.sane (fun x hx => hblock.later.source (ha x hx))
    (goal_withBlock hs k)
  refine ⟨(wired_branched hs ha k).sane, ?_⟩
  rintro b ⟨⟩
  exact hedge.later.source (source_withBlock hs k)

theorem edge_branched {a : BlockId} (hs : Sane s.graph) (ha : Source s.graph a) (k : BlockKind) :
    (s.branched k (some a)).graph.Edge a s.graph.blocks.size :=
  edge_withEdge ((wired_withBlock hs k).later.source ha)

/-- A block past the last one has neither nodes nor edges. -/
theorem nodes_new {s' : State} {A : BlockId → Prop} (h : Wired A s s') :
    s'.graph.nodes s.graph.blocks.size = [] := by
  rw [h.nodes, Graph.nodes_of_size_le le_rfl]

theorem succs_new {s' : State} {A : BlockId → Prop} (h : Wired A s s')
    (hA : ¬ A s.graph.blocks.size) : s'.graph.succs s.graph.blocks.size = [] := by
  rw [h.succs _ hA, Graph.succs_of_size_le le_rfl]

theorem notMem_lasts (hT : ∀ a ∈ T, Fits s.graph a) (hb : s.graph.blocks.size ≤ b) :
    b ∉ lasts T :=
  fun h => Nat.lt_irrefl _ (Nat.lt_of_lt_of_le (source_of_mem_lasts hT h).1 hb)

theorem tidy_branched {a : Option BlockId} (hs : Sane s.graph)
    (ha : ∀ x, a = some x → Source s.graph x) (hT : ∀ x ∈ T, Fits s.graph x) (k : BlockKind) :
    Tidy T (s.branched k a) := by
  rintro b ⟨⟩
  refine ⟨succs_new (wired_branched hs ha k) fun h => ?_, notMem_lasts hT le_rfl⟩
  exact Nat.lt_irrefl _ (ha _ h).1

/-- Who stands at the end of a block stands at the cursor after branching from it. -/
theorem at_branched {G : Graph} {t : List Moment} {k : BlockKind} (hs : Sane s.graph)
    (hb : Source s.graph b) (hG : (s.branched k (some b)).graph.Grows G)
    (ht : G.Traces t b (s.graph.nodes b).length) : At G (s.branched k (some b)) t := by
  have hwired := wired_branched (a := some b) hs (fun x hx => by cases hx; exact hb) k
  refine ⟨s.graph.blocks.size, rfl, ?_⟩
  rw [nodes_new hwired]
  refine hG.pass (edge_branched hs hb k) ?_
  rwa [hwired.nodes]

/-! ### Nodes that may raise errors -/

/-- A node with the errors that it may raise instead of completing. -/
theorem runs_addNode (hs : Safe s) (hb : s.cursor = some b) (hT : ∀ a ∈ T, Fits s.graph a)
    (hground : Grounded T) :
    Runs (addNode facts T n) s fun _ s' => Built T (Evaluates facts n) s s' := by
  unfold addNode
  split
  · rename_i hn
    exact (runs_add hb).mpr ((built_withNode hs hb).weaken fun _ _ => visits_of_evaluates hn)
  rw [runs_bind, runs_cursor, hb]
  refine (runs_raiseAll (facts.raises n) hs.sane (hs.cursor b hb) hT).bind ?_
  rintro _ s₁ ⟨hwired, hlead⟩
  have hb₁ := hwired.later.source (hs.cursor b hb)
  have hsrc : ∀ x, some b = some x → Source s₁.graph x := by
    rintro x ⟨⟩
    exact hb₁
  have hbranch := wired_branched hwired.sane hsrc .plain
  have hsafe := safe_branched hwired.sane hsrc .plain
  have hlt := (hsafe.cursor s₁.graph.blocks.size rfl).1
  rw [runs_bind, runs_branch]
  refine (runs_add rfl).mpr ⟨safe_withNode hsafe _ n, ?_, ?_, ?_⟩
  · exact (hwired.later.trans hbranch.later).trans (later_withNode _ _ n)
  · intro _ ht
    obtain ⟨hopen, -⟩ := tidy_branched hwired.sane hsrc
      (fun a ha => (hT a ha).later hwired.later) .plain _ rfl
    have hnew : Own s s₁.graph.blocks.size := .inr hwired.later.size_le
    refine ⟨(hwired.frame ?_).trans
      ((hbranch.frame ?_).trans (frame_withNode hopen hnew n)), ?_, ?_⟩
    · rintro c (hc | hc)
      · exact .inl (.inl (hb.trans hc))
      · exact .inr hc
    · rintro c ⟨⟩
      exact .inl (.inl hb)
    · rintro c ⟨⟩
      exact hnew
    · rintro c ⟨⟩
      exact ⟨by simpa [State.withNode] using hopen, notMem_lasts hT hwired.later.size_le⟩
  · rintro _ - G hG t t' e ⟨c, hc, htrace⟩ hrun
    obtain rfl : b = c := Option.some_inj.mp (hb.symm.trans hc)
    obtain ⟨hopen, -⟩ := tidy_branched hwired.sane hsrc
      (fun a ha => (hT a ha).later hwired.later) .plain _ rfl
    have hG₁ := (grows_withNode hopen n).trans hG
    -- the block of the cursor is closed, and the new one begins with the node
    have hedge := edge_branched hwired.sane hb₁ .plain
    have hend : G.nodes b = s.graph.nodes b := by
      rw [hG₁.closed b (List.ne_nil_of_mem hedge), hbranch.nodes, hwired.nodes]
    have hnext := getElem?_withNode hlt hG
    rw [nodes_new hbranch, List.length_nil] at hnext
    rw [← hend] at htrace
    have hstart := htrace.startNext (hG₁.succs hedge) hnext
    cases hrun with
    | before => exact .of_cut (by simpa using htrace)
    | during => exact .of_cut hstart
    | completes =>
      refine .of_normal ⟨_, rfl, ?_⟩
      rw [nodes_withNode hlt, nodes_new hbranch]
      simpa using (hstart.pass (hG₁.succs hedge)).complete hnext
    | raises hmem hx =>
      refine .of_way rfl ⟨b, hstart, ?_⟩
      exact (hlead hground.escape _ hmem _ hx).mono
        ((hbranch.later.trans (later_withNode _ _ n)).succs)

theorem completes_add (hb : s.cursor = some b) (n : Node) : Completes (add n) s := by
  refine ⟨(), s.withNode b n, ?_⟩
  obtain ⟨g, c, w, ds, dead⟩ := s
  cases hb
  rfl

/-- Where there is a cursor, a node that raises errors is built whatever is around it. -/
theorem completes_addNode (facts : Facts) (T : List Target) (hb : s.cursor = some b) (n : Node) :
    Completes (addNode facts T n) s := by
  unfold addNode
  cases facts.raises n with
  | nil => exact completes_add hb n
  | cons e es =>
    refine Completes.bind ⟨_, _, rfl⟩ fun fork s₁ _ => ?_
    refine Completes.bind (completes_raiseAll T fork (e :: es) s₁) fun _ s₂ _ => ?_
    exact Completes.bind ⟨_, _, rfl⟩ fun _ s₃ h => by
      cases h
      exact completes_add rfl n

/-- A node has been built from the cursor on. -/
structure Added (facts : Facts) (T : List Target) (n : Node) (s s' : State) : Prop where
  reached : ∃ b, s.cursor = some b
  ok : addNode facts T n s = .ok () s'

theorem Added.realizes {s' : State} (h : Added facts T n s s') (hground : Grounded T) :
    Realizes T (Evaluates facts n) s s' := by
  intro hs hT
  obtain ⟨b, hb⟩ := h.reached
  exact (runs_addNode hs hb hT hground).ok h.ok

/-- A throw with the errors that it raises; nothing follows it. -/
theorem runs_addRaising (hs : Safe s) (hb : s.cursor = some b) (hT : ∀ a ∈ T, Fits s.graph a)
    (hground : Grounded T) :
    Runs (addRaising facts T n) s fun _ s' => Built T (Throws facts n) s s' := by
  unfold addRaising
  have hlt := (hs.cursor b hb).1
  have hnode := safe_withNode hs b n
  have hlater := later_withNode s b n
  rw [runs_bind, runs_add hb, runs_bind, runs_cursor]
  change Runs (do raiseAll T s.cursor (facts.raises n); goOn none) _ _
  rw [hb]
  refine (runs_raiseAll (facts.raises n) hnode.sane (hlater.source (hs.cursor b hb)) fun a ha =>
    (hT a ha).later hlater).bind ?_
  rintro _ s₁ ⟨hwired, hlead⟩
  rw [runs_goOn]
  have hend : Wired (fun _ => False) s₁ (s₁.movedTo none) := wired_movedTo hwired.sane none
  have hl := (hlater.trans hwired.later).trans hend.later
  refine ⟨⟨hwired.sane, by simp [State.movedTo]⟩, hl, ?_, ?_⟩
  · intro _ ht
    refine ⟨?_, by simp [State.movedTo], by simp [Tidy, State.movedTo]⟩
    refine (frame_withNode (ht b hb).1 (.inl hb) n).trans (hwired.frame ?_)
    rintro c (hc | hc)
    · exact .inl (.inl (hb.trans hc))
    · exact .inr hc
  · rintro _ ht G hG t t' e ⟨c, hc, htrace⟩ hrun
    obtain rfl : b = c := Option.some_inj.mp (hb.symm.trans hc)
    have hG₁ : (s.withNode b n).graph.Grows G := hwired.grows.trans hG
    have hnext := getElem?_withNode hlt hG₁
    cases hrun with
    | before => exact .of_cut (by simpa using htrace)
    | during => exact .of_cut (htrace.start hnext)
    | after => exact .of_cut (by simpa using (htrace.start hnext).complete hnext)
    | raises hmem hx =>
      refine .of_way rfl (hG.departs (hlead hground.escape _ hmem _ hx) ?_)
      change G.Traces _ b (s₁.graph.nodes b).length
      rw [hwired.nodes, nodes_withNode hlt, List.length_append]
      simpa using (htrace.start hnext).complete hnext

theorem completes_addRaising (facts : Facts) (T : List Target) (hb : s.cursor = some b) (n : Node) :
    Completes (addRaising facts T n) s := by
  refine Completes.bind (completes_add hb n) fun _ s₁ _ => ?_
  refine Completes.bind ⟨_, _, rfl⟩ fun fork s₂ _ => ?_
  exact Completes.bind (completes_raiseAll T fork (facts.raises n) s₂) fun _ _ _ => ⟨_, _, rfl⟩

/-! ### Dead code -/

namespace State

/-- The state with some nodes more marked as dead. -/
def marked (s : State) (ids : List Nat) : State := { s with dead := s.dead ++ ids }

def markedHere (s : State) (m : Mark) : State := if s.cursor.isNone then s.marked [m.id] else s

/-- The state after a statement has been passed over, with a warning if it starts a run. -/
def skipped (s : State) (n : Node) : State :=
  { s with
    dead := s.dead ++ n.subtree.map Node.id
    warned := true
    diagnostics :=
      if s.warned then s.diagnostics
      else s.diagnostics ++
        [⟨.flow, .warning, .unreachableCode, n.pos, "unreachable code detected"⟩] }

end State

theorem ok_markHere (m : Mark) (s : State) : markHere m s = .ok () (s.markedHere m) := by
  rw [markHere, bind_of_ok (show cursor s = .ok s.cursor s from rfl), State.markedHere]
  split_ifs <;> rfl

theorem ok_skipDead (n : Node) (s : State) : skipDead n s = .ok () (s.skipped n) := by
  obtain ⟨g, c, w, ds, dead⟩ := s
  cases w <;> rfl

theorem whenReached_of_none (hc : s.cursor = none) (m : Builder Unit) :
    whenReached n m s = .ok () (s.skipped n) := by
  rw [whenReached, bind_of_ok (show cursor s = .ok s.cursor s from rfl), hc]
  exact ok_skipDead n s

theorem whenReached_of_some (hb : s.cursor = some b) (m : Builder Unit) :
    whenReached n m s = m s := by
  rw [whenReached, bind_of_ok (show cursor s = .ok s.cursor s from rfl), hb]
  rfl

theorem realizes_markedHere (s : State) (m : Mark) :
    Realizes T (silent .normal) s (s.markedHere m) := by
  unfold State.markedHere
  split_ifs <;> exact .silent rfl rfl List.prefix_rfl

theorem realizes_skipped {B : Behavior} (hc : s.cursor = none) :
    Realizes T B s (s.skipped n) := by
  refine fun hs _ => .dead hs hc rfl rfl ?_
  unfold State.skipped
  dsimp only
  split_ifs
  · exact List.prefix_rfl
  · exact List.prefix_append _ _

end

end FlowCheck.Build
