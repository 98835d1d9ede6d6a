import FlowCheck.Proofs.Build.Growth
import FlowCheck.Proofs.Build.Visit
import FlowCheck.Proofs.Tree.Subtree

/-!
# Every node in its place

Construction mentions a node when it puts it into a block or marks it as dead. It does so at most
once for every node of the part that is built, and what it marks as dead is marked with everything
below it. As no node is forgotten either, every node that control flow visits stands in one place
of the graph, or it is dead and stands in none.
-/
namespace FlowCheck

namespace Graph

/-- The nodes of all blocks, block by block. -/
def placed (g : Graph) : List Node := (List.range g.blocks.size).flatMap g.nodes

theorem mem_placed {g : Graph} {n : Node} : n ∈ g.placed ↔ ∃ b, n ∈ g.nodes b := by
  refine List.mem_flatMap.trans ⟨fun ⟨b, _, hn⟩ => ⟨b, hn⟩, fun ⟨b, hn⟩ => ⟨b, ?_, hn⟩⟩
  refine List.mem_range.mpr (not_le.mp fun hle => ?_)
  rw [nodes_of_size_le hle] at hn
  cases hn

/-- More blocks with nothing in them change nothing. -/
theorem placed_congr {g g' : Graph} (hsize : g.blocks.size ≤ g'.blocks.size)
    (hnodes : ∀ b, g'.nodes b = g.nodes b) : g'.placed = g.placed := by
  obtain ⟨k, hk⟩ := Nat.exists_eq_add_of_le hsize
  have hnew : ((List.range k).map (g.blocks.size + ·)).flatMap g.nodes = [] := by
    simp [List.flatMap_eq_nil_iff, nodes_of_size_le]
  rw [placed, placed, show g'.nodes = g.nodes from funext hnodes, hk, List.range_add,
    List.flatMap_append, hnew, List.append_nil]

end Graph

namespace Build

/-! ### Counting -/

/-- How often a number is mentioned: by the nodes of blocks and as the number of a dead node. -/
def State.mentions (s : State) (i : Nat) : Nat :=
  (s.graph.placed.map Node.id).count i + s.dead.count i

/-- From one state to the other every number is mentioned no more often than it is in `ids`. -/
def Spends (ids : List Nat) (s s' : State) : Prop :=
  ∀ i, s'.mentions i ≤ s.mentions i + ids.count i

section

variable {ids ids' : List Nat} {s s' s'' : State} {T : List Target} {n : Node}

theorem Spends.trans (h : Spends ids s s') (h' : Spends ids' s' s'') :
    Spends (ids ++ ids') s s'' := by
  intro i
  have h := h i
  have h' := h' i
  rw [List.count_append]
  omega

theorem Spends.le (h : Spends ids s s') (hle : ∀ i, ids.count i ≤ ids'.count i) :
    Spends ids' s s' :=
  fun i => (h i).trans (Nat.add_le_add_left (hle i) _)

theorem Spends.mono (h : Spends ids s s') (hsub : ids.Sublist ids') : Spends ids' s s' :=
  h.le fun i => hsub.count_le i

theorem Spends.refl (s : State) : Spends [] s s := fun _ => Nat.le_refl _

theorem Spends.thenIdle (h : Spends ids s s') (h' : Spends [] s' s'') : Spends ids s s'' := by
  simpa using h.trans h'

theorem Spends.afterIdle (h : Spends [] s s') (h' : Spends ids s' s'') : Spends ids s s'' :=
  h.trans h'

theorem spends_of_adds {E : BlockId → BlockId → Prop} (h : Adds E NoNode s s')
    (hdead : s'.dead = s.dead) : Spends [] s s' := by
  intro i
  rw [State.mentions, State.mentions, hdead,
    Graph.placed_congr h.size_le fun b => h.nodes_eq fun _ => id]
  exact Nat.le_refl _

theorem count_flatMap_le {α : Type} [BEq α] {f f' : Nat → List α} {b : Nat} {x : α}
    (hb : f' b = f b ∨ f' b = f b ++ [x]) (hne : ∀ c, b ≠ c → f' c = f c) {cs : List Nat}
    (hcs : cs.Nodup) (a : α) :
    (cs.flatMap f').count a ≤ (cs.flatMap f).count a + [x].count a := by
  induction cs with
  | nil => simp
  | cons c cs ih =>
    obtain ⟨hc, hcs⟩ := List.nodup_cons.mp hcs
    rw [List.flatMap_cons, List.flatMap_cons, List.count_append, List.count_append]
    by_cases h : b = c
    · subst h
      have hrest : cs.flatMap f' = cs.flatMap f :=
        List.flatMap_congr fun d hd => hne d fun he => hc (he ▸ hd)
      rw [hrest]
      rcases hb with hb | hb
      · rw [hb]
        omega
      · rw [hb, List.count_append]
        omega
    · rw [hne c h]
      have := ih hcs
      omega

theorem spends_withNode (s : State) (b : BlockId) (n : Node) :
    Spends [n.id] s (s.withNode b n) := by
  intro i
  have hnodes : (s.withNode b n).graph.nodes b = s.graph.nodes b ∨
      (s.withNode b n).graph.nodes b = s.graph.nodes b ++ [n] := by
    by_cases hb : b < s.graph.blocks.size
    · exact .inr (nodes_withNode hb n)
    · have hle : (s.withNode b n).graph.blocks.size ≤ b := (size_withNode s b n).trans_le (not_lt.mp hb)
      rw [Graph.nodes_of_size_le hle, Graph.nodes_of_size_le (not_lt.mp hb)]
      exact .inl rfl
  have hcount : ((s.withNode b n).graph.placed.map Node.id).count i ≤
      (s.graph.placed.map Node.id).count i + [n.id].count i := by
    rw [Graph.placed, Graph.placed, List.map_flatMap, List.map_flatMap, size_withNode]
    refine count_flatMap_le (b := b) (x := n.id) ?_ ?_ List.nodup_range i
    · exact hnodes.imp (congrArg (List.map Node.id)) fun h =>
        (congrArg (List.map Node.id) h).trans List.map_append
    · exact fun c hc => congrArg (List.map Node.id) (Graph.nodes_addNode_ne n hc)
  have hdead : (s.withNode b n).dead = s.dead := rfl
  rw [State.mentions, State.mentions, hdead]
  omega

theorem spends_marked (s : State) (ids : List Nat) : Spends ids s (s.marked ids) := by
  intro i
  simp only [State.mentions, State.marked, List.count_append]
  omega

theorem spends_movedTo (s : State) (c : Option BlockId) : Spends [] s (s.movedTo c) :=
  spends_of_adds (E := NoEdge) (adds_movedTo s c) rfl

theorem spends_withEdge (s : State) (a : Option BlockId) (b : BlockId) :
    Spends [] s (s.withEdge a b) :=
  spends_of_adds (E := fun _ _ => True) (adds_withEdge fun _ _ => trivial) rfl

theorem Departed.spends {c : Option BlockId} (h : Departed c T s s') : Spends [] s s' :=
  spends_of_adds h.adds h.dead

theorem spends_branched (s : State) {k : BlockKind} (hk : k ≠ .cleanup) (a : Option BlockId) :
    Spends [] s (s.branched k a) :=
  spends_of_adds (adds_branched s k hk a) rfl

theorem ids_sublist (n : Node) : [n.id].Sublist (n.subtree.map Node.id) :=
  (List.singleton_sublist.2 n.mem_subtree).map Node.id

theorem Placed.spends (h : Placed T n s s') : Spends [n.id] s s' := by
  cases h with
  | here hb => exact spends_withNode s _ n
  | @after b s₁ hb hd =>
    exact (hd.spends.afterIdle (spends_branched s₁ (by decide) _)).afterIdle (spends_withNode _ _ n)

theorem Placed.spendsAll (h : Placed T n s s') : Spends (n.subtree.map Node.id) s s' :=
  h.spends.mono (ids_sublist n)

theorem spends_simpleOption {x : Option Simple}
    (h : PlacedOption T (x.map fun y => .stmt (.simple y)) s s') :
    Spends ((x.elim [] (·.walk everywhere)).map Node.id) s s' := by
  cases x with
  | none => exact (show s' = s from h) ▸ .refl s'
  | some x => exact Placed.spendsAll h

theorem spends_exprOption {x : Option Expr} (h : PlacedOption T (x.map .expr) s s') :
    Spends ((Expr.walkOption everywhere x).map Node.id) s s' := by
  cases x with
  | none => exact (show s' = s from h) ▸ .refl s'
  | some x => exact Placed.spendsAll h

theorem Prepared.spends {facts : Facts} {cs : List CatchClause} {hs : List (ErrorType × BlockId)}
    (h : Prepared facts cs s hs s') : Spends [] s s' := by
  refine spends_of_adds (E := NoEdge) h.adds ?_
  induction h with
  | nil => rfl
  | cons _ ih => exact ih

theorem Stands.spendsAll {x : Stmt} (h : Stands T x s s') :
    Spends ((x.walk everywhere).map Node.id) s s' := by
  cases h with
  | goesOn _ h => exact h.spendsAll
  | leaves _ h hd => exact (h.spendsAll.thenIdle hd.spends).thenIdle (spends_movedTo _ none)
  | strays h hd text =>
    exact (h.spendsAll.thenIdle hd.spends).thenIdle
      (spends_of_adds (E := NoEdge) (adds_reported _ (by simp) _ text) rfl)

theorem Closes.spendsAll {facts : Facts} {header : BlockId} {q : Option (Simple × BlockId)}
    (h : Closes facts T header q s s') :
    Spends ((q.elim [] fun p => p.1.walk everywhere).map Node.id) s s' := by
  cases h with
  | straight => exact spends_withEdge s _ header
  | @dead q b hb =>
    exact ((spends_withEdge s s.cursor b).afterIdle (spends_marked _ _)).thenIdle
      (spends_withEdge _ s.cursor header)
  | @live q b s s₁ hb h =>
    exact (((spends_withEdge s s.cursor b).afterIdle (spends_movedTo _ _)).afterIdle
      h.placed.spendsAll).thenIdle (spends_withEdge s₁ s₁.cursor header)

theorem spends_withBlock (s : State) (k : BlockKind) : Spends [] s (s.withBlock k) := by
  intro i
  have hplaced : (s.withBlock k).graph.placed = s.graph.placed :=
    Graph.placed_congr (grown_withBlock s k).size_le (Graph.nodes_newBlock s.graph k)
  rw [State.mentions, hplaced]
  exact Nat.le_refl _

@[simp] theorem dead_withBlock (s : State) (k : BlockKind) : (s.withBlock k).dead = s.dead := rfl

@[simp] theorem dead_withEdge (s : State) (a : Option BlockId) (b : BlockId) :
    (s.withEdge a b).dead = s.dead := rfl

@[simp] theorem dead_withNode (s : State) (b : BlockId) (n : Node) :
    (s.withNode b n).dead = s.dead := rfl

@[simp] theorem dead_movedTo (s : State) (c : Option BlockId) : (s.movedTo c).dead = s.dead := rfl

@[simp] theorem dead_branched (s : State) (k : BlockKind) (a : Option BlockId) :
    (s.branched k a).dead = s.dead := by
  simp [State.branched]

@[simp] theorem dead_iterated (s : State) (n : Node) : (s.iterated n).dead = s.dead := by
  simp [State.iterated]

@[simp] theorem dead_branchedIf (s : State) (taken : Bool) (a : Option BlockId) :
    (s.branchedIf taken a).dead = s.dead := by
  cases taken <;> rfl

@[simp] theorem dead_joined (s : State) (a b : Option BlockId) : (s.joined a b).dead = s.dead := by
  unfold State.joined
  split_ifs <;> rfl

@[simp] theorem dead_laidOut (s : State) (post : Option Simple) :
    (s.laidOut post).dead = s.dead := by
  cases post <;> rfl

@[simp] theorem dead_opened (s : State) (value : Option Bool) (tested : Bool) (after : BlockId) :
    (s.opened value tested after).dead = s.dead := by
  unfold State.opened
  cases tested <;> cases value != some true <;> simp

@[simp] theorem dead_fallenThrough (s : State) (m : Mark) (after : BlockId) :
    (s.fallenThrough m after).dead = s.dead := by
  unfold State.fallenThrough
  split_ifs <;> rfl

@[simp] theorem dead_defaulted (s : State) (sections : List CaseClause) (tagEnd : Option BlockId)
    (after : BlockId) : (s.defaulted sections tagEnd after).dead = s.dead := by
  unfold State.defaulted
  split_ifs <;> rfl

@[simp] theorem dead_compared (s : State) (before : List ErrorType) (a : ErrorType) (m : Mark) :
    (s.compared before a m).dead = s.dead := by
  unfold State.compared
  split_ifs <;> rfl

theorem spends_branchedIf (s : State) (taken : Bool) (a : Option BlockId) :
    Spends [] s (s.branchedIf taken a) :=
  spends_of_adds (adds_branchedIf s taken a) (dead_branchedIf s taken a)

theorem spends_joined (s : State) (a b : Option BlockId) : Spends [] s (s.joined a b) :=
  spends_of_adds (adds_joined s a b) (dead_joined s a b)

theorem spends_opened (s : State) (post : Option Simple) (value : Option Bool) (tested : Bool)
    (after : BlockId) : Spends [] s ((s.laidOut post).opened value tested after) :=
  (spends_of_adds (E := NoEdge) (adds_laidOut s post) (dead_laidOut s post)).afterIdle
    (spends_of_adds (adds_opened _ value tested after) (dead_opened _ value tested after))

theorem spends_iterated (s : State) (n : Node) : Spends [n.id] s (s.iterated n) := by
  let header := s.graph.blocks.size
  let s₁ := (((s.withBlock .loop).withBlock .afterLoop).withEdge s.cursor header).movedTo
    (some header)
  have hblocks : Spends [] s s₁ :=
    (((spends_withBlock s .loop).afterIdle (spends_withBlock _ .afterLoop)).afterIdle
      (spends_withEdge _ s.cursor header)).afterIdle (spends_movedTo _ _)
  exact ((hblocks.afterIdle (spends_withNode s₁ header n)).thenIdle
    (spends_withEdge _ (some header) _)).thenIdle (spends_branched _ (by decide) _)

theorem spends_fallenThrough (s : State) (m : Mark) (after : BlockId) :
    Spends [] s (s.fallenThrough m after) :=
  spends_of_adds (adds_fallenThrough s m after) (dead_fallenThrough s m after)

theorem spends_defaulted (s : State) (sections : List CaseClause) (tagEnd : Option BlockId)
    (after : BlockId) : Spends [] s (s.defaulted sections tagEnd after) :=
  spends_of_adds (adds_defaulted s sections tagEnd after) (dead_defaulted s sections tagEnd after)

theorem spends_compared (s : State) (before : List ErrorType) (a : ErrorType) (m : Mark) :
    Spends [] s (s.compared before a m) :=
  spends_of_adds (E := NoEdge) (adds_compared s before a m) (dead_compared s before a m)

theorem spends_markedHere (s : State) (m : Mark) : Spends [m.id] s (s.markedHere m) := by
  unfold State.markedHere
  split_ifs
  · exact spends_marked s [m.id]
  · exact (Spends.refl s).mono (List.nil_sublist _)

end

/-- What is built of a part is mentioned no more often than the part mentions it. -/
theorem Course.spends {facts : Facts} {T : List Target} {p : Part} {s s' : State}
    {made : List (Stmt × BlockId)} (h : Course facts T p s made s') :
    Spends (p.walk.map Node.id) s s' := by
  induction h with
  | @skipped T x s _ _ => exact spends_marked s ((x.walk everywhere).map Node.id)
  | @empty T m s => exact spends_markedHere s m
  | braces _ ih => exact ih
  | single h => exact h.stands.spendsAll
  | @cond T m test yes no s s₁ s₂ s₃ made₁ made₂ htest _ _ ihyes ihno =>
    have hyes := (spends_branchedIf s₁ _ s₁.cursor).afterIdle ihyes
    have hno := ((spends_branchedIf s₂ _ s₁.cursor).afterIdle ihno).thenIdle
      (spends_joined s₃ s₂.cursor s₃.cursor)
    refine ((htest.placed.spendsAll.trans hyes).trans hno).mono ?_
    simp only [Part.walk, walkList_toList, Stmt.walk, Node.above_everywhere, ← List.map_append]
    exact (List.sublist_cons_self _ _).map Node.id
  | @loop T m init post test body c s s₁ s₂ s₃ s₄ q made _ hinit htest hq _ hround ih =>
    have hheader := spends_branched s₁ (k := .loop) (by decide) s₁.cursor
    have htest := (spends_simpleOption hinit.placed).trans
      (hheader.afterIdle (spends_exprOption htest.placed))
    have hbody := ((spends_opened s₂ post _ _ _).afterIdle ih).trans hround.spendsAll
    have hpost : (q.elim [] fun p => p.1.walk everywhere) = post.elim [] (·.walk everywhere) := by
      rw [hq]
      cases post <;> rfl
    refine ((htest.trans hbody).thenIdle (spends_movedTo s₄ _)).le fun i => ?_
    simp only [hpost, Part.walk, Stmt.walk, Node.above_everywhere, List.map_append, List.map_cons,
      List.count_append, List.count_cons]
    omega
  | @foreach T m v operand body s s₁ s₂ made hoperand _ ih =>
    have hbody := (spends_iterated s₁ _).trans (ih.thenIdle
      (spends_withEdge s₂ s₂.cursor s₁.graph.blocks.size))
    have hoperand : Spends ((operand.walk everywhere).map Node.id) s s₁ := hoperand.placed.spendsAll
    refine ((hoperand.trans hbody).thenIdle (spends_movedTo _ _)).le fun i => ?_
    simp only [Part.walk, Stmt.walk, Node.above_everywhere, List.map_append, List.map_cons,
      List.count_append, List.count_cons, List.count_nil]
    omega
  | @switch T m tag sections close s s₁ s₂ made htag _ ih =>
    have htag := (spends_withBlock s .join).afterIdle htag.placed.spendsAll
    have hend := spends_defaulted s₂ sections s₁.cursor s.graph.blocks.size
    refine (((htag.trans ih).thenIdle hend).thenIdle (spends_movedTo _ _)).mono ?_
    simp only [Part.walk, Stmt.walk, Node.above_everywhere, ← List.map_append]
    exact (List.sublist_cons_self _ _).map Node.id
  | @attempt T m body clauses cleanup c s s₁ s₂ s₃ s₄ s₅ cl hs made₁ made₂ made₃ _ _ hready _ hleave _
      ihcleanup ihbody ihclauses =>
    have hblocks := ((spends_withBlock s .join).afterIdle ihcleanup).thenIdle
      hready.spends
    have hbody := ((spends_movedTo s₂ (some c)).afterIdle ihbody).thenIdle hleave.departed.spends
    have hclauses := ihclauses.thenIdle
      (spends_movedTo s₅ (Onward.cursor s₅.graph s.graph.blocks.size))
    refine ((hblocks.trans hbody).trans hclauses).le fun i => ?_
    simp only [Part.walk, Stmt.walk, Node.above_everywhere, List.map_append, List.map_cons,
      List.count_append, List.count_cons]
    omega
  | nil => exact .refl _
  | cons _ _ ihx ihxs =>
    refine (ihx.trans ihxs).mono ?_
    simp [Part.walk, Stmt.walkList]
  | @block T m xs close s s' made _ ih => exact (spends_markedHere s m).trans ih
  | noSections => exact .refl _
  | @sections T tagEnd after m values isDefault body cs s s₁ s₂ s' made₁ made₂ hlabels _ _ ihbody
      ihcs =>
    have hbody := ((spends_branched s (by decide) tagEnd).afterIdle hlabels.placed.spends).trans
      ihbody
    refine (hbody.trans ((spends_fallenThrough s₂ m after).afterIdle ihcs)).le fun i => ?_
    simp only [Part.walk, CaseClause.walkList, CaseClause.walk, Node.above_everywhere,
      List.map_append, List.map_cons, List.count_append, List.count_cons, List.count_nil]
    omega
  | noClauses => exact .refl _
  | @uncaught T cl after b before a hs c cs s s' made _ _ ih =>
    have hskip : Spends ((c.walk everywhere).map Node.id) (s.compared before a c.mark)
        ((s.compared before a c.mark).uncaught c) :=
      spends_marked (s.compared before a c.mark) ((c.walk everywhere).map Node.id)
    refine (((spends_compared s before a c.mark).afterIdle hskip).trans ih).mono ?_
    simp [Part.walk, CatchClause.walkList]
  | @caught T cl after b before a hs c cs s s₁ s₂ s' made₁ made₂ _ _ hleave _ ihbody ihcs =>
    have hclause := ((spends_compared s before a c.mark).afterIdle (spends_movedTo _ (some b))).afterIdle
      (spends_withNode _ b (.catchClause c))
    refine (((hclause.trans ihbody).thenIdle hleave.departed.spends).trans ihcs).le fun i => ?_
    obtain ⟨m, param, body⟩ := c
    simp only [Part.walk, CatchClause.walkList, CatchClause.walk, CatchClause.body,
      Node.above_everywhere, List.map_append, List.map_cons, List.count_append, List.count_cons,
      List.count_nil]
    omega
  | noCleanup => exact .refl _
  | @cleanup T b s s' made _ ih =>
    exact ((spends_withBlock s .cleanup).afterIdle (spends_movedTo _ _)).afterIdle ih

/-! ### Dead code -/

/-- Parts that are built from the cursor on. -/
def Part.Plain : Part → Prop
  | .stmt _ | .stmts _ | .block _ => True
  | _ => False

section

variable {w w' : List Node} {facts : Facts} {T : List Target} {p : Part} {s s' s'' : State}
  {made : List (Stmt × BlockId)} {n : Node}

/-- Where control does not get to, it does not go on either, and all nodes are dead. -/
theorem Course.unreached (h : Course facts T p s made s') (hp : p.Plain) (hc : s.cursor = none) :
    s'.cursor = none ∧ ∀ n ∈ p.walk, n.id ∈ s'.dead := by
  have habsurd {c : BlockId} {P : Prop} (hb : s.cursor = some c) : P := by
    rw [hc] at hb
    cases hb
  induction h with
  | skipped _ hc =>
    exact ⟨hc, fun n hn => List.mem_append_right _ (List.mem_map_of_mem hn)⟩
  | @empty T m s =>
    rw [State.markedHere, if_pos (by rw [hc]; rfl)]
    refine ⟨hc, fun n hn => ?_⟩
    obtain rfl := List.mem_singleton.mp hn
    exact List.mem_append_right _ (List.mem_singleton.mpr rfl)
  | braces _ ih => exact ih trivial hc habsurd
  | single h => exact h.reached.elim fun _ => habsurd
  | cond htest => exact htest.reached.elim fun _ => habsurd
  | loop hb => exact habsurd hb
  | foreach hoperand => exact hoperand.reached.elim fun _ => habsurd
  | switch htag => exact htag.reached.elim fun _ => habsurd
  | attempt hb => exact habsurd hb
  | nil => exact ⟨hc, fun n hn => absurd hn List.not_mem_nil⟩
  | @cons T x xs s s₁ s' made₁ made₂ _ hxs ihx ihxs =>
    obtain ⟨hc₁, hx⟩ := ihx trivial hc habsurd
    obtain ⟨hc', hrest⟩ := ihxs trivial hc₁ (by rw [hc₁]; simp)
    refine ⟨hc', fun n hn => ?_⟩
    rcases List.mem_append.mp hn with hn | hn
    · exact hxs.grown.dead.subset (hx n hn)
    · exact hrest n hn
  | @block T m xs close s s' made h ih =>
    rw [State.markedHere, if_pos (by rw [hc]; rfl)] at h ih
    obtain ⟨hc', hrest⟩ := ih trivial hc (by rw [State.marked, hc]; simp)
    refine ⟨hc', fun n hn => ?_⟩
    rcases List.mem_cons.mp hn with rfl | hn
    · exact h.grown.dead.subset (List.mem_append_right _ (List.mem_singleton.mpr rfl))
    · exact hrest n hn
  | _ => cases hp

/-- Whatever the step marks as dead is marked together with everything below it, as part of what
stands in `w`. -/
structure Marks (w : List Node) (s s' : State) : Prop where
  grows : s.dead ⊆ s'.dead
  whole : ∀ i ∈ s'.dead, i ∈ s.dead ∨
    ∃ v, v ⊆ w ∧ Whole v ∧ i ∈ v.map Node.id ∧ v.map Node.id ⊆ s'.dead

namespace Marks

/-- Nothing else is marked. -/
theorem only (h : Marks w s s') {i : Nat} (hi : i ∈ s'.dead) : i ∈ s.dead ∨ i ∈ w.map Node.id :=
  (h.whole i hi).imp id fun ⟨_, hv, _, hmem, _⟩ => List.map_subset Node.id hv hmem

theorem of_dead_eq (h : s'.dead = s.dead) : Marks w s s' :=
  ⟨h ▸ List.Subset.refl _, fun _ hi => .inl (h ▸ hi)⟩

theorem mono (h : Marks w s s') (hw : w ⊆ w') : Marks w' s s' where
  grows := h.grows
  whole i hi := (h.whole i hi).imp id fun ⟨v, hv, hrest⟩ => ⟨v, List.Subset.trans hv hw, hrest⟩

theorem trans (h : Marks w s s') (h' : Marks w s' s'') : Marks w s s'' where
  grows := List.Subset.trans h.grows h'.grows
  whole i hi := by
    rcases h'.whole i hi with hi | hmarked
    · refine (h.whole i hi).imp id fun ⟨v, hv, hwhole, hmem, hdead⟩ => ?_
      exact ⟨v, hv, hwhole, hmem, List.Subset.trans hdead h'.grows⟩
    · exact .inr hmarked

theorem append (h : Marks w s s') (h' : Marks w' s' s'') : Marks (w ++ w') s s'' :=
  (h.mono (List.subset_append_left _ _)).trans (h'.mono (List.subset_append_right _ _))

theorem before (h : Marks w s' s'') (hdead : s'.dead = s.dead) : Marks w s s'' :=
  (of_dead_eq hdead).trans h

theorem after (h : Marks w s s') (hdead : s''.dead = s'.dead) : Marks w s s'' :=
  h.trans (of_dead_eq hdead)

/-- Everything that stands in `w` is marked. -/
theorem all (hwhole : Whole w) (h : s'.dead = s.dead ++ w.map Node.id) : Marks w s s' where
  grows := h ▸ List.subset_append_left _ _
  whole i hi := by
    rw [h] at hi ⊢
    refine (List.mem_append.mp hi).imp id fun hi => ?_
    exact ⟨w, List.Subset.refl w, hwhole, hi, List.subset_append_right _ _⟩

end Marks

theorem Placed.dead_eq (h : Placed T n s s') : s'.dead = s.dead := by
  cases h with
  | here hb => rfl
  | after hb hd => exact hd.dead

theorem PlacedOption.dead_eq {o : Option Node} (h : PlacedOption T o s s') : s'.dead = s.dead := by
  cases o with
  | none => exact congrArg State.dead h
  | some n => exact Placed.dead_eq h

theorem Prepared.dead_eq {cs : List CatchClause} {hs : List (ErrorType × BlockId)}
    (h : Prepared facts cs s hs s') : s'.dead = s.dead := by
  induction h with
  | nil => rfl
  | cons _ ih => exact ih

theorem Stands.dead_eq {x : Stmt} (h : Stands T x s s') : s'.dead = s.dead := by
  cases h with
  | goesOn _ h => exact h.dead_eq
  | leaves _ h hd => exact hd.dead.trans h.dead_eq
  | strays h hd => exact hd.dead.trans h.dead_eq

theorem Closes.marks {facts : Facts} {header : BlockId} {q : Option (Simple × BlockId)}
    (h : Closes facts T header q s s') : Marks (q.elim [] fun p => p.1.walk everywhere) s s' := by
  cases h with
  | straight => exact .of_dead_eq rfl
  | dead hb => exact .all (whole_simple _) rfl
  | live hb h => exact .of_dead_eq h.placed.dead_eq

/-- The nodes of a part that may be found dead when it is built: those of a statement or a block that
control gets to are the ones below it. -/
def Part.mortal (c : Option BlockId) : Part → List Node
  | .stmt x => if c.isSome then (x.walk everywhere).tail else x.walk everywhere
  | .block b => if c.isSome then (b.walk everywhere).tail else b.walk everywhere
  | p => p.walk

theorem Part.mortal_subset (c : Option BlockId) (p : Part) : p.mortal c ⊆ p.walk := by
  cases p with
  | stmt x =>
    rw [mortal]
    split_ifs
    · exact List.tail_subset _
    · exact List.Subset.refl _
  | block b =>
    rw [mortal]
    split_ifs
    · exact List.tail_subset _
    · exact List.Subset.refl _
  | _ => exact List.Subset.refl _

theorem mortal_stmt_of_some {b : BlockId} (hb : s.cursor = some b) (x : Stmt) :
    (Part.stmt x).mortal s.cursor = (x.walk everywhere).tail := by
  rw [Part.mortal, hb]
  rfl

theorem Marks.whole_part {c : Option BlockId} (h : Marks (p.mortal c) s s') : Marks p.walk s s' :=
  h.mono (p.mortal_subset c)

/-- What is marked as dead is marked with everything below it, and a statement that control gets to
is not marked itself. -/
theorem Course.marks_mortal (h : Course facts T p s made s') : Marks (p.mortal s.cursor) s s' := by
  induction h with
  | @skipped T x s _ hc =>
    rw [Part.mortal, hc]
    exact .all (whole_stmt x) rfl
  | @empty T m s =>
    cases hc : s.cursor with
    | none =>
      rw [State.markedHere, hc]
      exact .all (whole_stmt (.empty m)) rfl
    | some b =>
      rw [State.markedHere, hc]
      exact .of_dead_eq rfl
  | braces _ ih => exact ih
  | single h => exact .of_dead_eq h.stands.dead_eq
  | @cond T m test yes no s s₁ s₂ s₃ made₁ made₂ htest _ _ ihyes ihno =>
    obtain ⟨b, hb⟩ := htest.reached
    rw [mortal_stmt_of_some hb]
    have hyes : Marks (yes.walk everywhere) s s₂ :=
      ihyes.whole_part.before ((dead_branchedIf _ _ _).trans htest.placed.dead_eq)
    have hno : Marks (Stmt.walkOption everywhere no) s₂ (s₃.joined s₂.cursor s₃.cursor) :=
      walkList_toList no ▸ (ihno.whole_part.before (dead_branchedIf _ _ _)).after (dead_joined _ _ _)
    refine (hyes.mono fun n hn => ?_).trans (hno.mono fun n hn => ?_)
    · exact List.mem_append_left _ (List.mem_append_right _ hn)
    · exact List.mem_append_right _ hn
  | @loop T m init post test body c s s₁ s₂ s₃ s₄ q made hc hinit htest hq _ hround ih =>
    rw [mortal_stmt_of_some hc]
    have hinit : s₁.dead = s.dead := PlacedOption.dead_eq hinit.placed
    have htest : s₂.dead = s.dead := (PlacedOption.dead_eq htest.placed).trans hinit
    have hbody : Marks (body.walk everywhere) s s₃ :=
      ih.whole_part.before ((dead_opened _ _ _ _).trans ((dead_laidOut _ _).trans htest))
    have hpost : Marks (post.elim [] (·.walk everywhere)) s₃ s₄ := by
      have hround := hround.marks
      rw [hq] at hround
      cases post <;> exact hround
    have hrounds : Marks (Stmt.walk everywhere (.loop m init test post body)).tail s s₄ := by
      refine (hbody.mono fun n hn => ?_).trans (hpost.mono fun n hn => ?_)
      · exact List.mem_append_right _ hn
      · exact List.mem_append_left _ (List.mem_append_right _ hn)
    exact hrounds.after rfl
  | @foreach T m v operand body s s₁ s₂ made hoperand _ ih =>
    obtain ⟨b, hb⟩ := hoperand.reached
    rw [mortal_stmt_of_some hb]
    have hbody : Marks (body.walk everywhere) s s₂ :=
      ih.whole_part.before ((dead_iterated _ _).trans hoperand.placed.dead_eq)
    have hall : Marks (Stmt.walk everywhere (.foreach m v operand body)).tail s s₂ :=
      hbody.mono fun n hn => List.mem_append_right _ hn
    exact hall.after rfl
  | @switch T m tag sections close s s₁ s₂ made htag _ ih =>
    obtain ⟨b, hb⟩ : ∃ b, s.cursor = some b := htag.reached
    rw [mortal_stmt_of_some hb]
    have hsections : Marks (CaseClause.walkList everywhere sections) s s₂ :=
      ih.before htag.placed.dead_eq
    have hall : Marks (Stmt.walk everywhere (.switch m tag sections close)).tail s s₂ :=
      hsections.mono fun n hn => List.mem_append_right _ hn
    exact hall.after (dead_defaulted s₂ sections s₁.cursor s.graph.blocks.size)
  | @attempt T m body clauses cleanup c s s₁ s₂ s₃ s₄ s₅ cl hs made₁ made₂ made₃ hc _ hready _ hleave _
      ihcleanup ihbody ihclauses =>
    rw [mortal_stmt_of_some hc]
    have hcleanup : Marks (Block.walkOption everywhere cleanup) s s₁ := ihcleanup.before rfl
    have hbody : Marks (body.walk everywhere) s₁ s₃ := ihbody.whole_part.before hready.dead_eq
    have hclauses : Marks (CatchClause.walkList everywhere clauses) s₃ s₅ :=
      ihclauses.before hleave.departed.dead
    have hparts : Marks (Stmt.walk everywhere (.attempt m body clauses cleanup)).tail s s₅ := by
      refine ((hcleanup.mono fun n hn => ?_).trans (hbody.mono fun n hn => ?_)).trans
        (hclauses.mono fun n hn => ?_)
      · exact List.mem_append_right _ hn
      · exact List.mem_append_left _ (List.mem_append_left _ hn)
      · exact List.mem_append_left _ (List.mem_append_right _ hn)
    exact hparts.after rfl
  | nil => exact .of_dead_eq rfl
  | cons _ _ ihx ihxs => exact ihx.whole_part.append ihxs
  | @block T m xs close s s' made h ih =>
    have hrest : Marks (Part.block (.mk m xs close)).walk (s.markedHere m) s' :=
      ih.mono (List.subset_cons_self _ _)
    cases hc : s.cursor with
    | some b =>
      have hmark : s.markedHere m = s := by rw [State.markedHere, hc]; rfl
      exact hmark ▸ ih
    | none =>
      -- what is not reached is dead to the last node
      have hcourse : Course facts T (.block (.mk m xs close)) s made s' := .block h
      have hdead := (hcourse.unreached trivial hc).2
      refine ⟨hcourse.grown.dead.subset, fun i hi => ?_⟩
      rcases hrest.whole i hi with hi | hmarked
      · rw [State.markedHere, if_pos (by rw [hc]; rfl)] at hi
        refine (List.mem_append.mp hi).imp id fun hi => ?_
        obtain rfl := List.mem_singleton.mp hi
        refine ⟨_, List.Subset.refl _, whole_block (.mk m xs close), List.mem_cons_self, ?_⟩
        intro i hi
        obtain ⟨n, hn, rfl⟩ := List.mem_map.mp hi
        exact hdead n hn
      · exact .inr hmarked
  | noSections => exact .of_dead_eq rfl
  | @sections T tagEnd after m values isDefault body cs s s₁ s₂ s' made₁ made₂ hlabels _ _ ihbody
      ihcs =>
    have hbody : Marks (Stmt.walkList everywhere body) s s₂ := ihbody.before hlabels.placed.dead_eq
    have hcs : Marks (CaseClause.walkList everywhere cs) s₂ s' :=
      ihcs.before (dead_fallenThrough _ _ _)
    refine (hbody.mono fun n hn => ?_).trans (hcs.mono fun n hn => ?_)
    · exact List.mem_append_left _ (List.mem_cons_of_mem _ (List.mem_append_right _ hn))
    · exact List.mem_append_right _ hn
  | noClauses => exact .of_dead_eq rfl
  | @uncaught T cl after b before a hs c cs s s' made _ _ ih =>
    have hclause : Marks (c.walk everywhere) s ((s.compared before a c.mark).uncaught c) :=
      (Marks.all (whole_clause c) rfl).before (dead_compared _ _ _ _)
    exact hclause.append ih
  | @caught T cl after b before a hs c cs s s₁ s₂ s' made₁ made₂ _ _ hleave _ ihbody ihcs =>
    have hbody : Marks (c.body.walk everywhere) s s₁ :=
      ihbody.whole_part.before (dead_compared _ _ _ _)
    have hcs : Marks (CatchClause.walkList everywhere cs) s₁ s' := ihcs.before hleave.departed.dead
    refine (hbody.mono fun n hn => ?_).trans (hcs.mono fun n hn => ?_)
    · obtain ⟨m, param, body⟩ := c
      exact List.mem_append_left _ (List.mem_cons_of_mem _ (List.mem_append_right _ hn))
    · exact List.mem_append_right _ hn
  | noCleanup => exact .of_dead_eq rfl
  | cleanup _ ih => exact ih.whole_part.before rfl

/-- What is marked as dead is marked with everything below it. -/
theorem Course.marks (h : Course facts T p s made s') : Marks p.walk s s' :=
  h.marks_mortal.whole_part

end

/-! ### Functions -/

theorem mentions_concluded (s : State) (d : FuncDecl) (i : Nat) :
    (s.concluded d).mentions i = s.mentions i := by
  have hsize : s.graph.blocks.size ≤ (s.concluded d).graph.blocks.size := by
    unfold State.concluded
    split_ifs
    · exact le_rfl
    · exact (size_withEdge s.fallenOff s.cursor 1).ge
    · exact le_rfl
  rw [State.mentions, State.mentions, dead_concluded,
    Graph.placed_congr hsize (nodes_concluded s d)]

/-- The first blocks of a function mention its body and its head. -/
theorem mentions_startState (d : FuncDecl) (name : String) (i : Nat) :
    (startState d name).mentions i ≤ [(Node.stmt (.block d.body)).id, d.mark.id].count i := by
  let s : State := { graph := (frameGraph name).addEdge 1 2, cursor := some 1 }
  have hempty : s.mentions i = 0 := by
    have hplaced : s.graph.placed = [] :=
      List.flatMap_eq_nil_iff.mpr fun b _ => nodes_frameGraph name b
    rw [State.mentions, hplaced]
    rfl
  have hspends : Spends [(Node.stmt (.block d.body)).id, d.mark.id] s (startState d name) :=
    ((spends_withNode s 1 (.stmt (.block d.body))).thenIdle (spends_branched _ (by decide) _)).trans
      (spends_withNode _ _ (.func d))
  simpa [hempty] using hspends i

end Build

theorem FuncDecl.walk_body (d : FuncDecl) : d.body.walk everywhere =
    .stmt (.block d.body) :: Stmt.walkList everywhere d.body.stmts := by
  cases d.body
  rfl

/-- The nodes of the function have numbers of their own, as those of a parsed file do. -/
def FuncDecl.Numbered (d : FuncDecl) : Prop := ((d.walk everywhere).map Node.id).Nodup

namespace Construction

open Build

variable {facts : Facts} {d : FuncDecl} {g : Graph}

/-- Construction mentions a node no more often than the function has it. -/
theorem mentions_le (hg : (ofFunc facts d).outcome = .ok g) (i : Nat) :
    (g.placed.map Node.id).count i + (ofFunc facts d).dead.count i ≤
      ((d.walk everywhere).map Node.id).count i := by
  obtain ⟨made, s, hcourse, -, rfl, -, hdead⟩ := exists_course hg
  have hend : ((s.concluded d).graph.placed.map Node.id).count i +
      (ofFunc facts d).dead.count i = s.mentions i := by
    rw [hdead]
    exact mentions_concluded s d i
  have hwalk : (d.walk everywhere).map Node.id = d.mark.id :: (d.headWalk.map Node.id ++
      (Node.stmt (.block d.body)).id :: (Stmt.walkList everywhere d.body.stmts).map Node.id) := by
    have hfunc : d.walk everywhere = .func d :: (d.headWalk ++ d.body.walk everywhere) := rfl
    rw [hfunc, d.walk_body, List.map_cons, List.map_append, List.map_cons]
    rfl
  have hstart := mentions_startState d d.name.text i
  have hspends := hcourse.spends i
  rw [hend, hwalk]
  simp only [List.count_cons, List.count_append, List.count_nil, Part.walk] at hstart hspends ⊢
  omega

/-- What is dead is dead with everything below it. -/
theorem dead_of_mem_subtree (hd : d.Numbered) (hg : (ofFunc facts d).outcome = .ok g) {n m : Node}
    (hn : n ∈ d.walk everywhere) (hdead : n.id ∈ (ofFunc facts d).dead) (hm : m ∈ n.subtree) :
    m.id ∈ (ofFunc facts d).dead := by
  obtain ⟨made, s, hcourse, -, -, -, hs⟩ := exists_course hg
  rw [hs, dead_concluded] at hdead ⊢
  rcases hcourse.marks.whole _ hdead with hstart | ⟨v, hv, hwhole, hmem, hmarked⟩
  · cases hstart
  · -- the node itself stands in the part that was marked
    obtain ⟨n', hn', hid⟩ := List.mem_map.mp hmem
    have hbody : Stmt.walkList everywhere d.body.stmts ⊆ d.walk everywhere := by
      intro k hk
      refine List.mem_cons_of_mem _ (List.mem_append_right _ ?_)
      rw [d.walk_body]
      exact List.mem_cons_of_mem _ hk
    obtain rfl : n' = n := List.inj_on_of_nodup_map hd (hbody (hv hn')) hn hid
    exact hmarked (List.mem_map_of_mem (hwhole n' hn' hm))

/-- A node that control flow visits stands in one place of the graph, or it is dead and stands in
none. -/
theorem placed_or_dead_of_numbered (hd : d.Numbered) (hg : (ofFunc facts d).outcome = .ok g)
    {n : Node} (hn : n ∈ .stmt (.block d.body) :: d.carriers) :
    (n.id ∉ (ofFunc facts d).dead ∧ n ∈ g.placed ∧ (g.placed.map Node.id).count n.id = 1) ∨
      (n.id ∈ (ofFunc facts d).dead ∧ (g.placed.map Node.id).count n.id = 0) := by
  have hle := (mentions_le hg n.id).trans (List.nodup_iff_count_le_one.mp hd n.id)
  by_cases hdead : n.id ∈ (ofFunc facts d).dead
  · have := List.count_pos_iff.mpr hdead
    exact .inr ⟨hdead, by omega⟩
  · have hplaced := Graph.mem_placed.mpr ((mem_nodes_or_dead hg hn).resolve_right hdead)
    have := List.count_pos_iff.mpr (List.mem_map_of_mem hplaced (f := Node.id))
    exact .inl ⟨hdead, hplaced, by omega⟩

end Construction

end FlowCheck
