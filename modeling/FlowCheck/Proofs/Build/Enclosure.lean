import FlowCheck.Proofs.Build.Passage

/-!
# Try statements are sealed

While the body of a try statement and its handlers are built, the entry of the `finally` block is
the only target outside that an edge may lead to. So every try statement with a `finally` block that
control gets to is sealed, however it is nested and whatever leaves it.
-/
namespace FlowCheck.Build

section

variable {facts : Facts} {T T' : List Target} {o e bs : List BlockId} {w w' : List Node}
  {s s₁ s₂ s' : State} {made made' : List (Stmt × BlockId)} {b c f after : BlockId}
  {cl : Option Target} {hs : List (ErrorType × BlockId)}

/-! ### Ways past handlers and `finally` blocks -/

theorem exposed_append_subset (h : exposed T ⊆ exposed T') (S : List Target) :
    exposed (S ++ T) ⊆ exposed (S ++ T') := by
  induction S with
  | nil => exact h
  | cons t S ih =>
    cases t with
    | cleanup entry last => exact List.Subset.refl _
    | barrier => exact ih
    | _ => exact List.cons_subset_cons _ ih

theorem routes_append_subset (hexposed : exposed T ⊆ exposed T') (h : routes T ⊆ routes T')
    (S : List Target) : routes (S ++ T) ⊆ routes (S ++ T') := by
  induction S with
  | nil => exact h
  | cons t S ih =>
    cases t with
    | cleanup entry last =>
      rintro ⟨a, b⟩ hab
      exact mem_routes_cleanup.mpr ((mem_routes_cleanup.mp hab).imp
        (And.imp_right fun hb => exposed_append_subset hexposed S hb) fun hab => ih hab)
    | _ => exact ih

theorem exposed_handlerTargets (hs : List (ErrorType × BlockId)) (T : List Target) :
    exposed (handlerTargets hs ++ T) = hs.map Prod.snd ++ exposed T := by
  induction hs with
  | nil => rfl
  | cons p hs ih => exact congrArg (p.2 :: ·) ih

theorem routes_handlerTargets (hs : List (ErrorType × BlockId)) (T : List Target) :
    routes (handlerTargets hs ++ T) = routes T := by
  induction hs with
  | nil => rfl
  | cons p hs ih => exact ih

theorem Departed.mono {a : Option BlockId} (h : Departed a T s s') (hexposed : exposed T ⊆ exposed T')
    (hroutes : routes T ⊆ routes T') (hlasts : lasts T ⊆ lasts T') : Departed a T' s s' where
  gains := h.gains.mono fun _ _ => Or.imp (And.imp_right fun hy => hexposed hy) fun hxy => hroutes hxy
  cursor b hb := (h.cursor b hb).imp id fun hb => hlasts hb
  diagnostics := h.diagnostics
  dead := h.dead
  warned := h.warned

/-- The targets inside a try statement and the block after it. -/
abbrev leavingTargets (cl : Option Target) (after : BlockId) (T : List Target) : List Target :=
  cl.toList ++ .landing .loopEnd after :: T

theorem lasts_leavingTargets (cl : Option Target) (after : BlockId) (T : List Target) :
    lasts (leavingTargets cl after T) = lasts (cl.toList ++ T) := by
  rw [lasts_append, lasts_append]
  rfl

theorem exposed_leavingTargets_subset (cl : Option Target) (after : BlockId) (T : List Target) :
    exposed (cl.toList ++ T) ⊆ exposed (leavingTargets cl after T) :=
  exposed_append_subset (List.subset_cons_self _ _) _

theorem routes_leavingTargets_subset (cl : Option Target) (after : BlockId) (T : List Target) :
    routes (cl.toList ++ T) ⊆ routes (leavingTargets cl after T) :=
  routes_append_subset (List.subset_cons_self _ _)
    (show routes T ⊆ routes (.landing .loopEnd after :: T) from List.Subset.refl _) _

theorem exposed_of_leavingTargets {y : BlockId} (h : y ∈ exposed (leavingTargets cl after T)) :
    y ∈ after :: exposed cl.toList ∨ y ∈ exposed T := by
  cases cl with
  | none => exact (List.mem_cons.mp h).imp (fun hy => List.mem_cons.mpr (.inl hy)) id
  | some t =>
    cases t with
    | cleanup entry last => exact .inl (List.mem_cons_of_mem _ h)
    | barrier => exact (List.mem_cons.mp h).imp (fun hy => List.mem_cons.mpr (.inl hy)) id
    | _ =>
      simp only [leavingTargets, Option.toList_some, List.singleton_append, exposed,
        List.mem_cons] at h ⊢
      tauto

theorem routes_of_leavingTargets {x y : BlockId} (h : (x, y) ∈ routes (leavingTargets cl after T)) :
    (x ∈ lasts cl.toList ∧ (y = after ∨ y ∈ exposed T)) ∨ (x, y) ∈ routes T := by
  cases cl with
  | none => exact .inr h
  | some t =>
    cases t with
    | cleanup entry last =>
      refine (mem_routes_cleanup.mp h).imp (fun ⟨hlast, hy⟩ => ⟨?_, List.mem_cons.mp hy⟩) id
      exact (lasts_cons_cleanup entry last []).mpr (.inl hlast)
    | _ => exact .inr h

/-- Blocks that construction may lead edges to. -/
abbrev landings (bs : List BlockId) : List Target := bs.map (.landing .loopEnd)

theorem exposed_landings (bs : List BlockId) (T : List Target) :
    exposed (landings bs ++ T) = bs ++ exposed T := by
  induction bs with
  | nil => rfl
  | cons b bs ih => exact congrArg (b :: ·) ih

theorem routes_landings (bs : List BlockId) (T : List Target) :
    routes (landings bs ++ T) = routes T := by
  induction bs with
  | nil => rfl
  | cons b bs ih => exact ih

theorem lasts_landings (bs : List BlockId) (T : List Target) : lasts (landings bs ++ T) = lasts T := by
  induction bs with
  | nil => rfl
  | cons b bs ih => exact ih

/-- A part of a try statement is left for the block after it. -/
theorem confined_leave {a : Option BlockId} (T : List Target)
    (h : Departed a (cl.toList ++ [.landing .loopEnd after]) s s') (hc : ∀ x, a = some x → x ∈ o)
    (ho : ∀ b ∈ o, b < s.graph.blocks.size) : Confined (leavingTargets cl after T) o [] s [] o s' := by
  have hexposed : exposed [.landing .loopEnd after] ⊆ exposed (.landing .loopEnd after :: T) :=
    List.cons_subset_cons _ (List.nil_subset _)
  refine confined_departed (h.mono (exposed_append_subset hexposed _)
    (routes_append_subset hexposed (List.nil_subset _) _) ?_) hc ho
  rw [lasts_leavingTargets, lasts_append, lasts_append]
  exact List.append_subset.mpr ⟨List.subset_append_left _ _, List.nil_subset _⟩

/-- More ways out. -/
theorem Confined.widen (h : Confined T o w s made e s') (hexposed : exposed T ⊆ exposed T')
    (hroutes : routes T ⊆ routes T') (hlasts : lasts T' = lasts T) : Confined T' o w s made e s' :=
  h.retarget (fun _ hy => .inr (hexposed hy)) (fun _ _ hxy => .inr (hroutes hxy))
    fun _ hb => .inl (hlasts ▸ hb)

/-! ### Handlers -/

/-- Blocks that wait for their handlers. -/
structure Waiting (T : List Target) (bs : List BlockId) (s : State) : Prop where
  nodup : bs.Nodup
  blocks : ∀ b ∈ bs, b < s.graph.blocks.size ∧ b ∉ lasts T ∧ s.graph.succs b = []
  laid : Laid T s

/-- Blocks that are left alone go on waiting. -/
theorem Waiting.later (h : Waiting T bs s) (hconf : Confined T' o w s made e s') (ho : ∀ b ∈ bs, b ∉ o)
    (hlasts : lasts T' = lasts T) : Waiting T bs s' where
  nodup := h.nodup
  blocks b hb := by
    obtain ⟨hlt, hlast, hclear⟩ := h.blocks b hb
    refine ⟨hlt.trans_le hconf.size_le, hlast, hconf.succs_eq_nil ?_ (hlasts ▸ hlast) hclear⟩
    exact fun hopen => hopen.elim (ho b hb) (not_le.mpr hlt)
  laid b hb := (h.laid b hb).trans_le hconf.size_le

theorem graph_compared (s : State) (before : List ErrorType) (a : ErrorType) (m : Mark) :
    (s.compared before a m).graph = s.graph := by
  unfold State.compared
  split_ifs <;> rfl

theorem confined_compared (s : State) (before : List ErrorType) (a : ErrorType) (m : Mark)
    (ho : ∀ b ∈ o, b < s.graph.blocks.size) : Confined T o [] s [] o (s.compared before a m) :=
  confined_still (adds_compared s before a m) (dead_compared s before a m) ho

theorem confined_uncaught (s : State) (x : CatchClause) (ho : ∀ b ∈ o, b < s.graph.blocks.size) :
    Confined T o (x.walk everywhere) s [] o (s.uncaught x) :=
  .of_adds (adds_uncaught (E := NoEdge) (N := NoNode) s x) (fun _ _ => False.elim)
    (fun _ _ => False.elim) (fun b hb => ⟨.inl hb, ho b hb⟩) fun _ => List.mem_append.mp

theorem confined_prepared {cs : List CatchClause} (h : Prepared facts cs s hs s')
    (ho : ∀ b ∈ o, b < s.graph.blocks.size) : Confined T o [] s [] (hs.map Prod.snd ++ o) s' := by
  induction h with
  | @nil s => exact confined_still (.refl s) rfl ho
  | @cons x cs hs s s' h ih =>
    exact (ih ho).afterIdle (confined_withBlock s' .handler fun b hb => ((ih ho).ends b hb).2)
      (List.Subset.refl _)

/-- A handler that nothing leads to is passed over. -/
theorem confined_passed {before : List ErrorType} {a : ErrorType} {x : CatchClause}
    (hrest : Waiting (cl.toList ++ T) bs ((s.compared before a x.mark).uncaught x) →
      Confined (leavingTargets cl after T) bs w ((s.compared before a x.mark).uncaught x) made [] s')
    (hwait : Waiting (cl.toList ++ T) (b :: bs) s)
    (hw : List.Disjoint ((x.walk everywhere).map Node.id) (w.map Node.id)) :
    Confined (leavingTargets cl after T) (b :: bs) (x.walk everywhere ++ w) s made [] s' := by
  have hlt : ∀ y ∈ bs, y < s.graph.blocks.size := fun y hy =>
    (hwait.blocks y (List.mem_cons_of_mem b hy)).1
  have hcompare : Confined (leavingTargets cl after T) bs [] s [] bs (s.compared before a x.mark) :=
    confined_compared s before a x.mark hlt
  have hpass := hcompare.afterIdle
    (confined_uncaught (s.compared before a x.mark) x fun y hy => (hcompare.ends y hy).2)
    (List.Subset.refl _)
  have hgraph : ((s.compared before a x.mark).uncaught x).graph = s.graph :=
    graph_compared s before a x.mark
  have hrest := hrest ⟨hwait.nodup.of_cons, fun y hy => hgraph ▸ hwait.blocks y
    (List.mem_cons_of_mem b hy), fun y hy => hgraph ▸ hwait.laid y hy⟩
  exact (hpass.trans hrest (List.Subset.refl _) hw).mono (List.subset_cons_self b bs)
    (List.Subset.refl _) (List.Subset.refl _)

/-- A handler is built from the block that waits for it, and then the others. -/
theorem confined_caught {before : List ErrorType} {a : ErrorType} {x : CatchClause}
    (hbody : Ready (cl.toList ++ T) (((s.compared before a x.mark).movedTo (some b)).withNode b
        (.catchClause x)) →
      AtCursor (cl.toList ++ T) w (((s.compared before a x.mark).movedTo (some b)).withNode b
        (.catchClause x)) made s₁)
    (hleave : Departed s₁.cursor (cl.toList ++ [.landing .loopEnd after]) s₁ s₂)
    (hrest : Waiting (cl.toList ++ T) bs s₂ →
      Confined (leavingTargets cl after T) bs w' s₂ made' [] s')
    (hwait : Waiting (cl.toList ++ T) (b :: bs) s)
    (hw : ((Node.catchClause x :: (w ++ w')).map Node.id).Nodup) :
    Confined (leavingTargets cl after T) (b :: bs) (.catchClause x :: (w ++ w')) s (made ++ made') []
      s' := by
  obtain ⟨hlt, hlast, hclear⟩ := hwait.blocks b List.mem_cons_self
  obtain ⟨hfirst, hparts⟩ := List.nodup_cons.mp hw
  rw [List.map_append] at hparts
  rw [List.map_append, List.mem_append, not_or] at hfirst
  have hopen : ∀ y ∈ [b], y < s.graph.blocks.size := fun y hy => List.mem_singleton.mp hy ▸ hlt
  have hcompare : Confined (cl.toList ++ T) [b] [] s [] [b] (s.compared before a x.mark) :=
    confined_compared s before a x.mark hopen
  have hmove : Confined (cl.toList ++ T) [b] [] _ [] [b]
      ((s.compared before a x.mark).movedTo (some b)) :=
    confined_still (adds_movedTo _ (some b)) rfl fun y hy => (hcompare.ends y hy).2
  have hnode := (hcompare.afterIdle hmove (List.Subset.refl _)).afterIdle
    (confined_withNode (n := .catchClause x) List.mem_cons_self fun y hy => (hmove.ends y hy).2)
    (List.Subset.refl _)
  have hgraph : ((s.compared before a x.mark).movedTo (some b)).graph = s.graph :=
    graph_compared s before a x.mark
  have hready := hnode.ready (fun y hy => List.mem_singleton.mp hy ▸ hlast) hwait.laid
    fun y hy => by
      obtain rfl := Option.some_inj.mp hy
      refine ⟨List.mem_cons_self, ?_⟩
      rw [State.withNode, Graph.succs_addNode, hgraph]
      exact hclear
  have hbody := hbody hready
  have hinner : Confined (leavingTargets cl after T) [b] (.catchClause x :: w) s made s₁.cursor.toList
      s₁ :=
    (hnode.trans hbody.confined (List.Subset.refl _) (by simpa using hfirst.1)).widen
      (exposed_leavingTargets_subset cl after T) (routes_leavingTargets_subset cl after T)
      (lasts_leavingTargets cl after T)
  have hone := (hinner.thenIdle (confined_leave T hleave mem_open hbody.ready.open_lt)
    (List.Subset.refl _)).mono (List.Subset.refl _) (List.Subset.refl _) (List.nil_subset _)
  have hapart : ∀ y ∈ bs, y ∉ [b] := fun y hy hmem => by
    obtain rfl := List.mem_singleton.mp hmem
    exact (List.nodup_cons.mp hwait.nodup).1 hy
  have hothers : Waiting (cl.toList ++ T) bs s :=
    ⟨hwait.nodup.of_cons, fun y hy => hwait.blocks y (List.mem_cons_of_mem b hy), hwait.laid⟩
  have hrest := hrest (hothers.later hone hapart (lasts_leavingTargets cl after T))
  have hframe := hone.frame bs fun y hy => ⟨(hothers.blocks y hy).1, hapart y hy⟩
  refine (hframe.trans hrest (by simp) ?_).mono ?_ (List.Subset.refl _) (List.Subset.refl _)
  · rw [List.map_cons, List.disjoint_cons_left]
    exact ⟨hfirst.2, List.disjoint_of_nodup_append hparts⟩
  · exact List.perm_append_comm.subset

/-! ### `finally` blocks -/

/-- A `finally` block is built in new blocks. -/
theorem confined_cleanup
    (hbody : Ready (.barrier :: T) ((s.withBlock .cleanup).movedTo (some s.graph.blocks.size)) →
      AtCursor (.barrier :: T) w ((s.withBlock .cleanup).movedTo (some s.graph.blocks.size)) made s')
    (hlaid : Laid T s) : Confined T [] w s made s'.cursor.toList s' := by
  have hblock : Confined (.barrier :: T) [] [] s [] [s.graph.blocks.size] (s.withBlock .cleanup) :=
    confined_withBlock s .cleanup (by simp)
  have hmove := hblock.afterIdle (confined_still (adds_movedTo _ (some s.graph.blocks.size)) rfl
    fun y hy => (hblock.ends y hy).2) (List.Subset.refl _)
  have hready := hmove.ready (by simp) hlaid fun y hy => by
    obtain rfl := Option.some_inj.mp hy
    refine ⟨List.mem_cons_self, ?_⟩
    rw [State.movedTo, State.withBlock, Graph.succs_newBlock]
    exact Graph.succs_of_size_le le_rfl
  exact (hmove.afterIdle (hbody hready).confined (List.Subset.refl _)).widen (List.Subset.refl _)
    (List.Subset.refl _) rfl

/-! ### Body and handlers together -/

/-- The body and the handlers of a try statement are built from the block before the statement. -/
theorem confined_guarded {clauses : List CatchClause} {s₃ s₄ : State}
    (hprepared : Prepared facts clauses s hs s₂)
    (hbody : Ready (handlerTargets hs ++ (cl.toList ++ T)) (s₂.movedTo (some c)) →
      AtCursor (handlerTargets hs ++ (cl.toList ++ T)) w (s₂.movedTo (some c)) made s₃)
    (hleave : Departed s₃.cursor (cl.toList ++ [.landing .loopEnd after]) s₃ s₄)
    (hclauses : Waiting (cl.toList ++ T) (hs.map Prod.snd) s₄ →
      Confined (leavingTargets cl after T) (hs.map Prod.snd) w' s₄ made' [] s')
    (hr : Ready (cl.toList ++ T) (s.movedTo (some c)))
    (hw : List.Disjoint (w.map Node.id) (w'.map Node.id)) :
    Confined (handlerTargets hs ++ leavingTargets cl after T) [c] (w ++ w') s (made ++ made') [] s' ∧
      ∀ b ∈ hs.map Prod.snd, s.graph.blocks.size ≤ b ∧ b < s'.graph.blocks.size := by
  let S := handlerTargets hs ++ leavingTargets cl after T
  have hlasts : lasts S = lasts (handlerTargets hs ++ (cl.toList ++ T)) := by
    rw [lasts_handlerTargets, lasts_handlerTargets, lasts_leavingTargets]
  obtain ⟨hlt, hlast, hclear⟩ := hr.cursor c rfl
  obtain ⟨hnodup, hfresh⟩ := hprepared.fresh
  have hblocks : Confined S [c] [] s [] (hs.map Prod.snd ++ [c]) s₂ :=
    confined_prepared hprepared fun b hb => List.mem_singleton.mp hb ▸ hlt
  have hmove := hblocks.afterIdle (confined_still (adds_movedTo s₂ (some c)) rfl fun b hb =>
    (hblocks.ends b hb).2) (List.Subset.refl _)
  have hkept {b : BlockId} (hb : s.graph.succs b = []) : s₂.graph.succs b = [] :=
    (hprepared.adds (E := NoEdge) (N := NoNode)).succs_eq_nil hb fun _ => id
  have hnew : ∀ b ∈ hs.map Prod.snd, b < s₂.graph.blocks.size ∧ b ∉ (some c).toList :=
    fun b hb => ⟨(hfresh b hb).2, fun hmem => by
      obtain rfl := Option.some_inj.mp (Option.mem_toList.mp hmem)
      exact absurd hlt (not_lt.mpr (hfresh _ hb).1)⟩
  have hwait : Waiting (cl.toList ++ T) (hs.map Prod.snd) (s₂.movedTo (some c)) :=
    ⟨hnodup, fun b hb => ⟨(hnew b hb).1,
      fun hlast => absurd (hr.laid b hlast) (not_lt.mpr (hfresh b hb).1),
      hkept (Graph.succs_of_size_le (hfresh b hb).1)⟩,
      fun b hb => (hr.laid b hb).trans_le hblocks.size_le⟩
  have hbody := hbody ⟨fun b hb => by
      obtain rfl := Option.some_inj.mp hb
      rw [lasts_handlerTargets]
      exact ⟨hlt.trans_le hblocks.size_le, hlast, hkept hclear⟩,
    fun b hb => hwait.laid b (lasts_handlerTargets hs _ ▸ hb)⟩
  have hinner : Confined S [c] w (s₂.movedTo (some c)) made s₃.cursor.toList s₃ := by
    refine hbody.confined.widen ?_ ?_ hlasts
    · rw [exposed_handlerTargets, exposed_handlerTargets]
      exact List.append_subset.mpr ⟨List.subset_append_left _ _, List.Subset.trans
        (exposed_leavingTargets_subset cl after T) (List.subset_append_right _ _)⟩
    · rw [routes_handlerTargets, routes_handlerTargets]
      exact routes_leavingTargets_subset cl after T
  have hwiden {o e : List BlockId} {v : List Node} {s s' : State} {made : List (Stmt × BlockId)}
      (h : Confined (leavingTargets cl after T) o v s made e s') : Confined S o v s made e s' := by
    refine h.widen ?_ ?_ (lasts_handlerTargets hs _)
    · rw [exposed_handlerTargets]
      exact List.subset_append_right _ _
    · rw [routes_handlerTargets]
      exact List.Subset.refl _
  have hone := (hinner.thenIdle (hwiden (confined_leave T hleave mem_open hbody.ready.open_lt))
    (List.Subset.refl _)).mono (List.Subset.refl _) (List.Subset.refl _) (List.nil_subset _)
  have hclauses := hclauses (hwait.later hone (fun b hb => (hnew b hb).2) (by
    rw [lasts_handlerTargets, lasts_leavingTargets]))
  have hframe := hone.frame (hs.map Prod.snd) hnew
  have hboth := hframe.trans (hwiden hclauses) (by simp) hw
  refine ⟨hmove.afterIdle hboth (List.Subset.refl _), fun b hb => ⟨(hfresh b hb).1, ?_⟩⟩
  exact (hnew b hb).1.trans_le hboth.size_le

/-! ### Sealing -/

/-- A try statement is sealed when its body and its handlers have been built behind its `finally`
block, under targets that lead out of them to this block only. -/
theorem sealed_attempt {A : Stmt} {U S : List Target} (h₁ : Confined U [c] w s made e s₁)
    (h₂ : Confined S [c] w' s₁ made' [] s') (hc : c < s.graph.blocks.size) (hlast : c ∉ lasts T)
    (hlaid : Laid T s) (hclear : s₁.graph.succs c = [])
    (hf : s.graph.blocks.size < f ∧ f < s₁.graph.blocks.size)
    (hexposed : ∀ y ∈ exposed S, y = f ∨ (s₁.graph.blocks.size ≤ y ∧ y < s'.graph.blocks.size))
    (hlasts : ∀ b ∈ lasts S, b < s₁.graph.blocks.size ∧ b ≠ c) (hguarded : A.guarded = w')
    (hcleanup : Block.walkOption everywhere A.cleanup? = w)
    (hw : List.Disjoint w w') :
    Sealed T [c] [s.graph.blocks.size] s s' A f
      (fun b => b = c ∨ b = f ∨ (s₁.graph.blocks.size ≤ b ∧ b < s'.graph.blocks.size))
      (fun b => s₁.graph.blocks.size ≤ b ∧ b < s'.graph.blocks.size) := by
  have hfirst : ¬Open [c] s₁ f := by
    rintro (hmem | hnew)
    · obtain rfl := List.mem_singleton.mp hmem
      exact absurd (hc.trans hf.1) (lt_irrefl _)
    · exact absurd hf.2 (not_lt.mpr hnew)
  -- edges from the block before the statement and from new blocks
  have hleave : ∀ b, b = c ∨ (s₁.graph.blocks.size ≤ b ∧ b < s'.graph.blocks.size) →
      ∀ y ∈ s'.graph.succs b, y = f ∨ (s₁.graph.blocks.size ≤ y ∧ y < s'.graph.blocks.size) := by
    intro b hb y hy
    have hold : s₁.graph.succs b = [] := by
      rcases hb with rfl | ⟨hnew, -⟩
      · exact hclear
      · exact Graph.succs_of_size_le hnew
    rcases h₂.edges hy with hy | ⟨-, hnew | hout⟩ | hroute
    · rw [hold] at hy
      cases hy
    · exact .inr hnew
    · exact hexposed y hout
    · obtain ⟨hlt, hne⟩ := hlasts b (mem_lasts_of_mem_routes hroute)
      exact absurd hb (not_or.mpr ⟨hne, fun hnew => absurd hlt (not_lt.mpr hnew.1)⟩)
  have hnodes {b : BlockId} {k : ℕ} (hk : (s₁.graph.nodes b).length ≤ k) :
      ∀ m ∈ (s'.graph.nodes b).drop k, m ∈ A.walk everywhere := by
    intro m hm
    obtain ⟨ns, hns, hmem⟩ := h₂.added b
    rw [hns, List.drop_append, List.drop_eq_nil_of_le hk, List.nil_append] at hm
    exact A.guarded_subset (hguarded ▸ (hmem m (List.mem_of_mem_drop hm)).2)
  have hquiet : ∀ b, s.graph.blocks.size < b → b ∉ [s.graph.blocks.size] ∧ b ∉ lasts T :=
    fun b hb => ⟨fun hmem => hb.ne' (List.mem_singleton.mp hmem),
      fun hlast => absurd (hlaid b hlast) hb.not_gt⟩
  refine ⟨fun b hb => ?_, fun b k n hn hk hmem => ?_, fun b hb => ?_, .inr (.inl rfl), ?_⟩
  · rcases hb with rfl | rfl | ⟨hnew, hlt⟩
    · exact ⟨.inl List.mem_cons_self, hc.trans_le (h₁.size_le.trans h₂.size_le),
        fun hmem => hc.ne (List.mem_singleton.mp hmem), hlast⟩
    · exact ⟨.inr hf.1.le, hf.2.trans_le h₂.size_le, hquiet _ hf.1⟩
    · exact ⟨.inr (h₁.size_le.trans hnew), hlt, hquiet b ((hf.1.trans hf.2).trans_le hnew)⟩
  · have hk₁ : (s₁.graph.nodes b).length ≤ k := by
      refine not_lt.mp fun hlt => ?_
      exact hw (h₁.mem_of_getElem? (h₂.toGrown.getElem?_nodes hn hlt) hk) (hguarded ▸ hmem)
    have hb : b = c ∨ (s₁.graph.blocks.size ≤ b ∧ b < s'.graph.blocks.size) := by
      have hlt : b < s'.graph.blocks.size := not_le.mp fun hle => by
        rw [Graph.nodes_of_size_le hle] at hn
        cases hn
      obtain ⟨ns, hns, hadded⟩ := h₂.added b
      rw [hns, List.getElem?_append_right hk₁] at hn
      exact (hadded n (List.mem_of_getElem? hn)).1.imp List.mem_singleton.mp (⟨·, hlt⟩)
    have hne : b ≠ f := by
      rintro rfl
      exact hb.elim (fun h => absurd (hc.trans hf.1) (h ▸ lt_irrefl _)) fun h =>
        absurd hf.2 (not_lt.mpr h.1)
    exact ⟨hb.imp id .inr, hne, hleave b hb, hnodes hk₁⟩
  · refine ⟨.inr (.inr hb), hleave b (.inr hb), fun m hm => ?_⟩
    exact hnodes (k := 0) (by rw [Graph.nodes_of_size_le hb.1]; rfl) m hm
  · intro m hm
    rw [h₂.nodes_eq hfirst] at hm
    obtain ⟨ns, hns, hmem⟩ := h₁.added f
    rw [hns, Graph.nodes_of_size_le hf.1.le, List.nil_append] at hm
    exact hcleanup ▸ (hmem m hm).2

/-- A sealed statement counts as such in what has been built with it. -/
theorem Confined.seal {A : Stmt} {K R : BlockId → Prop} (h : Confined T o w s made e s')
    (hA : Sealed T o e s s' A f K R) (hwalk : A.walk everywhere ⊆ .stmt A :: w)
    (hnew : (Node.stmt A).id ∉ w.map Node.id) :
    Confined T o (.stmt A :: w) s ((A, f) :: made) e s' := by
  have hself : Node.stmt A ∈ A.walk everywhere := (Node.stmt A).mem_subtree
  have hmono := h.mono (List.Subset.refl o) (List.subset_cons_self (.stmt A) w) (List.Subset.refl e)
  refine ⟨h.toGrown, hmono.edges, hmono.added, h.ends, hmono.marks, ?_, ?_, ?_⟩
  · refine List.forall_mem_cons.mpr ⟨⟨hwalk, fun hi => ?_⟩, hmono.within⟩
    exact (h.marks _ hi).resolve_right hnew
  · refine List.nodup_cons.mpr ⟨fun hmem => ?_, h.distinct⟩
    obtain ⟨p, hp, rfl⟩ := List.mem_map.mp hmem
    exact hnew (List.mem_map_of_mem ((h.within p hp).1 hself))
  · exact List.forall_mem_cons.mpr ⟨⟨K, R, hA⟩, h.isSealed⟩

/-! ### Try statements -/

/-- The `finally` block, and then body and handlers, from the block before the statement to the one
after it. -/
theorem confined_attempt (h₁ : Confined T [c] w s made (after :: c :: lasts cl.toList) s₁)
    (h₂ : Confined (handlerTargets hs ++ leavingTargets cl after T) [c] w' s₁ made' [] s')
    (hhandlers : ∀ b ∈ hs.map Prod.snd, s₁.graph.blocks.size ≤ b ∧ b < s'.graph.blocks.size)
    (hnew : ∀ b ∈ after :: exposed cl.toList, s.graph.blocks.size ≤ b ∧ b < s₁.graph.blocks.size)
    (hapart : ∀ b ∈ after :: lasts cl.toList, b ≠ c)
    (hw : List.Disjoint (w.map Node.id) (w'.map Node.id)) :
    Confined T [c] (w ++ w') s (made ++ made') [after] s' := by
  let U := landings (after :: exposed cl.toList) ++ T
  have hlasts : lasts U = lasts T := lasts_landings _ T
  have hfirst : Confined U [c] w s made (after :: c :: lasts cl.toList) s₁ := by
    refine h₁.widen ?_ ?_ hlasts
    · rw [exposed_landings]
      exact List.subset_append_right _ _
    · rw [routes_landings]
      exact List.Subset.refl _
  have hends : ∀ b ∈ after :: lasts cl.toList, b < s₁.graph.blocks.size := fun b hb =>
    (h₁.ends b (by
      rcases List.mem_cons.mp hb with rfl | hb
      · exact List.mem_cons_self
      · exact List.mem_cons_of_mem _ (List.mem_cons_of_mem _ hb))).2
  have hframe := h₂.frame (after :: lasts cl.toList) fun b hb =>
    ⟨hends b hb, fun hmem => hapart b hb (List.mem_singleton.mp hmem)⟩
  have hsecond : Confined U (after :: lasts cl.toList ++ [c]) w' s₁ made' [after] s' := by
    refine (hframe.retarget (fun y hy => ?_) (fun x y hxy => ?_) fun b hb => .inl ?_).mono
      (List.Subset.refl _) (List.Subset.refl _) (by simp)
    · rw [exposed_handlerTargets, List.mem_append] at hy
      rw [exposed_landings, List.mem_append]
      exact hy.imp (hhandlers y) exposed_of_leavingTargets
    · rw [routes_handlerTargets] at hxy
      rcases routes_of_leavingTargets hxy with ⟨hx, hy⟩ | hxy
      · refine .inl ⟨.inl (List.mem_append_left _ (List.mem_cons_of_mem _ hx)), .inr ?_⟩
        rw [exposed_landings, List.mem_append]
        exact hy.imp (fun hy => List.mem_cons.mpr (.inl hy)) id
      · exact .inr ((routes_landings _ T).symm ▸ hxy)
    · rw [lasts_handlerTargets, lasts_leavingTargets, lasts_append]
      exact List.mem_append_right _ (hlasts ▸ hb)
  have hopen : after :: lasts cl.toList ++ [c] ⊆ after :: c :: lasts cl.toList := by
    intro b hb
    simp only [List.mem_append, List.mem_cons, List.not_mem_nil, or_false] at hb ⊢
    tauto
  refine (hfirst.trans hsecond hopen hw).reland (routes_landings _ T).symm hlasts.symm
    fun y hy => ?_
  rw [exposed_landings, List.mem_append] at hy
  exact hy.imp (fun hy => ⟨(hnew y hy).1, (hnew y hy).2.trans_le h₂.size_le⟩) id

/-- The block after a try statement and its `finally` block are built ahead of its body. The blocks
before and after the statement are left alone meanwhile. -/
theorem confined_ahead (hcleanup : Laid T (s.withBlock .join) →
      Confined T [] w (s.withBlock .join) made (lasts cl.toList) s₁)
    (hc : s.cursor = some c) (hr : Ready T s) :
    Confined T [c] w s made (s.graph.blocks.size :: c :: lasts cl.toList) s₁ ∧
      (∀ b ∈ [s.graph.blocks.size, c], b < s₁.graph.blocks.size ∧ s₁.graph.succs b = []) ∧
      ∀ b ∈ lasts (cl.toList ++ T),
        b < s₁.graph.blocks.size ∧ b ∉ [s.graph.blocks.size, c] := by
  let after := s.graph.blocks.size
  obtain ⟨hlt, hlast, hclear⟩ := hr.cursor c hc
  have hblock : Confined T [c] [] s [] [after, c] (s.withBlock .join) :=
    confined_withBlock s .join fun b hb => List.mem_singleton.mp hb ▸ hlt
  have hcleanup := hcleanup (hr.withBlock .join rfl).laid
  have hold : ∀ b ∈ [after, c], b ∉ lasts T ∧ (s.withBlock .join).graph.succs b = [] := by
    simp only [State.withBlock, Graph.succs_newBlock, List.forall_mem_cons]
    exact ⟨⟨fun hmem => lt_irrefl _ (hr.laid _ hmem), Graph.succs_of_size_le le_rfl⟩,
      ⟨hlast, hclear⟩, List.forall_mem_nil _⟩
  have hframe := hcleanup.frame [after, c] fun b hb => ⟨(hblock.ends b hb).2, List.not_mem_nil⟩
  refine ⟨hblock.afterIdle hframe (by simp), fun b hb => ?_, fun b hb => ?_⟩
  · obtain ⟨hout, hclear⟩ := hold b hb
    have hb₁ := (hblock.ends b hb).2
    exact ⟨hb₁.trans_le hcleanup.size_le, hcleanup.succs_eq_nil
      (fun hopen => hopen.elim List.not_mem_nil (not_le.mpr hb₁)) hout hclear⟩
  · rw [lasts_append] at hb
    rcases List.mem_append.mp hb with hb | hb
    · obtain ⟨hopen, hlt₁⟩ := hcleanup.ends b hb
      refine ⟨hlt₁, fun hmem => absurd (hblock.ends b hmem).2 (not_lt.mpr ?_)⟩
      exact hopen.resolve_left List.not_mem_nil
    · have hlater := hblock.size_le.trans hcleanup.size_le
      exact ⟨(hr.laid b hb).trans_le hlater, fun hmem => (hold b hmem).1 hb⟩

/-- A try statement is sealed if it has a `finally` block. -/
theorem confined_recorded {A : Stmt}
    (h₁ : Confined T [c] w s made (s.graph.blocks.size :: c :: lasts cl.toList) s₁)
    (h₂ : Confined (handlerTargets hs ++ leavingTargets cl s.graph.blocks.size T) [c] w' s₁ made' [] s')
    (hhandlers : ∀ b ∈ hs.map Prod.snd, s₁.graph.blocks.size ≤ b ∧ b < s'.graph.blocks.size)
    (hcl : ∀ t, cl = some t → ∃ last, t = .cleanup (s.graph.blocks.size + 1) last ∧
      s.graph.blocks.size + 1 < s₁.graph.blocks.size)
    (hlasts : ∀ b ∈ lasts (cl.toList ++ T),
      b < s₁.graph.blocks.size ∧ b ∉ [s.graph.blocks.size, c])
    (hc : s.cursor = some c) (hr : Ready T s) (hclear : s₁.graph.succs c = [])
    (hguarded : A.guarded = w') (hcleanup : Block.walkOption everywhere A.cleanup? = w)
    (hwalk : A.walk everywhere = .stmt A :: (w' ++ w)) (hw : ((A.walk everywhere).map Node.id).Nodup) :
    Confined T [c] (A.walk everywhere) s (recorded A cl ++ (made ++ made')) [s.graph.blocks.size]
      s' := by
  obtain ⟨hlt, hlast, -⟩ := hr.cursor c hc
  have hafter := (h₁.ends s.graph.blocks.size List.mem_cons_self).2
  rw [hwalk] at hw ⊢
  obtain ⟨hself, hparts⟩ := List.nodup_cons.mp hw
  have hdisjoint : List.Disjoint (w.map Node.id) (w'.map Node.id) := by
    rw [List.map_append] at hparts
    exact (List.disjoint_of_nodup_append hparts).symm
  have hapart : ∀ b ∈ lasts (cl.toList ++ T), b < s₁.graph.blocks.size ∧ b ≠ c := fun b hb =>
    (hlasts b hb).imp id fun hne hbc => hne (by simp [hbc])
  have hall := confined_attempt h₁ h₂ hhandlers (List.forall_mem_cons.mpr ⟨⟨le_rfl, hafter⟩, fun b hb => by
      cases cl with
      | none => cases hb
      | some t =>
        obtain ⟨last, rfl, hlt₁⟩ := hcl t rfl
        obtain rfl := List.mem_singleton.mp hb
        exact ⟨Nat.le_succ _, hlt₁⟩⟩)
    (List.forall_mem_cons.mpr ⟨hlt.ne', fun b hb => by
      refine (hapart b ?_).2
      rw [lasts_append]
      exact List.mem_append_left _ hb⟩) hdisjoint
  have hperm : .stmt A :: (w ++ w') ⊆ .stmt A :: (w' ++ w) :=
    List.cons_subset_cons _ List.perm_append_comm.subset
  cases cl with
  | none =>
    exact hall.mono (List.Subset.refl _) (List.Subset.trans (List.subset_cons_self _ _) hperm)
      (List.Subset.refl _)
  | some t =>
    obtain ⟨last, rfl, hlt₁⟩ := hcl t rfl
    have hsealed := sealed_attempt h₁ h₂ hlt hlast hr.laid hclear ⟨Nat.lt_succ_self _, hlt₁⟩
      (fun y hy => ?_) (fun b hb => hapart b ?_) hguarded hcleanup
      fun n hn hn' => hdisjoint (List.mem_map_of_mem hn) (List.mem_map_of_mem hn')
    · refine (hall.seal hsealed ?_ ?_).mono (List.Subset.refl _) hperm (List.Subset.refl _)
      · rw [hwalk]
        exact List.cons_subset_cons _ List.perm_append_comm.subset
      · rw [(List.perm_append_comm.map Node.id).mem_iff]
        exact hself
    · rw [exposed_handlerTargets, List.mem_append] at hy
      exact hy.elim (fun hy => .inr (hhandlers y hy)) fun hy => .inl (List.mem_singleton.mp hy)
    · rwa [lasts_handlerTargets, lasts_leavingTargets] at hb

/-- A try statement is built from the cursor to the block after it. -/
theorem atCursor_attempt {A : Stmt} {m : Mark} {body : Block} {clauses : List CatchClause}
    {cleanup : Option Block} {s₃ s₄ : State} {made₁ made₂ made₃ : List (Stmt × BlockId)}
    (hA : A = .attempt m body clauses cleanup) (hc : s.cursor = some c)
    (hcl : ∀ t, cl = some t → ∃ last, t = .cleanup (s.graph.blocks.size + 1) last ∧
      s.graph.blocks.size + 1 < s₁.graph.blocks.size)
    (hcleanup : Laid T (s.withBlock .join) → Confined T [] (Block.walkOption everywhere cleanup)
      (s.withBlock .join) made₁ (lasts cl.toList) s₁)
    (hprepared : Prepared facts clauses s₁ hs s₂)
    (hbody : Ready (handlerTargets hs ++ (cl.toList ++ T)) (s₂.movedTo (some c)) →
      AtCursor (handlerTargets hs ++ (cl.toList ++ T)) (body.walk everywhere) (s₂.movedTo (some c))
        made₂ s₃)
    (hleave : Departed s₃.cursor (cl.toList ++ [.landing .loopEnd s.graph.blocks.size]) s₃ s₄)
    (hclauses : Waiting (cl.toList ++ T) (hs.map Prod.snd) s₄ →
      Confined (leavingTargets cl s.graph.blocks.size T) (hs.map Prod.snd)
        (CatchClause.walkList everywhere clauses) s₄ made₃ [] s')
    (hr : Ready T s) (hw : ((A.walk everywhere).map Node.id).Nodup) :
    AtCursor T (A.walk everywhere) s (recorded A cl ++ made₁ ++ made₂ ++ made₃)
      (s'.movedTo (Onward.cursor s'.graph s.graph.blocks.size)) := by
  have hwalk : A.walk everywhere = .stmt A :: (body.walk everywhere ++
      CatchClause.walkList everywhere clauses ++ Block.walkOption everywhere cleanup) := by
    rw [hA, Stmt.walk, Node.above_everywhere]
  have hguarded : List.Disjoint ((body.walk everywhere).map Node.id)
      ((CatchClause.walkList everywhere clauses).map Node.id) := by
    rw [hwalk] at hw
    have hparts := (List.nodup_cons.mp hw).2
    rw [List.map_append, List.map_append] at hparts
    exact List.disjoint_of_nodup_append hparts.of_append_left
  obtain ⟨h₁, hidle, hlasts⟩ := confined_ahead hcleanup hc hr
  obtain ⟨hafter, hafterclear⟩ := hidle s.graph.blocks.size List.mem_cons_self
  obtain ⟨hlt, hclear⟩ := hidle c (by simp)
  obtain ⟨h₂, hhandlers⟩ := confined_guarded (T := T) hprepared hbody hleave hclauses
    ⟨fun b hb => by
      obtain rfl := Option.some_inj.mp hb
      exact ⟨hlt, fun hmem => (hlasts _ hmem).2 (by simp), hclear⟩, fun b hb => (hlasts b hb).1⟩
    hguarded
  have hconf := confined_recorded h₁ h₂ hhandlers hcl hlasts hc hr hclear (by rw [hA]; rfl)
    (by rw [hA]; rfl) hwalk hw
  refine .onward (by simpa [hc] using hconf) ?_ hr fun x hx => (onward_cursor _ _).eq x hx
  refine h₂.succs_eq_nil (fun hopen => hopen.elim (fun hmem => ?_) (not_le.mpr hafter)) ?_
    hafterclear
  · exact (hr.cursor c hc).1.ne' (List.mem_singleton.mp hmem)
  · rw [lasts_handlerTargets, lasts_leavingTargets]
    exact fun hmem => (hlasts _ hmem).2 List.mem_cons_self

/-! ### Other statements -/

theorem atCursor_skipped (hr : Ready T s) (hc : s.cursor = none) (n : Node) :
    AtCursor T n.subtree s [] (s.skipped n) := by
  have hconf : Confined T s.cursor.toList n.subtree s [] [] (s.skipped n) :=
    .of_adds (adds_skipped (E := NoEdge) (N := NoNode) s n) (fun _ _ => False.elim)
      (fun _ _ => False.elim) (by simp) fun _ => List.mem_append.mp
  exact .of_confined hconf hr fun b hb => nomatch hc.symm.trans hb

theorem cursor_markedHere (s : State) (m : Mark) : (s.markedHere m).cursor = s.cursor := by
  unfold State.markedHere
  split_ifs <;> rfl

theorem atCursor_markedHere (hr : Ready T s) {n : Node} {m : Mark} (hm : m.id = n.id) :
    AtCursor T [n] s [] (s.markedHere m) := by
  have hgraph : (s.markedHere m).graph = s.graph := by
    unfold State.markedHere
    split_ifs <;> rfl
  have hconf : Confined T s.cursor.toList [n] s [] s.cursor.toList (s.markedHere m) := by
    refine .of_adds (adds_markedHere (E := NoEdge) (N := NoNode) s m) (fun _ _ => False.elim)
      (fun _ _ => False.elim) (fun b hb => ⟨.inl hb, hgraph ▸ hr.open_lt b hb⟩) fun i hi => ?_
    unfold State.markedHere at hi
    split_ifs at hi
    · exact (List.mem_append.mp hi).imp id fun hi => by simpa [hm] using hi
    · exact .inl hi
  refine .of_confined hconf hr fun b hb => ?_
  rw [cursor_markedHere] at hb
  exact ⟨mem_open b hb, hgraph ▸ (hr.cursor b hb).2.2⟩

/-! ### Any course -/

theorem distinct_of_subperm {v : List Node} (h : v.Subperm w) (hw : (w.map Node.id).Nodup) :
    (v.map Node.id).Nodup := by
  obtain ⟨u, hperm, hsub⟩ := h
  exact (hperm.map Node.id).nodup_iff.mp (hw.sublist (hsub.map Node.id))

theorem sublist_beneath (n : Node) (v : List Node) : (n :: v).Sublist (n.subtree ++ v) :=
  (List.singleton_sublist.mpr n.mem_subtree).append (List.Sublist.refl v)

theorem sublist_simpleOption (x : Option Simple) :
    (x.map fun y => Node.stmt (.simple y)).toList.Sublist (x.elim [] (·.walk everywhere)) := by
  cases x with
  | none => exact List.Sublist.refl _
  | some y => exact List.singleton_sublist.mpr (Node.stmt (.simple y)).mem_subtree

theorem sublist_exprOption (x : Option Expr) :
    (x.map Node.expr).toList.Sublist (Expr.walkOption everywhere x) := by
  cases x with
  | none => exact List.Sublist.refl _
  | some y => exact List.singleton_sublist.mpr (Node.expr y).mem_subtree

/-- What is built of some nodes is built of these. -/
theorem AtCursor.among {v : List Node} (h : (v.map Node.id).Nodup → AtCursor T v s made s')
    (hsub : v.Subperm w) (hw : (w.map Node.id).Nodup) : AtCursor T w s made s' :=
  (h (distinct_of_subperm hsub hw)).mono hsub.subset

theorem Confined.among {v : List Node} (h : (v.map Node.id).Nodup → Confined T o v s made e s')
    (hsub : v.Subperm w) (hw : (w.map Node.id).Nodup) : Confined T o w s made e s' :=
  (h (distinct_of_subperm hsub hw)).mono (List.Subset.refl _) hsub.subset (List.Subset.refl _)

theorem Course.cleanup_target {block : Option Block}
    (h : Course facts T (.cleanup block cl) s made s') : ∀ t, cl = some t →
      ∃ last, t = .cleanup s.graph.blocks.size last ∧ s.graph.blocks.size < s'.graph.blocks.size := by
  cases h with
  | noCleanup => simp
  | cleanup h =>
    rintro t ht
    obtain rfl := Option.some_inj.mp ht
    refine ⟨_, rfl, ?_⟩
    have hsize := h.grown.size_le
    rw [State.movedTo, size_withBlock] at hsize
    exact hsize

theorem lasts_cleanup (entry : BlockId) (last : Option BlockId) :
    lasts [.cleanup entry last] = last.toList := by
  cases last <;> rfl

/-- What a part needs of the state that it is built from. -/
def Part.Awaits (T : List Target) (s : State) : Part → Prop
  | .sections tagEnd after _ =>
    Laid T s ∧ (∀ b ∈ tagEnd.toList, b < s.graph.blocks.size) ∧ after ∈ exposed T
  | .clauses _ _ _ hs _ => Waiting T (hs.map Prod.snd) s
  | .cleanup _ _ => Laid T s
  | _ => Ready T s

/-- What confines the construction of a part. -/
def Part.StaysConfined (T : List Target) (s : State) (made : List (Stmt × BlockId)) (s' : State) :
    Part → Prop
  | .sections tagEnd _ cs =>
    Confined T tagEnd.toList (CaseClause.walkList everywhere cs) s made tagEnd.toList s'
  | .clauses cl after _ hs cs => ∀ T', T = cl.toList ++ T' →
    Confined (leavingTargets cl after T') (hs.map Prod.snd) (CatchClause.walkList everywhere cs) s
      made [] s'
  | .cleanup b cl => Confined T [] (Block.walkOption everywhere b) s made (lasts cl.toList) s'
  | p => AtCursor T p.walk s made s'

/-- Every part is built from its open blocks, and the try statements in it are sealed. -/
theorem Course.confined {p : Part} (h : Course facts T p s made s') (hclean : Clean s')
    (hw : (p.walk.map Node.id).Nodup) (ha : p.Awaits T s) : p.StaysConfined T s made s' := by
  induction h with
  | @skipped T x s _ hc => exact atCursor_skipped ha hc (.stmt x)
  | empty => exact atCursor_markedHere ha rfl
  | braces _ ih => exact ih hclean hw ha
  | @single T x s s' h =>
    exact (atCursor_stands h.stands ha hclean).mono
      (List.singleton_sublist.mpr (Node.stmt x).mem_subtree).subset
  | @cond T m test yes no s s₁ s₂ s₃ made₁ made₂ htest hyes hno ihyes ihno =>
    have hjoin := (adds_joined (N := NoNode) s₃ s₂.cursor s₃.cursor).toGrown
    have hno' := (adds_branchedIf (N := NoNode) s₂ (facts.constant test != some true)
      s₁.cursor).toGrown.trans hno.grown
    refine .among (v := .expr test :: (yes.walk everywhere ++ Stmt.walkList everywhere no.toList))
      (fun hv => ?_) ?_ hw
    · obtain ⟨-, hparts⟩ := List.nodup_cons.mp hv
      rw [List.map_append] at hparts
      exact atCursor_cond htest.placed (ihyes ((hno'.trans hjoin).clean hclean) hparts.of_append_left)
        (ihno (hjoin.clean hclean) hparts.of_append_right) ha hv
    · rw [Part.walk, Stmt.walk, Node.above_everywhere, List.append_assoc, walkList_toList]
      exact ((sublist_beneath (Node.expr test) _).cons _).subperm
  | @loop T m init post test body c s s₁ s₂ s₃ s₄ q made hc hinit htest hq hbody hround ih =>
    have hclean₃ := (hround.grown.trans (grown_movedTo s₄ _)).clean hclean
    refine .among (fun hv => atCursor_loop hinit.placed htest.placed hq ?_
      (fun hready => ih hclean₃ ?_ hready) hround ha hv) ?_ hw
    · cases test with
      | none => exact fun _ => rfl
      | some x => simp
    · rw [List.map_append, List.map_append] at hv
      exact (List.map_append ▸ hv.of_append_right).of_append_left
    · have hpost : postNodes q = post.elim [] (·.walk everywhere) := by
        rw [hq]
        cases post <;> rfl
      rw [hpost, Part.walk, Stmt.walk, Node.above_everywhere, List.append_assoc _ _ (body.walk _)]
      exact (((sublist_simpleOption init).append (sublist_exprOption test)).subperm.append
        List.perm_append_comm.subperm).cons_right _
  | @foreach T m v operand body s s₁ s₂ made hoperand hbody ih =>
    have hclean₂ := ((grown_withEdge s₂ s₂.cursor s₁.graph.blocks.size).trans
      (grown_movedTo _ _)).clean hclean
    refine .among (fun hv => atCursor_foreach hoperand.placed (ih hclean₂ ?_) ha hv) ?_ hw
    · exact (List.nodup_cons.mp (List.nodup_cons.mp hv).2).2
    · rw [Part.walk, Stmt.walk, Node.above_everywhere, List.append_assoc]
      refine (List.Perm.swap _ _ _).subperm.trans (List.Sublist.cons_cons _ ?_).subperm
      exact (sublist_beneath (Node.expr operand) _).trans (List.sublist_append_right _ _)
  | @switch T m tag sections close s s₁ s₂ made htag hsections ih =>
    have hclean₂ := ((adds_defaulted (N := NoNode) s₂ sections s₁.cursor
      s.graph.blocks.size).toGrown.trans (grown_movedTo _ _)).clean hclean
    refine .among (fun hv => atCursor_switch htag.placed (fun hready => ih hclean₂ ?_
      ⟨hready.laid, hready.open_lt, List.mem_cons_self⟩) ha hv) ?_ hw
    · exact (List.nodup_cons.mp hv).2
    · rw [Part.walk, Stmt.walk, Node.above_everywhere]
      exact ((sublist_beneath (Node.expr tag) _).cons _).subperm
  | @attempt T m body clauses cleanup c s s₁ s₂ s₃ s₄ s₅ cl hs made₁ made₂ made₃ hc hcleanup hready
      hbody hleave hclauses ihcleanup ihbody ihclauses =>
    have hclean₅ : Clean s₅ := (grown_movedTo s₅ _).clean hclean
    have hclean₃ : Clean s₃ := (hleave.departed.grown.trans hclauses.grown).clean hclean₅
    have hclean₁ : Clean s₁ := ((hready.adds (E := NoEdge) (N := NoNode)).toGrown.trans
      ((grown_movedTo s₂ _).trans hbody.grown)).clean hclean₃
    have hparts : (((body.walk everywhere ++ CatchClause.walkList everywhere clauses) ++
        Block.walkOption everywhere cleanup).map Node.id).Nodup := by
      rw [Part.walk, Stmt.walk, Node.above_everywhere] at hw
      exact (List.nodup_cons.mp hw).2
    rw [List.map_append, List.map_append] at hparts
    have hguarded := hparts.of_append_left
    refine atCursor_attempt rfl hc (fun t ht => ?_) (ihcleanup hclean₁ hparts.of_append_right) hready
      (ihbody hclean₃ hguarded.of_append_left) hleave.departed
      (fun hwait => ihclauses hclean₅ hguarded.of_append_right hwait T rfl) ha hw
    simpa using hcleanup.cleanup_target t ht
  | nil => exact .refl ha
  | @cons T x xs s s₁ s' made₁ made₂ hx hxs ihx ihxs =>
    rw [Part.walk, Stmt.walkList, List.map_append] at hw
    have hfirst := ihx (hxs.grown.clean hclean) hw.of_append_left ha
    exact hfirst.trans (ihxs hclean hw.of_append_right hfirst.ready) (List.disjoint_of_nodup_append hw)
  | @block T m xs close s s' made h ih =>
    rw [Part.walk, Block.walk, Node.above_everywhere] at hw
    obtain ⟨hself, hrest⟩ := List.nodup_cons.mp hw
    have hmark := atCursor_markedHere ha (n := .stmt (.block (.mk m xs close))) (m := m) rfl
    have hboth : AtCursor T (_ :: Stmt.walkList everywhere xs) s made s' :=
      hmark.trans (ih hclean hrest hmark.ready) (List.disjoint_singleton.mpr hself).symm
    exact hboth
  | noSections => exact confined_still (.refl _) rfl ha.2.1
  | @sections T tagEnd after m values isDefault body cs s s₁ s₂ s' made₁ made₂ hlabels hbody hcs
      ihbody ihcs =>
    obtain ⟨hlaid, htag, hafter⟩ := ha
    have hfall := (adds_fallenThrough (N := NoNode) s₂ m after).toGrown
    refine Confined.among (v := .caseClause (.mk m values isDefault body) ::
      (Stmt.walkList everywhere body ++ CaseClause.walkList everywhere cs)) (fun hv => ?_) ?_ hw
    · obtain ⟨-, hparts⟩ := List.nodup_cons.mp hv
      rw [List.map_append] at hparts
      exact confined_sections hlabels.placed
        (ihbody ((hfall.trans hcs.grown).clean hclean) hparts.of_append_left)
        (fun hlaid htag => ihcs hclean hparts.of_append_right ⟨hlaid, htag, hafter⟩) hlaid htag
        hafter hv
    · rw [CaseClause.walkList, CaseClause.walk, Node.above_everywhere]
      exact (((List.sublist_append_right _ _).cons_cons _).append (List.Sublist.refl _)).subperm
  | noClauses => exact fun T' _ => confined_still (.refl _) rfl (by simp)
  | @uncaught T cl after b before a hs x cs s s' made hb hcs ih =>
    rintro T' rfl
    rw [Part.walk, CatchClause.walkList, List.map_append] at hw
    exact confined_passed (fun hwait => ih hclean hw.of_append_right hwait T' rfl) ha
      (List.disjoint_of_nodup_append hw)
  | @caught T cl after b before a hs x cs s s₁ s₂ s' made₁ made₂ hb hbody hleave hcs ihbody ihcs =>
    rintro T' rfl
    have hclean₁ := (hleave.departed.grown.trans hcs.grown).clean hclean
    refine Confined.among (v := .catchClause x ::
      (x.body.walk everywhere ++ CatchClause.walkList everywhere cs)) (fun hv => ?_) ?_ hw
    · obtain ⟨-, hparts⟩ := List.nodup_cons.mp hv
      rw [List.map_append] at hparts
      exact confined_caught (ihbody hclean₁ hparts.of_append_left) hleave.departed
        (fun hwait => ihcs hclean hparts.of_append_right hwait T' rfl) ha hv
    · obtain ⟨m, param, body⟩ := x
      rw [CatchClause.walkList, CatchClause.walk, Node.above_everywhere]
      exact (((List.sublist_append_right _ _).cons_cons _).append (List.Sublist.refl _)).subperm
  | noCleanup => exact confined_still (.refl _) rfl (by simp)
  | @cleanup T b s s' made h ih =>
    rw [Part.StaysConfined, Option.toList_some, lasts_cleanup]
    exact confined_cleanup (ih hclean hw) ha

end

end FlowCheck.Build
