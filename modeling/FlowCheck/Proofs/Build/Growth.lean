import FlowCheck.Proofs.Build.Function

/-!
# What a step adds

No step of construction takes anything away. `Adds E N` says which edges and nodes a step adds at
most, and that it makes no entry of a `finally` block; `Grown` is what is left of this if nothing is
known about the step.
-/
namespace FlowCheck

namespace Graph

/-- The blocks that `finally` blocks begin in, in increasing order. -/
def cleanupEntries (g : Graph) : List BlockId :=
  (List.range g.blocks.size).filter fun b => (g.block b).kind = .cleanup

theorem cleanupEntries_congr {g g' : Graph} (hsize : g'.blocks.size = g.blocks.size)
    (hkind : ∀ b, (g'.block b).kind = (g.block b).kind) : g'.cleanupEntries = g.cleanupEntries := by
  simp [cleanupEntries, hsize, hkind]

theorem kind_newBlock {g : Graph} {b : BlockId} (k : BlockKind) (hb : b < g.blocks.size) :
    ((g.newBlock k).2.block b).kind = (g.block b).kind := by
  rw [block_newBlock, if_neg hb.ne]

theorem cleanupEntries_newBlock (g : Graph) (k : BlockKind) :
    (g.newBlock k).2.cleanupEntries =
      g.cleanupEntries ++ if k = .cleanup then [g.blocks.size] else [] := by
  have hnew : ((g.newBlock k).2.block g.blocks.size).kind = k := by
    rw [block_newBlock, if_pos rfl]
  have hold : (List.range g.blocks.size).filter
      (fun b => decide (((g.newBlock k).2.block b).kind = .cleanup)) = g.cleanupEntries := by
    refine List.filter_congr fun b hb => ?_
    rw [kind_newBlock k (List.mem_range.mp hb)]
  rw [cleanupEntries, size_newBlock, List.range_succ, List.filter_append, hold,
    List.filter_singleton, hnew]
  by_cases hk : k = .cleanup <;> simp [hk]

end Graph

namespace Build

/-! ### Steps of any kind -/

/-- Findings are added to others; a missing return is none of them, nor is a jump that is refused,
since construction ends with either. -/
def Finds (ds ds' : List Diagnostic) : Prop :=
  ∃ new, ds' = ds ++ new ∧ ∀ x ∈ new, x.code ≠ .missingReturn ∧ x.code ≠ .jumpOutOfFinally

namespace Finds

variable {ds ds' ds'' : List Diagnostic} {x : Diagnostic}

theorem refl (ds : List Diagnostic) : Finds ds ds := ⟨[], by simp, by simp⟩

theorem trans (h : Finds ds ds') (h' : Finds ds' ds'') : Finds ds ds'' := by
  obtain ⟨new, rfl, hnew⟩ := h
  obtain ⟨more, rfl, hmore⟩ := h'
  refine ⟨new ++ more, List.append_assoc _ _ _, fun x hx => ?_⟩
  exact (List.mem_append.mp hx).elim (hnew x) (hmore x)

theorem one (hx : x.code ≠ .missingReturn ∧ x.code ≠ .jumpOutOfFinally) : Finds ds (ds ++ [x]) :=
  ⟨[x], rfl, by simpa using hx⟩

theorem isPrefix (h : Finds ds ds') : ds <+: ds' := by
  obtain ⟨new, rfl, -⟩ := h
  exact List.prefix_append ds new

end Finds

/-- One state after another: nothing is taken away. -/
structure Grown (s s' : State) : Prop extends Later s s' where
  kind_eq : ∀ b < s.graph.blocks.size, (s'.graph.block b).kind = (s.graph.block b).kind
  nodes : ∀ b, s.graph.nodes b <+: s'.graph.nodes b
  dead : s.dead <+: s'.dead
  finds : Finds s.diagnostics s'.diagnostics
  endReachable_eq : s'.graph.endReachable = s.graph.endReachable

namespace Grown

variable {s s' s'' : State}

theorem refl (s : State) : Grown s s :=
  ⟨.refl s, fun _ _ => rfl, fun _ => List.prefix_rfl, List.prefix_rfl, .refl _, rfl⟩

theorem trans (h : Grown s s') (h' : Grown s' s'') : Grown s s'' where
  toLater := h.toLater.trans h'.toLater
  kind_eq b hb := (h'.kind_eq b (hb.trans_le h.size_le)).trans (h.kind_eq b hb)
  nodes b := (h.nodes b).trans (h'.nodes b)
  dead := h.dead.trans h'.dead
  finds := h.finds.trans h'.finds
  endReachable_eq := h'.endReachable_eq.trans h.endReachable_eq

theorem findings (h : Grown s s') :
    ∃ new, s'.diagnostics = s.diagnostics ++ new ∧ ∀ x ∈ new, x.code ≠ .missingReturn := by
  obtain ⟨new, hnew, hcodes⟩ := h.finds
  exact ⟨new, hnew, fun x hx => (hcodes x hx).1⟩

end Grown

/-! ### Steps by what they add -/

/-- The step adds at most edges in `E`, at most nodes `n` to a block `b` with `N b n`, and no entry
of a `finally` block. -/
structure Adds (E : BlockId → BlockId → Prop) (N : BlockId → Node → Prop) (s s' : State) : Prop
    extends Grown s s' where
  mem_succs : ∀ {c d}, d ∈ s'.graph.succs c → d ∈ s.graph.succs c ∨ E c d
  mem_preds : ∀ {c d}, d ∈ s'.graph.preds c →
    d ∈ s.graph.preds c ∨ (E d c ∧ (d < s.graph.blocks.size → c ∈ s'.graph.succs d))
  added : ∀ c, ∃ ns, s'.graph.nodes c = s.graph.nodes c ++ ns ∧ ∀ n ∈ ns, N c n
  cleanups : s'.graph.cleanupEntries = s.graph.cleanupEntries

/-- No edge. -/
abbrev NoEdge : BlockId → BlockId → Prop := fun _ _ => False

/-- No node. -/
abbrev NoNode : BlockId → Node → Prop := fun _ _ => False

namespace Adds

variable {E E' : BlockId → BlockId → Prop} {N N' : BlockId → Node → Prop} {s s' s'' : State}

theorem mono (h : Adds E N s s') (hE : ∀ a b, E a b → E' a b) (hN : ∀ b n, N b n → N' b n) :
    Adds E' N' s s' where
  toGrown := h.toGrown
  mem_succs hd := (h.mem_succs hd).imp id (hE _ _)
  mem_preds hd := (h.mem_preds hd).imp id (And.imp_left (hE _ _))
  added c := by
    obtain ⟨ns, hns, hmem⟩ := h.added c
    exact ⟨ns, hns, fun n hn => hN c n (hmem n hn)⟩
  cleanups := h.cleanups

theorem trans (h : Adds E N s s') (h' : Adds E N s' s'') : Adds E N s s'' where
  toGrown := h.toGrown.trans h'.toGrown
  mem_succs hd := (h'.mem_succs hd).elim h.mem_succs .inr
  mem_preds hd := by
    rcases h'.mem_preds hd with hd | ⟨he, hsucc⟩
    · exact (h.mem_preds hd).imp id fun ⟨he, hsucc⟩ => ⟨he, fun hlt => h'.succs (hsucc hlt)⟩
    · exact .inr ⟨he, fun hlt => hsucc (hlt.trans_le h.size_le)⟩
  added c := by
    obtain ⟨ns, hns, hmem⟩ := h.added c
    obtain ⟨ms, hms, hmem'⟩ := h'.added c
    refine ⟨ns ++ ms, by rw [hms, hns, List.append_assoc], fun n hn => ?_⟩
    exact (List.mem_append.mp hn).elim (hmem n) (hmem' n)
  cleanups := h'.cleanups.trans h.cleanups

/-- A step that leaves the graph alone. -/
theorem of_graph_eq (hgraph : s'.graph = s.graph) (hdiag : Finds s.diagnostics s'.diagnostics)
    (hdead : s.dead <+: s'.dead) : Adds E N s s' where
  size_le := hgraph ▸ le_rfl
  exit_eq := hgraph ▸ rfl
  ret_eq := hgraph ▸ rfl
  diagnostics := hdiag.isPrefix
  succs h := hgraph ▸ h
  kind_eq _ _ := hgraph ▸ rfl
  nodes _ := hgraph ▸ List.prefix_rfl
  dead := hdead
  finds := hdiag
  endReachable_eq := hgraph ▸ rfl
  mem_succs h := .inl (hgraph ▸ h)
  mem_preds h := .inl (hgraph ▸ h)
  added c := ⟨[], by simp [hgraph], by simp⟩
  cleanups := hgraph ▸ rfl

theorem refl (s : State) : Adds E N s s := of_graph_eq rfl (.refl _) List.prefix_rfl

/-- Blocks that get no node keep theirs. -/
theorem nodes_eq (h : Adds E N s s') {c : BlockId} (hc : ∀ n, ¬ N c n) :
    s'.graph.nodes c = s.graph.nodes c := by
  obtain ⟨ns, hns, hmem⟩ := h.added c
  rw [hns, List.eq_nil_iff_forall_not_mem.mpr fun n hn => hc n (hmem n hn), List.append_nil]

/-- Blocks that get no edge keep having none. -/
theorem succs_eq_nil (h : Adds E N s s') {c : BlockId} (hs : s.graph.succs c = [])
    (hc : ∀ d, ¬ E c d) : s'.graph.succs c = [] := by
  refine List.eq_nil_iff_forall_not_mem.mpr fun d hd => ?_
  rcases h.mem_succs hd with hd | he
  · rw [hs] at hd
    cases hd
  · exact hc d he

end Adds

section

variable {E : BlockId → BlockId → Prop} {N : BlockId → Node → Prop} {s s' : State} {b : BlockId}

theorem grown_withBlock (s : State) (k : BlockKind) : Grown s (s.withBlock k) where
  size_le := by simp [State.withBlock]
  exit_eq := rfl
  ret_eq := rfl
  diagnostics := List.prefix_rfl
  succs h := by simpa [State.withBlock] using h
  kind_eq b hb := Graph.kind_newBlock k hb
  nodes b := by simp [State.withBlock]
  dead := List.prefix_rfl
  finds := .refl _
  endReachable_eq := rfl

theorem adds_withBlock (s : State) (k : BlockKind) (hk : k ≠ .cleanup) :
    Adds E N s (s.withBlock k) where
  toGrown := grown_withBlock s k
  mem_succs h := .inl (by simpa [State.withBlock] using h)
  mem_preds h := .inl (by simpa [State.withBlock] using h)
  added c := ⟨[], by simp [State.withBlock], by simp⟩
  cleanups := by simp [State.withBlock, Graph.cleanupEntries_newBlock, hk]

@[simp] theorem size_withBlock (s : State) (k : BlockKind) :
    (s.withBlock k).graph.blocks.size = s.graph.blocks.size + 1 :=
  Graph.size_newBlock s.graph k

@[simp] theorem size_withNode (s : State) (b : BlockId) (n : Node) :
    (s.withNode b n).graph.blocks.size = s.graph.blocks.size :=
  Graph.size_addNode s.graph b n

theorem adds_addEdge {a : BlockId} (he : E a b) : Adds E N s (s.withEdge (some a) b) where
  size_le := (size_withEdge s (some a) b).ge
  exit_eq := (Sane.fields_addEdge s.graph a b).1
  ret_eq := (Sane.fields_addEdge s.graph a b).2.1
  diagnostics := List.prefix_rfl
  succs := Graph.mem_succs_addEdge_of_mem a b
  kind_eq c _ := Graph.kind_addEdge s.graph a b c
  nodes c := (Graph.nodes_addEdge s.graph a b c).symm ▸ List.prefix_rfl
  dead := List.prefix_rfl
  finds := .refl _
  endReachable_eq := endReachable_withEdge s (some a) b
  mem_succs h := (Graph.mem_succs_of_addEdge h).imp id fun ⟨hc, hd⟩ => hc ▸ hd ▸ he
  mem_preds h := by
    refine (Graph.mem_preds_of_addEdge h).imp id ?_
    rintro ⟨rfl, rfl⟩
    exact ⟨he, fun hlt => (Graph.mem_succs_addEdge _ hlt).mpr (.inr ⟨rfl, rfl⟩)⟩
  added c := ⟨[], (Graph.nodes_addEdge s.graph a b c).trans (List.append_nil _).symm, by simp⟩
  cleanups := Graph.cleanupEntries_congr (Graph.size_addEdge s.graph a b)
    (Graph.kind_addEdge s.graph a b)

theorem adds_withEdge {a : Option BlockId} (he : ∀ x, a = some x → E x b) :
    Adds E N s (s.withEdge a b) := by
  cases a with
  | none => exact .refl s
  | some a => exact adds_addEdge (he a rfl)

theorem nodes_withNode_cases (s : State) (b : BlockId) (n : Node) (c : BlockId) :
    ∃ ns, (s.withNode b n).graph.nodes c = s.graph.nodes c ++ ns ∧ ∀ m ∈ ns, c = b ∧ m = n := by
  by_cases hc : b = c ∧ c < s.graph.blocks.size
  · obtain ⟨rfl, hlt⟩ := hc
    exact ⟨[n], nodes_withNode hlt n, by simp⟩
  · refine ⟨[], ?_, by simp⟩
    rw [State.withNode, Graph.addNode, Graph.nodes, Graph.block_modifyBlock, if_neg hc,
      List.append_nil]
    rfl

theorem kind_withNode (s : State) (b : BlockId) (n : Node) (c : BlockId) :
    ((s.withNode b n).graph.block c).kind = (s.graph.block c).kind :=
  Graph.proj_modifyBlock BasicBlock.kind s.graph b _ (by intro; rfl) c

theorem adds_withNode {n : Node} (hn : N b n) : Adds E N s (s.withNode b n) where
  size_le := (size_withNode s b n).ge
  exit_eq := rfl
  ret_eq := rfl
  diagnostics := List.prefix_rfl
  succs h := by simpa [State.withNode] using h
  kind_eq c _ := kind_withNode s b n c
  nodes c := by
    obtain ⟨ns, hns, -⟩ := nodes_withNode_cases s b n c
    exact hns ▸ List.prefix_append _ _
  dead := List.prefix_rfl
  finds := .refl _
  endReachable_eq := rfl
  mem_succs h := .inl (by simpa [State.withNode] using h)
  mem_preds h := .inl (by simpa [State.withNode] using h)
  added c := by
    obtain ⟨ns, hns, hmem⟩ := nodes_withNode_cases s b n c
    refine ⟨ns, hns, fun m hm => ?_⟩
    obtain ⟨rfl, rfl⟩ := hmem m hm
    exact hn
  cleanups := Graph.cleanupEntries_congr (size_withNode s b n) (kind_withNode s b n)

theorem adds_movedTo (s : State) (c : Option BlockId) : Adds E N s (s.movedTo c) :=
  .of_graph_eq rfl (.refl _) List.prefix_rfl

theorem adds_reported (s : State) {code : Code}
    (hcode : code ≠ .missingReturn ∧ code ≠ .jumpOutOfFinally) (pos : Pos) (text : String) :
    Adds E N s (s.reported code pos text) :=
  .of_graph_eq rfl (.one hcode) List.prefix_rfl

theorem adds_marked (s : State) (ids : List Nat) : Adds E N s (s.marked ids) :=
  .of_graph_eq rfl (.refl _) (List.prefix_append _ _)

theorem adds_markedHere (s : State) (m : Mark) : Adds E N s (s.markedHere m) := by
  unfold State.markedHere
  split_ifs
  · exact adds_marked s _
  · exact .refl s

theorem adds_skipped (s : State) (n : Node) : Adds E N s (s.skipped n) := by
  refine .of_graph_eq rfl ?_ (List.prefix_append _ _)
  unfold State.skipped
  simp only
  split_ifs
  · exact .refl _
  · exact .one (by simp)

theorem adds_compared (s : State) (before : List ErrorType) (a : ErrorType) (m : Mark) :
    Adds E N s (s.compared before a m) := by
  unfold State.compared
  split_ifs
  · exact adds_reported s (by simp) _ _
  · exact .refl s

theorem adds_uncaught (s : State) (c : CatchClause) : Adds E N s (s.uncaught c) :=
  .of_graph_eq rfl (.one (by simp)) (List.prefix_append _ _)

end

/-! ### Compound steps -/

section

variable {N : BlockId → Node → Prop} {s s' : State} {T : List Target}

theorem adds_branched (s : State) (k : BlockKind) (hk : k ≠ .cleanup) (a : Option BlockId) :
    Adds (fun x y => a = some x ∧ y = s.graph.blocks.size) N s (s.branched k a) :=
  ((adds_withBlock s k hk).trans (adds_withEdge fun _ hx => ⟨hx, rfl⟩)).trans (adds_movedTo _ _)

@[simp] theorem size_branched (s : State) (k : BlockKind) (a : Option BlockId) :
    (s.branched k a).graph.blocks.size = s.graph.blocks.size + 1 := by
  simp [State.branched]

theorem adds_branchedIf (s : State) (taken : Bool) (a : Option BlockId) :
    Adds (fun x y => a = some x ∧ y = s.graph.blocks.size) N s (s.branchedIf taken a) := by
  cases taken with
  | true => exact adds_branched s .branch (by decide) a
  | false => exact adds_movedTo s none

theorem adds_joined (s : State) (a b : Option BlockId) :
    Adds (fun x y => (a = some x ∨ b = some x) ∧ y = s.graph.blocks.size) N s (s.joined a b) := by
  unfold State.joined
  split_ifs
  · exact adds_movedTo s none
  · refine .trans ?_ (adds_movedTo _ _)
    refine .trans ?_ (adds_withEdge fun _ hx => ⟨.inr hx, rfl⟩)
    exact (adds_withBlock s .join (by decide)).trans (adds_withEdge fun _ hx => ⟨.inl hx, rfl⟩)

theorem adds_laidOut (s : State) (post : Option Simple) : Adds NoEdge N s (s.laidOut post) := by
  cases post with
  | none => exact adds_withBlock s .afterLoop (by decide)
  | some x =>
    exact (adds_withBlock s .afterLoop (by decide)).trans (adds_withBlock _ .post (by decide))

theorem cursor_laidOut (s : State) (post : Option Simple) :
    (s.laidOut post).cursor = s.cursor := by
  cases post <;> rfl

theorem adds_opened (s : State) (value : Option Bool) (tested : Bool) (after : BlockId) :
    Adds (fun x y => s.cursor = some x ∧ (y = after ∨ y = s.graph.blocks.size)) N s
      (s.opened value tested after) := by
  have hleave : Adds (fun x y => s.cursor = some x ∧ (y = after ∨ y = s.graph.blocks.size)) N s
      (if value != some true then s.withEdge s.cursor after else s) := by
    split_ifs
    · exact adds_withEdge fun _ hx => ⟨hx, .inl rfl⟩
    · exact .refl s
  have hsize : (if value != some true then s.withEdge s.cursor after else s).graph.blocks.size =
      s.graph.blocks.size := by
    split_ifs <;> simp
  unfold State.opened
  cases tested with
  | false => exact hleave
  | true =>
    refine hleave.trans ((adds_branchedIf _ _ _).mono ?_ fun _ _ => id)
    exact fun x y ⟨hx, hy⟩ => ⟨hx, .inr (hy.trans hsize)⟩

theorem adds_iterated (s : State) (n : Node) :
    Adds (fun x y => (s.cursor = some x ∧ y = s.graph.blocks.size) ∨
        (x = s.graph.blocks.size ∧ s.graph.blocks.size < y ∧ y < s.graph.blocks.size + 3))
      (fun b m => b = s.graph.blocks.size ∧ m = n) s (s.iterated n) := by
  refine .trans ?_ ((adds_branched _ .branch (by decide) _).mono ?_ fun _ _ => id)
  · refine .trans ?_ (adds_withEdge fun x hx => .inr ⟨(Option.some_inj.mp hx).symm, by simp⟩)
    refine .trans ?_ (adds_withNode ⟨rfl, rfl⟩)
    refine .trans ?_ (adds_movedTo _ _)
    refine .trans ?_ (adds_withEdge fun x hx => .inl ⟨hx, rfl⟩)
    exact (adds_withBlock s .loop (by decide)).trans (adds_withBlock _ .afterLoop (by decide))
  · rintro x y ⟨hx, rfl⟩
    exact .inr ⟨(Option.some_inj.mp hx).symm, by simp⟩

@[simp] theorem size_iterated (s : State) (n : Node) :
    (s.iterated n).graph.blocks.size = s.graph.blocks.size + 3 := by
  simp [State.iterated]

theorem adds_fallenThrough (s : State) (m : Mark) (after : BlockId) :
    Adds (fun x y => s.cursor = some x ∧ y = after) N s (s.fallenThrough m after) := by
  unfold State.fallenThrough
  split_ifs
  · exact (adds_reported s (by simp) _ _).trans (adds_withEdge fun _ hx => ⟨hx, rfl⟩)
  · exact .refl s

theorem adds_defaulted (s : State) (sections : List CaseClause) (tagEnd : Option BlockId)
    (after : BlockId) :
    Adds (fun x y => tagEnd = some x ∧ y = after) N s (s.defaulted sections tagEnd after) := by
  unfold State.defaulted
  split_ifs
  · exact adds_withEdge fun _ hx => ⟨hx, rfl⟩
  · exact .refl s

theorem adds_of_gains {E : BlockId → BlockId → Prop} {g : Graph}
    (h : Graph.Gains E s.graph g) : Adds E N s { s with graph := g } := by
  induction h with
  | refl => exact .refl s
  | edge _ he ih => exact ih.trans (adds_addEdge he)

theorem Departed.adds {c : Option BlockId} (h : Departed c T s s') : Adds (Outward c T) N s s' :=
  (adds_of_gains h.gains).trans
    (.of_graph_eq rfl (h.diagnostics ▸ .refl _) (h.dead ▸ List.prefix_rfl))

theorem Departed.size_eq {c : Option BlockId} (h : Departed c T s s') :
    s'.graph.blocks.size = s.graph.blocks.size :=
  h.gains.size_eq

theorem Placed.adds {n : Node} (h : Placed T n s s') :
    Adds (fun x y => Outward s.cursor T x y ∨ (s.cursor = some x ∧ y = s.graph.blocks.size))
      (fun b m => Own s b ∧ m = n) s s' := by
  cases h with
  | here hb => exact adds_withNode ⟨.inl hb, rfl⟩
  | @after b s₁ hb hd =>
    refine ((hd.adds.mono ?_ fun _ _ => id).trans ((adds_branched s₁ .plain (by decide) _).mono ?_
      fun _ _ => id)).trans (adds_withNode ⟨.inr hd.size_eq.ge, rfl⟩)
    · exact fun x y hxy => .inl (hb ▸ hxy)
    · exact fun x y ⟨hx, hy⟩ => .inr ⟨hb.trans hx, hy.trans hd.size_eq⟩

theorem PlacedOption.adds {o : Option Node} (h : PlacedOption T o s s') :
    Adds (fun x y => Outward s.cursor T x y ∨ (s.cursor = some x ∧ y = s.graph.blocks.size))
      (fun b m => Own s b ∧ o = some m) s s' := by
  cases o with
  | none => exact h.symm ▸ .refl s
  | some n => exact (Placed.adds h).mono (fun _ _ => id) fun _ _ ⟨hb, hm⟩ => ⟨hb, hm ▸ rfl⟩

theorem Prepared.adds {E : BlockId → BlockId → Prop} {facts : Facts} {cs : List CatchClause}
    {hs : List (ErrorType × BlockId)} (h : Prepared facts cs s hs s') : Adds E N s s' := by
  induction h with
  | nil => exact .refl _
  | cons _ ih => exact ih.trans (adds_withBlock _ .handler (by decide))

/-- The handlers stand in new blocks, each in one of its own. -/
theorem Prepared.fresh {facts : Facts} {cs : List CatchClause} {hs : List (ErrorType × BlockId)}
    (h : Prepared facts cs s hs s') : (hs.map Prod.snd).Nodup ∧
      ∀ b ∈ hs.map Prod.snd, s.graph.blocks.size ≤ b ∧ b < s'.graph.blocks.size := by
  induction h with
  | nil => simp
  | @cons c cs hs s s' h ih =>
    obtain ⟨hnodup, hbounds⟩ := ih
    have hsize := (h.adds (E := NoEdge) (N := NoNode)).size_le
    refine ⟨List.nodup_cons.mpr ⟨fun hmem => lt_irrefl _ (hbounds _ hmem).2, hnodup⟩, fun b hb => ?_⟩
    rw [size_withBlock]
    rcases List.mem_cons.mp hb with rfl | hb
    · exact ⟨hsize, Nat.lt_succ_self _⟩
    · exact (hbounds b hb).imp id Nat.lt_succ_of_lt

end

/-! ### Growth in the course of construction -/

section

variable {s s' : State} {T : List Target}

theorem grown_movedTo (s : State) (c : Option BlockId) : Grown s (s.movedTo c) :=
  (adds_movedTo (E := NoEdge) (N := NoNode) s c).toGrown

theorem grown_withEdge (s : State) (a : Option BlockId) (b : BlockId) : Grown s (s.withEdge a b) :=
  (adds_withEdge (E := fun _ _ => True) (N := NoNode) fun _ _ => trivial).toGrown

theorem Departed.grown {c : Option BlockId} (h : Departed c T s s') : Grown s s' :=
  (h.adds (N := NoNode)).toGrown

theorem Stands.grown {x : Stmt} (h : Stands T x s s') : Grown s s' := by
  cases h with
  | goesOn _ h => exact h.adds.toGrown
  | leaves _ h hd => exact (h.adds.toGrown.trans hd.grown).trans (grown_movedTo _ none)
  | strays h hd text =>
    exact (h.adds.toGrown.trans hd.grown).trans
      (adds_reported (E := NoEdge) (N := NoNode) _ (by simp) _ text).toGrown

theorem Closes.grown {facts : Facts} {header : BlockId} {q : Option (Simple × BlockId)}
    (h : Closes facts T header q s s') : Grown s s' := by
  cases h with
  | straight => exact grown_withEdge s _ header
  | @dead q b hb =>
    have hmark := adds_marked (E := NoEdge) (N := NoNode) (s.withEdge s.cursor b)
      ((Node.stmt (.simple q)).subtree.map Node.id)
    exact ((grown_withEdge s _ b).trans hmark.toGrown).trans (grown_withEdge _ _ header)
  | @live q b s s₁ hb h =>
    have henter := (grown_withEdge s s.cursor b).trans (grown_movedTo _ (some b))
    exact (henter.trans h.placed.adds.toGrown).trans (grown_withEdge s₁ _ header)

/-- Building a part takes nothing away. -/
theorem Course.grown {facts : Facts} {p : Part} {made : List (Stmt × BlockId)}
    (h : Course facts T p s made s') : Grown s s' := by
  induction h with
  | skipped _ _ => exact (adds_skipped (E := NoEdge) (N := NoNode) _ _).toGrown
  | empty => exact (adds_markedHere (E := NoEdge) (N := NoNode) _ _).toGrown
  | braces _ ih => exact ih
  | single h => exact h.stands.grown
  | cond htest _ _ ihyes ihno =>
    exact htest.placed.adds.toGrown.trans <| (adds_branchedIf (N := NoNode) _ _ _).toGrown.trans <|
      ihyes.trans <| (adds_branchedIf (N := NoNode) _ _ _).toGrown.trans <| ihno.trans <|
      (adds_joined (N := NoNode) _ _ _).toGrown
  | loop _ hinit htest _ _ hround ih =>
    refine hinit.placed.adds.toGrown.trans <|
      (adds_branched (N := NoNode) _ .loop (by decide) _).toGrown.trans <|
      htest.placed.adds.toGrown.trans ?_
    exact (adds_laidOut (N := NoNode) _ _).toGrown.trans <|
      (adds_opened (N := NoNode) _ _ _ _).toGrown.trans <| ih.trans <|
      hround.grown.trans <| grown_movedTo _ _
  | foreach hoperand _ ih =>
    exact hoperand.placed.adds.toGrown.trans <| (adds_iterated _ _).toGrown.trans <| ih.trans <|
      (grown_withEdge _ _ _).trans <| grown_movedTo _ _
  | switch htag _ ih =>
    exact (grown_withBlock _ .join).trans <| htag.placed.adds.toGrown.trans <| ih.trans <|
      (adds_defaulted (N := NoNode) _ _ _ _).toGrown.trans <| grown_movedTo _ _
  | attempt _ _ hready _ hleave _ ihcleanup ihbody ihclauses =>
    exact (grown_withBlock _ .join).trans <| ihcleanup.trans <|
      (hready.adds (E := NoEdge) (N := NoNode)).toGrown.trans <| (grown_movedTo _ _).trans <|
      ihbody.trans <| hleave.departed.grown.trans <| ihclauses.trans <| grown_movedTo _ _
  | nil => exact .refl _
  | cons _ _ ihx ihxs => exact ihx.trans ihxs
  | block _ ih => exact (adds_markedHere (E := NoEdge) (N := NoNode) _ _).toGrown.trans ih
  | noSections => exact .refl _
  | sections hlabels _ _ ihbody ihcs =>
    exact (adds_branched (N := NoNode) _ .branch (by decide) _).toGrown.trans <|
      hlabels.placed.adds.toGrown.trans <| ihbody.trans <|
      (adds_fallenThrough (N := NoNode) _ _ _).toGrown.trans ihcs
  | noClauses => exact .refl _
  | uncaught _ _ ih =>
    exact (adds_compared (E := NoEdge) (N := NoNode) _ _ _ _).toGrown.trans <|
      (adds_uncaught (E := NoEdge) (N := NoNode) _ _).toGrown.trans ih
  | caught _ _ hleave _ ihbody ihcs =>
    exact (adds_compared (E := NoEdge) (N := NoNode) _ _ _ _).toGrown.trans <|
      (grown_movedTo _ _).trans <|
      (adds_withNode (E := NoEdge) (N := fun _ _ => True) trivial).toGrown.trans <|
      ihbody.trans <| hleave.departed.grown.trans ihcs
  | noCleanup => exact .refl _
  | cleanup _ ih => exact ((grown_withBlock _ .cleanup).trans (grown_movedTo _ _)).trans ih

end

end Build

end FlowCheck
