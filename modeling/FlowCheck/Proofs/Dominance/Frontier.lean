import FlowCheck.Proofs.Dominance.Tree

/-!
# Dominance frontiers

The frontier of a block holds the blocks where its dominance ends: those with an edge from a block
that it dominates and which it does not strictly dominate itself. `computeFrontiers` writes exactly
these into the graph and leaves its shape and its dominator tree alone.
-/
namespace FlowCheck.Graph

open Dominance

/-- Some edge leads from a block that `u` dominates to `s`, which `u` does not strictly dominate. -/
def InFrontier (g : Graph) (u s : BlockId) : Prop :=
  ∃ p, g.Reachable p ∧ g.Dominates u p ∧ g.Edge p s ∧ ¬ (g.Dominates u s ∧ u ≠ s)

theorem SameShape.inFrontier_iff {g g' : Graph} (h : SameShape g g') {u s : BlockId} :
    g'.InFrontier u s ↔ g.InFrontier u s := by
  simp only [InFrontier, h.reachable_iff, h.dominates_iff, h.edge_iff]

/-- What is reached from a block with an empty frontier is strictly dominated by it. -/
theorem Path.dominates_of_frontier_empty {g : Graph} {c x : BlockId} {l : List BlockId}
    (h : g.Path c l x) (hc : g.Reachable c) (hempty : ∀ d, ¬ g.InFrontier c d) :
    g.Dominates c x ∧ (l ≠ [] → c ≠ x) := by
  induction h with
  | here => exact ⟨Dominates.refl g c, fun hl => absurd rfl hl⟩
  | @step l p x prior he ih =>
    obtain ⟨k, hk⟩ := hc
    have hstrict : g.Dominates c x ∧ c ≠ x := by
      by_contra hnot
      exact hempty x ⟨p, ⟨k ++ l, hk.trans prior⟩, ih.1, he, hnot⟩
    exact ⟨hstrict.1, fun _ => hstrict.2⟩

/-- A block on a cycle has a frontier. -/
theorem Path.exists_inFrontier_of_cycle {g : Graph} {c : BlockId} {l : List BlockId}
    (h : g.Path c (c :: l) c) (hc : g.Reachable c) : ∃ d, g.InFrontier c d := by
  by_contra hempty
  exact (h.dominates_of_frontier_empty hc (not_exists.mp hempty)).2 (List.cons_ne_nil c l) rfl

theorem mem_insertSorted {x y : ℕ} {l : List ℕ} : y ∈ insertSorted x l ↔ y = x ∨ y ∈ l := by
  induction l with
  | nil => simp [insertSorted]
  | cons z l ih =>
    rw [insertSorted]
    split_ifs with hlt heq
    · simp
    · simp [heq]
    · simp only [List.mem_cons, ih]
      tauto

theorem mem_foldl_insertSorted {y : ℕ} (xs l : List ℕ) :
    y ∈ xs.foldl (fun found s => insertSorted s found) l ↔ y ∈ xs ∨ y ∈ l := by
  induction xs generalizing l with
  | nil => simp
  | cons x xs ih =>
    rw [List.foldl_cons, ih, mem_insertSorted, List.mem_cons]
    tauto

theorem pairwise_insertSorted (x : ℕ) {l : List ℕ} (h : l.Pairwise (· < ·)) :
    (insertSorted x l).Pairwise (· < ·) := by
  induction l with
  | nil => simp [insertSorted]
  | cons y l ih =>
    obtain ⟨hy, hl⟩ := List.pairwise_cons.mp h
    rw [insertSorted]
    split_ifs with hlt heq
    · simp only [List.pairwise_cons, List.mem_cons]
      exact ⟨fun z hz => hz.elim (· ▸ hlt) fun hz => hlt.trans (hy z hz), hy, hl⟩
    · exact h
    · apply List.pairwise_cons.mpr
      constructor
      · intro z hz
        rcases mem_insertSorted.mp hz with rfl | hz
        · omega
        · exact hy z hz
      · exact ih hl

theorem pairwise_foldl_insertSorted (xs : List ℕ) {l : List ℕ} (h : l.Pairwise (· < ·)) :
    (xs.foldl (fun found s => insertSorted s found) l).Pairwise (· < ·) := by
  induction xs generalizing l with
  | nil => exact h
  | cons x xs ih => exact ih (pairwise_insertSorted x h)

theorem pairwise_frontierOf (g : Graph) (fuel : ℕ) (u : BlockId) :
    (g.frontierOf fuel u).Pairwise (· < ·) := by
  cases fuel with
  | zero => simp [frontierOf]
  | succ fuel => exact pairwise_foldl_insertSorted _ List.Pairwise.nil

theorem mem_frontierOf_succ {g : Graph} {fuel : ℕ} {u s : BlockId} :
    s ∈ g.frontierOf (fuel + 1) u ↔
      (s ∈ g.succs u ∨ ∃ c ∈ g.dominees u, s ∈ g.frontierOf fuel c) ∧ g.idom s ≠ some u := by
  simp only [frontierOf, mem_foldl_insertSorted, List.not_mem_nil, or_false, List.mem_filter,
    List.mem_append, List.mem_flatMap, decide_eq_true_eq]
  rfl

namespace DominatorTree

variable {g : Graph} {post : List BlockId} {u p s b : BlockId}

/-- Between a block and one that it strictly dominates stands one of its dominees. -/
theorem exists_dominee (h : DominatorTree g post) (hp : g.Reachable p) (hup : g.Dominates u p)
    (hne : u ≠ p) : ∃ c, g.idom c = some u ∧ g.Dominates c p := by
  induction hn : post.length - post.idxOf p using Nat.strong_induction_on generalizing p with
  | _ n ih =>
    rcases h.dominates_cases hp hup with heq | ⟨d, hd, hud⟩
    · exact absurd heq hne
    by_cases heq : u = d
    · exact ⟨p, heq ▸ hd, Dominates.refl g p⟩
    have hlt := h.idxOf_lt hd
    have hle := h.postorder.idxOf_le ((h.dominates hd).reachable hp)
    have hpos := h.postorder.length_pos
    obtain ⟨c, hc, hcd⟩ := ih (post.length - post.idxOf d) (by omega)
      ((h.dominates hd).reachable hp) hud heq rfl
    exact ⟨c, hc, hcd.trans (h.dominates hd)⟩

/-- The immediate dominator of a block dominates every block before it, so a strict dominator that
dominates a predecessor stands above it. -/
theorem idom_of_strict (h : DominatorTree g post) (hp : g.Reachable p) (he : g.Edge p s)
    (hus : g.Dominates u s) (hne : u ≠ s) :
    ∃ d, g.idom s = some d ∧ g.Dominates u d ∧ g.Dominates d p := by
  have hs := hp.step he
  rcases h.dominates_cases hs hus with heq | ⟨d, hd, hud⟩
  · exact absurd heq hne
  · exact ⟨d, hd, hud, (h.dominates hd).pred (h.ne hd) he⟩

theorem inFrontier_of_succ (h : DominatorTree g post) (hu : g.Reachable u) (he : g.Edge u s)
    (hidom : g.idom s ≠ some u) : g.InFrontier u s := by
  refine ⟨u, hu, Dominates.refl g u, he, ?_⟩
  rintro ⟨hus, hne⟩
  obtain ⟨d, hd, hud, hdu⟩ := h.idom_of_strict hu he hus hne
  exact hidom (hud.antisymm hdu hu ▸ hd)

/-- What leaves the dominance of a dominee leaves that of the block, unless the block immediately
dominates it. -/
theorem inFrontier_of_dominee (h : DominatorTree g post) {c : BlockId} (hu : g.Reachable u)
    (hc : g.idom c = some u) (hs : g.InFrontier c s) (hidom : g.idom s ≠ some u) :
    g.InFrontier u s := by
  obtain ⟨p, hp, hcp, he, hnot⟩ := hs
  refine ⟨p, hp, (h.dominates hc).trans hcp, he, ?_⟩
  rintro ⟨hus, hne⟩
  obtain ⟨d, hd, hud, hdp⟩ := h.idom_of_strict hp he hus hne
  have hdu : d ≠ u := fun heq => hidom (heq ▸ hd)
  rcases hcp.comparable hdp hp with hcd | hdc
  · refine hnot ⟨hcd.trans (h.dominates hd), ?_⟩
    rintro rfl
    exact hidom hc
  · by_cases heq : d = c
    · exact hnot ⟨heq ▸ h.dominates hd, heq ▸ h.ne hd⟩
    · exact hdu ((hud.antisymm (h.nearest hc hdc heq) hu).symm)

/-- The dominees of a block need less fuel than the block. -/
theorem fueled_of_mem_dominees (h : DominatorTree g post) {fuel : ℕ} {c : BlockId}
    (hfuel : post.idxOf u < fuel + 1) (hc : c ∈ g.dominees u) :
    g.Reachable c ∧ post.idxOf c < fuel := by
  have hidom := h.mem_dominees.mp hc
  have hlt := h.idxOf_lt hidom
  exact ⟨h.reachable_of_idom hidom, by omega⟩

theorem mem_frontierOf_iff (h : DominatorTree g post) {fuel : ℕ} (hu : g.Reachable u)
    (hfuel : post.idxOf u < fuel) : s ∈ g.frontierOf fuel u ↔ g.InFrontier u s := by
  induction fuel generalizing u with
  | zero => omega
  | succ fuel ih =>
    have hbelow : ∀ c ∈ g.dominees u, s ∈ g.frontierOf fuel c ↔ g.InFrontier c s := by
      intro c hc
      obtain ⟨hc', hcfuel⟩ := h.fueled_of_mem_dominees hfuel hc
      exact ih hc' hcfuel
    rw [mem_frontierOf_succ]
    constructor
    · rintro ⟨hs | ⟨c, hc, hs⟩, hidom⟩
      · exact h.inFrontier_of_succ hu hs hidom
      · exact h.inFrontier_of_dominee hu (h.mem_dominees.mp hc) ((hbelow c hc).mp hs) hidom
    · rintro ⟨p, hp, hup, he, hnot⟩
      refine ⟨?_, fun hidom => hnot ⟨h.dominates hidom, h.ne hidom⟩⟩
      by_cases heq : u = p
      · exact .inl (heq ▸ he)
      · obtain ⟨c, hc, hcp⟩ := h.exists_dominee hp hup heq
        have hcm := h.mem_dominees.mpr hc
        refine .inr ⟨c, hcm, (hbelow c hcm).mpr ⟨p, hp, hcp, he, ?_⟩⟩
        rintro ⟨hcs, -⟩
        refine hnot ⟨(h.dominates hc).trans hcs, ?_⟩
        rintro rfl
        exact h.ne hc ((h.dominates hc).antisymm hcs hu)

theorem mem_treeBelow_iff (h : DominatorTree g post) {fuel : ℕ} (hu : g.Reachable u)
    (hfuel : post.idxOf u < fuel) :
    b ∈ g.treeBelow fuel u ↔ g.Reachable b ∧ g.Dominates u b := by
  induction fuel generalizing u with
  | zero => omega
  | succ fuel ih =>
    have hbelow : ∀ c ∈ g.dominees u,
        b ∈ g.treeBelow fuel c ↔ g.Reachable b ∧ g.Dominates c b := by
      intro c hc
      obtain ⟨hc', hcfuel⟩ := h.fueled_of_mem_dominees hfuel hc
      exact ih hc' hcfuel
    rw [treeBelow, List.mem_cons, List.mem_flatMap]
    constructor
    · rintro (rfl | ⟨c, hc, hb⟩)
      · exact ⟨hu, Dominates.refl g _⟩
      · obtain ⟨hr, hcb⟩ := (hbelow c hc).mp hb
        exact ⟨hr, (h.dominates (h.mem_dominees.mp hc)).trans hcb⟩
    · rintro ⟨hr, hub⟩
      by_cases heq : u = b
      · exact .inl heq.symm
      · obtain ⟨c, hc, hcb⟩ := h.exists_dominee hr hub heq
        have hcm := h.mem_dominees.mpr hc
        exact .inr ⟨c, hcm, (hbelow c hcm).mpr ⟨hr, hcb⟩⟩

/-- What different dominees of a block dominate is different. -/
theorem eq_of_dominees (h : DominatorTree g post) {c d : BlockId} (hc : g.idom c = some u)
    (hd : g.idom d = some u) (hb : g.Reachable b) (hcb : g.Dominates c b) (hdb : g.Dominates d b) :
    c = d := by
  have key : ∀ {x y : BlockId}, g.idom x = some u → g.idom y = some u → g.Dominates x y →
      x = y := by
    intro x y hx hy hxy
    by_contra hne
    exact h.ne hx ((h.dominates hx).antisymm (h.nearest hy hxy hne)
      ((h.dominates hx).reachable (h.reachable_of_idom hx)))
  rcases hcb.comparable hdb hb with hcd | hdc
  · exact key hc hd hcd
  · exact (key hd hc hdc).symm

theorem nodup_treeBelow (h : DominatorTree g post) {fuel : ℕ} (hu : g.Reachable u)
    (hfuel : post.idxOf u < fuel) : (g.treeBelow fuel u).Nodup := by
  induction fuel generalizing u with
  | zero => omega
  | succ fuel ih =>
    have hdominees : (g.dominees u).Nodup := by
      rw [h.dominees_eq]
      exact ((List.nodup_reverse.mpr h.postorder.nodup).sublist (List.tail_sublist _)).filter _
    have hbelow {c : BlockId} (hc : c ∈ g.dominees u) : g.Reachable c ∧ post.idxOf c < fuel :=
      h.fueled_of_mem_dominees hfuel hc
    rw [treeBelow, List.nodup_cons, List.nodup_flatMap]
    refine ⟨?_, ?_, ?_⟩
    · intro hmem
      obtain ⟨c, hc, huc⟩ := List.mem_flatMap.mp hmem
      obtain ⟨-, hcu⟩ := (h.mem_treeBelow_iff (hbelow hc).1 (hbelow hc).2).mp huc
      have hidom := h.mem_dominees.mp hc
      exact h.ne hidom ((h.dominates hidom).antisymm hcu hu)
    · exact fun c hc => ih (hbelow hc).1 (hbelow hc).2
    · apply hdominees.imp_of_mem
      intro c d hc hd hne b hbc hbd
      obtain ⟨hb, hcb⟩ := (h.mem_treeBelow_iff (hbelow hc).1 (hbelow hc).2).mp hbc
      obtain ⟨-, hdb⟩ := (h.mem_treeBelow_iff (hbelow hd).1 (hbelow hd).2).mp hbd
      exact hne (h.eq_of_dominees (h.mem_dominees.mp hc) (h.mem_dominees.mp hd) hb hcb hdb)

theorem idxOf_lt_size (h : DominatorTree g post) (hg : g.WellFormed) (hu : g.Reachable u) :
    post.idxOf u < g.blocks.size := by
  have hlen := h.postorder.length_le hg
  have hle := h.postorder.idxOf_le hu
  have hpos := h.postorder.length_pos
  omega

theorem mem_dominatorTree (h : DominatorTree g post) (hg : g.WellFormed) :
    b ∈ g.dominatorTree ↔ g.Reachable b := by
  have hentry := Reachable.entry g
  rw [dominatorTree, h.mem_treeBelow_iff hentry (h.idxOf_lt_size hg hentry)]
  exact ⟨And.left, fun hb => ⟨hb, Dominates.entry g b⟩⟩

end DominatorTree

/-! ### Graphs with the same dominator tree -/

/-- The same shape with the same dominator tree written into it. -/
structure SameTree (g g' : Graph) : Prop extends SameShape g g' where
  order_eq : g'.order = g.order
  idom_eq : ∀ b, g'.idom b = g.idom b
  dominees_eq : ∀ b, g'.dominees b = g.dominees b

namespace SameTree

variable {g g' g'' : Graph}

theorem refl (g : Graph) : SameTree g g :=
  ⟨SameShape.refl g, rfl, fun _ => rfl, fun _ => rfl⟩

theorem trans (h : SameTree g g') (h' : SameTree g' g'') : SameTree g g'' where
  toSameShape := h.toSameShape.trans h'.toSameShape
  order_eq := h'.order_eq.trans h.order_eq
  idom_eq b := (h'.idom_eq b).trans (h.idom_eq b)
  dominees_eq b := (h'.dominees_eq b).trans (h.dominees_eq b)

theorem foldl {α : Type} {step : Graph → α → Graph} (hstep : ∀ g x, SameTree g (step g x))
    (xs : List α) (g : Graph) : SameTree g (xs.foldl step g) := by
  induction xs generalizing g with
  | nil => exact refl g
  | cons x xs ih => exact (hstep g x).trans (ih _)

/-- Frontiers and phis are no part of the shape or of the tree. -/
theorem modifyBlock (g : Graph) (b : BlockId) (fr : BasicBlock → List BlockId)
    (ph : BasicBlock → List Phi) :
    SameTree g (g.modifyBlock b fun x => { x with frontier := fr x, phis := ph x }) where
  toSameShape := by apply SameShape.modifyBlock <;> intro x <;> rfl
  order_eq := rfl
  idom_eq := proj_modifyBlock _ g b _ (by intro; rfl)
  dominees_eq := proj_modifyBlock _ g b _ (by intro; rfl)

theorem isReachable_eq (h : SameTree g g') (b : BlockId) : g'.isReachable b = g.isReachable b := by
  rw [isReachable, isReachable, h.entry_eq, h.idom_eq]

theorem dominatorTree {post : List BlockId} (h : SameTree g g') (ht : DominatorTree g post) :
    DominatorTree g' post where
  postorder := ht.postorder.congr h.toSameShape
  order_eq := by rw [h.order_eq, ht.order_eq]
  idom_entry := by rw [h.idom_eq, h.entry_eq, ht.idom_entry]
  idom_unreachable hb := by rw [h.idom_eq, ht.idom_unreachable (by rwa [← h.reachable_iff])]
  exists_idom hb hne := by
    simp only [h.idom_eq]
    exact ht.exists_idom (h.reachable_iff.mp hb) (h.entry_eq ▸ hne)
  dominates hd := h.dominates_iff.mpr (ht.dominates (h.idom_eq _ ▸ hd))
  ne hd := ht.ne (h.idom_eq _ ▸ hd)
  nearest hd hx hne :=
    h.dominates_iff.mpr (ht.nearest (h.idom_eq _ ▸ hd) (h.dominates_iff.mp hx) hne)
  idxOf_lt hd := ht.idxOf_lt (h.idom_eq _ ▸ hd)
  dominees_eq d := by
    rw [h.dominees_eq, ht.dominees_eq]
    simp only [h.idom_eq]

end SameTree

/-! ### Writing frontiers into the graph -/

def frontier (g : Graph) (b : BlockId) : List BlockId := (g.block b).frontier

/-- The graph without frontiers. -/
def clearFrontiers (g : Graph) : Graph :=
  { g with blocks := g.blocks.map fun b => { b with frontier := [] } }

theorem block_clearFrontiers (g : Graph) (b : BlockId) :
    g.clearFrontiers.block b = { g.block b with frontier := [] } := by
  rw [block_eq, block_eq, clearFrontiers, Array.getElem?_map]
  cases g.blocks[b]? <;> rfl

theorem sameTree_clearFrontiers (g : Graph) : SameTree g g.clearFrontiers := by
  refine ⟨⟨by simp [clearFrontiers], rfl, rfl, rfl, ?_, ?_, ?_, ?_⟩, rfl, ?_, ?_⟩ <;> intro b
  · rw [block_clearFrontiers]
  · rw [nodes, block_clearFrontiers, nodes]
  · rw [succs, block_clearFrontiers, succs]
  · rw [preds, block_clearFrontiers, preds]
  · rw [idom, block_clearFrontiers, idom]
  · rw [dominees, block_clearFrontiers, dominees]

theorem computeFrontiers_eq (g : Graph) :
    g.computeFrontiers = g.dominatorTree.foldl (fun h u =>
      h.modifyBlock u fun b => { b with frontier := g.frontierOf g.blocks.size u })
      g.clearFrontiers := rfl

theorem sameTree_computeFrontiers (g : Graph) : SameTree g g.computeFrontiers := by
  rw [computeFrontiers_eq]
  exact (sameTree_clearFrontiers g).trans
    (SameTree.foldl (fun h u => SameTree.modifyBlock h u _ BasicBlock.phis) _ _)

theorem phis_computeFrontiers (g : Graph) (b : BlockId) : g.computeFrontiers.phis b = g.phis b := by
  have hfold : ∀ (us : List BlockId) (fr : BlockId → List BlockId) (h : Graph),
      (us.foldl (fun h u => h.modifyBlock u fun b => { b with frontier := fr u }) h).phis b =
        h.phis b := by
    intro us fr
    induction us with
    | nil => intro h; rfl
    | cons u us ih =>
      intro h
      rw [List.foldl_cons, ih]
      exact proj_modifyBlock BasicBlock.phis h u _ (by intro; rfl) b
  rw [computeFrontiers_eq, hfold, phis, block_clearFrontiers, phis]

theorem frontier_foldl_modifyBlock {fr : BlockId → List BlockId} {b : BlockId} (us : List BlockId)
    (h : Graph) (hb : b < h.blocks.size) :
    (us.foldl (fun h u => h.modifyBlock u fun x => { x with frontier := fr u }) h).frontier b =
      if b ∈ us then fr b else h.frontier b := by
  induction us generalizing h with
  | nil => simp
  | cons u us ih =>
    rw [List.foldl_cons, ih _ (by simpa using hb), frontier, block_modifyBlock]
    by_cases hu : u = b
    · subst hu
      simp [hb]
    · simp [hu, Ne.symm hu, frontier]

theorem frontier_clearFrontiers (g : Graph) (b : BlockId) : g.clearFrontiers.frontier b = [] := by
  simp [frontier, block_clearFrontiers]

theorem frontier_computeFrontiers (g : Graph) {b : BlockId} (hb : b < g.blocks.size) :
    g.computeFrontiers.frontier b =
      if b ∈ g.dominatorTree then g.frontierOf g.blocks.size b else [] := by
  have hlt : b < g.clearFrontiers.blocks.size := by
    rwa [(sameTree_clearFrontiers g).size_eq]
  rw [computeFrontiers_eq, frontier_foldl_modifyBlock _ _ hlt, frontier_clearFrontiers]

theorem frontier_of_size_le {g : Graph} {b : BlockId} (h : g.blocks.size ≤ b) :
    g.frontier b = [] := by
  simp [frontier, block_of_size_le h, absent]

theorem pairwise_frontier_computeFrontiers (g : Graph) (b : BlockId) :
    (g.computeFrontiers.frontier b).Pairwise (· < ·) := by
  by_cases hb : b < g.blocks.size
  · rw [frontier_computeFrontiers g hb]
    split_ifs
    · exact pairwise_frontierOf g _ b
    · exact List.Pairwise.nil
  · rw [frontier_of_size_le ((sameTree_computeFrontiers g).size_eq ▸ not_lt.mp hb)]
    exact List.Pairwise.nil

theorem mem_frontier_computeFrontiers {g : Graph} {post : List BlockId} (h : DominatorTree g post)
    (hg : g.WellFormed) {u s : BlockId} (hu : g.Reachable u) :
    s ∈ g.computeFrontiers.frontier u ↔ g.InFrontier u s := by
  rw [frontier_computeFrontiers g (hu.lt_size hg), if_pos ((h.mem_dominatorTree hg).mpr hu)]
  exact h.mem_frontierOf_iff hu (h.idxOf_lt_size hg hu)

theorem frontier_computeFrontiers_of_unreachable {g : Graph} {post : List BlockId}
    (h : DominatorTree g post) (hg : g.WellFormed) {u : BlockId} (hu : ¬ g.Reachable u) :
    g.computeFrontiers.frontier u = [] := by
  by_cases hb : u < g.blocks.size
  · rw [frontier_computeFrontiers g hb, if_neg (mt (h.mem_dominatorTree hg).mp hu)]
  · exact frontier_of_size_le ((sameTree_computeFrontiers g).size_eq ▸ not_lt.mp hb)

/-! ### Computed and actual frontiers -/

/-- The computed frontiers are those of dominance. They list, in increasing order and each once, the
blocks that a reachable block does not strictly dominate although it dominates a reachable block
before them; that of an unreachable block is empty. -/
theorem computeFrontiers_exact {g : Graph} (hg : g.Assembled) (u : BlockId) :
    (g.computeDominance.computeFrontiers.frontier u).Pairwise (· < ·) ∧
    (g.Reachable u → ∀ s, s ∈ g.computeDominance.computeFrontiers.frontier u ↔
      ∃ p ∈ g.preds s, g.Reachable p ∧ g.Dominates u p ∧ ¬ (g.Dominates u s ∧ u ≠ s)) ∧
    (¬ g.Reachable u → g.computeDominance.computeFrontiers.frontier u = []) := by
  have hshape := sameShape_computeDominance g
  have htree := dominatorTree_computeDominance hg.wellFormed
  have hwell := hshape.wellFormed hg.wellFormed
  refine ⟨pairwise_frontier_computeFrontiers _ u, fun hu s => ?_, fun hu => ?_⟩
  · rw [mem_frontier_computeFrontiers htree hwell (hshape.reachable_iff.mpr hu),
      hshape.inFrontier_iff]
    simp only [InFrontier, Edge, ← hg.wellFormed.mem_preds]
    exact exists_congr fun p => by tauto
  · exact frontier_computeFrontiers_of_unreachable htree hwell (mt hshape.reachable_iff.mp hu)

/-- A loop whose body divides and joins again before it goes back; block 6 comes after it, and
block 7 cannot be reached. -/
def dividedLoop : Graph :=
  let g := ((Graph.ofName "divided").newBlock .loop).2
  let g := (((g.newBlock .plain).2.newBlock .branch).2.newBlock .branch).2
  let g := (((g.newBlock .join).2.newBlock .afterLoop).2.newBlock .plain).2
  let g := (((g.connect (some 0) 1).connect (some 1) 2).connect (some 1) 6).connect (some 2) 3
  let g := ((g.connect (some 2) 4).connect (some 3) 5).connect (some 4) 5
  (g.connect (some 5) 1).connect (some 7) 6

theorem assembled_dividedLoop : dividedLoop.Assembled := by
  apply_rules [Assembled.ofName, Assembled.connect, Assembled.newBlock] <;> decide

theorem computeFrontiers_dividedLoop : dividedLoop.Assembled ∧ dividedLoop.Reachable 5 ∧
    ¬ dividedLoop.Reachable 7 ∧ dividedLoop.computeDominance.computeFrontiers.frontier 5 = [1] ∧
    (∃ p ∈ dividedLoop.preds 1, dividedLoop.Reachable p ∧ dividedLoop.Dominates 5 p ∧
      ¬ (dividedLoop.Dominates 5 1 ∧ 5 ≠ 1)) ∧
    dividedLoop.computeDominance.computeFrontiers.frontier 7 = [] := by
  have htree := dominatorTree_computeDominance assembled_dividedLoop.wellFormed
  have hshape := sameShape_computeDominance dividedLoop
  have hreach : ∀ b, dividedLoop.computeDominance.isReachable b = true ↔
      dividedLoop.Reachable b := fun b => htree.isReachable_iff.trans hshape.reachable_iff
  have h5 : dividedLoop.Reachable 5 := (hreach 5).mp (by decide +kernel)
  have h7 : ¬ dividedLoop.Reachable 7 := mt (hreach 7).mpr (by decide +kernel)
  have hfrontier : dividedLoop.computeDominance.computeFrontiers.frontier 5 = [1] := by
    decide +kernel
  obtain ⟨-, hexact, -⟩ := computeFrontiers_exact assembled_dividedLoop 5
  refine ⟨assembled_dividedLoop, h5, h7, hfrontier, (hexact h5 1).mp (by simp [hfrontier]), ?_⟩
  exact (computeFrontiers_exact assembled_dividedLoop 7).2.2 h7

end FlowCheck.Graph
