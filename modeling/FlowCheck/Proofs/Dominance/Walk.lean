import FlowCheck.Proofs.Dominance.Frontier

/-!
# Walks over the dominator tree

Frontiers and renaming both recurse over the dominees of a block, without a bound on the depth: that
the recursion ends is a fact about the tree. A derivation of `Walks` is such a recursion that has
come to an end, with the blocks in the order in which they are entered. From the entry there is one,
and it enters the reachable blocks, each once and after its immediate dominator.
-/
namespace FlowCheck.Graph

open Dominance

/-- The recursion over dominees, called for some blocks one after the other, and the blocks that it
enters. -/
inductive Walks (g : Graph) : List BlockId → List BlockId → Prop
  | done : Walks g [] []
  | call {b : BlockId} {bs below beside : List BlockId} (down : Walks g (g.dominees b) below)
      (next : Walks g bs beside) : Walks g (b :: bs) (b :: (below ++ beside))

namespace Walks

variable {g : Graph} {bs visited visited' : List BlockId} {c d : BlockId}

/-- Only one walk can be made from some blocks. -/
theorem eq (h : Walks g bs visited) (h' : Walks g bs visited') : visited = visited' := by
  induction h generalizing visited' with
  | done =>
    cases h'
    rfl
  | call _ _ ihdown ihnext =>
    cases h' with
    | call down next => rw [ihdown down, ihnext next]

theorem subset (h : Walks g bs visited) : bs ⊆ visited := by
  induction h with
  | done => exact List.Subset.refl _
  | @call b bs below beside _ _ _ ih =>
    exact List.cons_subset_cons b (List.Subset.trans ih (List.subset_append_right below beside))

/-- What is below a block is entered after it. -/
theorem sublist (h : Walks g bs visited) (hd : d ∈ visited) (hc : c ∈ g.dominees d) :
    [d, c].Sublist visited := by
  induction h with
  | done => cases hd
  | @call b bs below beside down _ ihdown ihnext =>
    rcases List.mem_cons.mp hd with rfl | hd
    · have hmem : c ∈ below ++ beside := List.mem_append_left beside (down.subset hc)
      exact (List.singleton_sublist.mpr hmem).cons_cons d
    · apply List.Sublist.cons
      rcases List.mem_append.mp hd with hd | hd
      · exact (ihdown hd).trans (List.sublist_append_left below beside)
      · exact (ihnext hd).trans (List.sublist_append_right below beside)

end Walks

namespace DominatorTree

variable {g : Graph} {post : List BlockId} {u b : BlockId}

theorem walks_treeBelow (h : DominatorTree g post) (fuel : ℕ) (bs : List BlockId)
    (hbs : ∀ b ∈ bs, g.Reachable b ∧ post.idxOf b < fuel) :
    Walks g bs (bs.flatMap (g.treeBelow fuel)) := by
  induction fuel generalizing bs with
  | zero =>
    cases bs with
    | nil => exact .done
    | cons b bs => exact absurd (hbs b List.mem_cons_self).2 (Nat.not_lt_zero _)
  | succ fuel ih =>
    induction bs with
    | nil => exact .done
    | cons b bs ihbs =>
      obtain ⟨-, hfuel⟩ := hbs b List.mem_cons_self
      rw [List.flatMap_cons, treeBelow, List.cons_append]
      exact .call (ih _ fun c hc => h.fueled_of_mem_dominees hfuel hc)
        (ihbs fun c hc => hbs c (List.mem_cons_of_mem b hc))

theorem walks_dominatorTree (h : DominatorTree g post) (hg : g.WellFormed) :
    Walks g [g.entry] g.dominatorTree := by
  have hentry := Reachable.entry g
  have hwalk := h.walks_treeBelow g.blocks.size [g.entry] fun b hb => by
    rw [List.mem_singleton.mp hb]
    exact ⟨hentry, h.idxOf_lt_size hg hentry⟩
  rwa [List.flatMap_singleton] at hwalk

theorem nodup_dominatorTree (h : DominatorTree g post) (hg : g.WellFormed) :
    g.dominatorTree.Nodup :=
  h.nodup_treeBelow (Reachable.entry g) (h.idxOf_lt_size hg (Reachable.entry g))

end DominatorTree

/-- `g'` is the graph `g` with a dominator tree that covers what can be reached in `g`: the blocks
are listed in `order`, and the recursion over the tree enters them as in `walk`. -/
structure Covered (g g' : Graph) (order walk : List BlockId) : Prop where
  order_eq : g'.order = some order
  head_order : order.head? = some g.entry
  nodup_order : order.Nodup
  mem_order : ∀ b, b ∈ order ↔ g.Reachable b
  dominees_sublist : ∀ d, (g'.dominees d).Sublist order
  mem_dominees : ∀ b d, b ∈ g'.dominees d ↔ g'.idom b = some d
  walks : g'.Walks [g.entry] walk
  nodup_walk : walk.Nodup
  mem_walk : ∀ b, b ∈ walk ↔ g.Reachable b
  idom_before : ∀ b d, g'.idom b = some d → [d, b].Sublist walk

theorem covered_computeDominance {g : Graph} (hg : g.WellFormed) :
    Covered g g.computeDominance (postorder g).reverse g.computeDominance.dominatorTree := by
  have hshape := sameShape_computeDominance g
  have hwell := hshape.wellFormed hg
  have htree := dominatorTree_computeDominance hg
  have hwalks := htree.walks_dominatorTree hwell
  have hwalk (b : BlockId) : b ∈ g.computeDominance.dominatorTree ↔ g.Reachable b := by
    rw [htree.mem_dominatorTree hwell, hshape.reachable_iff]
  obtain ⟨new, hnew⟩ := (postorder_spec hg).last
  exact {
    order_eq := rfl
    head_order := by simp [hnew]
    nodup_order := List.nodup_reverse.mpr (postorder_spec hg).nodup
    mem_order := fun b => by rw [List.mem_reverse, (postorder_spec hg).mem_iff]
    dominees_sublist := fun d => by
      rw [htree.dominees_eq]
      exact List.filter_sublist.trans (List.tail_sublist _)
    mem_dominees := fun b d => htree.mem_dominees
    walks := by rwa [hshape.entry_eq] at hwalks
    nodup_walk := htree.nodup_dominatorTree hwell
    mem_walk := hwalk
    idom_before := fun b d hd => hwalks.sublist
      ((hwalk d).mpr (hshape.reachable_iff.mp ((htree.dominates hd).reachable
        (htree.reachable_of_idom hd)))) (htree.mem_dominees.mpr hd) }

/-! ### Frontiers put together on the way -/

/-- The frontier of a block when those of its dominees are known. -/
def gathered (g : Graph) (u : BlockId) : List BlockId :=
  let beyond := (g.succs u ++ (g.dominees u).flatMap g.frontier).filter fun s => g.idom s ≠ some u
  beyond.foldl (fun found s => insertSorted s found) (g.frontier u)

/-- The graph with the frontier of a block replaced. -/
def withFrontier (g : Graph) (u : BlockId) (frontier : List BlockId) : Graph :=
  g.modifyBlock u fun b => { b with frontier := frontier }

/-- The recursion of the frontiers, called for some blocks one after the other: a block gets its
frontier when those below it have theirs. -/
inductive Gathers : List BlockId → Graph → List BlockId → Graph → Prop
  | done {g : Graph} : Gathers [] g [] g
  | call {u : BlockId} {us below beside : List BlockId} {g g₁ g₂ : Graph}
      (down : Gathers (g.dominees u) g below g₁)
      (next : Gathers us (g₁.withFrontier u (g₁.gathered u)) beside g₂) :
      Gathers (u :: us) g (u :: (below ++ beside)) g₂

theorem sameTree_withFrontier (g : Graph) (u : BlockId) (frontier : List BlockId) :
    SameTree g (g.withFrontier u frontier) :=
  SameTree.modifyBlock g u (fun _ => frontier) BasicBlock.phis

/-- Frontiers of different blocks can be replaced in any order. -/
theorem withFrontier_comm (g : Graph) {u v : BlockId} (hne : u ≠ v) (k l : List BlockId) :
    (g.withFrontier u k).withFrontier v l = (g.withFrontier v l).withFrontier u k := by
  simp only [withFrontier, modifyBlock]
  congr 1
  apply Array.ext
  · simp
  · intro i hi _
    simp only [Array.getElem_modify]
    by_cases hu : u = i
    · subst hu
      simp [hne.symm]
    · simp [hu]

/-- The graph with the frontiers of some blocks replaced. -/
def withFrontiers (fr : BlockId → List BlockId) (us : List BlockId) (g : Graph) : Graph :=
  us.foldl (fun g u => g.withFrontier u (fr u)) g

section Gathering

variable {g h : Graph} {post : List BlockId} {fr : BlockId → List BlockId} {us vs : List BlockId}
  {u : BlockId}

theorem withFrontiers_append (fr : BlockId → List BlockId) (us vs : List BlockId) (g : Graph) :
    withFrontiers fr (us ++ vs) g = withFrontiers fr vs (withFrontiers fr us g) :=
  List.foldl_append

theorem sameTree_withFrontiers (fr : BlockId → List BlockId) (us : List BlockId) (g : Graph) :
    SameTree g (withFrontiers fr us g) :=
  SameTree.foldl (fun g u => sameTree_withFrontier g u (fr u)) us g

theorem withFrontiers_perm (hp : us.Perm vs) (g : Graph) :
    withFrontiers fr us g = withFrontiers fr vs g := by
  refine hp.foldl_eq' (fun u _ v _ g => ?_) g
  by_cases huv : u = v
  · rw [huv]
  · exact withFrontier_comm g huv (fr u) (fr v)

/-- A block comes before those below it, but its frontier may as well be replaced after theirs. -/
theorem withFrontiers_cons (u : BlockId) (us : List BlockId) (g : Graph) :
    withFrontiers fr (u :: us) g = (withFrontiers fr us g).withFrontier u (fr u) := by
  rw [withFrontiers_perm (List.perm_append_singleton u us).symm, withFrontiers_append]
  rfl

theorem frontier_withFrontiers (hu : u < g.blocks.size) :
    (withFrontiers fr us g).frontier u = if u ∈ us then fr u else g.frontier u :=
  frontier_foldl_modifyBlock us g hu

theorem frontier_withFrontiers_of_notMem (hu : u ∉ us) :
    (withFrontiers fr us g).frontier u = g.frontier u := by
  by_cases hlt : u < g.blocks.size
  · rw [frontier_withFrontiers hlt, if_neg hu]
  · have hle : g.blocks.size ≤ u := not_lt.mp hlt
    rw [frontier_of_size_le ((sameTree_withFrontiers fr us g).size_eq ▸ hle),
      frontier_of_size_le hle]

/-- More fuel than a block needs does not change its frontier. -/
theorem DominatorTree.frontierOf_eq (h : DominatorTree g post) {n m : ℕ} (hu : g.Reachable u)
    (hn : post.idxOf u < n) (hm : post.idxOf u < m) : g.frontierOf n u = g.frontierOf m u := by
  induction n generalizing u m with
  | zero => omega
  | succ n ih =>
    obtain ⟨m, rfl⟩ := Nat.exists_eq_succ_of_ne_zero (Nat.ne_of_gt (Nat.zero_lt_of_lt hm))
    have hbelow : (g.dominees u).flatMap (g.frontierOf n) =
        (g.dominees u).flatMap (g.frontierOf m) := by
      refine List.flatMap_congr fun c hc => ?_
      obtain ⟨hc', hcn⟩ := h.fueled_of_mem_dominees hn hc
      exact ih hc' hcn (h.fueled_of_mem_dominees hm hc).2
    simp only [frontierOf]
    rw [← dominees, hbelow]

/-- What a block gathers once its dominees have their frontiers is its frontier. -/
theorem gathered_eq {N : ℕ} (ht : DominatorTree g post) (hs : SameTree g h)
    (hN : post.idxOf u < N) (hempty : h.frontier u = [])
    (hbelow : ∀ c ∈ g.dominees u, h.frontier c = g.frontierOf N c) :
    h.gathered u = g.frontierOf N u := by
  obtain ⟨n, rfl⟩ := Nat.exists_eq_succ_of_ne_zero (Nat.ne_of_gt (Nat.zero_lt_of_lt hN))
  have hflat : (g.dominees u).flatMap h.frontier = (g.dominees u).flatMap (g.frontierOf n) := by
    refine List.flatMap_congr fun c hc => ?_
    obtain ⟨hc', hcn⟩ := ht.fueled_of_mem_dominees hN hc
    rw [hbelow c hc, ht.frontierOf_eq hc' (by omega) hcn]
  simp only [gathered, frontierOf, hs.succs_eq, hs.dominees_eq, hs.idom_eq, hempty, hflat]
  rfl

/-- The recursion of the frontiers from some blocks on, none of which has anything below it in
common with another one. -/
theorem DominatorTree.gathers (ht : DominatorTree g post) {N : ℕ} (hN : g.blocks.size ≤ N)
    (hg : g.WellFormed) (fuel : ℕ) (us : List BlockId) (h : Graph)
    (hus : ∀ u ∈ us, g.Reachable u ∧ post.idxOf u < fuel)
    (hn : (us.flatMap (g.treeBelow fuel)).Nodup) (hs : SameTree g h)
    (hempty : ∀ b ∈ us.flatMap (g.treeBelow fuel), h.frontier b = []) :
    Gathers us h (us.flatMap (g.treeBelow fuel))
      (withFrontiers (g.frontierOf N) (us.flatMap (g.treeBelow fuel)) h) := by
  induction fuel generalizing us h with
  | zero =>
    cases us with
    | nil => exact .done
    | cons u us => exact absurd (hus u List.mem_cons_self).2 (Nat.not_lt_zero _)
  | succ fuel ih =>
    induction us generalizing h with
    | nil => exact .done
    | cons u us ihus =>
      obtain ⟨hu, hfuel⟩ := hus u List.mem_cons_self
      have hrest : ∀ v ∈ us, g.Reachable v ∧ post.idxOf v < fuel + 1 :=
        fun v hv => hus v (List.mem_cons_of_mem u hv)
      have hdominees : ∀ c ∈ g.dominees u, g.Reachable c ∧ post.idxOf c < fuel :=
        fun c hc => ht.fueled_of_mem_dominees hfuel hc
      have hsubset := (ht.walks_treeBelow fuel (g.dominees u) hdominees).subset
      have hdown := ih (g.dominees u) h hdominees
      have hnext := ihus (h := withFrontiers (g.frontierOf N)
        (u :: (g.dominees u).flatMap (g.treeBelow fuel)) h) hrest
      rw [List.flatMap_cons, treeBelow, ← dominees, List.cons_append] at hn hempty ⊢
      generalize (g.dominees u).flatMap (g.treeBelow fuel) = below at *
      generalize us.flatMap (g.treeBelow (fuel + 1)) = beside at *
      obtain ⟨hu', hn⟩ := List.nodup_cons.mp hn
      obtain ⟨hnbelow, hnbeside, hdisjoint⟩ := List.nodup_append.mp hn
      have hnot : u ∉ below := fun hm => hu' (List.mem_append_left beside hm)
      have hbelow : ∀ b ∈ below, h.frontier b = [] :=
        fun b hb => hempty b (List.mem_cons_of_mem u (List.mem_append_left beside hb))
      have hbeside : ∀ b ∈ beside,
          (withFrontiers (g.frontierOf N) (u :: below) h).frontier b = [] := by
        intro b hb
        rw [frontier_withFrontiers_of_notMem,
          hempty b (List.mem_cons_of_mem u (List.mem_append_right below hb))]
        rintro (_ | ⟨_, hm⟩)
        · exact hu' (List.mem_append_right below hb)
        · exact hdisjoint b hm b hb rfl
      have hgathered : (withFrontiers (g.frontierOf N) below h).gathered u = g.frontierOf N u := by
        refine gathered_eq ht (hs.trans (sameTree_withFrontiers _ _ h))
          ((ht.idxOf_lt_size hg hu).trans_le hN) ?_ fun c hc => ?_
        · rw [frontier_withFrontiers_of_notMem hnot, hempty u List.mem_cons_self]
        · have hlt : c < h.blocks.size := hs.size_eq ▸ (hdominees c hc).1.lt_size hg
          rw [frontier_withFrontiers hlt, if_pos (hsubset hc)]
      have hdown := hdown hnbelow hs hbelow
      have hnext := hnext hnbeside (hs.trans (sameTree_withFrontiers _ _ h)) hbeside
      rw [withFrontiers_cons] at hnext
      rw [← List.cons_append, withFrontiers_append, withFrontiers_cons]
      exact .call (hs.dominees_eq u ▸ hdown) (hgathered ▸ hnext)

theorem gathers_computeFrontiers (ht : DominatorTree g post) (hg : g.WellFormed) :
    Gathers [g.entry] g.clearFrontiers g.dominatorTree g.computeFrontiers := by
  have hentry := Reachable.entry g
  have hfuel := ht.idxOf_lt_size hg hentry
  have hgathers := ht.gathers le_rfl hg g.blocks.size [g.entry] g.clearFrontiers (by simp [*])
    (by rw [List.flatMap_singleton]; exact ht.nodup_dominatorTree hg) (sameTree_clearFrontiers g)
    fun b _ => frontier_clearFrontiers g b
  rwa [List.flatMap_singleton] at hgathers

end Gathering

end FlowCheck.Graph
