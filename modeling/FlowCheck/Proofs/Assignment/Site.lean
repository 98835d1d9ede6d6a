import FlowCheck.Proofs.Assignment.Phi

/-!
# Where versions are made

Every phi and every assignment makes one version of its variable. These sites follow one another
along a path, and from the entry down the dominator tree. Where phis stand on frontiers the tree
loses nothing: along every path to a block, the last site of a variable is the one that the tree
gives.
-/
namespace FlowCheck

/-- A phi, or the assignment at an index of a node of a block. -/
inductive Place where
  | phi (r : PhiRef)
  | node (block : BlockId) (node index : ℕ)
  deriving DecidableEq

/-- Something that makes versions of a variable. -/
structure Site where
  var : Var
  place : Place
  deriving DecidableEq

/-- A read at an index of a node of a block. -/
structure Read where
  block : BlockId
  node : ℕ
  index : ℕ
  use : Use
  deriving DecidableEq

namespace Place

def block : Place → BlockId
  | phi r => r.block
  | node b _ _ => b

def phi? : Place → Option PhiRef
  | phi r => some r
  | node .. => none

end Place

/-- The phi that makes the versions, if one does. -/
def Site.phi? (x : Site) : Option PhiRef := x.place.phi?

namespace Graph

open Dominance

/-- A graph ready for the check of assignments: dominance is known, phis are placed, and no edge
enters the entry. -/
structure Prepared (g : Graph) (facts : Facts) (post : List BlockId) : Prop where
  wellFormed : g.WellFormed
  tree : DominatorTree g post
  placed : PhisPlaced g facts
  preds_entry : g.preds g.entry = []

/-! ### Sites in order -/

/-- The phis of a block, in order. -/
def phiSites (g : Graph) (b : BlockId) : List Site :=
  (g.phis b).zipIdx.map fun (p, i) => ⟨p.var, .phi ⟨b, i⟩⟩

/-- The assignments of a node, given with its place in its block. -/
def assignments (facts : Facts) (b : BlockId) (n : Node × ℕ) : List Site :=
  (facts.defs n.1).zipIdx.map fun (v, j) => ⟨v, .node b n.2 j⟩

/-- What is made in a block before node `k`. -/
def sitesBefore (g : Graph) (facts : Facts) (b : BlockId) (k : ℕ) : List Site :=
  g.phiSites b ++ ((g.nodes b).zipIdx.take k).flatMap (assignments facts b)

def sitesIn (g : Graph) (facts : Facts) (b : BlockId) : List Site :=
  g.phiSites b ++ (g.nodes b).zipIdx.flatMap (assignments facts b)

/-- What is in effect where a block begins: what its strict dominators make. -/
def scope (g : Graph) (facts : Facts) (b : BlockId) : List Site :=
  (g.dominators g.blocks.size (g.idom b)).reverse.flatMap (g.sitesIn facts)

/-- The last site of a variable. -/
def lastOf (v : Var) (sites : List Site) : Option Site := (sites.filter fun x => x.var = v).getLast?

/-- What a variable stands for after the phis of a block. -/
def atStart (g : Graph) (facts : Facts) (v : Var) (b : BlockId) : Option Site :=
  lastOf v (g.scope facts b ++ g.phiSites b)

/-- What a variable stands for at the end of a block. -/
def atEnd (g : Graph) (facts : Facts) (v : Var) (b : BlockId) : Option Site :=
  lastOf v (g.scope facts b ++ g.sitesIn facts b)

/-- The reads of a node, given with its place in its block. -/
def readsOf (facts : Facts) (b : BlockId) (n : Node × ℕ) : List Read :=
  (facts.uses n.1).zipIdx.map fun (u, j) => ⟨b, n.2, j, u⟩

def readsIn (g : Graph) (facts : Facts) (b : BlockId) : List Read :=
  (g.nodes b).zipIdx.flatMap (readsOf facts b)

/-- The site that dominance gives for a read. -/
def resolve (g : Graph) (facts : Facts) (r : Read) : Option Site :=
  lastOf r.use.var (g.scope facts r.block ++ g.sitesBefore facts r.block r.node)

section

variable {g : Graph} {facts : Facts} {v : Var} {b d : BlockId} {x : Site} {l l' m : List Site}

theorem mem_phiSites : x ∈ g.phiSites b ↔ ∃ i p, (g.phis b)[i]? = some p ∧
    x = ⟨p.var, .phi ⟨b, i⟩⟩ := by
  simp only [phiSites, List.mem_map, Prod.exists, List.mem_zipIdx_iff_getElem?]
  constructor
  · rintro ⟨p, i, hp, rfl⟩
    exact ⟨i, p, hp, rfl⟩
  · rintro ⟨i, p, hp, rfl⟩
    exact ⟨p, i, hp, rfl⟩

theorem mem_assignments {n : Node × ℕ} : x ∈ assignments facts b n ↔ ∃ j,
    (facts.defs n.1)[j]? = some x.var ∧ x.place = .node b n.2 j := by
  simp only [assignments, List.mem_map, Prod.exists, List.mem_zipIdx_iff_getElem?]
  constructor
  · rintro ⟨v, j, hv, rfl⟩
    exact ⟨j, hv, rfl⟩
  · rintro ⟨j, hv, hplace⟩
    exact ⟨x.var, j, hv, by rw [← hplace]⟩

theorem mem_sitesIn : x ∈ g.sitesIn facts b ↔ x ∈ g.phiSites b ∨ ∃ k n j,
    (g.nodes b)[k]? = some n ∧ (facts.defs n)[j]? = some x.var ∧ x.place = .node b k j := by
  simp only [sitesIn, List.mem_append, List.mem_flatMap, Prod.exists, List.mem_zipIdx_iff_getElem?,
    mem_assignments]
  apply or_congr_right
  constructor
  · rintro ⟨n, k, hn, j, hj, hplace⟩
    exact ⟨k, n, j, hn, hj, hplace⟩
  · rintro ⟨k, n, j, hn, hj, hplace⟩
    exact ⟨n, k, hn, j, hj, hplace⟩

theorem block_of_mem_sitesIn (h : x ∈ g.sitesIn facts b) : x.place.block = b := by
  rcases mem_sitesIn.mp h with hphi | ⟨k, n, j, -, -, hplace⟩
  · obtain ⟨i, p, -, rfl⟩ := mem_phiSites.mp hphi
    rfl
  · rw [hplace]
    rfl

theorem mem_readsIn {r : Read} : r ∈ g.readsIn facts b ↔ r.block = b ∧
    ∃ n, (g.nodes b)[r.node]? = some n ∧ (facts.uses n)[r.index]? = some r.use := by
  simp only [readsIn, readsOf, List.mem_flatMap, List.mem_map, Prod.exists,
    List.mem_zipIdx_iff_getElem?]
  constructor
  · rintro ⟨n, k, hn, u, j, hj, rfl⟩
    exact ⟨rfl, n, hn, hj⟩
  · rintro ⟨rfl, n, hn, hj⟩
    exact ⟨n, r.node, hn, r.use, r.index, hj, rfl⟩

/-- A variable has a phi in a block exactly if it has a site among the phis. -/
theorem hasPhi_iff : g.HasPhi b v ↔ ∃ x ∈ g.phiSites b, x.var = v := by
  constructor
  · rintro ⟨p, hp, rfl⟩
    obtain ⟨i, hi⟩ := List.getElem?_of_mem hp
    exact ⟨_, mem_phiSites.mpr ⟨i, p, hi, rfl⟩, rfl⟩
  · rintro ⟨x, hx, rfl⟩
    obtain ⟨i, p, hp, rfl⟩ := mem_phiSites.mp hx
    exact ⟨p, List.mem_of_getElem? hp, rfl⟩

theorem defines_iff : g.Defines facts b v ↔
    ∃ x ∈ (g.nodes b).zipIdx.flatMap (assignments facts b), x.var = v := by
  simp only [List.mem_flatMap, Prod.exists, List.mem_zipIdx_iff_getElem?, mem_assignments]
  constructor
  · rintro ⟨n, hn, hv⟩
    obtain ⟨k, hk⟩ := List.getElem?_of_mem hn
    obtain ⟨j, hj⟩ := List.getElem?_of_mem hv
    exact ⟨⟨v, .node b k j⟩, ⟨n, k, hk, j, hj, rfl⟩, rfl⟩
  · rintro ⟨x, ⟨n, k, hk, j, hj, -⟩, rfl⟩
    exact ⟨n, List.mem_of_getElem? hk, List.mem_of_getElem? hj⟩

theorem sitesBefore_subset (g : Graph) (facts : Facts) (b : BlockId) (k : ℕ) :
    g.sitesBefore facts b k ⊆ g.sitesIn facts b := by
  intro x hx
  rcases List.mem_append.mp hx with hphi | hnode
  · exact List.mem_append_left _ hphi
  · obtain ⟨n, hn, hx⟩ := List.mem_flatMap.mp hnode
    exact List.mem_append_right _ (List.mem_flatMap.mpr ⟨n, List.mem_of_mem_take hn, hx⟩)

/-- A phi that makes a site is one of the graph, and one for the variable. -/
theorem exists_phi_of_mem_sitesIn {r : PhiRef} (h : x ∈ g.sitesIn facts b) (hr : x.phi? = some r) :
    ∃ p, g.phi? r = some p ∧ p.var = x.var := by
  rcases mem_sitesIn.mp h with hphi | ⟨k, n, j, -, -, hplace⟩
  · obtain ⟨i, p, hp, rfl⟩ := mem_phiSites.mp hphi
    obtain rfl := Option.some_inj.mp hr
    exact ⟨p, hp, rfl⟩
  · rw [Site.phi?, hplace] at hr
    cases hr

/-- What is listed with its place stays different if it tells the place. -/
theorem nodup_map_zipIdx {α β : Type} {f : α × ℕ → β} (h : ∀ x y, f x = f y → x.2 = y.2)
    (xs : List α) : (xs.zipIdx.map f).Nodup := by
  have hplaces : (xs.zipIdx.map Prod.snd).Nodup := by
    rw [List.zipIdx_map_snd]
    exact List.nodup_range'
  exact List.pairwise_map.mpr ((List.pairwise_map.mp hplaces).imp fun hne heq => hne (h _ _ heq))

/-- What is listed for each member stays different if it tells the place of the member. -/
theorem nodup_flatMap_zipIdx {α β : Type} {f : α × ℕ → List β} (hf : ∀ x, (f x).Nodup)
    (h : ∀ x y b, b ∈ f x → b ∈ f y → x.2 = y.2) (xs : List α) : (xs.zipIdx.flatMap f).Nodup := by
  have hplaces : (xs.zipIdx.map Prod.snd).Nodup := by
    rw [List.zipIdx_map_snd]
    exact List.nodup_range'
  apply List.nodup_flatMap.mpr
  constructor
  · exact fun x _ => hf x
  · apply (List.pairwise_map.mp hplaces).imp
    intro x y hne b hx hy
    exact hne (h x y b hx hy)

theorem nodup_sitesIn (g : Graph) (facts : Facts) (b : BlockId) : (g.sitesIn facts b).Nodup := by
  have hphis : (g.phiSites b).Nodup := nodup_map_zipIdx (by simp) _
  have hnodes : ((g.nodes b).zipIdx.flatMap (assignments facts b)).Nodup := by
    apply nodup_flatMap_zipIdx
    · exact fun n => nodup_map_zipIdx (by simp) _
    · intro n m x hn hm
      obtain ⟨j, -, hj⟩ := mem_assignments.mp hn
      obtain ⟨i, -, hi⟩ := mem_assignments.mp hm
      rw [hj] at hi
      injection hi
  apply hphis.append hnodes
  intro x hphi hnode
  obtain ⟨i, p, -, rfl⟩ := mem_phiSites.mp hphi
  obtain ⟨n, -, hn⟩ := List.mem_flatMap.mp hnode
  obtain ⟨j, -, hj⟩ := mem_assignments.mp hn
  cases hj

theorem nodup_readsIn (g : Graph) (facts : Facts) (b : BlockId) : (g.readsIn facts b).Nodup := by
  apply nodup_flatMap_zipIdx
  · exact fun n => nodup_map_zipIdx (by simp) _
  · intro n m r hn hm
    obtain ⟨u, -, rfl⟩ := List.mem_map.mp hn
    obtain ⟨u', -, h⟩ := List.mem_map.mp hm
    exact (congrArg Read.node h).symm

/-! ### The last site of a variable -/

theorem lastOf_append (v : Var) (l m : List Site) :
    lastOf v (l ++ m) = (lastOf v m).or (lastOf v l) := by
  rw [lastOf, List.filter_append, List.getLast?_append, lastOf, lastOf]

theorem lastOf_eq_none : lastOf v l = none ↔ ∀ x ∈ l, x.var ≠ v := by
  rw [lastOf, List.getLast?_eq_none_iff, List.filter_eq_nil_iff]
  simp

theorem mem_of_lastOf (h : lastOf v l = some x) : x ∈ l ∧ x.var = v := by
  simpa using List.mem_of_getLast? h

theorem exists_lastOf (h : ∃ x ∈ l, x.var = v) : ∃ x, lastOf v l = some x := by
  rw [← Option.ne_none_iff_exists', Ne, lastOf_eq_none]
  obtain ⟨x, hx, hv⟩ := h
  exact fun hnone => hnone x hx hv

theorem lastOf_append_of_none (h : ∀ x ∈ m, x.var ≠ v) : lastOf v (l ++ m) = lastOf v l := by
  rw [lastOf_append, lastOf_eq_none.mpr h, Option.none_or]

theorem lastOf_append_congr (h : lastOf v l = lastOf v l') (m : List Site) :
    lastOf v (l ++ m) = lastOf v (l' ++ m) := by
  rw [lastOf_append, lastOf_append, h]

/-- What comes last does not depend on what came before if some of it is for the variable. -/
theorem lastOf_append_of_mem (l : List Site) (h : ∃ x ∈ m, x.var = v) :
    lastOf v (l ++ m) = lastOf v m := by
  obtain ⟨x, hx⟩ := exists_lastOf h
  rw [lastOf_append, hx, Option.some_or]

theorem exists_phi_of_lastOf {r : PhiRef} (hl : l ⊆ g.sitesIn facts b)
    (h : (lastOf v (g.scope facts d ++ l)).map Site.phi? = some (some r)) :
    ∃ p, g.phi? r = some p ∧ p.var = v := by
  obtain ⟨x, hx, hr⟩ := Option.map_eq_some_iff.mp h
  obtain ⟨hmem, rfl⟩ := mem_of_lastOf hx
  rcases List.mem_append.mp hmem with hscope | hmem
  · obtain ⟨c, -, hc⟩ := List.mem_flatMap.mp hscope
    exact exists_phi_of_mem_sitesIn hc hr
  · exact exists_phi_of_mem_sitesIn (hl hmem) hr

theorem atStart_of_not_hasPhi (h : ¬ g.HasPhi b v) :
    g.atStart facts v b = lastOf v (g.scope facts b) :=
  lastOf_append_of_none fun x hx hv => h (hasPhi_iff.mpr ⟨x, hx, hv⟩)

theorem atEnd_of_not_defines (h : ¬ g.Defines facts b v) :
    g.atEnd facts v b = g.atStart facts v b := by
  rw [atEnd, sitesIn, ← List.append_assoc]
  exact lastOf_append_of_none fun x hx hv => h (defines_iff.mpr ⟨x, hx, hv⟩)

end

/-! ### Down the dominator tree -/

theorem dominators_none (g : Graph) (fuel : ℕ) : g.dominators fuel none = [] := by
  cases fuel <;> rfl

namespace DominatorTree

variable {g : Graph} {post : List BlockId} {b d : BlockId}

theorem dominators_succ (h : DominatorTree g post) {fuel : ℕ} (hb : g.Reachable b)
    (hfuel : post.length ≤ post.idxOf b + fuel) :
    g.dominators (fuel + 1) (some b) = g.dominators fuel (some b) := by
  induction fuel generalizing b with
  | zero =>
    have hle := h.postorder.idxOf_le hb
    have hpos := h.postorder.length_pos
    omega
  | succ fuel ih =>
    rw [dominators, dominators]
    cases hd : g.idom b with
    | none => rw [dominators_none, dominators_none]
    | some d =>
      have hlt := h.idxOf_lt hd
      rw [ih ((h.dominates hd).reachable hb) (by omega)]

theorem scope_entry (h : DominatorTree g post) (facts : Facts) : g.scope facts g.entry = [] := by
  rw [scope, h.idom_entry, dominators_none, List.reverse_nil, List.flatMap_nil]

theorem scope_eq (h : DominatorTree g post) (hg : g.WellFormed) (facts : Facts)
    (hd : g.idom b = some d) : g.scope facts b = g.scope facts d ++ g.sitesIn facts d := by
  have hb := h.reachable_of_idom hd
  have hsize := hg.size_pos
  obtain ⟨n, hn⟩ : ∃ n, g.blocks.size = n + 1 := ⟨g.blocks.size - 1, by omega⟩
  have hstable : g.dominators (n + 1) (g.idom d) = g.dominators n (g.idom d) := by
    cases hd' : g.idom d with
    | none => rw [dominators_none, dominators_none]
    | some e =>
      have hlt := h.idxOf_lt hd'
      have hlen := h.postorder.length_le hg
      have hdr := (h.dominates hd).reachable hb
      exact h.dominators_succ ((h.dominates hd').reachable hdr) (by omega)
  rw [scope, scope, hd, hn, hstable, dominators]
  simp

theorem lastOf_scope (h : DominatorTree g post) (hg : g.WellFormed) (facts : Facts) (v : Var)
    (hd : g.idom b = some d) : lastOf v (g.scope facts b) = g.atEnd facts v d := by
  rw [h.scope_eq hg facts hd, atEnd]

end DominatorTree

/-! ### Along paths -/

/-- What the blocks of a path make, in order. -/
def along (g : Graph) (facts : Facts) (l : List BlockId) : List Site := l.flatMap (g.sitesIn facts)

namespace Prepared

variable {g : Graph} {facts : Facts} {post : List BlockId} {v : Var} {b c d p : BlockId}
  {l : List BlockId}

theorem not_edge_entry (h : Prepared g facts post) : ¬ g.Edge b g.entry := by
  intro he
  have hm := (h.wellFormed.mem_preds b g.entry).mpr he
  rw [h.preds_entry] at hm
  cases hm

theorem not_hasPhi_entry (h : Prepared g facts post) : ¬ g.HasPhi g.entry v := by
  rintro ⟨p, hp, -⟩
  obtain ⟨q, -, he⟩ := h.placed.entered g.entry p hp
  exact h.not_edge_entry he

/-- Between the immediate dominator of a block without a phi and a predecessor of it, nothing
makes a version. -/
theorem atEnd_eq_of_between (h : Prepared g facts post) (hphi : ¬ g.HasPhi b v)
    (hp : g.Reachable p) (he : g.Edge p b) (hd : g.idom b = some d) (hdc : g.Dominates d c)
    (hcp : g.Dominates c p) : g.atEnd facts v c = g.atEnd facts v d := by
  have hc := hcp.reachable hp
  induction hn : post.length - post.idxOf c using Nat.strong_induction_on generalizing c with
  | _ n ih =>
    by_cases heq : d = c
    · rw [heq]
    rcases h.tree.dominates_cases hc hdc with heq' | ⟨e, hce, hde⟩
    · exact absurd heq' heq
    -- `c` lies strictly below `d`, so `b` is on its frontier
    have hfrontier : g.InFrontier c b := by
      refine ⟨p, hp, hcp, he, ?_⟩
      rintro ⟨hcb, hne⟩
      exact heq (hdc.antisymm (h.tree.nearest hd hcb hne) (hdc.reachable hc))
    have hdef : ¬ g.Defines facts c v := fun hdef =>
      hphi (h.placed.closed c b v hc (.inl hdef) hfrontier)
    have hcphi : ¬ g.HasPhi c v := fun hcphi =>
      hphi (h.placed.closed c b v hc (.inr hcphi) hfrontier)
    have hlt := h.tree.idxOf_lt hce
    have her := (h.tree.dominates hce).reachable hc
    have hle := h.tree.postorder.idxOf_le her
    have hpos := h.tree.postorder.length_pos
    rw [atEnd_of_not_defines hdef, atStart_of_not_hasPhi hcphi,
      h.tree.lastOf_scope h.wellFormed facts v hce]
    exact ih _ (by omega) hde ((h.tree.dominates hce).trans hcp) her rfl

/-- A block without a phi for a variable gets it as every predecessor leaves it. -/
theorem atStart_eq_atEnd (h : Prepared g facts post) (hphi : ¬ g.HasPhi b v)
    (hp : g.Reachable p) (he : g.Edge p b) : g.atStart facts v b = g.atEnd facts v p := by
  have hb := hp.step he
  have hne : b ≠ g.entry := by
    rintro rfl
    exact h.not_edge_entry he
  obtain ⟨d, hd⟩ := h.tree.exists_idom hb hne
  have hdp : g.Dominates d p := (h.tree.dominates hd).pred (h.tree.ne hd) he
  rw [atStart_of_not_hasPhi hphi, h.tree.lastOf_scope h.wellFormed facts v hd]
  exact (h.atEnd_eq_of_between hphi hp he hd hdp (Dominates.refl g p)).symm

/-- Along every path to a block and through its phis, the last site of a variable is the one that the
dominator tree gives. -/
theorem lastOf_along (h : Prepared g facts post) (hl : g.Path g.entry l b) :
    lastOf v (g.along facts l ++ g.phiSites b) = g.atStart facts v b := by
  induction hl with
  | here => rw [atStart, h.tree.scope_entry, along, List.flatMap_nil]
  | @step l p b prior he ih =>
    by_cases hphi : g.HasPhi b v
    · rw [atStart, lastOf_append_of_mem _ (hasPhi_iff.mp hphi),
        lastOf_append_of_mem _ (hasPhi_iff.mp hphi)]
    · rw [h.atStart_eq_atEnd hphi ⟨l, prior⟩ he, lastOf_append_of_none
        fun x hx hv => hphi (hasPhi_iff.mpr ⟨x, hx, hv⟩), along, List.flatMap_append,
        List.flatMap_singleton, atEnd, sitesIn, ← List.append_assoc, ← List.append_assoc]
      exact lastOf_append_congr ih _

theorem lastOf_along_before (h : Prepared g facts post) (hl : g.Path g.entry l b) (k : ℕ) :
    lastOf v (g.along facts l ++ g.sitesBefore facts b k) =
      lastOf v (g.scope facts b ++ g.sitesBefore facts b k) := by
  rw [sitesBefore, ← List.append_assoc, ← List.append_assoc]
  exact lastOf_append_congr (h.lastOf_along hl) _

theorem lastOf_along_end (h : Prepared g facts post) (hl : g.Path g.entry l b) :
    lastOf v (g.along facts (l ++ [b])) = g.atEnd facts v b := by
  rw [along, List.flatMap_append, List.flatMap_singleton, atEnd, sitesIn, ← List.append_assoc,
    ← List.append_assoc]
  exact lastOf_append_congr (h.lastOf_along hl) _

end Prepared

end Graph

end FlowCheck
