import FlowCheck.Proofs.Assignment.Resolution

/-!
# Marks on variables

A variable is marked as used exactly if some reachable node reads it. It loses the mark of a single
assignment with its second version; as a block on a cycle has a frontier, and hence a phi for what
it assigns, no path makes two assignments to a variable that keeps the mark.
-/
namespace FlowCheck

open FlowCheck.Graph Dominance

namespace Assignment

section Single

variable {g : Graph} {facts : Facts} {post : List BlockId} {v : Var} {b c d : BlockId}

theorem map_var_assignments (facts : Facts) (b : BlockId) (ns : List Node) :
    (ns.zipIdx.flatMap (assignments facts b)).map Site.var = ns.flatMap facts.defs := by
  have hnode : ∀ n : Node × ℕ, (assignments facts b n).map Site.var = facts.defs n.1 := by
    intro n
    rw [assignments, List.map_map]
    exact List.zipIdx_map_fst 0 (facts.defs n.1)
  calc (ns.zipIdx.flatMap (assignments facts b)).map Site.var
      = ns.zipIdx.flatMap fun n => facts.defs n.1 := by simp only [List.map_flatMap, hnode]
    _ = (ns.zipIdx.map Prod.fst).flatMap facts.defs := by rw [List.flatMap_map]
    _ = ns.flatMap facts.defs := by rw [List.zipIdx_map_fst]

/-- A variable with one version has one site. -/
theorem eq_of_mem_sites (hone : ((sites g facts).map Site.var).count v ≤ 1) {x y : Site}
    (hx : x ∈ sites g facts) (hy : y ∈ sites g facts) (hxv : x.var = v) (hyv : y.var = v) :
    x = y := by
  have hlen : ((sites g facts).filter fun x => x.var = v).length ≤ 1 := by
    rwa [List.count, List.countP_map, List.countP_eq_length_filter] at hone
  have hx' : x ∈ (sites g facts).filter fun x => x.var = v := by simp [hx, hxv]
  have hy' : y ∈ (sites g facts).filter fun x => x.var = v := by simp [hy, hyv]
  obtain ⟨i, hi, rfl⟩ := List.getElem_of_mem hx'
  obtain ⟨j, hj, rfl⟩ := List.getElem_of_mem hy'
  congr 1
  omega

theorem sitesIn_sublist_sites (hg : g.WellFormed) (ht : DominatorTree g post)
    (hb : g.Reachable b) : (g.sitesIn facts b).Sublist (sites g facts) := by
  rw [sites, List.flatMap_def]
  exact List.sublist_flatten_of_mem (List.mem_map_of_mem ((mem_treeBelow_entry hg ht).mpr hb))

theorem count_defs_le (hg : g.WellFormed) (ht : DominatorTree g post)
    (hone : ((sites g facts).map Site.var).count v ≤ 1) (hb : g.Reachable b) :
    ((g.nodes b).flatMap facts.defs).count v ≤ 1 := by
  have hsub : ((g.nodes b).zipIdx.flatMap (assignments facts b)).Sublist (sites g facts) :=
    (List.sublist_append_right _ _).trans (sitesIn_sublist_sites hg ht hb)
  have hle := (hsub.map Site.var).count_le v
  rw [map_var_assignments] at hle
  exact hle.trans hone

theorem exists_site_of_defines (hg : g.WellFormed) (ht : DominatorTree g post)
    (hb : g.Reachable b) (hdef : g.Defines facts b v) :
    ∃ k j, ⟨v, .node b k j⟩ ∈ sites g facts := by
  obtain ⟨n, hn, hv⟩ := hdef
  obtain ⟨k, hk⟩ := List.getElem?_of_mem hn
  obtain ⟨j, hj⟩ := List.getElem?_of_mem hv
  exact ⟨k, j, (sitesIn_sublist_sites hg ht hb).subset (mem_sitesIn.mpr (.inr ⟨k, n, j, hk, hj, rfl⟩))⟩

/-- Only one block assigns a variable with one version. -/
theorem eq_of_defines (hg : g.WellFormed) (ht : DominatorTree g post)
    (hone : ((sites g facts).map Site.var).count v ≤ 1) (hb : g.Reachable b) (hc : g.Reachable c)
    (hbv : g.Defines facts b v) (hcv : g.Defines facts c v) : b = c := by
  obtain ⟨k, j, hx⟩ := exists_site_of_defines hg ht hb hbv
  obtain ⟨k', j', hy⟩ := exists_site_of_defines hg ht hc hcv
  injection congrArg Site.place (eq_of_mem_sites hone hx hy rfl rfl)

/-- A block on a cycle has its variables merged by phis, so these have further versions. -/
theorem not_cycle_of_defines (hg : g.WellFormed) (ht : DominatorTree g post)
    (hp : PhisPlaced g facts) (hone : ((sites g facts).map Site.var).count v ≤ 1)
    (hb : g.Reachable b) (hdef : g.Defines facts b v) {l : List BlockId} :
    ¬ g.Path b (b :: l) b := by
  intro hcycle
  obtain ⟨d, hd⟩ := hcycle.exists_inFrontier_of_cycle hb
  obtain ⟨p, hmem, rfl⟩ := hp.closed b d v hb (.inl hdef) hd
  obtain ⟨i, hi⟩ := List.getElem?_of_mem hmem
  have hphi : ⟨p.var, .phi ⟨d, i⟩⟩ ∈ sites g facts := (mem_sites hg ht hp).mpr ⟨p, hi, rfl⟩
  obtain ⟨k, j, hnode⟩ := exists_site_of_defines hg ht hb hdef
  cases eq_of_mem_sites hone hphi hnode rfl rfl

/-- No path makes two assignments to a variable with one version. -/
theorem count_along_le (hg : g.WellFormed) (ht : DominatorTree g post) (hp : PhisPlaced g facts)
    (hone : ((sites g facts).map Site.var).count v ≤ 1) {l : List BlockId}
    (hl : g.Path g.entry l b) :
    ((l ++ [b]).flatMap fun c => (g.nodes c).flatMap facts.defs).count v ≤ 1 := by
  have hnone : ∀ m : List BlockId, (∀ c ∈ m, ¬ g.Defines facts c v) →
      (m.flatMap fun c => (g.nodes c).flatMap facts.defs).count v = 0 := by
    intro m hm
    rw [List.count_eq_zero]
    intro hv
    obtain ⟨c, hc, hv⟩ := List.mem_flatMap.mp hv
    exact hm c hc (List.mem_flatMap.mp hv)
  by_cases hdef : ∃ c ∈ l ++ [b], g.Defines facts c v
  · obtain ⟨c, hc, hcv⟩ := hdef
    have hcr := Reachable.of_mem_path hl hc
    obtain ⟨m₁, m₂, hsplit⟩ := List.append_of_mem hc
    -- a second block that assigns the variable would be the same one, passed twice
    have hother : ∀ d, d ∈ m₁ ∨ d ∈ m₂ → ¬ g.Defines facts d v := by
      intro d hd hdv
      have hmem : d ∈ l ++ [b] := by
        rw [hsplit]
        simp only [List.mem_append, List.mem_cons]
        tauto
      obtain rfl := eq_of_defines hg ht hone hcr (Reachable.of_mem_path hl hmem) hcv hdv
      have hcount : 2 ≤ (l ++ [b]).count c := by
        rw [hsplit, List.count_append, List.count_cons_self]
        rcases hd with hd | hd <;> have := List.count_pos_iff.mpr hd <;> omega
      obtain ⟨m, hm⟩ := hl.exists_cycle hcount
      exact not_cycle_of_defines hg ht hp hone hcr hcv hm
    rw [hsplit, List.flatMap_append, List.flatMap_cons, List.count_append, List.count_append,
      hnone m₁ fun d hd => hother d (.inl hd), hnone m₂ fun d hd => hother d (.inr hd), Nat.zero_add,
      Nat.add_zero]
    exact count_defs_le hg ht hone hcr
  · rw [hnone _ fun c hc hcv => hdef ⟨c, hc, hcv⟩]
    exact Nat.zero_le 1

theorem mem_used_run (hg : g.WellFormed) (ht : DominatorTree g post) (hp : PhisPlaced g facts) :
    v ∈ (run g facts).used ↔
      ∃ b, g.Reachable b ∧ ∃ n ∈ g.nodes b, ∃ u ∈ facts.uses n, u.var = v := by
  obtain ⟨found, hrun, -⟩ := run_eq g facts
  rw [hrun, (renames_entry hg ht hp).used]
  simp only [List.not_mem_nil, false_or, mem_reads hg ht]
  constructor
  · rintro ⟨r, ⟨hb, n, hn, hu⟩, hv⟩
    exact ⟨r.block, hb, n, List.mem_of_getElem? hn, r.use, List.mem_of_getElem? hu, hv⟩
  · rintro ⟨b, hb, n, hn, u, hu, hv⟩
    obtain ⟨k, hk⟩ := List.getElem?_of_mem hn
    obtain ⟨j, hj⟩ := List.getElem?_of_mem hu
    exact ⟨⟨b, k, j, u⟩, ⟨hb, n, hk, hj⟩, hv⟩

theorem mem_reassigned_run (hg : g.WellFormed) (ht : DominatorTree g post)
    (hp : PhisPlaced g facts) :
    v ∈ (run g facts).reassigned ↔ 2 ≤ ((sites g facts).map Site.var).count v := by
  have hall := renames_entry hg ht hp
  obtain ⟨found, hrun, -⟩ := run_eq g facts
  rw [hrun, hall.reassigned (by simp), hall.made, List.append_nil, List.count_reverse]

end Single

end Assignment

namespace Analysis

/-- The marks that the passes leave are right. A variable is used exactly if a node of a reachable
block reads it, and if it still has a single assignment, then no path from the entry, however long
and through whatever loops, makes more than one assignment to it. -/
theorem marks_exact {g : Graph} (facts : Facts) (hg : g.Assembled) (v : Var) :
    let a := Pass.applied (Pass.standard facts) (.ofGraph g)
    (a.isUsed v = true ↔
      ∃ b, g.Reachable b ∧ ∃ n ∈ g.nodes b, ∃ u ∈ facts.uses n, u.var = v) ∧
    (a.isSingleAssignment v = true → ∀ l b, g.Path g.entry l b →
      ((l ++ [b]).flatMap fun c => blockDefs facts (g.block c)).count v ≤ 1) := by
  obtain ⟨hwell, htree, hplaced⟩ := placed_prepare facts hg.wellFormed hg.phis_eq_nil
  have hshape := sameShape_prepare facts g
  rw [Pass.applied_standard]
  constructor
  · rw [isUsed, List.contains_iff_mem, used_checkAssignments,
      Assignment.mem_used_run hwell htree hplaced]
    simp only [hshape.reachable_iff, hshape.nodes_eq]
  · intro hsingle l b hl
    have hone : ¬ 2 ≤ ((Assignment.sites (g.prepare facts) facts).map Site.var).count v := by
      rw [← Assignment.mem_reassigned_run hwell htree hplaced, ← reassigned_checkAssignments]
      simpa [isSingleAssignment] using hsingle
    have hcount := Assignment.count_along_le hwell htree hplaced
      (Nat.lt_succ_iff.mp (not_le.mp hone)) (hshape.path_entry_iff.mpr hl)
    simp only [hshape.nodes_eq] at hcount
    exact hcount

/-- The loop assigns to `x`, so only `y` keeps the mark; on the way round the loop and out of it `y` is
assigned once. -/
theorem marks_assigningLoop : assigningLoop.Assembled ∧
    (∃ b, assigningLoop.Reachable b ∧ ∃ n ∈ assigningLoop.nodes b, ∃ u ∈ assigningLoop.facts.uses n,
      u.var = assigningLoop.x) ∧
    (Pass.applied (Pass.standard assigningLoop.facts) (.ofGraph assigningLoop)).isSingleAssignment
      assigningLoop.x = false ∧
    (Pass.applied (Pass.standard assigningLoop.facts) (.ofGraph assigningLoop)).isSingleAssignment
      assigningLoop.y = true ∧
    assigningLoop.Path assigningLoop.entry [0, 1, 2, 3, 5, 1] 6 ∧
    (([0, 1, 2, 3, 5, 1] ++ [6]).flatMap fun c =>
      blockDefs assigningLoop.facts (assigningLoop.block c)).count assigningLoop.y ≤ 1 := by
  have hy : (Pass.applied (Pass.standard assigningLoop.facts)
      (.ofGraph assigningLoop)).isSingleAssignment assigningLoop.y = true := by decide +kernel
  have hpath : assigningLoop.Path assigningLoop.entry [0, 1, 2, 3, 5, 1] 6 := by
    refine .cons ?_ (.cons ?_ (.cons ?_ (.cons ?_ (.cons ?_ (.cons ?_ .here))))) <;> decide
  exact ⟨assigningLoop.assembled,
    (marks_exact assigningLoop.facts assigningLoop.assembled assigningLoop.x).1.mp
      (by decide +kernel), by decide +kernel, hy, hpath,
    (marks_exact assigningLoop.facts assigningLoop.assembled assigningLoop.y).2 hy _ 6 hpath⟩

end Analysis

end FlowCheck
