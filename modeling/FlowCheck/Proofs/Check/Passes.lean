import FlowCheck.Proofs.Assignment.Exactness
import FlowCheck.Proofs.Build.Function
import FlowCheck.Proofs.Graph.Consistency

/-!
# Passes over built graphs

A graph as construction leaves it is consistent, and every pass keeps it so. Hence verification
finds nothing around any pass, whatever the options, and all passes run.
-/
namespace FlowCheck

namespace Pass

/-- If the graph is accepted around every pass, the runner only runs the passes. -/
theorem runAll_eq (o : PassOptions) (passes : List Pass) (r : PassRun)
    (h : ∀ k ≤ passes.length, (applied (passes.take k) r.analysis).graph.verify = none) :
    (runAll o passes r).analysis = applied passes r.analysis ∧
      (runAll o passes r).failure = r.failure := by
  have hcheck : ∀ {moment pass : String} {g : Graph}, g.verify = none →
      o.check moment pass g = none := by
    intro moment pass g hg
    simp [PassOptions.check, hg]
  induction passes generalizing r with
  | nil => exact ⟨rfl, rfl⟩
  | cons p rest ih =>
    have hbefore : r.analysis.graph.verify = none := h 0 (Nat.zero_le _)
    have hafter : (p.run r.analysis).graph.verify = none := h 1 (by simp)
    rw [runAll]
    simp only [hcheck hbefore, hcheck hafter]
    refine ih _ fun k hk => ?_
    exact h (k + 1) (by simpa using hk)

end Pass

namespace Graph

variable {g g' : Graph} {facts : Facts}

/-! ### Stages -/

theorem consistent_of_sane (h : Build.Sane g) : g.Consistent := by
  refine ⟨h.wellFormed, h.preds_entry, h.exit_lt, h.exit_succs, h.ret_edge, ?_, ?_⟩
  · intro b p hp
    rw [h.phis_eq] at hp
    cases hp
  · intro order horder
    rw [h.order_eq] at horder
    cases horder

/-- What an analysis writes into a graph concerns phis and dominance only. -/
theorem Consistent.of_sameShape (h : g.Consistent) (hs : SameShape g g')
    (hphis : ∀ b, ∀ p ∈ g'.phis b, p.block = b ∧ p.operands.length = (g'.preds b).length)
    (htree : ∃ post, DominatorTree g' post) : g'.Consistent := by
  refine ⟨hs.wellFormed h.wellFormed, ?_, ?_, ?_, ?_, hphis, fun _ _ => htree⟩
  · rw [hs.preds_eq, h.preds_entry]
  · intro x hx
    rw [hs.size_eq]
    exact h.exit_lt x (hs.exit_eq ▸ hx)
  · intro x hx
    rw [hs.succs_eq]
    exact h.exit_succs x (hs.exit_eq ▸ hx)
  · intro r x hr hx
    rw [hs.edge_iff]
    exact h.ret_edge r x (hs.ret_eq ▸ hr) (hs.exit_eq ▸ hx)

theorem phis_fit_of_sameFrames (h : SameFrames g g')
    (hphis : ∀ b, ∀ p ∈ g.phis b, p.block = b ∧ p.operands.length = (g.preds b).length)
    (b : BlockId) :
    ∀ p ∈ g'.phis b, p.block = b ∧ p.operands.length = (g'.preds b).length := by
  intro p hp
  have hframe : p.frame ∈ (g.phis b).map Phi.frame := by
    rw [← h.frames_eq b]
    exact List.mem_map_of_mem hp
  obtain ⟨q, hq, heq⟩ := List.mem_map.mp hframe
  obtain ⟨hblock, hlength⟩ := hphis b q hq
  simp only [Phi.frame, Prod.mk.injEq] at heq
  rw [h.preds_eq, ← heq.2.1, ← heq.2.2]
  exact ⟨hblock, hlength⟩

theorem consistent_run {post : List BlockId} (h : g.Consistent) (hp : Prepared g facts post) :
    (Assignment.run g facts).graph.Consistent := by
  obtain ⟨-, -, -, hframes⟩ := Assignment.run_spec hp
  exact h.of_sameShape hframes.toSameShape (phis_fit_of_sameFrames hframes h.phis_fit)
    ⟨_, hframes.toSameTree.dominatorTree hp.tree⟩

theorem prepared_of_sane (h : Build.Sane g) (facts : Facts) :
    Prepared (g.prepare facts) facts (Dominance.postorder g) :=
  prepared_prepare facts h.wellFormed h.phis_eq (by rw [h.wellFormed.entry_eq, h.preds_entry])

theorem consistent_prepare (h : Build.Sane g) (facts : Facts) : (g.prepare facts).Consistent := by
  have hprep := prepared_of_sane h facts
  refine (consistent_of_sane h).of_sameShape (sameShape_prepare facts g) ?_ ⟨_, hprep.tree⟩
  intro b p hp
  rw [hprep.placed.blank b p hp]
  simp [blankPhi]

theorem consistent_applied (h : Build.Sane g) (facts : Facts) {k : ℕ} (hk : k ≤ 4) :
    (Pass.applied ((Pass.standard facts).take k) (.ofGraph g)).graph.Consistent := by
  have hg := consistent_of_sane h
  have hdom := dominatorTree_computeDominance h.wellFormed
  have hfr := sameTree_computeFrontiers g.computeDominance
  match k, hk with
  | 0, _ => exact hg
  | 1, _ =>
    simp only [Pass.standard, List.take_succ_cons, List.take_zero, Pass.applied_cons,
      Pass.applied_nil, Analysis.ofGraph]
    refine hg.of_sameShape (sameShape_computeDominance g) ?_ ⟨_, hdom⟩
    simp [phis_computeDominance, h.phis_eq]
  | 2, _ =>
    simp only [Pass.standard, List.take_succ_cons, List.take_zero, Pass.applied_cons,
      Pass.applied_nil, Analysis.ofGraph]
    refine hg.of_sameShape ((sameShape_computeDominance g).trans hfr.toSameShape) ?_
      ⟨_, hfr.dominatorTree hdom⟩
    simp [phis_computeFrontiers, phis_computeDominance, h.phis_eq]
  | 3, _ =>
    simp only [Pass.standard, List.take_succ_cons, List.take_zero, Pass.applied_cons,
      Pass.applied_nil, Analysis.ofGraph]
    exact consistent_prepare h facts
  | 4, _ =>
    rw [List.take_of_length_le (by simp [Pass.standard]), Pass.applied_standard]
    simp only [Analysis.checkAssignments, Analysis.ofGraph]
    exact consistent_run (consistent_prepare h facts) (prepared_of_sane h facts)

end Graph

namespace Pass

variable {g : Graph}

/-- The standard passes over a built graph, with whatever the options ask for around them. -/
theorem runAll_standard (o : PassOptions) (facts : Facts) (h : Build.Sane g) :
    (runAll o (standard facts) { analysis := .ofGraph g }).failure = none ∧
      (runAll o (standard facts) { analysis := .ofGraph g }).analysis.misfit = false ∧
      ∃ reported : List Use,
        (runAll o (standard facts) { analysis := .ofGraph g }).analysis.diagnostics =
          reported.map Assignment.finding ∧
        ∀ u, u ∈ reported ↔ g.ReadsUnassigned facts u := by
  obtain ⟨hanalysis, hfailure⟩ := runAll_eq o (standard facts) { analysis := .ofGraph g }
    fun k hk => (Graph.consistent_applied h facts hk).verify_eq_none
  obtain ⟨hmem, -, hmisfit, -⟩ := Assignment.run_spec (Graph.prepared_of_sane h facts)
  rw [hanalysis, applied_standard]
  refine ⟨hfailure, ?_, _, Analysis.diagnostics_checkAssignments facts (g.prepare facts), ?_⟩
  · simp only [Analysis.checkAssignments, Analysis.ofGraph, hmisfit, Bool.or_false]
  · intro u
    rw [hmem, Graph.readsUnassigned_prepare]

end Pass

end FlowCheck
