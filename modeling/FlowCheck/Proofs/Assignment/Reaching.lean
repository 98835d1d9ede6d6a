import FlowCheck.Proofs.Assignment.Site

/-!
# Versions that may stand for no assignment

What arrives in a block or leaves it is nothing, an assignment, or a phi. Following phis back to the
edges that bring nothing, a version may stand for no assignment exactly if some path without an
assignment leads to it.
-/
namespace FlowCheck.Graph

open Dominance

/-- What a variable stands for after the phis of a block: nothing, an assignment, or a phi. -/
def arriving (g : Graph) (facts : Facts) (v : Var) (b : BlockId) : Option (Option PhiRef) :=
  (g.atStart facts v b).map Site.phi?

/-- What a variable stands for at the end of a block. -/
def leaving (g : Graph) (facts : Facts) (v : Var) (b : BlockId) : Option (Option PhiRef) :=
  (g.atEnd facts v b).map Site.phi?

section

variable {g : Graph} {facts : Facts} {v : Var} {b : BlockId}

/-- Nodes that assign the variable hide what was there before. -/
theorem lastOf_of_assigned {l : List Site} {ns : List (Node × ℕ)}
    (h : ∃ n ∈ ns, v ∈ facts.defs n.1) :
    (lastOf v (l ++ ns.flatMap (assignments facts b))).map Site.phi? = some none := by
  obtain ⟨n, hn, hv⟩ := h
  obtain ⟨j, hj⟩ := List.getElem?_of_mem hv
  have hmem : ∃ x ∈ ns.flatMap (assignments facts b), x.var = v :=
    ⟨⟨v, .node b n.2 j⟩, List.mem_flatMap.mpr ⟨n, hn, mem_assignments.mpr ⟨j, hj, rfl⟩⟩, rfl⟩
  obtain ⟨x, hx⟩ := exists_lastOf hmem
  obtain ⟨m, -, hm⟩ := List.mem_flatMap.mp (mem_of_lastOf hx).1
  obtain ⟨i, -, hi⟩ := mem_assignments.mp hm
  rw [lastOf_append_of_mem _ hmem, hx, Option.map_some, Site.phi?, hi, Place.phi?]

theorem leaving_of_defines (h : g.Defines facts b v) : g.leaving facts v b = some none := by
  rw [leaving, atEnd, sitesIn, ← List.append_assoc]
  obtain ⟨n, hn, hv⟩ := h
  obtain ⟨k, hk⟩ := List.getElem?_of_mem hn
  exact lastOf_of_assigned ⟨(n, k), List.mem_zipIdx_iff_getElem?.mpr hk, hv⟩

theorem leaving_of_not_defines (h : ¬ g.Defines facts b v) :
    g.leaving facts v b = g.arriving facts v b := by
  rw [leaving, atEnd_of_not_defines h, arriving]

theorem arriving_of_hasPhi (facts : Facts) (h : g.HasPhi b v) :
    ∃ i p, (g.phis b)[i]? = some p ∧ p.var = v ∧ g.arriving facts v b = some (some ⟨b, i⟩) := by
  obtain ⟨x, hx⟩ := exists_lastOf (hasPhi_iff.mp h)
  obtain ⟨hmem, hv⟩ := mem_of_lastOf hx
  obtain ⟨i, p, hp, rfl⟩ := mem_phiSites.mp hmem
  refine ⟨i, p, hp, hv, ?_⟩
  rw [arriving, atStart, lastOf_append_of_mem _ (hasPhi_iff.mp h), hx]
  rfl

theorem map_fst_take_zipIdx (g : Graph) (b : BlockId) (k : ℕ) :
    ((g.nodes b).zipIdx.take k).map Prod.fst = (g.nodes b).take k := by
  rw [List.map_take, List.zipIdx_map_fst]

theorem resolve_of_assigned {r : Read}
    (h : ∃ n ∈ (g.nodes r.block).take r.node, r.use.var ∈ facts.defs n) :
    (g.resolve facts r).map Site.phi? = some none := by
  rw [← map_fst_take_zipIdx] at h
  obtain ⟨m, hm, hv⟩ := h
  obtain ⟨n, hn, rfl⟩ := List.mem_map.mp hm
  rw [resolve, sitesBefore, ← List.append_assoc]
  exact lastOf_of_assigned ⟨n, hn, hv⟩

theorem resolve_of_not_assigned {r : Read}
    (h : ¬ ∃ n ∈ (g.nodes r.block).take r.node, r.use.var ∈ facts.defs n) :
    (g.resolve facts r).map Site.phi? = g.arriving facts r.use.var r.block := by
  rw [resolve, sitesBefore, ← List.append_assoc, lastOf_append_of_none, arriving, atStart]
  rintro x hx hv
  obtain ⟨n, hn, hx⟩ := List.mem_flatMap.mp hx
  obtain ⟨j, hj, -⟩ := mem_assignments.mp hx
  apply h
  rw [← map_fst_take_zipIdx]
  exact ⟨n.1, List.mem_map_of_mem hn, hv ▸ List.mem_of_getElem? hj⟩

end

namespace Prepared

variable {g : Graph} {facts : Facts} {post : List BlockId} {v : Var} {b p : BlockId}

theorem arriving_entry (h : Prepared g facts post) : g.arriving facts v g.entry = none := by
  rw [arriving, atStart_of_not_hasPhi h.not_hasPhi_entry, h.tree.scope_entry]
  rfl

/-- A block without a phi for a variable gets it as every predecessor leaves it. -/
theorem arriving_eq_leaving (h : Prepared g facts post) (hphi : ¬ g.HasPhi b v)
    (hp : g.Reachable p) (he : g.Edge p b) : g.arriving facts v b = g.leaving facts v p := by
  rw [arriving, h.atStart_eq_atEnd hphi hp he, leaving]

end Prepared

/-! ### Versions that may stand for no assignment -/

/-- No block that a path passes assigns the variable. -/
def Clear (g : Graph) (facts : Facts) (v : Var) (l : List BlockId) : Prop :=
  ∀ c ∈ l, ¬ g.Defines facts c v

/-- Following a phi back through phis leads to an edge that brings no version. -/
inductive Gappy (g : Graph) (facts : Facts) (v : Var) : PhiRef → Prop
  | gap {d q : BlockId} {i : ℕ} (reached : g.Reachable q) (edge : g.Edge q d)
      (none_left : g.leaving facts v q = none) : Gappy g facts v ⟨d, i⟩
  | via {d q : BlockId} {i : ℕ} {r : PhiRef} (reached : g.Reachable q) (edge : g.Edge q d)
      (left : g.leaving facts v q = some (some r)) (prior : Gappy g facts v r) :
      Gappy g facts v ⟨d, i⟩

/-- What is in effect may stand for no assignment. -/
def Doubtful (g : Graph) (facts : Facts) (v : Var) : Option (Option PhiRef) → Prop
  | none => True
  | some none => False
  | some (some r) => Gappy g facts v r

namespace Prepared

variable {g : Graph} {facts : Facts} {post : List BlockId} {v : Var} {b c d p : BlockId}
  {l : List BlockId}

theorem doubtful_of_clear (h : Prepared g facts post) (hl : g.Path g.entry l b)
    (hclear : g.Clear facts v l) : g.Doubtful facts v (g.arriving facts v b) := by
  induction hl with
  | here =>
    rw [h.arriving_entry]
    trivial
  | @step l p b prior he ih =>
    have hp : g.Reachable p := ⟨l, prior⟩
    have hnot : ¬ g.Defines facts p v := hclear p (by simp)
    have hdoubt := ih fun c hc => hclear c (by simp [hc])
    rw [← leaving_of_not_defines hnot] at hdoubt
    by_cases hphi : g.HasPhi b v
    · obtain ⟨i, q, -, -, harr⟩ := arriving_of_hasPhi facts hphi
      rw [harr]
      cases hleft : g.leaving facts v p with
      | none => exact .gap hp he hleft
      | some o =>
        rw [hleft] at hdoubt
        cases o with
        | none => exact hdoubt.elim
        | some r => exact .via hp he hleft hdoubt
    · rw [h.arriving_eq_leaving hphi hp he]
      exact hdoubt

/-- Where no version arrives, no path has made one. -/
theorem clear_of_arriving_none (h : Prepared g facts post) (hl : g.Path g.entry l b)
    (harr : g.arriving facts v b = none) : g.Clear facts v l := by
  induction hl with
  | here =>
    intro c hc
    cases hc
  | @step l p b prior he ih =>
    have hp : g.Reachable p := ⟨l, prior⟩
    have hphi : ¬ g.HasPhi b v := by
      intro hphi
      obtain ⟨i, q, -, -, harr'⟩ := arriving_of_hasPhi facts hphi
      rw [harr] at harr'
      cases harr'
    rw [h.arriving_eq_leaving hphi hp he] at harr
    have hnot : ¬ g.Defines facts p v := by
      intro hdef
      rw [leaving_of_defines hdef] at harr
      cases harr
    rw [leaving_of_not_defines hnot] at harr
    intro c hc
    rcases List.mem_append.mp hc with hc | hc
    · exact ih harr c hc
    · exact List.mem_singleton.mp hc ▸ hnot

/-- Every path passes the phi that made what arrives, and makes no version after it. -/
theorem clear_since_phi (h : Prepared g facts post) {i : ℕ} (hl : g.Path g.entry l b)
    (harr : g.arriving facts v b = some (some ⟨d, i⟩)) :
    ∃ m, g.Path d m b ∧ g.Clear facts v m := by
  induction hl with
  | here =>
    rw [h.arriving_entry] at harr
    cases harr
  | @step l p b prior he ih =>
    have hp : g.Reachable p := ⟨l, prior⟩
    by_cases hphi : g.HasPhi b v
    · obtain ⟨j, q, -, -, harr'⟩ := arriving_of_hasPhi facts hphi
      rw [harr] at harr'
      obtain rfl : d = b := by
        injection harr' with h₁
        injection h₁ with h₂
        exact congrArg PhiRef.block h₂
      exact ⟨[], .here, by simp [Clear]⟩
    · rw [h.arriving_eq_leaving hphi hp he] at harr
      have hnot : ¬ g.Defines facts p v := by
        intro hdef
        rw [leaving_of_defines hdef] at harr
        cases harr
      rw [leaving_of_not_defines hnot] at harr
      obtain ⟨m, hm, hclear⟩ := ih harr
      refine ⟨m ++ [p], hm.step he, ?_⟩
      intro c hc
      rcases List.mem_append.mp hc with hc | hc
      · exact hclear c hc
      · exact List.mem_singleton.mp hc ▸ hnot

/-- A block that leaves a doubtful version does not assign the variable. -/
theorem not_defines_of_leaving {o : Option (Option PhiRef)} (hleft : g.leaving facts v b = o)
    (ho : o ≠ some none) : ¬ g.Defines facts b v := by
  intro hdef
  rw [leaving_of_defines hdef] at hleft
  exact ho hleft.symm

theorem exists_clear_of_gappy (h : Prepared g facts post) {r : PhiRef}
    (hr : g.Gappy facts v r) : ∃ l, g.Path g.entry l r.block ∧ g.Clear facts v l := by
  have hextend : ∀ {l : List BlockId} {q d : BlockId}, g.Path g.entry l q → g.Edge q d →
      g.Clear facts v l → ¬ g.Defines facts q v →
      ∃ l, g.Path g.entry l d ∧ g.Clear facts v l := by
    intro l q d hl he hclear hnot
    refine ⟨l ++ [q], hl.step he, ?_⟩
    intro c hc
    rcases List.mem_append.mp hc with hc | hc
    · exact hclear c hc
    · exact List.mem_singleton.mp hc ▸ hnot
  induction hr with
  | gap hq he hleft =>
    have hnot := not_defines_of_leaving hleft (by simp)
    rw [leaving_of_not_defines hnot] at hleft
    obtain ⟨l, hl⟩ := hq
    exact hextend hl he (h.clear_of_arriving_none hl hleft) hnot
  | via hq he hleft _ ih =>
    have hnot := not_defines_of_leaving hleft (by simp)
    rw [leaving_of_not_defines hnot] at hleft
    obtain ⟨l, hl⟩ := hq
    obtain ⟨m, hm, hclear⟩ := h.clear_since_phi hl hleft
    obtain ⟨k, hk, hclear'⟩ := ih
    refine hextend (hk.trans hm) he ?_ hnot
    intro c hc
    exact (List.mem_append.mp hc).elim (hclear' c) (hclear c)

/-- What arrives in a reachable block may stand for no assignment if and only if some path to the
block makes no assignment. -/
theorem doubtful_iff (h : Prepared g facts post) (hb : g.Reachable b) :
    g.Doubtful facts v (g.arriving facts v b) ↔
      ∃ l, g.Path g.entry l b ∧ g.Clear facts v l := by
  constructor
  · intro hdoubt
    obtain ⟨l, hl⟩ := hb
    cases harr : g.arriving facts v b with
    | none => exact ⟨l, hl, h.clear_of_arriving_none hl harr⟩
    | some o =>
      rw [harr] at hdoubt
      cases o with
      | none => exact hdoubt.elim
      | some r =>
        obtain ⟨m, hm, hclear⟩ := h.clear_since_phi hl harr
        obtain ⟨k, hk, hclear'⟩ := h.exists_clear_of_gappy hdoubt
        refine ⟨k ++ m, hk.trans hm, ?_⟩
        intro c hc
        exact (List.mem_append.mp hc).elim (hclear' c) (hclear c)
  · rintro ⟨l, hl, hclear⟩
    exact h.doubtful_of_clear hl hclear

end Prepared

end FlowCheck.Graph
