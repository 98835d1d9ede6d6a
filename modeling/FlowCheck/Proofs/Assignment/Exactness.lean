import FlowCheck.Flow.Pipeline
import FlowCheck.Proofs.Assignment.Reaching
import FlowCheck.Proofs.Assignment.Renaming

/-!
# Exactness of the check of assignments

Following versions back through phis finds exactly the phis that may stand for no assignment, so a
read is reported if and only if some path from the entry to it assigns its variable nowhere.
-/
namespace FlowCheck

namespace Graph

/-- Some node reads the variable at the end of a path that does not assign it before. -/
def ReadsUnassigned (g : Graph) (facts : Facts) (u : Use) : Prop :=
  ∃ b k n l, (g.nodes b)[k]? = some n ∧ u ∈ facts.uses n ∧ g.Path g.entry l b ∧
    (∀ c ∈ l, ∀ m ∈ g.nodes c, u.var ∉ facts.defs m) ∧
    ∀ m ∈ (g.nodes b).take k, u.var ∉ facts.defs m

/-! ### Phis of a graph -/

theorem exists_phi_of_leaving {g : Graph} {facts : Facts} {v : Var} {b : BlockId} {r : PhiRef}
    (h : g.leaving facts v b = some (some r)) : ∃ p, g.phi? r = some p ∧ p.var = v :=
  exists_phi_of_lastOf (List.Subset.refl (g.sitesIn facts b)) h

/-- All phis of a graph. -/
def phiRefs (g : Graph) : List PhiRef :=
  (List.range g.blocks.size).flatMap fun b => (List.range (g.phis b).length).map (PhiRef.mk b)

theorem mem_phiRefs {g : Graph} {r : PhiRef} {p : Phi}
    (h : g.phi? r = some p) : r ∈ g.phiRefs := by
  have hindex : r.index < (g.phis r.block).length := (List.getElem?_eq_some_iff.mp h).1
  have hblock : r.block < g.blocks.size := by
    by_contra hn
    rw [phis, block_of_size_le (not_lt.mp hn)] at hindex
    exact absurd hindex (Nat.not_lt_zero _)
  rw [phiRefs, List.mem_flatMap]
  exact ⟨r.block, List.mem_range.mpr hblock,
    List.mem_map.mpr ⟨r.index, List.mem_range.mpr hindex, rfl⟩⟩

theorem length_phiRefs (g : Graph) : g.phiRefs.length = g.phiCount := by
  have hblocks : (List.range g.blocks.size).map (fun b => (g.phis b).length) =
      g.blocks.toList.map fun b => b.phis.length := by
    apply List.ext_getElem (by simp)
    intro i hi _
    have hi' : i < g.blocks.size := by simpa using hi
    simp [phis, block_of_getElem? (Array.getElem?_eq_getElem hi')]
  have hsum : ∀ (bs : List BasicBlock) (n : ℕ),
      bs.foldl (fun n b => n + b.phis.length) n = n + (bs.map fun b => b.phis.length).sum := by
    intro bs
    induction bs with
    | nil => simp
    | cons b bs ih =>
      intro n
      rw [List.foldl_cons, ih, List.map_cons, List.sum_cons, Nat.add_assoc]
  simp [phiRefs, phiCount, List.length_flatMap, hsum, hblocks]

end Graph

namespace Assignment

open FlowCheck.Graph Dominance

/-! ### Following phis back -/

/-- A phi merges a version that another phi made. -/
def Link (g : Graph) (r r' : PhiRef) : Prop :=
  ∃ p, g.phi? r = some p ∧ ∃ o ∈ p.operands, o.bind Version.phi = some r'

/-- The phis merged by one, as the search lists them. -/
def merged (g : Graph) (r : PhiRef) : List PhiRef :=
  ((g.phi? r).elim [] Phi.operands).filterMap fun o => o.bind Version.phi

theorem mem_merged {g : Graph} {r r' : PhiRef} : r' ∈ merged g r ↔ Link g r r' := by
  unfold merged Link
  cases g.phi? r <;> simp

/-- Those of `next` that are new, each once. -/
def unseen (seen next : List PhiRef) : List PhiRef :=
  next.foldl (fun found r => if seen.contains r || found.contains r then found else r :: found) []

theorem unseen_spec (seen next : List PhiRef) :
    (unseen seen next).Nodup ∧ (∀ r ∈ unseen seen next, r ∈ next ∧ r ∉ seen) ∧
      ∀ r ∈ next, r ∈ seen ∨ r ∈ unseen seen next := by
  have key : ∀ (next found : List PhiRef), found.Nodup → (∀ r ∈ found, r ∉ seen) →
      let all := next.foldl
        (fun found r => if seen.contains r || found.contains r then found else r :: found) found
      all.Nodup ∧ (∀ r ∈ all, (r ∈ next ∨ r ∈ found) ∧ r ∉ seen) ∧
        (∀ r ∈ found, r ∈ all) ∧ ∀ r ∈ next, r ∈ seen ∨ r ∈ all := by
    intro next
    induction next with
    | nil =>
      intro found hn hs
      exact ⟨hn, fun r hr => ⟨.inr hr, hs r hr⟩, fun _ => id, by simp⟩
    | cons x next ih =>
      intro found hn hs
      simp only [List.foldl_cons]
      split_ifs with hx
      · obtain ⟨h₁, h₂, h₃, h₄⟩ := ih found hn hs
        refine ⟨h₁, ?_, h₃, ?_⟩
        · intro r hr
          obtain ⟨hmem, hnot⟩ := h₂ r hr
          exact ⟨hmem.imp_left (List.mem_cons_of_mem x), hnot⟩
        · intro r hr
          rcases List.mem_cons.mp hr with rfl | hr
          · rw [Bool.or_eq_true, List.contains_iff_mem, List.contains_iff_mem] at hx
            exact hx.imp_right (h₃ r)
          · exact h₄ r hr
      · rw [Bool.or_eq_true, List.contains_iff_mem, List.contains_iff_mem, not_or] at hx
        obtain ⟨h₁, h₂, h₃, h₄⟩ := ih (x :: found) (List.nodup_cons.mpr ⟨hx.2, hn⟩) (by
          intro r hr
          rcases List.mem_cons.mp hr with rfl | hr
          · exact hx.1
          · exact hs r hr)
        refine ⟨h₁, ?_, fun r hr => h₃ r (List.mem_cons_of_mem x hr), ?_⟩
        · intro r hr
          obtain ⟨hmem, hnot⟩ := h₂ r hr
          simp only [List.mem_cons] at hmem ⊢
          exact ⟨by tauto, hnot⟩
        · intro r hr
          rcases List.mem_cons.mp hr with rfl | hr
          · exact .inr (h₃ r List.mem_cons_self)
          · exact h₄ r hr
  obtain ⟨h₁, h₂, -, h₄⟩ := key next [] List.nodup_nil (by simp)
  refine ⟨h₁, ?_, h₄⟩
  intro r hr
  obtain ⟨hmem, hnot⟩ := h₂ r hr
  exact ⟨hmem.resolve_right List.not_mem_nil, hnot⟩

theorem sources_succ_cons (g : Graph) (fuel : ℕ) (r : PhiRef) (work seen : List PhiRef) :
    sources g (fuel + 1) (r :: work) seen =
      sources g fuel (unseen seen (merged g r) ++ work) (unseen seen (merged g r) ++ seen) := rfl

/-- The state of the search: what was seen comes from `start`, and what does not wait any more has
all that it merges among what was seen. -/
structure Searching (g : Graph) (start : PhiRef) (work seen : List PhiRef) : Prop where
  start_mem : start ∈ seen
  work_mem : ∀ r ∈ work, r ∈ seen
  sound : ∀ r ∈ seen, Relation.ReflTransGen (Link g) start r
  closed : ∀ r ∈ seen, r ∈ work ∨ ∀ r', Link g r r' → r' ∈ seen

theorem Searching.step {g : Graph} {start r : PhiRef} {work seen : List PhiRef}
    (h : Searching g start (r :: work) seen) :
    Searching g start (unseen seen (merged g r) ++ work) (unseen seen (merged g r) ++ seen) := by
  obtain ⟨-, hnew, hall⟩ := unseen_spec seen (merged g r)
  have hmem : ∀ r', Link g r r' → r' ∈ unseen seen (merged g r) ++ seen := by
    intro r' hr'
    exact List.mem_append.mpr ((hall r' (mem_merged.mpr hr')).symm)
  refine ⟨List.mem_append_right _ h.start_mem, ?_, ?_, ?_⟩
  · intro x hx
    rcases List.mem_append.mp hx with hx | hx
    · exact List.mem_append_left _ hx
    · exact List.mem_append_right _ (h.work_mem x (List.mem_cons_of_mem r hx))
  · intro x hx
    rcases List.mem_append.mp hx with hx | hx
    · exact (h.sound r (h.work_mem r List.mem_cons_self)).tail (mem_merged.mp (hnew x hx).1)
    · exact h.sound x hx
  · intro x hx
    rcases List.mem_append.mp hx with hx | hx
    · exact .inl (List.mem_append_left _ hx)
    · rcases h.closed x hx with hw | hlink
      · rcases List.mem_cons.mp hw with rfl | hw
        · exact .inr hmem
        · exact .inl (List.mem_append_right _ hw)
      · exact .inr fun r' hr' => List.mem_append_right _ (hlink r' hr')

theorem Searching.mem_iff {g : Graph} {start r : PhiRef} {seen : List PhiRef}
    (h : Searching g start [] seen) : r ∈ seen ↔ Relation.ReflTransGen (Link g) start r := by
  refine ⟨h.sound r, fun hr => ?_⟩
  induction hr with
  | refl => exact h.start_mem
  | tail _ hl ih => exact (h.closed _ ih).resolve_left List.not_mem_nil _ hl

theorem mem_sources {g : Graph} {start : PhiRef} (hlink : ∀ r r', Link g r r' → r' ∈ g.phiRefs)
    (fuel : ℕ) (work seen : List PhiRef) (h : Searching g start work seen)
    (hfuel : work.length + (g.phiRefs.toFinset \ seen.toFinset).card ≤ fuel) (r : PhiRef) :
    r ∈ sources g fuel work seen ↔ Relation.ReflTransGen (Link g) start r := by
  induction fuel generalizing work seen with
  | zero =>
    obtain rfl : work = [] := List.eq_nil_of_length_eq_zero (by omega)
    exact h.mem_iff
  | succ fuel ih =>
    cases work with
    | nil => exact h.mem_iff
    | cons x work =>
      rw [sources_succ_cons]
      refine ih _ _ h.step ?_
      obtain ⟨hnodup, hnew, -⟩ := unseen_spec seen (merged g x)
      -- what is new leaves the phis not seen
      have hsub : (unseen seen (merged g x)).toFinset ⊆ g.phiRefs.toFinset \ seen.toFinset := by
        intro y hy
        rw [List.mem_toFinset] at hy
        rw [Finset.mem_sdiff, List.mem_toFinset, List.mem_toFinset]
        exact ⟨hlink x y (mem_merged.mp (hnew y hy).1), (hnew y hy).2⟩
      have hcard := Finset.card_sdiff_add_card_eq_card hsub
      rw [List.toFinset_card_of_nodup hnodup, sdiff_sdiff_left, Finset.sup_eq_union,
        Finset.union_comm, ← List.toFinset_append] at hcard
      simp only [List.length_append, List.length_cons] at hfuel ⊢
      omega

theorem mem_sources_start {g : Graph} (hlink : ∀ r r', Link g r r' → r' ∈ g.phiRefs)
    (start r : PhiRef) :
    r ∈ sources g (g.phiCount + 1) [start] [start] ↔ Relation.ReflTransGen (Link g) start r := by
  refine mem_sources hlink _ _ _ ⟨by simp, by simp, ?_, by simp⟩ ?_ r
  · intro x hx
    rw [List.mem_singleton.mp hx]
  · have hcard : (g.phiRefs.toFinset \ [start].toFinset).card ≤ g.phiCount := by
      rw [← length_phiRefs]
      exact (Finset.card_le_card Finset.sdiff_subset).trans (List.toFinset_card_le _)
    rw [List.length_singleton]
    omega

/-! ### Phis after renaming -/

section Resolved

variable {g g' : Graph} {facts : Facts} {post : List BlockId}

/-- Every operand of a phi is what the block before it leaves, if that is reachable. -/
structure Resolved (g : Graph) (facts : Facts) (g' : Graph) : Prop where
  frames : SameFrames g g'
  reached : ∀ r i q p, g.phi? r = some p → (g.preds r.block)[i]? = some q → g.Reachable q →
    (g'.operand r i).map (Option.map Version.phi) = some (g.leaving facts p.var q)
  unreached : ∀ r i q p, g.phi? r = some p → (g.preds r.block)[i]? = some q →
    ¬ g.Reachable q → g'.operand r i = some none

theorem resolved_renaming (h : Prepared g facts post) :
    Resolved g facts (block facts (g.blocks.size + 1) { graph := g } g.entry).graph := by
  have hall := renames_entry h.wellFormed h.tree h.placed
  have hedge : ∀ {d i q}, (g.preds d)[i]? = some q → g.Edge q d := fun hq =>
    (h.wellFormed.mem_preds _ _).mp (List.mem_of_getElem? hq)
  refine ⟨hall.frames, ?_, ?_⟩
  · intro r i q p hp hq hr
    rw [hall.told r i q p hp hq ⟨hr, hedge hq⟩, Option.map_some, Option.map_map, leaving]
    rfl
  · intro r i q p hp hq hr
    rw [hall.untold r i q hq fun he => hr he.1]
    have hblank := h.placed.blank r.block p (List.mem_of_getElem? hp)
    have hi : i < (g.preds r.block).length := (List.getElem?_eq_some_iff.mp hq).1
    have hnone : p.operands[i]? = some none := by
      rw [hblank, blankPhi, List.getElem?_map, List.getElem?_eq_getElem hi, Option.map_some]
    simp [operand, hp, hnone]

namespace Resolved

variable {r r' : PhiRef} {p p' : Phi} {v : Var}

/-- A phi still belongs to its block and has one operand for each predecessor. -/
theorem phi_eq (h : Resolved g facts g') (hp : Prepared g facts post)
    (hphi' : g'.phi? r = some p') :
    ∃ p, g.phi? r = some p ∧ p'.var = p.var ∧ p'.block = r.block ∧
      p'.operands.length = (g.preds r.block).length := by
  obtain ⟨p, hphi, hframe⟩ := h.frames.exists_phi hphi'
  have hblank := hp.placed.blank r.block p (List.mem_of_getElem? hphi)
  simp only [Phi.frame, Prod.mk.injEq] at hframe
  obtain ⟨hvar, hblock, hlength⟩ := hframe
  refine ⟨p, hphi, hvar.symm, ?_, ?_⟩
  · rw [← hblock, hblank, blankPhi]
  · rw [← hlength, hblank, blankPhi, List.length_map]

theorem exists_phi (h : Resolved g facts g') (hphi : g.phi? r = some p) :
    ∃ p', g'.phi? r = some p' := by
  obtain ⟨p', hp', -⟩ := h.frames.exists_phi' hphi
  exact ⟨p', hp'⟩

/-- What the operands of a phi are, each with the predecessor that it belongs to. -/
theorem mem_zip_iff (h : Resolved g facts g') (hp : Prepared g facts post)
    (hphi' : g'.phi? r = some p') {q : BlockId} {o : Option (Option PhiRef)} :
    (∃ x : Option Version, (x, q) ∈ p'.operands.zip (g'.preds p'.block) ∧
        x.map Version.phi = o) ↔
      g.Edge q r.block ∧ o = if g.isReachable q then g.leaving facts p'.var q else none := by
  obtain ⟨p, hphi, hvar, hblock, hlength⟩ := h.phi_eq hp hphi'
  rw [hblock, h.frames.preds_eq, hvar]
  have hvalue : ∀ {i : ℕ} {x : Option Version}, p'.operands[i]? = some x →
      (g.preds r.block)[i]? = some q →
      x.map Version.phi = if g.isReachable q then g.leaving facts p.var q else none := by
    intro i x hx hq
    have hoperand : g'.operand r i = some x := by simp [operand, hphi', hx]
    by_cases hr : g.Reachable q
    · rw [if_pos (hp.tree.isReachable_iff.mpr hr)]
      have hreached := h.reached r i q p hphi hq hr
      rw [hoperand, Option.map_some] at hreached
      exact Option.some_inj.mp hreached
    · rw [if_neg fun hreach => hr (hp.tree.isReachable_iff.mp hreach)]
      have hunreached := h.unreached r i q p hphi hq hr
      rw [hoperand] at hunreached
      rw [Option.some_inj.mp hunreached, Option.map_none]
  constructor
  · rintro ⟨x, hmem, rfl⟩
    obtain ⟨i, hi⟩ := List.getElem?_of_mem hmem
    obtain ⟨hx, hq⟩ := List.getElem?_zip_eq_some.mp hi
    exact ⟨(hp.wellFormed.mem_preds _ _).mp (List.mem_of_getElem? hq), hvalue hx hq⟩
  · rintro ⟨he, rfl⟩
    obtain ⟨i, hq⟩ := List.getElem?_of_mem ((hp.wellFormed.mem_preds _ _).mpr he)
    have hlt : i < p'.operands.length := by
      rw [hlength]
      exact (List.getElem?_eq_some_iff.mp hq).1
    have hx := List.getElem?_eq_getElem hlt
    exact ⟨_, List.mem_of_getElem? (List.getElem?_zip_eq_some.mpr ⟨hx, hq⟩), hvalue hx hq⟩

theorem link_iff (h : Resolved g facts g') (hp : Prepared g facts post)
    (hphi : g.phi? r = some p) :
    Link g' r r' ↔ ∃ q, g.Reachable q ∧ g.Edge q r.block ∧
      g.leaving facts p.var q = some (some r') := by
  obtain ⟨p', hphi'⟩ := h.exists_phi hphi
  obtain ⟨p₀, hphi₀, hvar, hblock, hlength⟩ := h.phi_eq hp hphi'
  obtain rfl : p = p₀ := Option.some_inj.mp (hphi.symm.trans hphi₀)
  have hzip : ∀ {x : Option Version}, x ∈ p'.operands →
      ∃ q, (x, q) ∈ p'.operands.zip (g'.preds p'.block) := by
    intro x hx
    obtain ⟨i, hi⟩ := List.getElem?_of_mem hx
    have hlt : i < (g'.preds p'.block).length := by
      rw [hblock, h.frames.preds_eq, ← hlength]
      exact (List.getElem?_eq_some_iff.mp hi).1
    exact ⟨_, List.mem_of_getElem?
      (List.getElem?_zip_eq_some.mpr ⟨hi, List.getElem?_eq_getElem hlt⟩)⟩
  constructor
  · rintro ⟨p₁, hp₁, x, hx, hr'⟩
    obtain rfl : p' = p₁ := Option.some_inj.mp (hphi'.symm.trans hp₁)
    obtain ⟨q, hq⟩ := hzip hx
    obtain ⟨he, hvalue⟩ := (h.mem_zip_iff hp hphi').mp ⟨x, hq, rfl⟩
    have hmap : x.map Version.phi = some (some r') := by
      cases x with
      | none => cases hr'
      | some y => exact congrArg some hr'
    split_ifs at hvalue with hreach
    · exact ⟨q, hp.tree.isReachable_iff.mp hreach, he, by rw [← hvar, ← hvalue, hmap]⟩
    · rw [hmap] at hvalue
      cases hvalue
  · rintro ⟨q, hr, he, hleft⟩
    obtain ⟨x, hx, hvalue⟩ := (h.mem_zip_iff hp hphi' (q := q)).mpr ⟨he, rfl⟩
    rw [if_pos (hp.tree.isReachable_iff.mpr hr), hvar, hleft] at hvalue
    refine ⟨p', hphi', x, (List.of_mem_zip hx).1, ?_⟩
    cases x with
    | none => cases hvalue
    | some y => exact Option.some_inj.mp hvalue

theorem hasGap_iff (h : Resolved g facts g') (hp : Prepared g facts post)
    (hphi : g.phi? r = some p) :
    (g'.phi? r).any (hasGap g') = true ↔ ∃ q, g.Reachable q ∧ g.Edge q r.block ∧
      g.leaving facts p.var q = none := by
  obtain ⟨p', hphi'⟩ := h.exists_phi hphi
  obtain ⟨p₀, hphi₀, hvar, -, -⟩ := h.phi_eq hp hphi'
  obtain rfl : p = p₀ := Option.some_inj.mp (hphi.symm.trans hphi₀)
  have hreach : ∀ q, g'.isReachable q = true ↔ g.Reachable q := by
    intro q
    rw [h.frames.isReachable_eq, hp.tree.isReachable_iff]
  rw [hphi', Option.any_some, hasGap, List.any_eq_true]
  constructor
  · rintro ⟨⟨x, q⟩, hx, hgap⟩
    rw [Bool.and_eq_true, hreach, Option.isNone_iff_eq_none] at hgap
    obtain ⟨rfl, hr⟩ := hgap
    obtain ⟨he, hvalue⟩ := (h.mem_zip_iff hp hphi').mp ⟨none, hx, rfl⟩
    rw [if_pos (hp.tree.isReachable_iff.mpr hr), hvar] at hvalue
    exact ⟨q, hr, he, hvalue.symm⟩
  · rintro ⟨q, hr, he, hleft⟩
    obtain ⟨x, hx, hvalue⟩ := (h.mem_zip_iff hp hphi' (q := q)).mpr ⟨he, rfl⟩
    rw [if_pos (hp.tree.isReachable_iff.mpr hr), hvar, hleft] at hvalue
    refine ⟨(x, q), hx, ?_⟩
    rw [Bool.and_eq_true, hreach, Option.isNone_iff_eq_none]
    exact ⟨Option.map_eq_none_iff.mp hvalue, hr⟩

/-- Links lead from phis of a variable to phis of the same variable. -/
theorem exists_phi_of_link (h : Resolved g facts g') (hp : Prepared g facts post)
    (hlink : Link g' r r') : ∃ p p', g.phi? r = some p ∧
      g.phi? r' = some p' ∧ p'.var = p.var := by
  obtain ⟨p₁, hp₁, hx⟩ := hlink
  obtain ⟨p, hphi, -, -, -⟩ := h.phi_eq hp hp₁
  obtain ⟨q, -, -, hleft⟩ := (h.link_iff hp hphi).mp ⟨p₁, hp₁, hx⟩
  obtain ⟨p', hphi', hvar⟩ := exists_phi_of_leaving hleft
  exact ⟨p, p', hphi, hphi', hvar⟩

theorem gappy_iff (h : Resolved g facts g') (hp : Prepared g facts post)
    (hphi : g.phi? r = some p) :
    g.Gappy facts p.var r ↔ ∃ r', Relation.ReflTransGen (Link g') r r' ∧
      (g'.phi? r').any (hasGap g') = true := by
  constructor
  · intro hgappy
    generalize hv : p.var = v at hgappy
    induction hgappy generalizing p with
    | @gap d q i hr he hleft =>
      exact ⟨⟨d, i⟩, .refl, (h.hasGap_iff hp hphi).mpr ⟨q, hr, he, hv ▸ hleft⟩⟩
    | @via d q i r hr he hleft _ ih =>
      obtain ⟨p', hphi', hvar⟩ := exists_phi_of_leaving hleft
      obtain ⟨r', hlinks, hgap⟩ := ih hphi' hvar
      exact ⟨r', .head ((h.link_iff hp hphi).mpr ⟨q, hr, he, hv ▸ hleft⟩) hlinks, hgap⟩
  · rintro ⟨r', hlinks, hgap⟩
    induction hlinks using Relation.ReflTransGen.head_induction_on generalizing p with
    | refl =>
      obtain ⟨q, hr, he, hleft⟩ := (h.hasGap_iff hp hphi).mp hgap
      exact .gap hr he hleft
    | head hlink _ ih =>
      obtain ⟨q, hr, he, hleft⟩ := (h.link_iff hp hphi).mp hlink
      obtain ⟨p', hphi', hvar⟩ := exists_phi_of_leaving hleft
      exact .via hr he hleft (hvar ▸ ih hphi')

/-- A version may stand for no assignment exactly if it was made by a phi with a gap behind it. -/
theorem mayBeUnassigned_iff (h : Resolved g facts g') (hp : Prepared g facts post) {x : Version}
    (hx : ∀ r, x.phi = some r → ∃ p, g.phi? r = some p ∧ p.var = v) :
    mayBeUnassigned g' x = true ↔ g.Doubtful facts v (some x.phi) := by
  have hlink : ∀ r r', Link g' r r' → r' ∈ g'.phiRefs := by
    intro r r' hl
    obtain ⟨-, p', -, hphi', -⟩ := h.exists_phi_of_link hp hl
    obtain ⟨p₁, hp₁⟩ := h.exists_phi hphi'
    exact mem_phiRefs hp₁
  unfold mayBeUnassigned
  cases hphi : x.phi with
  | none => simp [Doubtful]
  | some r =>
    obtain ⟨p, hp', rfl⟩ := hx r hphi
    rw [Doubtful, h.gappy_iff hp hp', List.any_eq_true]
    simp only [mem_sources_start hlink]

end Resolved

end Resolved

/-! ### What is reported -/

section Reported

variable {g : Graph} {facts : Facts} {post : List BlockId}

/-- Following versions back adds reports, each once, and changes nothing else. -/
theorem propagate_spec (reads : List (Version × Use)) (s : State) :
    ∃ found, reads.foldl (fun s (version, u) =>
        if mayBeUnassigned s.graph version then s.report u else s) s =
          { s with unassigned := found } ∧
      (s.unassigned.Nodup → found.Nodup) ∧
      ∀ u, u ∈ found ↔ u ∈ s.unassigned ∨
        ∃ x, (x, u) ∈ reads ∧ mayBeUnassigned s.graph x = true := by
  induction reads generalizing s with
  | nil => exact ⟨s.unassigned, rfl, id, by simp⟩
  | cons r reads ih =>
    obtain ⟨x, u⟩ := r
    simp only [List.foldl_cons, List.mem_cons, Prod.mk.injEq]
    split_ifs with hx
    · rw [report_eq]
      obtain ⟨found, hs, hnodup, hmem⟩ := ih { s with
        unassigned := if s.unassigned.contains u then s.unassigned else s.unassigned ++ [u] }
      refine ⟨found, hs, fun hn => hnodup (nodup_ite_contains hn u), ?_⟩
      intro u'
      rw [hmem, mem_ite_contains, or_assoc]
      apply or_congr_right
      constructor
      · rintro (rfl | ⟨y, hy, hm⟩)
        · exact ⟨x, .inl ⟨rfl, rfl⟩, hx⟩
        · exact ⟨y, .inr hy, hm⟩
      · rintro ⟨y, ⟨rfl, rfl⟩ | hy, hm⟩
        · exact .inl rfl
        · exact .inr ⟨y, hy, hm⟩
    · obtain ⟨found, hs, hnodup, hmem⟩ := ih s
      refine ⟨found, hs, hnodup, ?_⟩
      intro u'
      rw [hmem]
      apply or_congr_right
      constructor
      · rintro ⟨y, hy, hm⟩
        exact ⟨y, .inr hy, hm⟩
      · rintro ⟨y, ⟨rfl, rfl⟩ | hy, hm⟩
        · exact absurd hm hx
        · exact ⟨y, hy, hm⟩

/-- A read may see no assignment exactly if some path to it makes none. -/
theorem exists_doubtful_read_iff (h : Prepared g facts post) {u : Use} :
    (∃ r ∈ reads g facts, r.use = u ∧
        g.Doubtful facts u.var ((g.resolve facts r).map Site.phi?)) ↔
      g.ReadsUnassigned facts u := by
  constructor
  · rintro ⟨r, hr, rfl, hdoubt⟩
    obtain ⟨hb, n, hn, hu⟩ := (mem_reads h.wellFormed h.tree).mp hr
    have hclear : ¬ ∃ m ∈ (g.nodes r.block).take r.node, r.use.var ∈ facts.defs m := by
      intro hdef
      rw [resolve_of_assigned hdef] at hdoubt
      exact hdoubt
    rw [resolve_of_not_assigned hclear] at hdoubt
    obtain ⟨l, hl, hpath⟩ := (h.doubtful_iff hb).mp hdoubt
    refine ⟨r.block, r.node, n, l, hn, List.mem_of_getElem? hu, hl, ?_, ?_⟩
    · intro c hc m hm hdef
      exact hpath c hc ⟨m, hm, hdef⟩
    · intro m hm hdef
      exact hclear ⟨m, hm, hdef⟩
  · rintro ⟨b, k, n, l, hk, hu, hl, hpath, hclear⟩
    have hb : g.Reachable b := ⟨l, hl⟩
    obtain ⟨j, hj⟩ := List.getElem?_of_mem hu
    refine ⟨⟨b, k, j, u⟩, (mem_reads h.wellFormed h.tree).mpr ⟨hb, n, hk, hj⟩, rfl, ?_⟩
    rw [resolve_of_not_assigned]
    · apply (h.doubtful_iff hb).mpr
      refine ⟨l, hl, ?_⟩
      rintro c hc ⟨m, hm, hdef⟩
      exact hpath c hc m hm hdef
    · rintro ⟨m, hm, hdef⟩
      exact hclear m hm hdef

/-- The check of assignments on a prepared graph: what it reports, each read once, and no phi
lacks a place for an operand. -/
theorem run_spec (h : Prepared g facts post) :
    (∀ u, u ∈ (run g facts).unassigned ↔ g.ReadsUnassigned facts u) ∧
      (run g facts).unassigned.Nodup ∧ (run g facts).misfit = false ∧
      SameFrames g (run g facts).graph := by
  have hall := renames_entry h.wellFormed h.tree h.placed
  have hresolved := resolved_renaming h
  obtain ⟨found, hrun, hnodup, hmem⟩ := propagate_spec
    (block facts (g.blocks.size + 1) { graph := g } g.entry).reads
    (block facts (g.blocks.size + 1) { graph := g } g.entry)
  rw [run, propagate, hrun]
  refine ⟨?_, hnodup (hall.nodup List.nodup_nil), hall.misfit, hall.frames⟩
  intro u
  rw [hmem, ← exists_doubtful_read_iff h, hall.unassigned, hall.reads_eq]
  -- a read without a version is doubtful, and one with a version if the version is
  have hversion : ∀ {r x}, g.resolve facts r = some x →
      (mayBeUnassigned (block facts (g.blocks.size + 1) { graph := g } g.entry).graph
          (versionIn (sites g facts) x) = true ↔
        g.Doubtful facts r.use.var ((g.resolve facts r).map Site.phi?)) := by
    intro r x hx
    rw [hx]
    apply hresolved.mayBeUnassigned_iff h
    intro i hi
    apply exists_phi_of_lastOf (sitesBefore_subset g facts r.block r.node)
    rw [← resolve, hx]
    exact congrArg some hi
  simp only [List.not_mem_nil, false_or, List.nil_append, List.mem_filterMap,
    Option.map_eq_some_iff, Prod.mk.injEq]
  constructor
  · rintro (⟨r, hr, rfl, hnone⟩ | ⟨x, ⟨r, hr, y, hy, rfl, rfl⟩, hmay⟩)
    · exact ⟨r, hr, rfl, by rw [hnone]; trivial⟩
    · exact ⟨r, hr, rfl, (hversion hy).mp hmay⟩
  · rintro ⟨r, hr, rfl, hdoubt⟩
    cases hx : g.resolve facts r with
    | none => exact .inl ⟨r, hr, rfl, hx⟩
    | some x => exact .inr ⟨_, ⟨r, hr, x, hx, rfl, rfl⟩, (hversion hx).mpr hdoubt⟩

end Reported

end Assignment

/-! ### Graphs as they are assembled -/

namespace Graph

open Dominance

/-- The three passes before the check of assignments. -/
def prepare (g : Graph) (facts : Facts) : Graph :=
  g.computeDominance.computeFrontiers.insertPhis facts

variable {g : Graph} (facts : Facts)

theorem sameShape_prepare (g : Graph) : SameShape g (g.prepare facts) :=
  (sameShape_computeDominance g).trans
    ((sameTree_computeFrontiers _).toSameShape.trans (sameTree_insertPhis _ facts).toSameShape)

/-- The three passes on a well-formed graph without phis. -/
theorem placed_prepare (hg : g.WellFormed) (hphis : ∀ b, g.phis b = []) :
    (g.prepare facts).WellFormed ∧ DominatorTree (g.prepare facts) (postorder g) ∧
      PhisPlaced (g.prepare facts) facts := by
  have hdom := dominatorTree_computeDominance hg
  have hg₁ := (sameShape_computeDominance g).wellFormed hg
  have hfr := sameTree_computeFrontiers g.computeDominance
  have hnone : ∀ b, g.computeDominance.computeFrontiers.phis b = [] := by
    intro b
    rw [phis_computeFrontiers, phis_computeDominance, hphis]
  have hphi := sameTree_insertPhis g.computeDominance.computeFrontiers facts
  exact ⟨(sameShape_prepare facts g).wellFormed hg, hphi.dominatorTree (hfr.dominatorTree hdom),
    phisPlaced_insertPhis (hfr.wellFormed hg₁) (hfr.dominatorTree hdom)
      (knowsFrontiers_computeFrontiers hdom hg₁) hnone⟩

/-- Analysis of a well-formed graph without phis that no edge enters at its entry. -/
theorem prepared_prepare (hg : g.WellFormed) (hphis : ∀ b, g.phis b = [])
    (hentry : g.preds g.entry = []) : Prepared (g.prepare facts) facts (postorder g) := by
  obtain ⟨hwell, htree, hplaced⟩ := placed_prepare facts hg hphis
  have hshape := sameShape_prepare facts g
  refine ⟨hwell, htree, hplaced, ?_⟩
  rw [hshape.preds_eq, hshape.entry_eq, hentry]

theorem readsUnassigned_prepare {u : Use} :
    (g.prepare facts).ReadsUnassigned facts u ↔ g.ReadsUnassigned facts u := by
  have hshape := sameShape_prepare facts g
  simp only [ReadsUnassigned, hshape.nodes_eq, hshape.entry_eq, hshape.path_iff]

end Graph

namespace Pass

/-- The passes one after another, without anything around them. -/
def applied (passes : List Pass) (a : Analysis) : Analysis := passes.foldl (fun a p => p.run a) a

@[simp]
theorem applied_nil (a : Analysis) : applied [] a = a := rfl

@[simp]
theorem applied_cons (p : Pass) (rest : List Pass) (a : Analysis) :
    applied (p :: rest) a = applied rest (p.run a) := rfl

theorem applied_standard (facts : Facts) (g : Graph) :
    applied (standard facts) (.ofGraph g) =
      Analysis.checkAssignments facts (.ofGraph (g.prepare facts)) := rfl

end Pass

namespace Analysis

theorem diagnostics_checkAssignments (facts : Facts) (g : Graph) :
    (checkAssignments facts (.ofGraph g)).diagnostics =
      (Assignment.run g facts).unassigned.map Assignment.finding := rfl

theorem graph_checkAssignments (facts : Facts) (g : Graph) :
    (checkAssignments facts (.ofGraph g)).graph = (Assignment.run g facts).graph := by
  simp only [checkAssignments, ofGraph]

theorem used_checkAssignments (facts : Facts) (g : Graph) :
    (checkAssignments facts (.ofGraph g)).used = (Assignment.run g facts).used := by
  simp [checkAssignments, ofGraph, merge]

theorem reassigned_checkAssignments (facts : Facts) (g : Graph) :
    (checkAssignments facts (.ofGraph g)).reassigned = (Assignment.run g facts).reassigned := by
  simp [checkAssignments, ofGraph, merge]

/-- A read is reported, and only once, if and only if some node performs it at the end of a path
from the entry along which no node assigns its variable. -/
theorem reported_iff_readsUnassigned {g : Graph} (facts : Facts) (hg : g.Assembled)
    (hentry : g.preds g.entry = []) :
    ∃ reported : List Use,
      (checkAssignments facts
        (.ofGraph (g.computeDominance.computeFrontiers.insertPhis facts))).diagnostics =
          reported.map Assignment.finding ∧
      reported.Nodup ∧ ∀ u, u ∈ reported ↔ g.ReadsUnassigned facts u := by
  have hprep := Graph.prepared_prepare facts hg.wellFormed hg.phis_eq_nil hentry
  obtain ⟨hmem, hnodup, -, -⟩ := Assignment.run_spec hprep
  refine ⟨(Assignment.run (g.prepare facts) facts).unassigned,
    diagnostics_checkAssignments facts (g.prepare facts), hnodup, ?_⟩
  intro u
  rw [hmem, Graph.readsUnassigned_prepare]

/-- Two blocks entered from outside and from each other, of which the first assigns what the second
reads. -/
def crossing : Graph :=
  let g := ((Graph.ofName "crossing").newBlock .plain).2
  let g := (g.newBlock .plain).2
  let g := ((g.connect (some 0) 1).connect (some 0) 2).connect (some 1) 2
  ((g.connect (some 2) 1).addNode 1 (.expr (.ident ⟨⟨.none, 1⟩, "x"⟩))).addNode 2
    (.expr (.ident ⟨⟨.none, 2⟩, "x"⟩))

/-- Node 1 assigns a variable and node 2 reads it. -/
def crossingFacts : Facts where
  defs n := if n.id = 1 then [⟨0, "x", .local, .none⟩] else []
  uses n := if n.id = 2 then [⟨⟨0, "x", .local, .none⟩, ⟨"", 1, 1⟩⟩] else []
  raises _ := []
  catches _ := .any
  constant _ := none

theorem reported_crossing : crossing.Assembled ∧ crossing.preds crossing.entry = [] ∧
    ∃ reported : List Use,
      (checkAssignments crossingFacts (.ofGraph
        (crossing.computeDominance.computeFrontiers.insertPhis crossingFacts))).diagnostics =
          reported.map Assignment.finding ∧
      reported.Nodup ∧ ∀ u, u ∈ reported ↔ crossing.ReadsUnassigned crossingFacts u := by
  have hassembled : crossing.Assembled := by
    refine .addNode _ (.addNode _ (.connect (.connect (.connect (.connect
      (.newBlock _ (.newBlock _ (.ofName _))) ?_ ?_) ?_ ?_) ?_ ?_) ?_ ?_) ?_) ?_ <;> decide
  have hentry : crossing.preds crossing.entry = [] := by decide
  exact ⟨hassembled, hentry, reported_iff_readsUnassigned crossingFacts hassembled hentry⟩

end Analysis

end FlowCheck
