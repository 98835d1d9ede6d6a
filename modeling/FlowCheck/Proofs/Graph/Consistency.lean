import FlowCheck.Flow.Verify
import FlowCheck.Proofs.Dominance.Tree

/-!
# What verification accepts

Verification looks at lists of edges and phis and at the dominator tree, if there is one. A graph
whose edges, phis and dominators are what they should be has no defects. Conversely, the lists of
edges of a graph without defects name the same edges; but a block may name a predecessor twice, and
then a phi has more operands than there are edges into its block.
-/
namespace FlowCheck.Graph

/-- Edges, return and exit, phis and, once it has been computed, dominance are as they should be. -/
structure Consistent (g : Graph) : Prop where
  wellFormed : g.WellFormed
  preds_entry : g.preds 0 = []
  exit_lt : ∀ x, g.exit = some x → x < g.blocks.size
  exit_succs : ∀ x, g.exit = some x → g.succs x = []
  ret_edge : ∀ r x, g.ret = some r → g.exit = some x → g.Edge r x
  phis_fit : ∀ b, ∀ p ∈ g.phis b, p.block = b ∧ p.operands.length = (g.preds b).length
  tree : ∀ order, g.order = some order → ∃ post, DominatorTree g post

variable {g : Graph}

@[simp] theorem orDefect_true (d : Defect) : orDefect true d = [] := rfl

@[simp] theorem orDefect_eq_nil_iff (ok : Bool) (d : Defect) : orDefect ok d = [] ↔ ok = true := by
  cases ok <;> simp [orDefect]

theorem entryDefects_eq_nil (h : g.Consistent) : g.entryDefects = [] := by
  simp [entryDefects, h.wellFormed.entry_eq, h.preds_entry]

theorem exitDefects_eq_nil (h : g.Consistent) : g.exitDefects = [] := by
  unfold exitDefects
  split
  · rename_i r x hr hx
    have hedge := h.ret_edge r x hr hx
    have hr_lt := lt_of_mem_succs hedge
    have hx_lt := h.exit_lt x hx
    have hedge' := (hasEdge_iff g r x).mpr hedge
    simp [isBlock, hr_lt, hx_lt, hedge', h.exit_succs x hx]
  · rfl

/-- Edges that are listed once and known to their targets. -/
theorem succDefects_eq_nil_iff {b : BlockId} {seen l : List BlockId} :
    g.succDefects b seen l = [] ↔
      l.Nodup ∧ ∀ s ∈ l, s ∉ seen ∧ s < g.blocks.size ∧ b ∈ g.preds s := by
  induction l generalizing seen with
  | nil => simp [succDefects]
  | cons s rest ih =>
    by_cases hs : s < g.blocks.size
    · have hstep : g.succDefects b seen (s :: rest) = [] ↔
          (s ∉ seen ∧ b ∈ g.preds s) ∧ g.succDefects b (s :: seen) rest = [] := by
        simp [succDefects, isBlock, hs, and_assoc]
      rw [hstep, ih]
      simp only [List.nodup_cons, List.mem_cons, not_or, forall_eq_or_imp]
      constructor
      · rintro ⟨⟨hnew, hpred⟩, hn, hall⟩
        have hrest : s ∉ rest := fun h => (hall s h).1.1 rfl
        exact ⟨⟨hrest, hn⟩, ⟨hnew, hs, hpred⟩, fun x hx => ⟨(hall x hx).1.2, (hall x hx).2⟩⟩
      · rintro ⟨⟨hrest, hn⟩, ⟨hnew, -, hpred⟩, hall⟩
        refine ⟨⟨hnew, hpred⟩, hn, fun x hx => ⟨⟨?_, (hall x hx).1⟩, (hall x hx).2⟩⟩
        rintro rfl
        exact hrest hx
    · simp [succDefects, isBlock, hs]

theorem predDefects_eq_nil_iff {b : BlockId} {l : List BlockId} :
    g.predDefects b l = [] ↔ ∀ p ∈ l, p < g.blocks.size ∧ b ∈ g.succs p := by
  rw [predDefects, List.flatMap_eq_nil_iff]
  refine forall₂_congr fun p _ => ?_
  by_cases hp : p < g.blocks.size
  · simp [isBlock, hp, orDefect_eq_nil_iff, hasEdge_iff]
  · simp [isBlock, hp]

theorem phiDefects_eq_nil_iff {x : BasicBlock} :
    phiDefects x = [] ↔
      ∀ p ∈ x.phis, p.block = x.id ∧ p.operands.length = x.preds.length := by
  rw [phiDefects, List.flatMap_eq_nil_iff]
  refine forall₂_congr fun p _ => ?_
  simp [orDefect_eq_nil_iff]

theorem mem_numbered_iff {b : BlockId} {x : BasicBlock} :
    (b, x) ∈ g.numbered ↔ b < g.blocks.size ∧ x = g.block b := by
  rw [List.mem_iff_getElem?]
  constructor
  · rintro ⟨k, hk⟩
    rw [numbered, List.getElem?_zip_eq_some] at hk
    obtain ⟨hb, hx⟩ := hk
    obtain ⟨hlt, rfl⟩ := List.getElem?_eq_some_iff.mp hb
    rw [Array.getElem?_toList] at hx
    rw [List.getElem_range]
    exact ⟨by simpa using hlt, (block_of_getElem? hx).symm⟩
  · rintro ⟨hb, rfl⟩
    refine ⟨b, ?_⟩
    rw [numbered, List.getElem?_zip_eq_some]
    refine ⟨by simp [hb], ?_⟩
    rw [Array.getElem?_toList]
    exact getElem?_of_lt hb

/-- What verification makes sure of about one block. -/
theorem blockDefects_eq_nil_iff {b : BlockId} :
    g.blockDefects b (g.block b) = [] ↔ (g.block b).id = b ∧
      ((g.succs b).Nodup ∧ ∀ s ∈ g.succs b, s < g.blocks.size ∧ b ∈ g.preds s) ∧
      (∀ p ∈ g.preds b, p < g.blocks.size ∧ b ∈ g.succs p) ∧
      ∀ p ∈ g.phis b, p.block = b ∧ p.operands.length = (g.preds b).length := by
  by_cases hid : (g.block b).id = b
  · rw [blockDefects, if_pos hid, List.append_eq_nil_iff, List.append_eq_nil_iff, hid,
      succDefects_eq_nil_iff, predDefects_eq_nil_iff, phiDefects_eq_nil_iff, hid]
    simp [succs, preds, phis, and_assoc]
  · simp [blockDefects, hid]

theorem Consistent.blockDefects_eq_nil (h : g.Consistent) {b : BlockId} (hb : b < g.blocks.size) :
    g.blockDefects b (g.block b) = [] := by
  have hg := h.wellFormed
  refine blockDefects_eq_nil_iff.mpr ⟨hg.id_eq b hb, ⟨hg.succs_nodup b, ?_⟩, ?_, h.phis_fit b⟩
  · exact fun s hs => ⟨hg.succ_lt hs, (hg.mem_preds b s).mpr hs⟩
  · intro p hp
    have hedge := (hg.mem_preds p b).mp hp
    exact ⟨lt_of_mem_succs hedge, hedge⟩

theorem dominanceDefects_eq_nil {post order : List BlockId} (hg : g.WellFormed)
    (h : DominatorTree g post) (horder : g.order = some order) : g.dominanceDefects order = [] := by
  obtain rfl : post.reverse = order := Option.some_inj.mp (h.order_eq.symm.trans horder)
  rw [dominanceDefects, h.idom_entry, List.nil_append, List.flatMap_eq_nil_iff]
  intro b hb
  have hreach : g.Reachable b := (h.postorder.mem_iff b).mp (List.mem_reverse.mp hb)
  unfold idomDefects
  split_ifs with hentry
  · rfl
  obtain ⟨d, hd⟩ := h.exists_idom hreach hentry
  have hne := h.ne hd
  simp only [hd, hne, if_false]
  rw [List.flatMap_eq_nil_iff]
  intro p hp
  have hok : (!g.isReachable p || Graph.dominates g d p) = true := by
    rw [Bool.or_eq_true, Bool.not_eq_true']
    by_cases hr : g.Reachable p
    · refine .inr ((h.dominates_iff hg hr).mpr ?_)
      exact (h.dominates hd).pred hne ((hg.mem_preds p b).mp hp)
    · refine .inl ?_
      rw [Bool.eq_false_iff, ne_eq, h.isReachable_iff]
      exact hr
  rw [hok, orDefect_true]

theorem Consistent.defects_eq_nil (h : g.Consistent) : g.defects = [] := by
  have hsize : g.blocks.isEmpty = false := by
    simpa [Array.isEmpty] using Nat.ne_of_gt h.wellFormed.size_pos
  have hblocks : ∀ i x, (i, x) ∈ g.numbered → g.blockDefects i x = [] := by
    intro i x hx
    obtain ⟨hi, rfl⟩ := mem_numbered_iff.mp hx
    exact h.blockDefects_eq_nil hi
  have horder : g.order.elim [] g.dominanceDefects = [] := by
    cases hg : g.order with
    | none => rfl
    | some order =>
      obtain ⟨post, htree⟩ := h.tree order hg
      exact dominanceDefects_eq_nil h.wellFormed htree hg
  have hnone : g.entryDefects ++ g.exitDefects = [] := by
    rw [entryDefects_eq_nil h, exitDefects_eq_nil h, List.append_nil]
  rw [defects, hsize, hnone]
  simp [horder, List.flatMap_eq_nil_iff.2 fun (p : BlockId × BasicBlock) hp => hblocks p.1 p.2 hp]

theorem Consistent.verify_eq_none (h : g.Consistent) : g.verify = none := by
  rw [verify, h.defects_eq_nil]

/-! ### What an accepted graph is like -/

/-- Blocks know their numbers, both lists of every edge name blocks of the graph and know the same
edges, and phis are as wide as the list of predecessors. An edge is listed once among the successors
of its source; how often its target lists it is left open. -/
structure Mirrored (g : Graph) : Prop where
  id_eq : ∀ b < g.blocks.size, (g.block b).id = b
  in_range : ∀ a, (∀ s ∈ g.succs a, s < g.blocks.size) ∧ ∀ p ∈ g.preds a, p < g.blocks.size
  edges : ∀ a b, (g.succs a).count b = 1 ∧ 1 ≤ (g.preds b).count a ∨
    (g.succs a).count b = 0 ∧ (g.preds b).count a = 0
  phis_fit : ∀ b, ∀ p ∈ g.phis b, p.operands.length = (g.preds b).length

/-- Looking up predecessors pairs the edges into a block with the operands of a phi of it. -/
structure SlotPerEdge (g : Graph) (b : BlockId) (p : Phi) : Prop where
  slot : ∀ a, g.Edge a b → ∃ i < p.operands.length, (g.block b).predIndex? a = some i
  edge : ∀ i < p.operands.length, ∃! a, g.Edge a b ∧ (g.block b).predIndex? a = some i

theorem defects_eq_nil_of_verify (h : g.verify = none) : g.defects = [] := by
  rw [verify] at h
  split at h
  · assumption
  · cases h

/-- An accepted graph has been looked at block by block. -/
theorem blockDefects_of_verify (h : g.verify = none) {b : BlockId} (hb : b < g.blocks.size) :
    g.blockDefects b (g.block b) = [] := by
  have hdefects := defects_eq_nil_of_verify h
  have hsize : g.blocks.isEmpty = false := by
    simpa [Array.isEmpty] using Nat.ne_of_gt (Nat.zero_lt_of_lt hb)
  simp only [defects, hsize, Bool.false_eq_true, if_false] at hdefects
  split_ifs at hdefects with hrange hfound
  · rw [hdefects] at hrange
    simp at hrange
  · have hblocks := (List.append_eq_nil_iff.mp (List.isEmpty_iff.mp hfound)).2
    exact List.flatMap_eq_nil_iff.mp hblocks (b, g.block b) (mem_numbered_iff.mpr ⟨hb, rfl⟩)
  · simp [hdefects] at hfound

theorem Mirrored.of_verify (h : g.verify = none) : g.Mirrored := by
  have hblock {b : BlockId} (hb : b < g.blocks.size) :=
    blockDefects_eq_nil_iff.mp (blockDefects_of_verify h hb)
  have hsucc {a b : BlockId} (he : b ∈ g.succs a) : b < g.blocks.size ∧ a ∈ g.preds b :=
    (hblock (lt_of_mem_succs he)).2.1.2 b he
  have hpred {a b : BlockId} (he : a ∈ g.preds b) : a < g.blocks.size ∧ b ∈ g.succs a :=
    (hblock (lt_of_mem_preds he)).2.2.1 a he
  refine ⟨fun b hb => (hblock hb).1, fun a => ⟨fun s hs => (hsucc hs).1, fun p hp => (hpred hp).1⟩,
    fun a b => ?_, fun b p hp => ?_⟩
  · by_cases he : b ∈ g.succs a
    · have hnodup := (hblock (lt_of_mem_succs he)).2.1.1
      exact .inl ⟨List.count_eq_one_of_mem hnodup he, List.count_pos_iff.mpr (hsucc he).2⟩
    · have hp : a ∉ g.preds b := fun hp => he (hpred hp).2
      exact .inr ⟨List.count_eq_zero.mpr he, List.count_eq_zero.mpr hp⟩
  · have hb : b < g.blocks.size := by
      by_contra hb
      simp [phis, block_of_size_le (not_lt.mp hb), absent] at hp
    exact ((hblock hb).2.2.2 p hp).2

theorem Mirrored.mem_preds_iff (h : g.Mirrored) (a b : BlockId) :
    a ∈ g.preds b ↔ g.Edge a b := by
  rw [Edge, ← List.count_pos_iff, ← List.count_pos_iff]
  have := h.edges a b
  omega

/-- A predecessor that is listed twice leaves an operand without an edge. -/
theorem Mirrored.slotPerEdge_iff (h : g.Mirrored) {b : BlockId} {p : Phi} (hp : p ∈ g.phis b) :
    g.SlotPerEdge b p ↔ ∀ a, (g.preds b).count a ≤ 1 := by
  have hlength := h.phis_fit b p hp
  have hindex (a i : ℕ) : (g.block b).predIndex? a = some i ↔
      ∃ hi : i < (g.preds b).length, (g.preds b)[i] = a ∧ ∀ j (hj : j < i), (g.preds b)[j] ≠ a :=
    List.idxOf?_eq_some_iff
  rw [← List.nodup_iff_count_le_one]
  constructor
  · intro hslots
    refine List.nodup_iff_injective_getElem.mpr fun i j hij => ?_
    -- both places are where their predecessor is listed first
    obtain ⟨a, ⟨-, ha⟩, -⟩ := hslots.edge i (by rw [hlength]; exact i.2)
    obtain ⟨c, ⟨-, hc⟩, -⟩ := hslots.edge j (by rw [hlength]; exact j.2)
    obtain ⟨_, hia, -⟩ := (hindex a i).mp ha
    obtain ⟨_, hjc, -⟩ := (hindex c j).mp hc
    obtain rfl : a = c := hia.symm.trans (hij.trans hjc)
    exact Fin.ext (Option.some_inj.mp (ha.symm.trans hc))
  · intro hnodup
    constructor
    · intro a ha
      have hmem : a ∈ g.preds b := (h.mem_preds_iff a b).mpr ha
      obtain ⟨i, hi⟩ := Option.isSome_iff_exists.mp (List.isSome_idxOf?.mpr hmem)
      obtain ⟨hlt, -⟩ := (hindex a i).mp hi
      exact ⟨i, hlength ▸ hlt, hi⟩
    · intro i hi
      rw [hlength] at hi
      refine ⟨(g.preds b)[i], ⟨(h.mem_preds_iff _ b).mp (List.getElem_mem hi), ?_⟩, ?_⟩
      · refine (hindex _ i).mpr ⟨hi, rfl, fun j hj hji => ?_⟩
        exact Nat.ne_of_lt hj (hnodup.getElem_inj_iff.mp hji)
      · rintro a ⟨-, ha⟩
        obtain ⟨_, hia, -⟩ := (hindex a i).mp ha
        exact hia.symm

/-- The two lists of edges of an accepted graph name the same edges. Operands of phis match edges
exactly where no block lists a predecessor twice, which verification does not look at. -/
theorem mirrored_of_verify (h : g.verify = none) :
    g.Mirrored ∧
      ∀ b, ∀ p ∈ g.phis b, g.SlotPerEdge b p ↔ ∀ a, (g.preds b).count a ≤ 1 :=
  ⟨.of_verify h, fun _ _ hp => (Mirrored.of_verify h).slotPerEdge_iff hp⟩

/-- Two ways that meet in a block with a phi. -/
def meeting : Graph :=
  let g := (((Graph.ofName "meeting").newBlock .branch).2.newBlock .branch).2
  let g := (((g.newBlock .join).2.connect (some 0) 1).connect (some 0) 2).connect (some 1) 3
  (g.connect (some 2) 3).addPhi ⟨0, "x", .local, {}⟩ 3

theorem mirrored_meeting : meeting.verify = none ∧ meeting.Mirrored ∧
    ∀ p ∈ meeting.phis 3, meeting.SlotPerEdge 3 p := by
  have h : meeting.verify = none := by decide
  obtain ⟨hmirrored, hslots⟩ := mirrored_of_verify h
  have hpreds : meeting.preds 3 = [1, 2] := by decide
  refine ⟨h, hmirrored, fun p hp => (hslots 3 p hp).mpr ?_⟩
  rw [hpreds]
  exact List.nodup_iff_count_le_one.mp (by decide)

/-- One edge, listed twice by its target, and a phi there. -/
def doubledEdge : Graph :=
  let g := ((Graph.ofName "doubled").newBlock .plain).2.connect (some 0) 1
  (g.modifyBlock 1 fun b => { b with preds := [0, 0] }).addPhi ⟨0, "x", .local, {}⟩ 1

/-- Verification accepts an edge that its source lists once and its target twice. -/
theorem doubledEdge_accepted : doubledEdge.verify = none ∧
    (doubledEdge.succs 0).count 1 = 1 ∧ (doubledEdge.preds 1).count 0 = 2 ∧
    (doubledEdge.phis 1).map (·.operands.length) = [2] ∧
    ∀ a, (doubledEdge.block 1).predIndex? a ≠ some 1 := by
  refine ⟨by decide, by decide, by decide, by decide, fun a ha => ?_⟩
  have hpreds : (doubledEdge.block 1).preds = [0, 0] := by decide
  rw [BasicBlock.predIndex?, hpreds, List.idxOf?_eq_some_iff] at ha
  obtain ⟨_, hlast, hfirst⟩ := ha
  exact hfirst 0 Nat.one_pos hlast

end FlowCheck.Graph
