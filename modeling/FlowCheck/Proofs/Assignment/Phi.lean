import FlowCheck.Proofs.Assignment.Placement

/-!
# Where phis stand

`insertPhis` gives a variable a phi on the frontier of every reachable block that defines it or has
a phi for it, and nowhere else. Every phi belongs to its block, starts with one unset operand for
each edge into it, and stands in a block that some edge enters.
-/
namespace FlowCheck.Graph

open Dominance

/-- Some node of the block assigns the variable. -/
def Defines (g : Graph) (facts : Facts) (b : BlockId) (v : Var) : Prop :=
  ∃ n ∈ g.nodes b, v ∈ facts.defs n

def HasPhi (g : Graph) (b : BlockId) (v : Var) : Prop := ∃ p ∈ g.phis b, p.var = v

/-! ### Definitions by variable -/

theorem mem_ite_contains {α : Type} [DecidableEq α] {l : List α} {a x : α} :
    x ∈ (if l.contains a then l else l ++ [a]) ↔ x ∈ l ∨ x = a := by
  split_ifs with ha
  · rw [List.contains_iff_mem] at ha
    exact ⟨.inl, fun h => h.elim id fun heq => heq ▸ ha⟩
  · rw [List.mem_append, List.mem_singleton]

theorem nodup_ite_contains {α : Type} [DecidableEq α] {l : List α} (hl : l.Nodup) (a : α) :
    (if l.contains a then l else l ++ [a]).Nodup := by
  split_ifs with ha
  · exact hl
  · rw [List.contains_iff_mem] at ha
    exact hl.append (List.nodup_singleton a) (by simpa using ha)

theorem nodup_definedVars (defs : List (BlockId × List Var)) : (definedVars defs).Nodup := by
  have hfold : ∀ (vs acc : List Var), acc.Nodup →
      (vs.foldl (fun vars v => if vars.contains v then vars else vars ++ [v]) acc).Nodup := by
    intro vs
    induction vs with
    | nil => exact fun _ h => h
    | cons x vs ih => exact fun acc h => ih _ (nodup_ite_contains h x)
  exact hfold _ [] List.nodup_nil

theorem mem_definedVars {v : Var} {defs : List (BlockId × List Var)} :
    v ∈ definedVars defs ↔ ∃ d ∈ defs, v ∈ d.2 := by
  have hfold : ∀ (vs acc : List Var),
      v ∈ vs.foldl (fun vars v => if vars.contains v then vars else vars ++ [v]) acc ↔
        v ∈ vs ∨ v ∈ acc := by
    intro vs
    induction vs with
    | nil => simp
    | cons x vs ih =>
      intro acc
      rw [List.foldl_cons, ih, mem_ite_contains, List.mem_cons]
      tauto
  rw [definedVars, hfold, List.mem_flatMap]
  simp

theorem mem_definingBlocks {v : Var} {b : BlockId} {defs : List (BlockId × List Var)} :
    b ∈ definingBlocks defs v ↔ ∃ d ∈ defs, d.1 = b ∧ v ∈ d.2 := by
  have hfold : ∀ (ds : List (BlockId × List Var)) (acc : List BlockId),
      b ∈ ds.foldl (fun ids d => insertSorted d.1 ids) acc ↔ b ∈ ds.map Prod.fst ∨ b ∈ acc := by
    intro ds acc
    rw [← mem_foldl_insertSorted, List.foldl_map]
  rw [definingBlocks, hfold]
  simp only [List.mem_map, List.mem_filter, List.contains_iff_mem, List.not_mem_nil, or_false]
  constructor
  · rintro ⟨d, ⟨hd, hv⟩, rfl⟩
    exact ⟨d, hd, rfl, hv⟩
  · rintro ⟨d, hd, rfl, hv⟩
    exact ⟨d, ⟨hd, hv⟩, rfl⟩

theorem mem_definitions {g : Graph} {facts : Facts} {post : List BlockId} (hg : g.WellFormed)
    (ht : DominatorTree g post) {b : BlockId} {v : Var} :
    (∃ d ∈ g.definitions facts, d.1 = b ∧ v ∈ d.2) ↔ g.Reachable b ∧ g.Defines facts b v := by
  simp only [definitions, reachableBlocks, List.mem_map, List.mem_filter, ht.isReachable_iff]
  constructor
  · rintro ⟨-, ⟨x, ⟨hx, hr⟩, rfl⟩, rfl, hv⟩
    obtain ⟨i, hi, rfl⟩ := List.getElem_of_mem hx
    have hblock : g.block i = g.blocks.toList[i] :=
      block_of_getElem? (by simp [Array.getElem?_eq_getElem (by simpa using hi)])
    have hid : g.blocks.toList[i].id = i := by
      rw [← hblock]
      exact hg.id_eq i (by simpa using hi)
    rw [hid] at hr ⊢
    refine ⟨hr, ?_⟩
    simpa [Defines, nodes, hblock, blockDefs] using hv
  · rintro ⟨hr, n, hn, hv⟩
    have hlt := hr.lt_size hg
    have hid := hg.id_eq b hlt
    refine ⟨_, ⟨g.block b, ⟨?_, hid.symm ▸ hr⟩, rfl⟩, hid, ?_⟩
    · exact Array.mem_toList_iff.mpr (Array.mem_of_getElem? (getElem?_of_lt hlt))
    · exact List.mem_flatMap.mpr ⟨n, hn, hv⟩

/-- The reachable blocks that assign the variable. -/
def definers (g : Graph) (facts : Facts) (v : Var) : Set BlockId :=
  {b | g.Reachable b ∧ g.Defines facts b v}

/-! ### What placing leaves alone -/

theorem sameTree_add (v : Var) (p : Placement) (d : BlockId) :
    SameTree p.graph (p.add v d).graph := by
  unfold Placement.add
  split_ifs
  · exact SameTree.refl _
  · exact sameTree_addPhi _ v d
  · exact sameTree_addPhi _ v d

theorem sameTree_foldl_add (v : Var) (ds : List BlockId) (p : Placement) :
    SameTree p.graph (ds.foldl (Placement.add v) p).graph := by
  induction ds generalizing p with
  | nil => exact SameTree.refl _
  | cons d ds ih => exact (sameTree_add v p d).trans (ih _)

theorem sameTree_settle (v : Var) (fuel : ℕ) (p : Placement) :
    SameTree p.graph (p.settle v fuel).graph := by
  induction fuel generalizing p with
  | zero => exact SameTree.refl _
  | succ fuel ih =>
    rw [Placement.settle]
    cases p.work with
    | nil => exact SameTree.refl _
    | cons b work =>
      have hadd := sameTree_foldl_add v (p.graph.block b).frontier { p with work }
      exact hadd.trans (ih _)

theorem graph_foldl_queue (bs : List BlockId) (p : Placement) :
    (bs.foldl Placement.queue p).graph = p.graph := by
  induction bs generalizing p with
  | nil => rfl
  | cons b bs ih => exact ih (p.queue b)

theorem sameTree_placePhis (g : Graph) (defs : List (BlockId × List Var)) (vars : List Var) :
    SameTree g (g.placePhis defs vars) := by
  have hplace : ∀ (p : Placement) (v : Var) (bs : List BlockId),
      SameTree p.graph (p.place v bs).graph := by
    intro p v bs
    have h := sameTree_settle v (bs.length + p.graph.blocks.size + 1) (bs.foldl Placement.queue p.next)
    rwa [graph_foldl_queue] at h
  have hfold : ∀ (vs : List Var) (p : Placement),
      SameTree p.graph (vs.foldl (fun p v => p.place v (definingBlocks defs v)) p).graph := by
    intro vs
    induction vs with
    | nil => exact fun p => SameTree.refl _
    | cons v vs ih => exact fun p => (hplace p v _).trans (ih _)
  exact hfold vars (Placement.ofGraph g)

theorem sameTree_insertPhis (g : Graph) (facts : Facts) : SameTree g (g.insertPhis facts) :=
  sameTree_placePhis g _ _

theorem fits_ofGraph (g : Graph) : (Placement.ofGraph g).Fits g where
  tree := SameTree.refl g
  frontier_eq _ := rfl
  size_queued := Array.size_replicate
  size_placed := Array.size_replicate
  marked b := by
    simp only [Placement.ofGraph, Array.getD_eq_getD_getElem?, Array.getElem?_replicate]
    split_ifs <;> simp

/-! ### All variables -/

section Placed

variable {g : Graph} {facts : Facts} {post : List BlockId}

theorem mem_definingBlocks_definitions (hg : g.WellFormed) (ht : DominatorTree g post) (v : Var)
    (b : BlockId) :
    b ∈ definingBlocks (g.definitions facts) v ↔ b ∈ g.definers facts v := by
  rw [mem_definingBlocks, mem_definitions hg ht]
  rfl

theorem mem_definedVars_definitions (hg : g.WellFormed) (ht : DominatorTree g post) {v : Var} :
    v ∈ definedVars (g.definitions facts) ↔ (g.definers facts v).Nonempty := by
  rw [mem_definedVars]
  constructor
  · rintro ⟨d, hd, hv⟩
    exact ⟨d.1, (mem_definitions hg ht).mp ⟨d, hd, rfl, hv⟩⟩
  · rintro ⟨b, hb⟩
    obtain ⟨d, hd, -, hv⟩ := (mem_definitions hg ht).mpr hb
    exact ⟨d, hd, hv⟩

theorem Meets.nonempty {S : Set BlockId} {d : BlockId} (h : g.Meets S d) : S.Nonempty := by
  induction h with
  | first hu _ => exact ⟨_, hu⟩
  | again _ _ ih => exact ih

open Classical in
/-- Variable after variable, every block gets a phi for those whose definitions meet there. -/
theorem phis_placePhis (hg : g.WellFormed) (ht : DominatorTree g post) (hf : g.KnowsFrontiers)
    (vars : List Var) (b : BlockId) :
    (g.placePhis (g.definitions facts) vars).phis b =
      g.phis b ++ (vars.filter fun v => g.Meets (g.definers facts v) b).map (g.blankPhi b) := by
  have hfold : ∀ (vs : List Var) (p : Placement), p.Fits g →
      (vs.foldl (fun p v => p.place v (definingBlocks (g.definitions facts) v)) p).graph.phis b =
        p.graph.phis b ++ (vs.filter fun v => g.Meets (g.definers facts v) b).map (g.blankPhi b) := by
    intro vs
    induction vs with
    | nil => simp
    | cons v vs ih =>
      intro p hp
      obtain ⟨hfits, hphis⟩ := place_spec hg hf hp v (mem_definingBlocks_definitions hg ht v)
        fun _ hb => hb.1
      rw [List.foldl_cons, ih _ hfits, hphis, List.append_assoc]
      by_cases hv : g.Meets (g.definers facts v) b <;> simp [hv]
  exact hfold vars _ (fits_ofGraph g)

/-- A block has a phi for a variable exactly if definitions of the variable meet there. -/
theorem hasPhi_insertPhis (hg : g.WellFormed) (ht : DominatorTree g post) (hf : g.KnowsFrontiers)
    (hphis : ∀ b, g.phis b = []) {b : BlockId} {v : Var} :
    (g.insertPhis facts).HasPhi b v ↔ g.Meets (g.definers facts v) b := by
  rw [HasPhi, insertPhis, phis_placePhis hg ht hf, hphis, List.nil_append]
  simp only [List.mem_map, List.mem_filter, decide_eq_true_eq]
  constructor
  · rintro ⟨p, ⟨w, ⟨-, hw⟩, rfl⟩, rfl⟩
    exact hw
  · intro hv
    exact ⟨_, ⟨v, ⟨(mem_definedVars_definitions hg ht).mpr hv.nonempty, hv⟩, rfl⟩, rfl⟩

/-- What the rest of the analysis relies on about the phis of a graph. -/
structure PhisPlaced (g : Graph) (facts : Facts) : Prop where
  blank : ∀ b, ∀ p ∈ g.phis b, p = g.blankPhi b p.var
  entered : ∀ b, ∀ p ∈ g.phis b, ∃ q, g.Reachable q ∧ g.Edge q b
  closed : ∀ b d v, g.Reachable b → g.Defines facts b v ∨ g.HasPhi b v → g.InFrontier b d →
    g.HasPhi d v

theorem phisPlaced_insertPhis (hg : g.WellFormed) (ht : DominatorTree g post)
    (hf : g.KnowsFrontiers) (hphis : ∀ b, g.phis b = []) :
    PhisPlaced (g.insertPhis facts) facts := by
  have hsame := sameTree_insertPhis g facts
  refine ⟨?_, ?_, ?_⟩
  · intro b p hp
    rw [insertPhis, phis_placePhis hg ht hf, hphis, List.nil_append] at hp
    obtain ⟨v, -, rfl⟩ := List.mem_map.mp hp
    rw [blankPhi, blankPhi, hsame.preds_eq]
  · intro b p hp
    have hb : g.Meets (g.definers facts p.var) b :=
      (hasPhi_insertPhis hg ht hf hphis).mp ⟨p, hp, rfl⟩
    obtain ⟨u, q, hq, -, he, -⟩ : ∃ u, g.InFrontier u b := by
      cases hb with
      | first _ hd => exact ⟨_, hd⟩
      | again _ hd => exact ⟨_, hd⟩
    exact ⟨q, hsame.reachable_iff.mpr hq, (hsame.edge_iff q b).mpr he⟩
  · intro b d v hb hv hbd
    rw [hsame.inFrontier_iff] at hbd
    apply (hasPhi_insertPhis hg ht hf hphis).mpr
    rcases hv with ⟨n, hn, hv⟩ | hv
    · rw [hsame.nodes_eq] at hn
      exact .first ⟨hsame.reachable_iff.mp hb, n, hn, hv⟩ hbd
    · exact .again ((hasPhi_insertPhis hg ht hf hphis).mp hv) hbd

end Placed

/-! ### Placed and needed phis -/

/-- The phis for a variable in a block. -/
def phisFor (g : Graph) (v : Var) (b : BlockId) : List Phi := (g.phis b).filter fun p => p.var = v

section Needed

variable {g : Graph} {facts : Facts} {post : List BlockId}

theorem Meets.congr {g' : Graph} (h : SameShape g g') {S : Set BlockId} {d : BlockId} :
    g'.Meets S d ↔ g.Meets S d := by
  constructor <;> intro hd
  · induction hd with
    | first hu hd => exact .first hu (h.inFrontier_iff.mp hd)
    | again _ hd ih => exact .again ih (h.inFrontier_iff.mp hd)
  · induction hd with
    | first hu hd => exact .first hu (h.inFrontier_iff.mpr hd)
    | again _ hd ih => exact .again ih (h.inFrontier_iff.mpr hd)

theorem definers_congr {g' : Graph} (h : SameShape g g') (facts : Facts) (v : Var) :
    g'.definers facts v = g.definers facts v := by
  simp only [definers, Defines, h.reachable_iff, h.nodes_eq]

theorem definers_congr_facts (g : Graph) {facts' : Facts} {v : Var}
    (h : ∀ n, v ∈ facts'.defs n ↔ v ∈ facts.defs n) :
    g.definers facts' v = g.definers facts v := by
  simp only [definers, Defines, h]

open Classical in
/-- In whatever order the variables come, a variable gets its phis where its definitions meet. -/
theorem phisFor_placePhis (hg : g.WellFormed) (ht : DominatorTree g post) (hf : g.KnowsFrontiers)
    (hphis : ∀ b, g.phis b = []) {vars : List Var}
    (hvars : vars.Perm (definedVars (g.definitions facts))) (v : Var) (b : BlockId) :
    (g.placePhis (g.definitions facts) vars).phisFor v b =
      if g.Meets (g.definers facts v) b then [g.blankPhi b v] else [] := by
  have hnodup : vars.Nodup := hvars.nodup_iff.mpr (nodup_definedVars _)
  have hmem : g.Meets (g.definers facts v) b → v ∈ vars := fun hv =>
    hvars.mem_iff.mpr ((mem_definedVars_definitions hg ht).mpr hv.nonempty)
  have hone : (vars.filter fun w => g.Meets (g.definers facts w) b).filter (· = v) =
      if g.Meets (g.definers facts v) b then [v] else [] := by
    rw [List.filter_eq, (hnodup.filter _).count]
    by_cases hv : g.Meets (g.definers facts v) b
    · simp [hv, hmem hv]
    · simp [hv]
  rw [phisFor, phis_placePhis hg ht hf, hphis, List.nil_append, List.filter_map]
  have hvar : ((fun p : Phi => decide (p.var = v)) ∘ g.blankPhi b) = fun w => decide (w = v) := rfl
  rw [hvar, hone]
  split_ifs <;> rfl

end Needed

/-- Phis stand exactly where definitions meet. The blocks with a phi for a variable form the least
set that is the frontier of the reachable blocks that assign the variable and of the set itself;
each of them has one phi, with an unset operand for every predecessor. Neither what is assigned to
other variables nor the order in which the variables come plays a part. -/
theorem insertPhis_exact {g : Graph} (facts : Facts) (hg : g.Assembled) (v : Var) :
    let h := g.computeDominance.computeFrontiers
    ∃ X : Set BlockId,
      IsLeast {X | X = g.frontiers (g.definers facts v ∪ X)} X ∧
      (∀ b ∈ X, (h.insertPhis facts).phisFor v b = [g.blankPhi b v]) ∧
      (∀ b ∉ X, (h.insertPhis facts).phisFor v b = []) ∧
      ∀ (facts' : Facts) (vars : List Var), (∀ n, v ∈ facts'.defs n ↔ v ∈ facts.defs n) →
        vars.Perm (definedVars (h.definitions facts')) →
        ∀ b, (h.placePhis (h.definitions facts') vars).phisFor v b =
          (h.insertPhis facts).phisFor v b := by
  intro h
  have hdom := dominatorTree_computeDominance hg.wellFormed
  have hwell := (sameShape_computeDominance g).wellFormed hg.wellFormed
  have hsame := sameTree_computeFrontiers g.computeDominance
  have hshape : SameShape g h := (sameShape_computeDominance g).trans hsame.toSameShape
  have hnone : ∀ b, h.phis b = [] := by
    intro b
    rw [phis_computeFrontiers, phis_computeDominance, hg.phis_eq_nil]
  have hblank : ∀ b, h.blankPhi b v = g.blankPhi b v := by
    intro b
    rw [blankPhi, blankPhi, hshape.preds_eq]
  have hplaced : ∀ {facts : Facts} {vars : List Var},
      vars.Perm (definedVars (h.definitions facts)) → ∀ b,
      (h.placePhis (h.definitions facts) vars).phisFor v b =
        open Classical in if g.Meets (g.definers facts v) b then [g.blankPhi b v] else [] := by
    intro facts vars hvars b
    rw [phisFor_placePhis (hsame.wellFormed hwell) (hsame.dominatorTree hdom)
      (knowsFrontiers_computeFrontiers hdom hwell) hnone hvars, hblank, definers_congr hshape]
    by_cases hv : g.Meets (g.definers facts v) b
    · rw [if_pos hv, if_pos ((Meets.congr hshape).mpr hv)]
    · rw [if_neg hv, if_neg (mt (Meets.congr hshape).mp hv)]
  refine ⟨{d | g.Meets (g.definers facts v) d}, isLeast_meets g _, ?_, ?_, ?_⟩
  · intro b hb
    exact (hplaced (List.Perm.refl _) b).trans (if_pos hb)
  · intro b hb
    exact (hplaced (List.Perm.refl _) b).trans (if_neg hb)
  · intro facts' vars hdefs hvars b
    rw [hplaced hvars, insertPhis, hplaced (List.Perm.refl _), definers_congr_facts g hdefs]

/-- The divided loop with an assignment to `x` on one side of its body; after the loop `x` is read
for an assignment to `y`, and then `y` is read. -/
def assigningLoop : Graph :=
  let g := dividedLoop.addNode 3 (.expr (.ident ⟨⟨.none, 1⟩, "x"⟩))
  (g.addNode 6 (.expr (.ident ⟨⟨.none, 2⟩, "y"⟩))).addNode 6 (.expr (.ident ⟨⟨.none, 3⟩, "y"⟩))

namespace assigningLoop

def x : Var := ⟨0, "x", .local, .none⟩

def y : Var := ⟨1, "y", .local, .none⟩

def facts : Facts where
  defs n := if n.id = 1 then [x] else if n.id = 2 then [y] else []
  uses n := if n.id = 2 then [⟨x, ⟨"", 7, 5⟩⟩] else if n.id = 3 then [⟨y, ⟨"", 8, 1⟩⟩] else []
  raises _ := []
  catches _ := .any
  constant _ := none

theorem assembled : assigningLoop.Assembled := by
  refine .addNode _ (.addNode _ (.addNode _ assembled_dividedLoop ?_) ?_) ?_ <;> decide

theorem insertPhis_x : assigningLoop.Assembled ∧
    ∃ X : Set BlockId, IsLeast
      {X | X = assigningLoop.frontiers (assigningLoop.definers facts x ∪ X)} X ∧
      1 ∈ X ∧ 5 ∈ X ∧ 3 ∉ X ∧
      (assigningLoop.computeDominance.computeFrontiers.placePhis
        (assigningLoop.computeDominance.computeFrontiers.definitions facts) [y, x]).phisFor x 5 =
          [assigningLoop.blankPhi 5 x] := by
  obtain ⟨X, hleast, hin, hout, hany⟩ := insertPhis_exact facts assembled x
  have hmem : ∀ b, ((assigningLoop.computeDominance.computeFrontiers.insertPhis facts).phisFor x
      b).length = 1 → b ∈ X := by
    intro b hb
    by_contra hn
    rw [hout b hn] at hb
    cases hb
  have h5 : 5 ∈ X := hmem 5 (by decide +kernel)
  refine ⟨assembled, X, hleast, hmem 1 (by decide +kernel), h5, ?_, ?_⟩
  · intro h3
    have hlen := congrArg List.length (hin 3 h3)
    revert hlen
    decide +kernel
  · rw [hany facts [y, x] (fun _ => Iff.rfl) (by decide +kernel) 5, hin 5 h5]

end assigningLoop

end FlowCheck.Graph
