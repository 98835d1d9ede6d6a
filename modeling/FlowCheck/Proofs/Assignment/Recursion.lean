import FlowCheck.Proofs.Assignment.Exactness
import FlowCheck.Proofs.Dominance.Walk

/-!
# The recursion of renaming

Renaming a block makes versions, renames what is below the block and takes back as many versions of
each variable as it has made. A derivation of `Recurs` is such a recursion that has come to an end.
Whatever is done in between, every stack of versions is in the end what it was in the beginning, and
on a graph with a dominator tree the recursion from the entry comes to an end after the walk over
that tree.
-/
namespace FlowCheck

open FlowCheck.Graph Dominance

namespace Graph

/-- The variables that a block makes versions of: those of its phis, then those that its nodes
assign. -/
def versioned (g : Graph) (facts : Facts) (b : BlockId) : List Var :=
  (g.phis b).map Phi.var ++ (g.nodes b).flatMap facts.defs

/-- Every phi has an operand for each predecessor of its block. -/
def Fitted (g : Graph) : Prop := ∀ b, ∀ p ∈ g.phis b, p.operands.length = (g.preds b).length

theorem SameFrames.fitted {g g' : Graph} (h : SameFrames g g') (hg : g.Fitted) : g'.Fitted := by
  intro b p hp
  obtain ⟨i, hi⟩ := List.getElem?_of_mem hp
  obtain ⟨q, hq, hframe⟩ := h.exists_phi (r := ⟨b, i⟩) hi
  have hlength : q.operands.length = p.operands.length := congrArg (fun x => x.2.2) hframe
  rw [← hlength, hg b q (List.mem_of_getElem? hq), h.preds_eq]

end Graph

namespace Assignment

/-- The newest version of a variable goes out of effect. -/
def State.pop (s : State) (v : Var) : State := { s with live := s.live.eraseP fun x => x.var = v }

/-- The recursion of renaming, called for some blocks one after the other, and the blocks that it
enters. -/
inductive Recurs (facts : Facts) : List BlockId → State → List BlockId → State → Prop
  | done {s : State} : Recurs facts [] s [] s
  | call {b : BlockId} {bs below beside : List BlockId} {s t s' : State}
      (down : Recurs facts (s.graph.dominees b) (renameHere facts s b) below t)
      (next : Recurs facts bs ((s.graph.versioned facts b).foldl State.pop t) beside s') :
      Recurs facts (b :: bs) s (b :: (below ++ beside)) s'

/-! ### Versions that are made and taken back -/

/-- From `s` to `s'` one version of each of the variables has been made, in this order. -/
structure Pushes (vars : List Var) (s s' : State) : Prop where
  frames : SameFrames s.graph s'.graph
  live : ∃ new, s'.live = new ++ s.live ∧ new.map Version.var = vars.reverse
  misfit : s.graph.WellFormed → s.graph.Fitted → s'.misfit = s.misfit

section

variable {facts : Facts} {vars vars' : List Var} {s s' s'' : State} {b : BlockId}

namespace Pushes

theorem still (hf : SameFrames s.graph s'.graph) (hl : s'.live = s.live)
    (hm : s.graph.WellFormed → s.graph.Fitted → s'.misfit = s.misfit) : Pushes [] s s' :=
  ⟨hf, ⟨[], hl, rfl⟩, hm⟩

theorem refl (s : State) : Pushes [] s s := still (SameFrames.refl _) rfl fun _ _ => rfl

theorem trans (h : Pushes vars s s') (h' : Pushes vars' s' s'') :
    Pushes (vars ++ vars') s s'' where
  frames := h.frames.trans h'.frames
  live := by
    obtain ⟨new, hlive, hnew⟩ := h.live
    obtain ⟨new', hlive', hnew'⟩ := h'.live
    refine ⟨new' ++ new, ?_, ?_⟩
    · rw [hlive', hlive, List.append_assoc]
    · rw [List.map_append, hnew, hnew', List.reverse_append]
  misfit hg hfit :=
    (h'.misfit (h.frames.toSameShape.wellFormed hg) (h.frames.fitted hfit)).trans
      (h.misfit hg hfit)

theorem foldl {α : Type} (step : State → α → State) (made : α → List Var) (xs : List α)
    (s : State)
    (hstep : ∀ x ∈ xs, ∀ t, SameFrames s.graph t.graph → Pushes (made x) t (step t x)) :
    Pushes (xs.flatMap made) s (xs.foldl step s) := by
  induction xs generalizing s with
  | nil => exact refl s
  | cons x xs ih =>
    have hx := hstep x List.mem_cons_self s (SameFrames.refl _)
    refine hx.trans (ih _ fun y hy t ht => ?_)
    exact hstep y (List.mem_cons_of_mem x hy) t (hx.frames.trans ht)

theorem foldl_still {α : Type} (step : State → α → State) (xs : List α) (s : State)
    (hstep : ∀ x ∈ xs, ∀ t, SameFrames s.graph t.graph → Pushes [] t (step t x)) :
    Pushes [] s (xs.foldl step s) := by
  have hall := foldl step (fun _ => []) xs s hstep
  rwa [List.flatMap_eq_nil_iff.mpr fun _ _ => rfl] at hall

theorem live_eq (h : Pushes [] s s') : s'.live = s.live := by
  obtain ⟨new, hlive, hnew⟩ := h.live
  rw [hlive, List.map_eq_nil_iff.mp hnew, List.nil_append]

end Pushes

/-- Taking back one version of each of some variables leaves the versions below. -/
theorem foldl_eraseP {new rest : List Version} (h : (new.map Version.var).Perm vars) :
    vars.foldl (fun live v => live.eraseP fun x => x.var = v) (new ++ rest) = rest := by
  induction vars generalizing new with
  | nil => rw [List.map_eq_nil_iff.mp h.eq_nil, List.nil_append, List.foldl_nil]
  | cons v vars ih =>
    obtain ⟨x, hx, hv⟩ := List.mem_map.mp (h.mem_iff.mpr List.mem_cons_self)
    have herase := h.erase v
    rw [List.erase_cons_head, List.erase_eq_eraseP', List.eraseP_map] at herase
    rw [List.foldl_cons, List.eraseP_append_left (a := x) (by simpa using hv) rest hx]
    refine ih ?_
    simpa only [Function.comp_def, beq_eq_decide] using herase

theorem foldl_pop (vars : List Var) (s : State) : vars.foldl State.pop s =
    { s with live := vars.foldl (fun live v => live.eraseP fun x => x.var = v) s.live } := by
  induction vars generalizing s with
  | nil => rfl
  | cons v vars ih => rw [List.foldl_cons, ih, List.foldl_cons]; rfl

/-- Taking back what has been made is cutting the stack at its former height. -/
theorem Pushes.foldl_pop_eq (h : Pushes vars s s') : vars.foldl State.pop s' =
    { s' with live := s'.live.drop (s'.live.length - s.live.length) } := by
  obtain ⟨new, hlive, hnew⟩ := h.live
  rw [foldl_pop, hlive, foldl_eraseP (hnew ▸ vars.reverse_perm)]
  simp

theorem Pushes.restored (h : Pushes vars s s') : Pushes [] s (vars.foldl State.pop s') := by
  obtain ⟨new, hlive, hnew⟩ := h.live
  rw [foldl_pop]
  refine .still h.frames ?_ h.misfit
  rw [hlive, foldl_eraseP (hnew ▸ vars.reverse_perm)]

/-! ### What a block makes -/

theorem pushes_definePhi (s : State) (r : PhiRef) (v : Var) :
    Pushes [v] s (s.definePhi r.block r.index v) :=
  ⟨sameFrames_setResult s.graph r _, ⟨[(s.push v (some r)).1], rfl, rfl⟩, fun _ _ => rfl⟩

theorem pushes_read (s : State) (u : Use) : Pushes [] s (s.read u) := by
  cases h : s.current? u.var with
  | some x => rw [read_of_some h]; exact .still (SameFrames.refl _) rfl fun _ _ => rfl
  | none => rw [read_of_none h]; exact .still (SameFrames.refl _) rfl fun _ _ => rfl

theorem pushes_node (facts : Facts) (s : State) (n : Node) :
    Pushes (facts.defs n) s (s.node facts n) := by
  have hreads := Pushes.foldl_still State.read (facts.uses n) s fun u _ t _ => pushes_read t u
  have hdefs := Pushes.foldl (fun s v => (s.push v none).2) (fun v => [v]) (facts.defs n)
    ((facts.uses n).foldl State.read s) fun v _ t _ =>
      ⟨SameFrames.refl _, ⟨[(t.push v none).1], rfl, rfl⟩, fun _ _ => rfl⟩
  rw [List.flatMap_singleton'] at hdefs
  exact hreads.trans hdefs

/-- A phi of a graph that fits has a place for what arrives along an edge. -/
theorem pushes_arrive {d : BlockId} (he : s.graph.Edge b d) : Pushes [] s (s.arrive b d) := by
  have hstill : SameFrames s.graph (s.arrive b d).graph ∧ (s.arrive b d).live = s.live := by
    unfold State.arrive
    dsimp only
    split
    · exact ⟨SameFrames.refl _, rfl⟩
    · exact ⟨sameFrames_tell s.graph d _ s.current?, rfl⟩
  refine .still hstill.1 hstill.2 fun hg hfit => ?_
  obtain ⟨i, hi, hlt, -⟩ := exists_idxOf_preds hg he
  rw [arrive_eq hi fun p hp => (hfit d p hp).symm ▸ hlt]

theorem pushes_renameHere (facts : Facts) (s : State) (b : BlockId) :
    Pushes (s.graph.versioned facts b) s (renameHere facts s b) := by
  have hphis := Pushes.foldl (fun s (x : Phi × ℕ) => s.definePhi b x.2 x.1.var)
    (fun x => [x.1.var]) (s.graph.block b).phis.zipIdx s fun x _ t _ =>
      pushes_definePhi t ⟨b, x.2⟩ x.1.var
  have hvars : (s.graph.block b).phis.zipIdx.flatMap (fun x => [x.1.var]) =
      (s.graph.phis b).map Phi.var := by
    rw [← List.map_eq_flatMap, ← Function.comp_def Phi.var Prod.fst, ← List.map_map,
      List.zipIdx_map_fst, phis]
  rw [hvars] at hphis
  simp only [renameHere]
  generalize (s.graph.block b).phis.zipIdx.foldl (fun s x => s.definePhi b x.2 x.1.var) s = s₁
    at hphis ⊢
  have hnodes := hphis.trans (Pushes.foldl (State.node facts) facts.defs (s.graph.nodes b) s₁
    fun n _ t _ => pushes_node facts t n)
  rw [nodes] at hnodes
  generalize (s.graph.block b).nodes.foldl (State.node facts) s₁ = s₂ at hnodes ⊢
  have harrive := Pushes.foldl_still (fun s d => s.arrive b d) (s.graph.succs b) s₂
    fun d hd t ht => pushes_arrive (((hnodes.frames.trans ht).edge_iff b d).mpr hd)
  have hall := hnodes.trans harrive
  rwa [List.append_nil] at hall

theorem Recurs.pushes {bs visited : List BlockId} (h : Recurs facts bs s visited s') :
    Pushes [] s s' := by
  induction h with
  | done => exact .refl _
  | @call b bs below beside s t s' _ _ ihdown ihnext =>
    have hbelow := (pushes_renameHere facts s b).trans ihdown
    rw [List.append_nil] at hbelow
    exact hbelow.restored.trans ihnext

/-- Renaming with enough fuel is the recursion. -/
theorem recurs_foldl {g : Graph} {post : List BlockId} (ht : DominatorTree g post) (facts : Facts)
    (fuel : ℕ) (bs : List BlockId) (s : State) (hs : SameTree g s.graph)
    (hbs : ∀ b ∈ bs, g.Reachable b ∧ post.idxOf b < fuel) :
    Recurs facts bs s (bs.flatMap (g.treeBelow fuel)) (bs.foldl (block facts fuel) s) := by
  induction fuel generalizing bs s with
  | zero =>
    cases bs with
    | nil => exact .done
    | cons b bs => exact absurd (hbs b List.mem_cons_self).2 (Nat.not_lt_zero _)
  | succ fuel ih =>
    induction bs generalizing s with
    | nil => exact .done
    | cons b bs ihbs =>
      obtain ⟨-, hfuel⟩ := hbs b List.mem_cons_self
      have hhere := pushes_renameHere facts s b
      have hdown := ih (g.dominees b) (renameHere facts s b) (hs.trans hhere.frames.toSameTree)
        fun c hc => ht.fueled_of_mem_dominees hfuel hc
      rw [← hs.dominees_eq b] at hdown
      have hbelow := hhere.trans hdown.pushes
      rw [List.append_nil] at hbelow
      have hblock : block facts (fuel + 1) s b = (s.graph.versioned facts b).foldl State.pop
          ((s.graph.dominees b).foldl (block facts fuel) (renameHere facts s b)) :=
        (block_succ fuel s b).trans hbelow.foldl_pop_eq.symm
      rw [List.flatMap_cons, treeBelow, ← dominees, ← hs.dominees_eq b, List.cons_append,
        List.foldl_cons, hblock]
      refine .call hdown (ihbs _ (hs.trans hbelow.restored.frames.toSameTree) fun c hc => ?_)
      exact hbs c (List.mem_cons_of_mem b hc)

/-- Renaming from the entry is the walk over the dominator tree. -/
theorem recurs_entry {g h : Graph} {post : List BlockId} (ht : DominatorTree g post)
    (hg : g.WellFormed) (hs : SameTree g h) (facts : Facts) :
    Recurs facts [g.entry] { graph := h } g.dominatorTree
      (block facts (h.blocks.size + 1) { graph := h } h.entry) := by
  have hentry := Reachable.entry g
  have hfuel := ht.idxOf_lt_size hg hentry
  have hroot : ∀ b ∈ [g.entry], g.Reachable b ∧ post.idxOf b < g.blocks.size + 1 := by
    intro b hb
    rw [List.mem_singleton.mp hb]
    exact ⟨hentry, by omega⟩
  have hwalk := (ht.walks_treeBelow _ _ hroot).eq (ht.walks_dominatorTree hg)
  rw [hs.entry_eq]
  have hrecurs := recurs_foldl ht facts (g.blocks.size + 1) [g.entry] { graph := h } hs hroot
  rwa [hwalk, ← hs.size_eq, List.foldl_cons, List.foldl_nil] at hrecurs

end

/-! ### Assembled graphs -/

theorem fitted_prepare {g : Graph} (hg : g.Assembled) (facts : Facts) :
    SameTree g.computeDominance (g.prepare facts) ∧ (g.prepare facts).Fitted :=
  ⟨(sameTree_computeFrontiers _).trans (sameTree_insertPhis _ facts), fun _ =>
    length_operands (placed_prepare facts hg.wellFormed hg.phis_eq_nil).2.2⟩

/-- The dominator tree covers the reachable blocks once: they are listed once with the entry first,
the dominees of a block are those that it immediately dominates, in the order of the list, and the
recursion over them from the entry, which gives every block its frontier and renames what it
defines, comes to an end when each reachable block has been entered once, after its immediate
dominator, and no other one. When renaming a block is over, the versions in effect are those that
were in effect before. -/
theorem recurs_once {g : Graph} (hg : g.Assembled) : ∃ order walk,
    Covered g g.computeDominance order walk ∧
    Gathers [g.entry] g.computeDominance.clearFrontiers walk
      g.computeDominance.computeFrontiers ∧
    (∀ facts, SameTree g.computeDominance (g.prepare facts) ∧ (g.prepare facts).Fitted) ∧
    (∀ facts h, SameTree g.computeDominance h → h.Fitted →
      let s := block facts (h.blocks.size + 1) { graph := h } h.entry
      Recurs facts [g.entry] { graph := h } walk s ∧ s.misfit = false) ∧
    ∀ facts b s visited s', Recurs facts [b] s visited s' → s'.live = s.live := by
  have htree := dominatorTree_computeDominance hg.wellFormed
  have hshape := sameShape_computeDominance g
  have hwell := hshape.wellFormed hg.wellFormed
  refine ⟨_, _, covered_computeDominance hg.wellFormed, ?_, fitted_prepare hg, ?_, ?_⟩
  · have hgathers := gathers_computeFrontiers htree hwell
    rwa [hshape.entry_eq] at hgathers
  · intro facts h hs hfit
    have hrecurs := recurs_entry htree hwell hs facts
    rw [hshape.entry_eq] at hrecurs
    exact ⟨hrecurs, hrecurs.pushes.misfit (hs.wellFormed hwell) hfit⟩
  · intro facts b s visited s' h
    exact h.pushes.live_eq

/-- The block after the loop is entered before the body of the loop; on the way four versions are
made, and none of them is in effect in the end. -/
theorem recurs_assigningLoop : assigningLoop.Assembled ∧
    SameTree assigningLoop.computeDominance (assigningLoop.prepare assigningLoop.facts) ∧
    (assigningLoop.prepare assigningLoop.facts).Fitted ∧ ∃ s,
      Recurs assigningLoop.facts [0] { graph := assigningLoop.prepare assigningLoop.facts }
        [0, 1, 6, 2, 4, 3, 5] s ∧ s.made.length = 4 ∧ s.live = [] := by
  obtain ⟨order, walk, hcovered, -, hfitted, hrecurs, hlive⟩ := recurs_once assigningLoop.assembled
  obtain ⟨htree, hfit⟩ := hfitted assigningLoop.facts
  obtain ⟨hrun, -⟩ := hrecurs assigningLoop.facts _ htree hfit
  have hcovered' := covered_computeDominance assigningLoop.assembled.wellFormed
  have hwalk : walk = [0, 1, 6, 2, 4, 3, 5] :=
    (hcovered.walks.eq hcovered'.walks).trans (by decide +kernel)
  refine ⟨assigningLoop.assembled, htree, hfit, _, hwalk ▸ hrun, by decide +kernel, ?_⟩
  exact hlive _ _ _ _ _ hrun

end Assignment

end FlowCheck
