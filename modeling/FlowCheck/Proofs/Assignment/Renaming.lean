import FlowCheck.Flow.Assignment
import FlowCheck.Proofs.Assignment.Site

/-!
# Renaming

Renaming walks the dominator tree with a stack of versions. Every site makes a version with the next
number of its variable, every read is resolved to the version of the site that dominance gives,
every phi learns along each edge what the block before it leaves, and the stack is as before when a
subtree is done.
-/
namespace FlowCheck

/-- What renaming leaves alone about a phi. -/
def Phi.frame (p : Phi) : Var × BlockId × ℕ := (p.var, p.block, p.operands.length)

namespace Graph

/-- The same tree with the same phis, whatever their operands are. -/
structure SameFrames (g g' : Graph) : Prop extends SameTree g g' where
  frames_eq : ∀ b, (g'.phis b).map Phi.frame = (g.phis b).map Phi.frame

/-- Operand `i` of a phi, if there is one. -/
def operand (g : Graph) (r : PhiRef) (i : ℕ) : Option (Option Version) :=
  (g.phi? r).bind fun p => p.operands[i]?

def result (g : Graph) (r : PhiRef) : Option (Option Version) := (g.phi? r).map Phi.result

theorem phi?_modifyBlock {g : Graph} (f : List Phi → List Phi) {b : BlockId}
    (hb : b < g.blocks.size) (r : PhiRef) :
    (g.modifyBlock b fun x => { x with phis := f x.phis }).phi? r =
      if b = r.block then (f (g.phis b))[r.index]? else g.phi? r := by
  rw [phi?, block_modifyBlock, phi?]
  by_cases h : b = r.block
  · simp [h ▸ hb, h, phis]
  · simp [h]

namespace SameFrames

variable {g g' g'' : Graph}

theorem refl (g : Graph) : SameFrames g g := ⟨SameTree.refl g, fun _ => rfl⟩

theorem trans (h : SameFrames g g') (h' : SameFrames g' g'') : SameFrames g g'' where
  toSameTree := h.toSameTree.trans h'.toSameTree
  frames_eq b := (h'.frames_eq b).trans (h.frames_eq b)

theorem modifyBlock (g : Graph) (b : BlockId) (f : List Phi → List Phi)
    (hf : ∀ ps, (f ps).map Phi.frame = ps.map Phi.frame) :
    SameFrames g (g.modifyBlock b fun x => { x with phis := f x.phis }) where
  toSameTree := SameTree.modifyBlock g b BasicBlock.frontier fun x => f x.phis
  frames_eq := proj_modifyBlock (fun x => x.phis.map Phi.frame) g b _ fun x => hf x.phis

/-- A phi keeps its variable, its block and the number of its operands. -/
theorem map_frame_phi? (h : SameFrames g g') (r : PhiRef) :
    (g'.phi? r).map Phi.frame = (g.phi? r).map Phi.frame := by
  have hframe := congrArg (fun l => l[r.index]?) (h.frames_eq r.block)
  rwa [List.getElem?_map, List.getElem?_map] at hframe

theorem exists_phi (h : SameFrames g g') {r : PhiRef} {p : Phi} (hp : g'.phi? r = some p) :
    ∃ q, g.phi? r = some q ∧ q.frame = p.frame := by
  have hframe := h.map_frame_phi? r
  rw [hp, Option.map_some] at hframe
  exact Option.map_eq_some_iff.mp hframe.symm

theorem exists_phi' (h : SameFrames g g') {r : PhiRef} {p : Phi} (hp : g.phi? r = some p) :
    ∃ q, g'.phi? r = some q ∧ q.frame = p.frame := by
  have hframe := h.map_frame_phi? r
  rw [hp, Option.map_some] at hframe
  exact Option.map_eq_some_iff.mp hframe

theorem phiSites_eq (h : SameFrames g g') (b : BlockId) : g'.phiSites b = g.phiSites b := by
  have key : ∀ ps : List Phi,
      (ps.zipIdx.map fun x => (⟨x.1.var, .phi ⟨b, x.2⟩⟩ : Site)) =
        (ps.map Phi.frame).zipIdx.map fun x => ⟨x.1.1, .phi ⟨b, x.2⟩⟩ := by
    intro ps
    rw [List.zipIdx_map, List.map_map]
    rfl
  rw [phiSites, key, h.frames_eq, ← key, phiSites]

end SameFrames

end Graph

namespace Assignment

open FlowCheck.Graph Dominance

/-! ### Numbers of versions -/

/-- The version of a site, when the sites of each variable are numbered in order. -/
def versionIn (order : List Site) (x : Site) : Version :=
  ⟨x.var, (order.filter fun y => y.var = x.var).idxOf x + 1, x.phi?⟩

/-- The sites of a variable have the numbers from one on. -/
theorem map_number_versionIn {order : List Site} (hn : order.Nodup) (v : Var) :
    (order.filter fun x => x.var = v).map (fun x => (versionIn order x).number) =
      List.range' 1 ((order.map Site.var).count v) := by
  have hlen : (order.map Site.var).count v = (order.filter fun x => x.var = v).length := by
    rw [List.count, List.countP_map, List.countP_eq_length_filter]
    rfl
  rw [hlen]
  apply List.ext_getElem (by simp)
  intro i hi _
  have hi' : i < (order.filter fun x => x.var = v).length := by simpa using hi
  have hvar : ((order.filter fun x => x.var = v)[i]).var = v := by
    simpa using List.of_mem_filter (List.getElem_mem hi')
  rw [List.getElem_map, List.getElem_range', versionIn, hvar, (hn.filter _).idxOf_getElem i hi',
    Nat.one_mul, Nat.add_comm]

/-- The sites in order that come after those made so far begin with `new`. -/
def Next (order : List Site) (s : State) (new : List Site) : Prop :=
  ∃ done, s.made = (done.map Site.var).reverse ∧ done ++ new <+: order

namespace Next

variable {order l m : List Site} {s s' : State} {x : Site}

theorem left (h : Next order s (l ++ m)) : Next order s l := by
  obtain ⟨done, hmade, hpre⟩ := h
  rw [← List.append_assoc] at hpre
  exact ⟨done, hmade, (List.prefix_append _ _).trans hpre⟩

theorem after (h : Next order s (l ++ m)) (hmade : s'.made = (l.map Site.var).reverse ++ s.made) :
    Next order s' m := by
  obtain ⟨done, hdone, hpre⟩ := h
  refine ⟨done ++ l, ?_, by rwa [List.append_assoc]⟩
  rw [hmade, hdone, List.map_append, List.reverse_append]

theorem done (h : Next order s l) (hmade : s'.made = (l.map Site.var).reverse ++ s.made) :
    Next order s' [] := by
  rw [← List.append_nil l] at h
  exact h.after hmade

/-- The next version of a variable gets the number of its site. -/
theorem versionIn_eq (hn : order.Nodup) (h : Next order s [x]) :
    versionIn order x = ⟨x.var, s.made.count x.var + 1, x.phi?⟩ := by
  obtain ⟨done, hmade, rest, rfl⟩ := h
  have hnot : x ∉ done.filter fun y => y.var = x.var := by
    intro hx
    rw [List.append_assoc] at hn
    exact List.disjoint_of_nodup_append hn (List.mem_of_mem_filter hx) (by simp)
  have hcount : s.made.count x.var = (done.filter fun y => y.var = x.var).length := by
    rw [hmade, List.count_reverse, List.count, List.countP_map, List.countP_eq_length_filter]
    rfl
  rw [versionIn, List.append_assoc, List.filter_append, List.idxOf_append_of_notMem hnot, hcount]
  simp

end Next

/-- The versions of sites, newest first. -/
def stackOf (order sites : List Site) : List Version := (sites.map (versionIn order)).reverse

theorem stackOf_append (order l m : List Site) :
    stackOf order (l ++ m) = stackOf order m ++ stackOf order l := by
  rw [stackOf, List.map_append, List.reverse_append, stackOf, stackOf]

theorem current?_eq {order sites : List Site} {s : State} (h : s.live = stackOf order sites)
    (v : Var) : s.current? v = (lastOf v sites).map (versionIn order) := by
  rw [State.current?, h, stackOf, ← List.map_reverse, List.find?_map, lastOf,
    ← List.head?_reverse, ← List.filter_reverse, List.head?_filter]
  rfl

/-- The state after the sites in `new` have made their versions, `reads` were resolved and phis were
told along the edges in `E`. -/
structure Renames (g : Graph) (facts : Facts) (order new : List Site) (reads : List Read)
    (E : BlockId → BlockId → Prop) (s s' : State) : Prop where
  frames : SameFrames s.graph s'.graph
  stack : s.live <:+ s'.live
  made : s'.made = (new.map Site.var).reverse ++ s.made
  reassigned : (∀ v, v ∈ s.reassigned ↔ 2 ≤ s.made.count v) →
    ∀ v, v ∈ s'.reassigned ↔ 2 ≤ s'.made.count v
  named : ∀ r p, g.phi? r = some p → ⟨p.var, .phi r⟩ ∈ new →
    s'.graph.result r = some (some (versionIn order ⟨p.var, .phi r⟩))
  unnamed : ∀ r p, g.phi? r = some p → ⟨p.var, .phi r⟩ ∉ new →
    s'.graph.result r = s.graph.result r
  reads_eq : s'.reads = s.reads ++ reads.filterMap fun r =>
    (g.resolve facts r).map fun x => (versionIn order x, r.use)
  used : ∀ v, v ∈ s'.used ↔ v ∈ s.used ∨ ∃ r ∈ reads, r.use.var = v
  unassigned : ∀ u, u ∈ s'.unassigned ↔
    u ∈ s.unassigned ∨ ∃ r ∈ reads, r.use = u ∧ g.resolve facts r = none
  nodup : s.unassigned.Nodup → s'.unassigned.Nodup
  told : ∀ r i q p, g.phi? r = some p → (g.preds r.block)[i]? = some q → E q r.block →
    s'.graph.operand r i = some ((g.atEnd facts p.var q).map (versionIn order))
  untold : ∀ r i q, (g.preds r.block)[i]? = some q → ¬ E q r.block →
    s'.graph.operand r i = s.graph.operand r i
  misfit : s'.misfit = s.misfit

namespace Renames

variable {g : Graph} {facts : Facts} {order new new' : List Site} {reads reads' : List Read}
  {E E' : BlockId → BlockId → Prop} {s s' s'' : State}

theorem refl (g : Graph) (facts : Facts) (order : List Site) (s : State) :
    Renames g facts order [] [] (fun _ _ => False) s s where
  frames := SameFrames.refl _
  stack := List.suffix_rfl
  made := rfl
  reassigned := id
  named _ _ _ hr := absurd hr List.not_mem_nil
  unnamed _ _ _ _ := rfl
  reads_eq := by simp
  used v := by simp
  unassigned u := by simp
  nodup := id
  told _ _ _ _ _ _ he := he.elim
  untold _ _ _ _ _ := rfl
  misfit := rfl

theorem congr (h : Renames g facts order new reads E s s') (hnew : new' = new)
    (hreads : reads' = reads) (hE : ∀ q d, E' q d ↔ E q d) :
    Renames g facts order new' reads' E' s s' := by
  have hE' : E' = E := funext₂ fun q d => propext (hE q d)
  rwa [hnew, hreads, hE']

theorem trans (h : Renames g facts order new reads E s s')
    (h' : Renames g facts order new' reads' E' s' s'') :
    Renames g facts order (new ++ new') (reads ++ reads') (fun q d => E q d ∨ E' q d) s s'' where
  frames := h.frames.trans h'.frames
  stack := h.stack.trans h'.stack
  made := by rw [h'.made, h.made, List.map_append, List.reverse_append, List.append_assoc]
  reassigned hs := h'.reassigned (h.reassigned hs)
  named r p hp hr := by
    by_cases hr' : ⟨p.var, .phi r⟩ ∈ new'
    · exact h'.named r p hp hr'
    · rw [h'.unnamed r p hp hr']
      exact h.named r p hp ((List.mem_append.mp hr).resolve_right hr')
  unnamed r p hp hr := by
    rw [List.mem_append, not_or] at hr
    rw [h'.unnamed r p hp hr.2, h.unnamed r p hp hr.1]
  reads_eq := by rw [h'.reads_eq, h.reads_eq, List.filterMap_append, List.append_assoc]
  used v := by
    rw [h'.used, h.used, or_assoc]
    simp only [List.mem_append, or_and_right, exists_or]
  unassigned u := by
    rw [h'.unassigned, h.unassigned, or_assoc]
    simp only [List.mem_append, or_and_right, exists_or]
  nodup hn := h'.nodup (h.nodup hn)
  told r i q p hp hq he := by
    by_cases he' : E' q r.block
    · exact h'.told r i q p hp hq he'
    · rw [h'.untold r i q hq he']
      exact h.told r i q p hp hq (he.resolve_right he')
  untold r i q hq he := by
    rw [not_or] at he
    rw [h'.untold r i q hq he.2, h.untold r i q hq he.1]
  misfit := h'.misfit.trans h.misfit

/-- At the end of a subtree the versions made in it go out of effect. -/
theorem restore (h : Renames g facts order new reads E s s') :
    Renames g facts order new reads E s
      { s' with live := s'.live.drop (s'.live.length - s.live.length) } where
  frames := h.frames
  stack := by rw [← List.suffix_iff_eq_drop.mp h.stack]
  made := h.made
  reassigned := h.reassigned
  named := h.named
  unnamed := h.unnamed
  reads_eq := h.reads_eq
  used := h.used
  unassigned := h.unassigned
  nodup := h.nodup
  told := h.told
  untold := h.untold
  misfit := h.misfit

variable (g facts) in
/-- A fold of steps, each of which makes versions and leaves some of them in effect. -/
theorem foldl {α : Type} (step : State → α → State) (new kept : α → List Site)
    (reads : α → List Read) (Es : α → BlockId → BlockId → Prop) (xs : List α) (s : State)
    (hnext : Next order s (xs.flatMap new))
    (hstep : ∀ pre x post, xs = pre ++ x :: post → ∀ t,
      t.live = stackOf order (pre.flatMap kept) ++ s.live → SameFrames s.graph t.graph →
      Next order t (new x) → (step t x).live = stackOf order (kept x) ++ t.live ∧
        Renames g facts order (new x) (reads x) (Es x) t (step t x)) :
    (xs.foldl step s).live = stackOf order (xs.flatMap kept) ++ s.live ∧
      Renames g facts order (xs.flatMap new) (xs.flatMap reads) (fun q d => ∃ x ∈ xs, Es x q d) s
        (xs.foldl step s) := by
  induction xs generalizing s with
  | nil => exact ⟨rfl, (refl g facts order s).congr rfl rfl (by simp)⟩
  | cons x xs ih =>
    rw [List.flatMap_cons] at hnext
    obtain ⟨hlive, hx⟩ := hstep [] x xs rfl s rfl (SameFrames.refl _) hnext.left
    obtain ⟨hlive', hxs⟩ := ih (step s x) (hnext.after hx.made) (by
      intro pre y post hsplit t ht hf hy
      apply hstep (x :: pre) y post (by rw [hsplit, List.cons_append]) t _ (hx.frames.trans hf) hy
      rw [ht, hlive, List.flatMap_cons, stackOf_append, List.append_assoc])
    refine ⟨?_, (hx.trans hxs).congr rfl rfl (by simp)⟩
    rw [List.foldl_cons, hlive', hlive, List.flatMap_cons, stackOf_append, List.append_assoc]

variable (g facts) in
/-- A fold of steps that leave the stack alone and make no versions. -/
theorem foldl_still {α : Type} (step : State → α → State) (reads : α → List Read)
    (Es : α → BlockId → BlockId → Prop) (xs : List α) (s : State) (hnext : Next order s [])
    (hstep : ∀ x ∈ xs, ∀ t, t.live = s.live → SameFrames s.graph t.graph →
      (step t x).live = t.live ∧ Renames g facts order [] (reads x) (Es x) t (step t x)) :
    (xs.foldl step s).live = s.live ∧
      Renames g facts order [] (xs.flatMap reads) (fun q d => ∃ x ∈ xs, Es x q d) s
        (xs.foldl step s) := by
  have hnone : ∀ ys : List α, (ys.flatMap fun _ => ([] : List Site)) = [] := by simp
  have hall := foldl g facts step (fun _ => []) (fun _ => []) reads Es xs s
    (by rwa [hnone]) (by
      intro pre x post hsplit t ht hf _
      apply hstep x (hsplit ▸ List.mem_append_right pre List.mem_cons_self) t _ hf
      rwa [hnone] at ht)
  rwa [hnone] at hall

end Renames

/-! ### Making versions -/

section Making

variable {g : Graph} {facts : Facts} {order : List Site} {s : State} {x : Site}

theorem reassigned_push (h : ∀ v, v ∈ s.reassigned ↔ 2 ≤ s.made.count v) (v : Var)
    (o : Option PhiRef) (w : Var) :
    w ∈ (s.push v o).2.reassigned ↔ 2 ≤ (s.push v o).2.made.count w := by
  have hcount : (s.push v o).2.made.count w = s.made.count w + if v = w then 1 else 0 := by
    simp only [State.push, List.count_cons, beq_iff_eq]
  have hmem : w ∈ (s.push v o).2.reassigned ↔
      w ∈ s.reassigned ∨ w = v ∧ 0 < s.made.count v := by
    simp only [State.push]
    split_ifs with hv
    · simp only [Bool.and_eq_true, decide_eq_true_eq] at hv
      simp [hv.1]
    · simp only [Bool.and_eq_true, decide_eq_true_eq, Bool.not_eq_true', List.contains_eq_mem,
        decide_eq_false_iff_not, not_and, not_not] at hv
      constructor
      · exact .inl
      · rintro (hw | ⟨rfl, hpos⟩)
        · exact hw
        · exact hv hpos
  rw [hmem, hcount, h]
  split_ifs with hvw
  · subst hvw
    simp only [true_and]
    omega
  · simp only [Ne.symm hvw, false_and, or_false, Nat.add_zero]

/-- A site makes its version; all it may do to the graph is to give that to its phi. -/
theorem renames_make (hn : order.Nodup) (hnext : Next order s [x]) {g' : Graph}
    (hframes : SameFrames s.graph g') (hoperand : ∀ r i, g'.operand r i = s.graph.operand r i)
    (hself : ∀ r, x.place = .phi r → g'.result r = some (some (versionIn order x)))
    (hother : ∀ r p, g.phi? r = some p → x ≠ ⟨p.var, .phi r⟩ →
      g'.result r = s.graph.result r) :
    { (s.push x.var x.phi?).2 with graph := g' }.live = stackOf order [x] ++ s.live ∧
      Renames g facts order [x] [] (fun _ _ => False) s
        { (s.push x.var x.phi?).2 with graph := g' } := by
  constructor
  · rw [stackOf, List.map_singleton, hnext.versionIn_eq hn]
    rfl
  · exact {
      frames := hframes
      stack := List.suffix_cons _ _
      made := rfl
      reassigned := fun hs v => reassigned_push hs x.var x.phi? v
      named := by
        intro r p _ hr
        obtain rfl := List.mem_singleton.mp hr
        exact hself r rfl
      unnamed := fun r p hp hr => hother r p hp fun hx => hr (List.mem_singleton.mpr hx.symm)
      reads_eq := by simp [State.push]
      used := by simp [State.push]
      unassigned := by simp [State.push]
      nodup := id
      told := fun _ _ _ _ _ _ he => he.elim
      untold := fun r i _ _ _ => hoperand r i
      misfit := rfl }

theorem renames_assign (hn : order.Nodup) {v : Var} {b : BlockId} {k j : ℕ}
    (hnext : Next order s [⟨v, .node b k j⟩]) :
    (s.push v none).2.live = stackOf order [⟨v, .node b k j⟩] ++ s.live ∧
      Renames g facts order [⟨v, .node b k j⟩] [] (fun _ _ => False) s (s.push v none).2 := by
  apply renames_make hn hnext (SameFrames.refl _) (fun _ _ => rfl) ?_ fun _ _ _ _ => rfl
  intro r hr
  cases hr

/-- The graph with the result of one phi set. -/
def setResult (h : Graph) (r : PhiRef) (o : Option Version) : Graph :=
  h.modifyBlock r.block fun b => { b with phis := b.phis.modify r.index fun p =>
    { p with result := o } }

theorem sameFrames_setResult (h : Graph) (r : PhiRef) (o : Option Version) :
    SameFrames h (setResult h r o) := by
  apply SameFrames.modifyBlock h r.block fun ps => ps.modify r.index fun p => { p with result := o }
  intro ps
  apply List.ext_getElem?
  intro j
  simp only [List.getElem?_map, List.getElem?_modify]
  by_cases hj : r.index = j
  · cases ps[j]? <;> simp [hj, Phi.frame]
  · simp [hj]

theorem phi?_setResult {h : Graph} {r : PhiRef} (hr : r.block < h.blocks.size)
    (o : Option Version) (r' : PhiRef) :
    (setResult h r o).phi? r' =
      if r = r' then (h.phi? r').map fun p => { p with result := o } else h.phi? r' := by
  obtain ⟨b, i⟩ := r
  obtain ⟨c, j⟩ := r'
  rw [setResult, phi?_modifyBlock (fun ps => ps.modify i fun p => { p with result := o }) hr]
  simp only [PhiRef.mk.injEq, List.getElem?_modify]
  by_cases hb : b = c
  · subst hb
    by_cases hi : i = j
    · subst hi
      simp [phi?, phis]
    · simp [hi, phi?, phis]
  · simp [hb]

theorem definePhi_eq (s : State) (r : PhiRef) (v : Var) :
    s.definePhi r.block r.index v = { (s.push v (some r)).2 with
      graph := setResult s.graph r (some (s.push v (some r)).1) } := rfl

theorem renames_definePhi (hn : order.Nodup) {r : PhiRef} {p : Phi} (hg : g.phi? r = some p)
    (hframes : SameFrames g s.graph) (hr : r.block < g.blocks.size)
    (hnext : Next order s [⟨p.var, .phi r⟩]) :
    (s.definePhi r.block r.index p.var).live = stackOf order [⟨p.var, .phi r⟩] ++ s.live ∧
      Renames g facts order [⟨p.var, .phi r⟩] [] (fun _ _ => False) s
        (s.definePhi r.block r.index p.var) := by
  have hversion := hnext.versionIn_eq hn
  have hsize : r.block < s.graph.blocks.size := hframes.size_eq.symm ▸ hr
  rw [definePhi_eq]
  apply renames_make hn hnext (sameFrames_setResult s.graph r _)
  · intro r' i
    rw [operand, phi?_setResult hsize, operand]
    split_ifs
    · cases s.graph.phi? r' <;> rfl
    · rfl
  · intro r' hr'
    obtain rfl : r = r' := Place.phi.inj hr'
    obtain ⟨q, hq, -⟩ := hframes.exists_phi' hg
    rw [result, phi?_setResult hsize, if_pos rfl, hq, hversion]
    rfl
  · intro r' q hq hne
    rw [result, phi?_setResult hsize, if_neg, result]
    rintro rfl
    rw [Option.some_inj.mp (hg.symm.trans hq)] at hne
    exact hne rfl

variable (facts) in
theorem renames_definePhis (hn : order.Nodup) {b : BlockId} (hb : b < g.blocks.size)
    (hframes : SameFrames g s.graph) (hnext : Next order s (g.phiSites b)) :
    let s' := (s.graph.block b).phis.zipIdx.foldl (fun s x => s.definePhi b x.2 x.1.var) s
    s'.live = stackOf order (g.phiSites b) ++ s.live ∧
      Renames g facts order (g.phiSites b) [] (fun _ _ => False) s s' := by
  have hsites : g.phiSites b = (s.graph.block b).phis.zipIdx.flatMap fun x =>
      [⟨x.1.var, .phi ⟨b, x.2⟩⟩] := by
    rw [← hframes.phiSites_eq, ← List.map_eq_flatMap]
    rfl
  rw [hsites] at hnext ⊢
  obtain ⟨hlive, hall⟩ := Renames.foldl g facts (fun s x => s.definePhi b x.2 x.1.var) _
    (fun x => [⟨x.1.var, .phi ⟨b, x.2⟩⟩]) (fun _ => []) (fun _ _ _ => False) _ s hnext (by
      intro pre x post hsplit t _ hf hx
      have hmem : x ∈ (s.graph.block b).phis.zipIdx := hsplit ▸ List.mem_append_right pre
        List.mem_cons_self
      obtain ⟨p, hp, hframe⟩ := hframes.exists_phi (r := ⟨b, x.2⟩)
        (List.mem_zipIdx_iff_getElem?.mp hmem)
      have hvar : p.var = x.1.var := congrArg Prod.fst hframe
      rw [← hvar] at hx ⊢
      exact renames_definePhi hn hp (hframes.trans hf) hb hx)
  exact ⟨hlive, hall.congr rfl (by simp) (by simp)⟩

end Making

/-! ### Reads -/

theorem report_eq (s : State) (u : Use) : s.report u = { s with
    unassigned := if s.unassigned.contains u then s.unassigned else s.unassigned ++ [u] } := by
  unfold State.report
  split_ifs <;> rfl

theorem read_of_some {s : State} {u : Use} {x : Version} (h : s.current? u.var = some x) :
    s.read u = { s with
      used := if s.used.contains u.var then s.used else s.used ++ [u.var]
      reads := s.reads ++ [(x, u)] } := by
  unfold State.read
  generalize (if s.used.contains u.var then s.used else s.used ++ [u.var]) = used
  have hcurrent : State.current? { s with used } u.var = some x := h
  simp only [hcurrent]

theorem read_of_none {s : State} {u : Use} (h : s.current? u.var = none) :
    s.read u = { s with
      used := if s.used.contains u.var then s.used else s.used ++ [u.var]
      unassigned := if s.unassigned.contains u then s.unassigned else s.unassigned ++ [u] } := by
  unfold State.read
  generalize (if s.used.contains u.var then s.used else s.used ++ [u.var]) = used
  have hcurrent : State.current? { s with used } u.var = none := h
  simp only [hcurrent, report_eq]

section Nodes

variable {g : Graph} {facts : Facts} {order : List Site} {s : State} {b : BlockId}

theorem renames_read {r : Read} (hlive : s.live =
      stackOf order (g.scope facts r.block ++ g.sitesBefore facts r.block r.node)) :
    (s.read r.use).live = s.live ∧
      Renames g facts order [] [r] (fun _ _ => False) s (s.read r.use) := by
  have hcurrent : s.current? r.use.var = (g.resolve facts r).map (versionIn order) :=
    current?_eq hlive r.use.var
  cases hr : g.resolve facts r with
  | some x =>
    rw [hr, Option.map_some] at hcurrent
    rw [read_of_some hcurrent]
    refine ⟨rfl, { Renames.refl g facts order s with reads_eq := ?_, used := ?_, unassigned := ?_ }⟩
    · simp [hr]
    · exact fun v => mem_ite_contains.trans (by simp [eq_comm])
    · simp [hr]
  | none =>
    rw [hr, Option.map_none] at hcurrent
    rw [read_of_none hcurrent]
    refine ⟨rfl, { Renames.refl g facts order s with
      reads_eq := ?_, used := ?_, unassigned := ?_, nodup := ?_ }⟩
    · simp [hr]
    · exact fun v => mem_ite_contains.trans (by simp [eq_comm])
    · exact fun u => mem_ite_contains.trans (by simp [hr, eq_comm])
    · exact fun hn => nodup_ite_contains hn r.use

theorem foldl_zipIdx {α β : Type} (f : β → α → β) (b : β) (xs : List α) :
    xs.zipIdx.foldl (fun b x => f b x.1) b = xs.foldl f b := by
  rw [← List.foldl_map (f := Prod.fst) (g := f), List.zipIdx_map_fst]

/-- A node first reads, then assigns. -/
theorem renames_node (hn : order.Nodup) {n : Node × ℕ}
    (hlive : s.live = stackOf order (g.scope facts b ++ g.sitesBefore facts b n.2))
    (hnext : Next order s (assignments facts b n)) :
    (s.node facts n.1).live = stackOf order (assignments facts b n) ++ s.live ∧
      Renames g facts order (assignments facts b n) (readsOf facts b n) (fun _ _ => False) s
        (s.node facts n.1) := by
  obtain ⟨hlive₁, hreads⟩ := Renames.foldl_still g facts
    (fun s (x : Use × ℕ) => s.read x.1) (fun x => [⟨b, n.2, x.2, x.1⟩]) (fun _ _ _ => False)
    (facts.uses n.1).zipIdx s (hnext.left (l := [])) (by
      intro x _ t ht _
      apply renames_read (r := ⟨b, n.2, x.2, x.1⟩)
      rw [ht, hlive])
  rw [foldl_zipIdx] at hlive₁ hreads
  have hsites : assignments facts b n =
      (facts.defs n.1).zipIdx.flatMap fun x => [⟨x.1, .node b n.2 x.2⟩] := by
    rw [← List.map_eq_flatMap]
    rfl
  rw [hsites] at hnext ⊢
  obtain ⟨hlive₂, hdefs⟩ := Renames.foldl g facts
    (fun s (x : Var × ℕ) => (s.push x.1 none).2) _ (fun x => [⟨x.1, .node b n.2 x.2⟩])
    (fun _ => []) (fun _ _ _ => False) (facts.defs n.1).zipIdx _
    (hnext.after (l := []) hreads.made) (by
      intro pre x post _ t _ _ hx
      exact renames_assign hn hx)
  rw [foldl_zipIdx fun s v => (State.push s v none).2] at hlive₂ hdefs
  refine ⟨by rw [State.node, hlive₂, hlive₁], (hreads.trans hdefs).congr rfl ?_ ?_⟩
  · simp [readsOf, List.map_eq_flatMap]
  · simp

theorem renames_nodes (hn : order.Nodup)
    (hlive : s.live = stackOf order (g.scope facts b ++ g.phiSites b))
    (hnext : Next order s ((g.nodes b).zipIdx.flatMap (assignments facts b))) :
    ((g.nodes b).foldl (State.node facts) s).live =
        stackOf order (g.scope facts b ++ g.sitesIn facts b) ∧
      Renames g facts order ((g.nodes b).zipIdx.flatMap (assignments facts b)) (g.readsIn facts b)
        (fun _ _ => False) s ((g.nodes b).foldl (State.node facts) s) := by
  obtain ⟨hlive', hnodes⟩ := Renames.foldl g facts
    (fun s (n : Node × ℕ) => s.node facts n.1) _ (assignments facts b) (readsOf facts b)
    (fun _ _ _ => False) (g.nodes b).zipIdx s hnext (by
      intro pre n post hsplit t ht _ hx
      apply renames_node hn _ hx
      -- the node stands after those in `pre`
      have hplace : n.2 = pre.length := by
        have hget : (g.nodes b).zipIdx[pre.length]? = some n := by rw [hsplit]; simp
        rw [List.getElem?_zipIdx, Option.map_eq_some_iff] at hget
        obtain ⟨m, -, rfl⟩ := hget
        exact Nat.zero_add _
      have htake : (g.nodes b).zipIdx.take n.2 = pre := by rw [hsplit, hplace]; simp
      rw [ht, hlive, sitesBefore, htake, ← List.append_assoc, stackOf_append order _ (pre.flatMap _)])
  rw [foldl_zipIdx] at hlive' hnodes
  refine ⟨?_, hnodes.congr rfl rfl (by simp)⟩
  rw [hlive', hlive, ← stackOf_append, List.append_assoc, sitesIn]

end Nodes

/-! ### Telling phis what arrives -/

section Arrival

variable {g : Graph} {facts : Facts} {order : List Site} {s : State} {b d : BlockId}

/-- The phis of a block with one operand set. -/
def setOperands (ps : List Phi) (i : ℕ) (f : Var → Option Version) : List Phi :=
  ps.map fun p => { p with operands := p.operands.set i (f p.var) }

/-- The graph after the phis of a block were told what arrives along one edge. -/
def tell (h : Graph) (d : BlockId) (i : ℕ) (f : Var → Option Version) : Graph :=
  h.modifyBlock d fun x => { x with phis := setOperands x.phis i f }

theorem sameFrames_tell (h : Graph) (d : BlockId) (i : ℕ) (f : Var → Option Version) :
    SameFrames h (tell h d i f) := by
  apply SameFrames.modifyBlock h d (setOperands · i f)
  intro ps
  rw [setOperands, List.map_map]
  exact List.map_congr_left fun p _ => by simp [Phi.frame]

theorem phi?_tell {h : Graph} (hd : d < h.blocks.size) (i : ℕ) (f : Var → Option Version)
    (r : PhiRef) : (tell h d i f).phi? r = if d = r.block then
      (h.phi? r).map fun p => { p with operands := p.operands.set i (f p.var) } else h.phi? r := by
  rw [tell, phi?_modifyBlock (setOperands · i f) hd]
  split_ifs with hr
  · subst hr
    rw [setOperands, List.getElem?_map]
    rfl
  · rfl

theorem result_tell {h : Graph} (hd : d < h.blocks.size) (i : ℕ) (f : Var → Option Version)
    (r : PhiRef) : (tell h d i f).result r = h.result r := by
  rw [result, phi?_tell hd, result]
  split_ifs
  · cases h.phi? r <;> rfl
  · rfl

theorem operand_tell_self {h : Graph} (hd : d < h.blocks.size) {i : ℕ} (f : Var → Option Version)
    {r : PhiRef} {p : Phi} (hr : d = r.block) (hp : h.phi? r = some p)
    (hi : i < p.operands.length) : (tell h d i f).operand r i = some (f p.var) := by
  rw [operand, phi?_tell hd, if_pos hr, hp]
  simp [hi]

theorem operand_tell_ne {h : Graph} (hd : d < h.blocks.size) {i k : ℕ} (f : Var → Option Version)
    {r : PhiRef} (hne : d = r.block → i ≠ k) : (tell h d i f).operand r k = h.operand r k := by
  rw [operand, phi?_tell hd, operand]
  split_ifs with hr
  · cases h.phi? r <;> simp [List.getElem?_set_ne (hne hr)]
  · rfl

theorem arrive_eq {i : ℕ} (hi : (s.graph.preds d).idxOf? b = some i)
    (hlen : ∀ p ∈ s.graph.phis d, i < p.operands.length) :
    s.arrive b d = { s with graph := tell s.graph d i s.current? } := by
  have hi' : (s.graph.block d).predIndex? b = some i := hi
  have hfit : ((s.graph.block d).phis.any fun p => decide (p.operands.length ≤ i)) = false := by
    rw [List.any_eq_false]
    intro p hp
    simpa using hlen p hp
  simp only [State.arrive, hi', hfit, Bool.or_false]
  rfl

/-- The number of a block among the predecessors is the only one that it has there. -/
theorem exists_idxOf_preds (hg : g.WellFormed) (he : g.Edge b d) : ∃ i,
    (g.preds d).idxOf? b = some i ∧ i < (g.preds d).length ∧
      ∀ k, (g.preds d)[k]? = some b ↔ k = i := by
  have hmem : b ∈ g.preds d := (hg.mem_preds b d).mpr he
  obtain ⟨i, hi⟩ : ∃ i, (g.preds d).idxOf? b = some i := by
    cases hidx : (g.preds d).idxOf? b with
    | none => exact absurd hmem (List.idxOf?_eq_none_iff.mp hidx)
    | some i => exact ⟨i, rfl⟩
  obtain ⟨hlt, hb, -⟩ := List.findIdx?_eq_some_iff_getElem.mp hi
  have hb : (g.preds d)[i] = b := LawfulBEq.eq_of_beq hb
  refine ⟨i, hi, hlt, fun k => ?_⟩
  rw [List.getElem?_eq_some_iff]
  constructor
  · rintro ⟨hk, hkb⟩
    exact (hg.preds_nodup d).getElem_inj_iff.mp (hkb.trans hb.symm)
  · rintro rfl
    exact ⟨hlt, hb⟩

theorem renames_arrive (hg : g.WellFormed) (hframes : SameFrames g s.graph)
    (hlength : ∀ p ∈ g.phis d, p.operands.length = (g.preds d).length)
    (hlive : s.live = stackOf order (g.scope facts b ++ g.sitesIn facts b)) (he : g.Edge b d) :
    (s.arrive b d).live = s.live ∧
      Renames g facts order [] [] (fun q e => q = b ∧ e = d) s (s.arrive b d) := by
  obtain ⟨i, hi, hlt, hslot⟩ := exists_idxOf_preds hg he
  have hfit : ∀ p ∈ s.graph.phis d, i < p.operands.length := by
    intro p hp
    obtain ⟨j, hj⟩ := List.getElem?_of_mem hp
    obtain ⟨q, hq, hframe⟩ := hframes.exists_phi (r := ⟨d, j⟩) hj
    have hlen : q.operands.length = p.operands.length := congrArg (fun x => x.2.2) hframe
    rwa [← hlen, hlength q (List.mem_of_getElem? hq)]
  have hd : d < s.graph.blocks.size := by
    rw [hframes.size_eq]
    exact hg.succ_lt he
  rw [arrive_eq (by rw [hframes.preds_eq]; exact hi) hfit]
  refine ⟨rfl, { Renames.refl g facts order s with
    frames := sameFrames_tell s.graph d i s.current?
    named := fun _ _ _ hr => absurd hr List.not_mem_nil
    unnamed := fun r _ _ _ => result_tell hd i s.current? r
    told := ?_
    untold := ?_ }⟩
  · rintro r k q p hp hq ⟨rfl, rfl⟩
    obtain rfl := (hslot k).mp hq
    obtain ⟨p', hp', hframe⟩ := hframes.exists_phi' hp
    have hvar : p'.var = p.var := congrArg Prod.fst hframe
    rw [operand_tell_self hd _ rfl hp' (hfit p' (List.mem_of_getElem? hp')), hvar,
      current?_eq hlive, atEnd]
  · intro r k q hq hne
    apply operand_tell_ne hd
    rintro rfl rfl
    exact hne ⟨Option.some_inj.mp (hq.symm.trans ((hslot i).mpr rfl)), rfl⟩

end Arrival

/-! ### Whole blocks -/

section Blocks

variable {g : Graph} {facts : Facts} {order : List Site} {post : List BlockId}

theorem length_operands (hp : PhisPlaced g facts) {b : BlockId} :
    ∀ p ∈ g.phis b, p.operands.length = (g.preds b).length := by
  intro p hmem
  rw [hp.blank b p hmem, blankPhi, List.length_map]

/-- What is done for a block before its dominees. -/
def renameHere (facts : Facts) (s : State) (b : BlockId) : State :=
  let here := s.graph.block b
  let s := here.phis.zipIdx.foldl (fun s x => s.definePhi b x.2 x.1.var) s
  let s := here.nodes.foldl (State.node facts) s
  here.succs.foldl (fun s succ => s.arrive b succ) s

theorem block_succ (fuel : ℕ) (s : State) (b : BlockId) :
    block facts (fuel + 1) s b =
      let s' := (s.graph.block b).dominees.foldl (block facts fuel) (renameHere facts s b)
      { s' with live := s'.live.drop (s'.live.length - s.live.length) } := rfl

theorem renames_renameHere (hg : g.WellFormed) (hp : PhisPlaced g facts) (hn : order.Nodup)
    {s : State} {b : BlockId} (hb : b < g.blocks.size) (hframes : SameFrames g s.graph)
    (hlive : s.live = stackOf order (g.scope facts b)) (hnext : Next order s (g.sitesIn facts b)) :
    (renameHere facts s b).live = stackOf order (g.scope facts b ++ g.sitesIn facts b) ∧
      Renames g facts order (g.sitesIn facts b) (g.readsIn facts b) (fun q d => q = b ∧ g.Edge q d) s
        (renameHere facts s b) := by
  have hnodes : (s.graph.block b).nodes = g.nodes b := hframes.nodes_eq b
  have hsuccs : (s.graph.block b).succs = g.succs b := hframes.succs_eq b
  simp only [renameHere, hnodes, hsuccs]
  obtain ⟨hlive₁, hphis⟩ := renames_definePhis facts hn hb hframes hnext.left
  generalize (s.graph.block b).phis.zipIdx.foldl (fun s x => s.definePhi b x.2 x.1.var) s = s₁
    at hphis hlive₁
  rw [hlive, ← stackOf_append] at hlive₁
  have hnext₁ := hnext.after hphis.made
  obtain ⟨hlive₂, hread⟩ := renames_nodes hn hlive₁ hnext₁
  generalize (g.nodes b).foldl (State.node facts) s₁ = s₂ at hread hlive₂
  obtain ⟨hlive₃, htold⟩ := Renames.foldl_still g facts (fun s succ => s.arrive b succ)
    (fun _ => []) (fun x q d => q = b ∧ d = x) (g.succs b) s₂
    (hnext₁.done hread.made) (by
      intro d hd t ht hf
      exact renames_arrive hg ((hframes.trans hphis.frames).trans (hread.frames.trans hf))
        (length_operands hp) (by rw [ht, hlive₂]) hd)
  refine ⟨by rw [hlive₃, hlive₂], ((hphis.trans hread).trans htold).congr ?_ ?_ ?_⟩
  · simp [sitesIn]
  · simp
  · intro q d
    simp only [false_or]
    constructor
    · rintro ⟨rfl, he⟩
      exact ⟨d, he, rfl, rfl⟩
    · rintro ⟨x, hx, rfl, rfl⟩
      exact ⟨rfl, hx⟩

theorem renames_block (hg : g.WellFormed) (ht : DominatorTree g post) (hp : PhisPlaced g facts)
    (hn : order.Nodup) (fuel : ℕ) (s : State) (b : BlockId) (hb : g.Reachable b)
    (hframes : SameFrames g s.graph) (hlive : s.live = stackOf order (g.scope facts b))
    (hnext : Next order s ((g.treeBelow fuel b).flatMap (g.sitesIn facts))) :
    (block facts fuel s b).live = s.live ∧
      Renames g facts order ((g.treeBelow fuel b).flatMap (g.sitesIn facts))
        ((g.treeBelow fuel b).flatMap (g.readsIn facts))
        (fun q d => q ∈ g.treeBelow fuel b ∧ g.Edge q d) s (block facts fuel s b) := by
  induction fuel generalizing s b with
  | zero => exact ⟨rfl, (Renames.refl g facts order s).congr rfl rfl (by simp [treeBelow])⟩
  | succ fuel ih =>
    have htree : g.treeBelow (fuel + 1) b = b :: (g.dominees b).flatMap (g.treeBelow fuel) := rfl
    rw [htree, List.flatMap_cons, List.flatMap_assoc] at hnext ⊢
    obtain ⟨hlive₁, hhere⟩ := renames_renameHere hg hp hn (hb.lt_size hg) hframes hlive hnext.left
    have hdominees : (s.graph.block b).dominees = g.dominees b := hframes.dominees_eq b
    simp only [block_succ, hdominees]
    obtain ⟨-, hbelow⟩ := Renames.foldl g facts (block facts fuel) _ (fun _ => [])
      (fun c => (g.treeBelow fuel c).flatMap (g.readsIn facts))
      (fun c q d => q ∈ g.treeBelow fuel c ∧ g.Edge q d) (g.dominees b) (renameHere facts s b)
      (hnext.after hhere.made) (by
        intro pre c post hsplit t hlive' hf hc
        have hidom := ht.mem_dominees.mp (hsplit ▸ List.mem_append_right pre List.mem_cons_self)
        apply ih t c (ht.reachable_of_idom hidom) ((hframes.trans hhere.frames).trans hf) ?_ hc
        rw [hlive', hlive₁, ht.scope_eq hg facts hidom]
        simp [stackOf])
    refine ⟨(List.suffix_iff_eq_drop.mp (hhere.trans hbelow).stack).symm,
      (hhere.trans hbelow).restore.congr rfl ?_ ?_⟩
    · rw [List.flatMap_cons, List.flatMap_assoc]
    · intro q d
      simp only [List.mem_cons, List.mem_flatMap]
      constructor
      · rintro ⟨rfl | ⟨c, hc, hq⟩, he⟩
        · exact .inl ⟨rfl, he⟩
        · exact .inr ⟨c, hc, hq, he⟩
      · rintro (⟨rfl, he⟩ | ⟨c, hc, hq, he⟩)
        · exact ⟨.inl rfl, he⟩
        · exact ⟨.inr ⟨c, hc, hq⟩, he⟩

/-- The sites of the reachable blocks, in the order of the walk. -/
def sites (g : Graph) (facts : Facts) : List Site :=
  (g.treeBelow (g.blocks.size + 1) g.entry).flatMap (g.sitesIn facts)

/-- The reads of the reachable blocks, in the order of the walk. -/
def reads (g : Graph) (facts : Facts) : List Read :=
  (g.treeBelow (g.blocks.size + 1) g.entry).flatMap (g.readsIn facts)

theorem mem_treeBelow_entry (hg : g.WellFormed) (ht : DominatorTree g post) {b : BlockId} :
    b ∈ g.treeBelow (g.blocks.size + 1) g.entry ↔ g.Reachable b := by
  have hentry := Reachable.entry g
  have hlt := ht.idxOf_lt_size hg hentry
  rw [ht.mem_treeBelow_iff hentry (by omega)]
  exact ⟨And.left, fun hb => ⟨hb, Dominates.entry g b⟩⟩

theorem mem_reads (hg : g.WellFormed) (ht : DominatorTree g post) {r : Read} :
    r ∈ reads g facts ↔ g.Reachable r.block ∧
      ∃ n, (g.nodes r.block)[r.node]? = some n ∧ (facts.uses n)[r.index]? = some r.use := by
  simp only [reads, List.mem_flatMap, mem_treeBelow_entry hg ht, mem_readsIn]
  constructor
  · rintro ⟨b, hb, rfl, hr⟩
    exact ⟨hb, hr⟩
  · rintro ⟨hb, hr⟩
    exact ⟨r.block, hb, rfl, hr⟩

theorem nodup_walk (hg : g.WellFormed) (ht : DominatorTree g post) {α : Type}
    {f : BlockId → List α} (hf : ∀ b, (f b).Nodup) (block : α → BlockId)
    (hblock : ∀ b, ∀ x ∈ f b, block x = b) :
    ((g.treeBelow (g.blocks.size + 1) g.entry).flatMap f).Nodup := by
  have hentry := Reachable.entry g
  have hlt := ht.idxOf_lt_size hg hentry
  apply List.nodup_flatMap.mpr
  constructor
  · exact fun b _ => hf b
  · apply (ht.nodup_treeBelow hentry (by omega)).imp
    intro b c hne x hb hc
    exact hne ((hblock b x hb).symm.trans (hblock c x hc))

theorem nodup_sites (hg : g.WellFormed) (ht : DominatorTree g post) (facts : Facts) :
    (sites g facts).Nodup :=
  nodup_walk hg ht (nodup_sitesIn g facts) (fun x => x.place.block) fun _ _ => block_of_mem_sitesIn

theorem nodup_reads (hg : g.WellFormed) (ht : DominatorTree g post) (facts : Facts) :
    (reads g facts).Nodup :=
  nodup_walk hg ht (nodup_readsIn g facts) Read.block fun _ _ hr => (mem_readsIn.mp hr).1

/-- What renaming does to a graph as a whole. -/
theorem renames_entry (hg : g.WellFormed) (ht : DominatorTree g post) (hp : PhisPlaced g facts) :
    Renames g facts (sites g facts) (sites g facts) (reads g facts)
      (fun q d => g.Reachable q ∧ g.Edge q d) { graph := g }
      (block facts (g.blocks.size + 1) { graph := g } g.entry) := by
  obtain ⟨-, hall⟩ := renames_block hg ht hp (nodup_sites hg ht facts) (g.blocks.size + 1)
    { graph := g } g.entry (Reachable.entry g) (SameFrames.refl g) (by rw [ht.scope_entry]; rfl)
    ⟨[], rfl, List.prefix_rfl⟩
  exact hall.congr rfl rfl fun q d => by rw [mem_treeBelow_entry hg ht]

end Blocks

end Assignment

end FlowCheck
