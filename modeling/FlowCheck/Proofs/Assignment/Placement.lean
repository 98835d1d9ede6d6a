import FlowCheck.Flow.Phis
import FlowCheck.Proofs.Dominance.Frontier

/-!
# Placing the phis of one variable

All variables share the marks that say which blocks have been queued and which have a phi. Since the
marks of earlier rounds do not count, a round ends with a phi in exactly the blocks of the iterated
frontier of the blocks that define its variable, whatever the rounds before it have left.
-/
namespace FlowCheck.Graph

open Dominance

/-- The frontiers of reachable blocks, as they are written into the graph, are right. -/
def KnowsFrontiers (g : Graph) : Prop :=
  ∀ u s, g.Reachable u → (s ∈ g.frontier u ↔ g.InFrontier u s)

theorem knowsFrontiers_computeFrontiers {g : Graph} {post : List BlockId}
    (h : DominatorTree g post) (hg : g.WellFormed) : g.computeFrontiers.KnowsFrontiers := by
  intro u s hu
  have hsame := sameTree_computeFrontiers g
  rw [hsame.reachable_iff] at hu
  rw [mem_frontier_computeFrontiers h hg hu, hsame.inFrontier_iff]

theorem InFrontier.reachable {g : Graph} {u s : BlockId} (h : g.InFrontier u s) :
    g.Reachable s := by
  obtain ⟨p, hp, -, he, -⟩ := h
  exact hp.step he

/-! ### Iterated frontiers -/

/-- What lies on the frontier of some block of a set. -/
def frontiers (g : Graph) (S : Set BlockId) : Set BlockId := {d | ∃ u ∈ S, g.InFrontier u d}

/-- Some way leads from a block of a set, by one or more steps to a frontier block, to `d`. -/
inductive Meets (g : Graph) (S : Set BlockId) : BlockId → Prop
  | first {u d : BlockId} (mem : u ∈ S) (frontier : g.InFrontier u d) : Meets g S d
  | again {u d : BlockId} (prior : Meets g S u) (frontier : g.InFrontier u d) : Meets g S d

theorem Meets.reachable {g : Graph} {S : Set BlockId} {d : BlockId} (h : g.Meets S d) :
    g.Reachable d := by
  cases h with
  | first _ hd => exact hd.reachable
  | again _ hd => exact hd.reachable

/-- What can be met is the least set that is the frontier of the set and of itself. -/
theorem isLeast_meets (g : Graph) (S : Set BlockId) :
    IsLeast {X | X = g.frontiers (S ∪ X)} {d | g.Meets S d} := by
  constructor
  · apply Set.ext
    intro d
    constructor
    · rintro (⟨hu, hd⟩ | ⟨hu, hd⟩)
      · exact ⟨_, .inl hu, hd⟩
      · exact ⟨_, .inr hu, hd⟩
    · rintro ⟨u, hu | hu, hd⟩
      · exact .first hu hd
      · exact .again hu hd
  · intro X hX d hd
    induction hd with
    | first hu hd =>
      rw [hX]
      exact ⟨_, .inl hu, hd⟩
    | again _ hd ih =>
      rw [hX]
      exact ⟨_, .inr ih, hd⟩

/-! ### Marks -/

namespace Placement

variable {p : Placement} {v : Var} {b c d : BlockId}

/-- The block was put among those to be visited in this round. -/
def Queued (p : Placement) (b : BlockId) : Prop := p.queued.getD b 0 = p.round

/-- The block was given its phi in this round. -/
def Placed (p : Placement) (b : BlockId) : Prop := p.placed.getD b 0 = p.round

instance (p : Placement) : DecidablePred p.Queued := fun _ => inferInstanceAs (Decidable (_ = _))

instance (p : Placement) : DecidablePred p.Placed := fun _ => inferInstanceAs (Decidable (_ = _))

/-- No mark is of a round to come. -/
def Marked (p : Placement) : Prop := ∀ b, p.queued.getD b 0 ≤ p.round ∧ p.placed.getD b 0 ≤ p.round

theorem queued_queue (hb : b < p.queued.size) : (p.queue b).Queued c ↔ b = c ∨ p.Queued c := by
  simp only [Queued, queue, getD_setIfInBounds hb]
  split_ifs with h <;> simp [h]

theorem marked_queue (h : p.Marked) (hb : b < p.queued.size) : (p.queue b).Marked := by
  intro c
  refine ⟨?_, (h c).2⟩
  simp only [queue, getD_setIfInBounds hb]
  split_ifs
  · exact le_rfl
  · exact (h c).1

theorem foldl_queue (bs : List BlockId) (p : Placement) (hbs : ∀ b ∈ bs, b < p.queued.size)
    (h : p.Marked) :
    (∀ c, (bs.foldl queue p).Queued c ↔ c ∈ bs ∨ p.Queued c) ∧ (bs.foldl queue p).Marked ∧
      (bs.foldl queue p).work = bs.reverse ++ p.work ∧
      (bs.foldl queue p).queued.size = p.queued.size ∧
      (bs.foldl queue p).placed = p.placed ∧ (bs.foldl queue p).round = p.round ∧
      (bs.foldl queue p).graph = p.graph := by
  induction bs generalizing p with
  | nil => simp [h]
  | cons b bs ih =>
    have hb := hbs b List.mem_cons_self
    have hsize : (p.queue b).queued.size = p.queued.size := by simp [queue]
    obtain ⟨hqueued, hmarked, hwork, hsize', hplaced, hround, hgraph⟩ := ih (p.queue b)
      (fun c hc => hsize ▸ hbs c (List.mem_cons_of_mem b hc)) (marked_queue h hb)
    refine ⟨fun c => ?_, hmarked, ?_, hsize'.trans hsize, hplaced, hround, hgraph⟩
    · rw [List.foldl_cons, hqueued, queued_queue hb, List.mem_cons, eq_comm (a := b)]
      tauto
    · rw [List.foldl_cons, hwork]
      simp [queue]

theorem placed_give (hd : d < p.placed.size) : (p.give v d).Placed c ↔ d = c ∨ p.Placed c := by
  simp only [Placed, give, getD_setIfInBounds hd]
  split_ifs with h <;> simp [h]

theorem marked_give (h : p.Marked) (hd : d < p.placed.size) : (p.give v d).Marked := by
  intro c
  refine ⟨(h c).1, ?_⟩
  simp only [give, getD_setIfInBounds hd]
  split_ifs
  · exact le_rfl
  · exact (h c).2

/-- What holds of a placement between variables: its graph is `g` with phis, and every block has its
marks. -/
structure Fits (g : Graph) (p : Placement) : Prop where
  tree : SameTree g p.graph
  frontier_eq : ∀ b, p.graph.frontier b = g.frontier b
  size_queued : p.queued.size = g.blocks.size
  size_placed : p.placed.size = g.blocks.size
  marked : p.Marked

end Placement

/-- A phi before anything is known about its operands. -/
def blankPhi (g : Graph) (b : BlockId) (v : Var) : Phi :=
  { var := v, block := b, operands := (g.preds b).map fun _ => none }

theorem sameTree_addPhi (g : Graph) (v : Var) (b : BlockId) : SameTree g (g.addPhi v b) :=
  SameTree.modifyBlock g b BasicBlock.frontier _

theorem frontier_addPhi (g : Graph) (v : Var) (b c : BlockId) :
    (g.addPhi v b).frontier c = g.frontier c :=
  proj_modifyBlock BasicBlock.frontier g b _ (by intro; rfl) c

theorem phis_addPhi {g : Graph} (v : Var) {b : BlockId} (hb : b < g.blocks.size) (c : BlockId) :
    (g.addPhi v b).phis c = g.phis c ++ if b = c then [g.blankPhi b v] else [] := by
  rw [phis, addPhi, block_modifyBlock]
  by_cases hc : b = c
  · subst hc
    simp [hb, phis, blankPhi, preds]
  · simp [hc, phis]

/-! ### The blocks for one variable -/

/-- The state of a placement for `v`, which the blocks of `S` define, while the frontier blocks in
`todo` are still to be added: every queued block either waits or has its frontier taken care of. -/
structure Placing (g : Graph) (before : BlockId → List Phi) (v : Var) (S : Set BlockId)
    (todo : List BlockId) (p : Placement) : Prop extends p.Fits g where
  phis_eq : ∀ b, p.graph.phis b = before b ++ if p.Placed b then [g.blankPhi b v] else []
  queued_of_mem : ∀ b ∈ S, p.Queued b
  queued_of_placed : ∀ d, p.Placed d → p.Queued d
  queued_of_work : ∀ b ∈ p.work, p.Queued b
  origin : ∀ b, p.Queued b → b ∈ S ∨ g.Meets S b
  met : ∀ d, p.Placed d ∨ d ∈ todo → g.Meets S d
  closed : ∀ b, p.Queued b → b ∈ p.work ∨ ∀ d, g.InFrontier b d → p.Placed d ∨ d ∈ todo

/-- How many blocks wait or may still be queued. -/
def Placement.left (p : Placement) (g : Graph) : ℕ :=
  p.work.length + ((Finset.range g.blocks.size).filter fun b => ¬ p.Queued b).card

namespace Placing

variable {g : Graph} {before : BlockId → List Phi} {v : Var} {S : Set BlockId}
  {todo : List BlockId} {p : Placement} {d b : BlockId}

theorem meets (h : Placing g before v S (d :: todo) p) : g.Meets S d :=
  h.met d (.inr List.mem_cons_self)

/-- A block that has its phi needs no other one. -/
theorem skip (h : Placing g before v S (d :: todo) p) (hd : p.Placed d) :
    Placing g before v S todo p where
  toFits := h.toFits
  phis_eq := h.phis_eq
  queued_of_mem := h.queued_of_mem
  queued_of_placed := h.queued_of_placed
  queued_of_work := h.queued_of_work
  origin := h.origin
  met x hx := h.met x (hx.imp_right (List.mem_cons_of_mem d))
  closed b hb := by
    apply (h.closed b hb).imp_right
    intro hall x hx
    rcases hall x hx with hx | hx
    · exact .inl hx
    · rcases List.mem_cons.mp hx with rfl | hx
      · exact .inl hd
      · exact .inr hx

/-- A block met for the first time waits for its frontier to be visited. -/
theorem queue (hg : g.WellFormed) (h : Placing g before v S (d :: todo) p) :
    Placing g before v S (d :: todo) (p.queue d) := by
  have hsize : d < p.queued.size := h.size_queued ▸ h.meets.reachable.lt_size hg
  have hqueued : ∀ {c}, (p.queue d).Queued c ↔ d = c ∨ p.Queued c := Placement.queued_queue hsize
  have hwork : ∀ {c}, c ∈ (p.queue d).work ↔ c = d ∨ c ∈ p.work := List.mem_cons
  refine ⟨⟨h.tree, h.frontier_eq, ?_, h.size_placed, Placement.marked_queue h.marked hsize⟩,
    h.phis_eq, ?_, ?_, ?_, ?_, h.met, ?_⟩
  · simpa [Placement.queue] using h.size_queued
  · intro b hb
    exact hqueued.mpr (.inr (h.queued_of_mem b hb))
  · intro x hx
    exact hqueued.mpr (.inr (h.queued_of_placed x hx))
  · intro b hb
    exact hqueued.mpr ((hwork.mp hb).imp Eq.symm (h.queued_of_work b))
  · intro b hb
    rcases hqueued.mp hb with rfl | hb
    · exact .inr h.meets
    · exact h.origin b hb
  · intro b hb
    rcases hqueued.mp hb with rfl | hb
    · exact .inl (hwork.mpr (.inl rfl))
    · exact (h.closed b hb).imp_left fun hb => hwork.mpr (.inr hb)

/-- A block that is queued already gets its phi. -/
theorem give (hg : g.WellFormed) (h : Placing g before v S (d :: todo) p) (hd : ¬ p.Placed d)
    (hq : p.Queued d) : Placing g before v S todo (p.give v d) := by
  have hlt : d < g.blocks.size := h.meets.reachable.lt_size hg
  have hsize : d < p.placed.size := h.size_placed ▸ hlt
  have hplaced : ∀ {c}, (p.give v d).Placed c ↔ d = c ∨ p.Placed c := Placement.placed_give hsize
  have htree : SameTree g (p.give v d).graph := h.tree.trans (sameTree_addPhi p.graph v d)
  refine ⟨⟨htree, ?_, h.size_queued, ?_, Placement.marked_give h.marked hsize⟩, ?_,
    h.queued_of_mem, ?_, h.queued_of_work, h.origin, ?_, ?_⟩
  · intro b
    exact (frontier_addPhi p.graph v d b).trans (h.frontier_eq b)
  · simpa [Placement.give] using h.size_placed
  · intro b
    have hblank : p.graph.blankPhi d v = g.blankPhi d v := by rw [blankPhi, h.tree.preds_eq, blankPhi]
    have hphis : (p.give v d).graph.phis b = _ := phis_addPhi v (by rwa [h.tree.size_eq]) b
    rw [hphis, h.phis_eq, hblank]
    simp only [hplaced]
    by_cases hb : d = b
    · subst hb
      simp [hd]
    · simp [hb]
  · intro x hx
    rcases hplaced.mp hx with rfl | hx
    · exact hq
    · exact h.queued_of_placed x hx
  · intro x hx
    rcases hx with hx | hx
    · rcases hplaced.mp hx with rfl | hx
      · exact h.meets
      · exact h.met x (.inl hx)
    · exact h.met x (.inr (List.mem_cons_of_mem d hx))
  · intro b hb
    apply (h.closed b hb).imp_right
    intro hall x hx
    rcases hall x hx with hx | hx
    · exact .inl (hplaced.mpr (.inr hx))
    · exact (List.mem_cons.mp hx).imp_left fun heq => hplaced.mpr (.inl heq.symm)

theorem left_le (p : Placement) (g : Graph) : p.left g ≤ p.work.length + g.blocks.size :=
  Nat.add_le_add_left ((Finset.card_filter_le _ _).trans_eq (Finset.card_range _)) _

theorem left_queue (hq : ¬ p.Queued d) (hd : d < g.blocks.size) (hsize : d < p.queued.size) :
    (p.queue d).left g ≤ p.left g := by
  have hcard : ((Finset.range g.blocks.size).filter fun b => ¬ (p.queue d).Queued b).card <
      ((Finset.range g.blocks.size).filter fun b => ¬ p.Queued b).card := by
    apply Finset.card_lt_card
    apply (Finset.ssubset_iff_of_subset ?_).mpr
    · exact ⟨d, by simp [hd, hq], by simp [Placement.queued_queue hsize]⟩
    · intro b
      simp only [Finset.mem_filter, Placement.queued_queue hsize]
      tauto
  simp only [Placement.left, Placement.queue, List.length_cons] at hcard ⊢
  omega

theorem add (hg : g.WellFormed) (h : Placing g before v S (d :: todo) p) :
    Placing g before v S todo (p.add v d) ∧ (p.add v d).left g ≤ p.left g := by
  have hd : d < g.blocks.size := h.meets.reachable.lt_size hg
  unfold Placement.add
  split_ifs with hp hq
  · exact ⟨h.skip hp, le_rfl⟩
  · exact ⟨h.give hg hp hq, le_rfl⟩
  · have hsize : d < p.queued.size := h.size_queued ▸ hd
    exact ⟨(h.queue hg).give hg hp ((Placement.queued_queue hsize).mpr (.inl rfl)),
      left_queue hq hd hsize⟩

theorem foldl_add (hg : g.WellFormed) (todo : List BlockId) (p : Placement)
    (h : Placing g before v S todo p) :
    Placing g before v S [] (todo.foldl (Placement.add v) p) ∧
      (todo.foldl (Placement.add v) p).left g ≤ p.left g := by
  induction todo generalizing p with
  | nil => exact ⟨h, le_rfl⟩
  | cons d todo ih =>
    obtain ⟨hadd, hle⟩ := h.add hg
    obtain ⟨hrest, hle'⟩ := ih _ hadd
    exact ⟨hrest, hle'.trans hle⟩

/-- Taking a block off the work list makes its frontier the next thing to do. -/
theorem take {work : List BlockId} (hf : g.KnowsFrontiers) (hS : ∀ b ∈ S, g.Reachable b)
    (h : Placing g before v S [] p) (hwork : p.work = b :: work) :
    Placing g before v S (g.frontier b) { p with work } := by
  have hmem : ∀ x ∈ work, x ∈ p.work := fun x hx => hwork ▸ List.mem_cons_of_mem b hx
  have horigin := h.origin b (h.queued_of_work b (by simp [hwork]))
  have hb : g.Reachable b := horigin.elim (hS b) Meets.reachable
  have hmeets : ∀ d, g.InFrontier b d → g.Meets S d := fun d hd =>
    horigin.elim (fun hb => .first hb hd) fun hb => .again hb hd
  refine ⟨⟨h.tree, h.frontier_eq, h.size_queued, h.size_placed, h.marked⟩, h.phis_eq,
    h.queued_of_mem, h.queued_of_placed, ?_, h.origin, ?_, ?_⟩
  · intro x hx
    exact h.queued_of_work x (hmem x hx)
  · rintro x (hx | hx)
    · exact h.met x (.inl hx)
    · exact hmeets x ((hf b x hb).mp hx)
  · intro x hx
    rcases h.closed x hx with hw | hall
    · rw [hwork] at hw
      rcases List.mem_cons.mp hw with rfl | hw
      · exact .inr fun d hd => .inr ((hf _ d hb).mpr hd)
      · exact .inl hw
    · exact .inr fun d hd => .inl ((hall d hd).resolve_right List.not_mem_nil)

/-- When the fuel covers what is left, nothing waits at the end. -/
theorem settle (hg : g.WellFormed) (hf : g.KnowsFrontiers) (hS : ∀ b ∈ S, g.Reachable b)
    (fuel : ℕ) (p : Placement) (h : Placing g before v S [] p) (hfuel : p.left g ≤ fuel) :
    Placing g before v S [] (p.settle v fuel) ∧ (p.settle v fuel).work = [] := by
  induction fuel generalizing p with
  | zero =>
    have hwork : p.work.length = 0 := by
      unfold Placement.left at hfuel
      omega
    exact ⟨h, List.eq_nil_of_length_eq_zero hwork⟩
  | succ fuel ih =>
    rw [Placement.settle]
    cases hwork : p.work with
    | nil => exact ⟨h, hwork⟩
    | cons b work =>
      have hfrontier : (p.graph.block b).frontier = g.frontier b := h.frontier_eq b
      obtain ⟨hplacing, hle⟩ := foldl_add hg _ _ (h.take hf hS hwork)
      have hleft : p.left g = Placement.left { p with work } g + 1 := by
        simp only [Placement.left, hwork, List.length_cons]
        exact Nat.add_right_comm _ _ _
      simp only [hfrontier]
      exact ih _ hplacing (by omega)

/-- Once nothing waits, the blocks with a phi are those that can be met. -/
theorem placed_iff (h : Placing g before v S [] p) (hwork : p.work = []) :
    p.Placed d ↔ g.Meets S d := by
  have hclosed : ∀ {b x}, p.Queued b → g.InFrontier b x → p.Placed x := by
    intro b x hb hx
    rcases h.closed b hb with hw | hall
    · rw [hwork] at hw
      cases hw
    · exact (hall x hx).resolve_right List.not_mem_nil
  constructor
  · intro hd
    exact h.met d (.inl hd)
  · intro hd
    induction hd with
    | first hu hd => exact hclosed (h.queued_of_mem _ hu) hd
    | again _ hd ih => exact hclosed (h.queued_of_placed _ ih) hd

end Placing

/-- At the start of its round a variable has the blocks that define it queued and no phi, whatever
marks the variables before it have left. -/
theorem placing_start {g : Graph} (hg : g.WellFormed) {p : Placement} (hp : p.Fits g) (v : Var)
    {S : Set BlockId} {defining : List BlockId} (hd : ∀ b, b ∈ defining ↔ b ∈ S)
    (hS : ∀ b ∈ S, g.Reachable b) :
    Placing g p.graph.phis v S [] (defining.foldl Placement.queue p.next) ∧
      (defining.foldl Placement.queue p.next).left g ≤
        defining.length + p.graph.blocks.size + 1 := by
  have hfresh : ∀ c, ¬ p.next.Queued c ∧ ¬ p.next.Placed c := by
    intro c
    have := hp.marked c
    simp only [Placement.Queued, Placement.Placed, Placement.next]
    omega
  have hnext : p.next.Marked := fun b =>
    ⟨(hp.marked b).1.trans (Nat.le_succ _), (hp.marked b).2.trans (Nat.le_succ _)⟩
  obtain ⟨hqueued, hmarked, hwork, hsize, hplaced, hround, hgraph⟩ :=
    Placement.foldl_queue defining p.next
      (fun b hb => hp.size_queued ▸ (hS b ((hd b).mp hb)).lt_size hg) hnext
  generalize defining.foldl Placement.queue p.next = start at *
  have hqueued' : ∀ c, start.Queued c ↔ c ∈ S := by
    intro c
    rw [hqueued, or_iff_left (hfresh c).1, hd]
  have hplaced' : ∀ c, ¬ start.Placed c := by
    intro c
    rw [Placement.Placed, hplaced, hround]
    exact (hfresh c).2
  have hwork' : start.work = defining.reverse := by simpa [Placement.next] using hwork
  constructor
  · refine ⟨⟨hgraph ▸ hp.tree, hgraph ▸ hp.frontier_eq, hsize.trans hp.size_queued,
      hplaced ▸ hp.size_placed, hmarked⟩, ?_, ?_, ?_, ?_, ?_, ?_, ?_⟩
    · simp [hplaced', hgraph, Placement.next]
    · simp [hqueued']
    · simp [hplaced']
    · simp [hqueued', hwork', hd]
    · intro b hb
      exact .inl ((hqueued' b).mp hb)
    · simp [hplaced']
    · intro b hb
      exact .inl (by simpa [hwork', hd] using (hqueued' b).mp hb)
  · have hle := Placing.left_le start g
    rw [hwork', List.length_reverse, ← hp.tree.size_eq] at hle
    omega

open Classical in
/-- One variable after any others: it gets its phis, and nothing else changes. -/
theorem place_spec {g : Graph} (hg : g.WellFormed) (hf : g.KnowsFrontiers) {p : Placement}
    (hp : p.Fits g) (v : Var) {S : Set BlockId} {defining : List BlockId}
    (hd : ∀ b, b ∈ defining ↔ b ∈ S) (hS : ∀ b ∈ S, g.Reachable b) :
    (p.place v defining).Fits g ∧ ∀ b, (p.place v defining).graph.phis b =
      p.graph.phis b ++ if g.Meets S b then [g.blankPhi b v] else [] := by
  obtain ⟨hstart, hfuel⟩ := placing_start hg hp v hd hS
  obtain ⟨hend, hwork⟩ := hstart.settle hg hf hS _ _ hfuel
  refine ⟨hend.toFits, fun b => ?_⟩
  simp only [Placement.place, hend.phis_eq, hend.placed_iff hwork]

end FlowCheck.Graph
