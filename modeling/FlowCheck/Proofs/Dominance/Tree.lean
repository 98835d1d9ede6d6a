import FlowCheck.Proofs.Dominance.Search
import FlowCheck.Proofs.Dominance.Table

/-!
# The dominator tree

`computeDominance` keeps the shape of a graph and gives every reachable block except the entry the
nearest of its strict dominators; `dominates` then answers by following these upwards.
-/
namespace FlowCheck.Dominance

open FlowCheck.Graph

/-! ### Postorder numbers -/

/-- The numbers of the reachable blocks before the block with a number. -/
def predNumbers (g : Graph) (post : List BlockId) (i : ℕ) : List ℕ :=
  (post[i]?).elim [] fun b => ((g.preds b).filter post.contains).map post.idxOf

section Numbers

variable {g : Graph} {post : List BlockId}

theorem Postorder.length_pos (h : Postorder g post) : 0 < post.length := by
  obtain ⟨new, rfl⟩ := h.last
  simp

/-- In post order the entry comes last and nowhere else. -/
theorem Postorder.exists_entry_notMem (h : Postorder g post) :
    ∃ new, post = new ++ [g.entry] ∧ g.entry ∉ new := by
  obtain ⟨new, rfl⟩ := h.last
  exact ⟨new, rfl, fun hm =>
    (List.nodup_append.mp h.nodup).2.2 _ hm _ (List.mem_singleton_self _) rfl⟩

theorem Postorder.idxOf_entry (h : Postorder g post) : post.idxOf g.entry = post.length - 1 := by
  obtain ⟨new, rfl, hnot⟩ := h.exists_entry_notMem
  rw [List.idxOf_append_of_notMem hnot]
  simp

theorem Postorder.getElem?_idxOf (h : Postorder g post) {b : BlockId} (hb : g.Reachable b) :
    post[post.idxOf b]? = some b := by
  have hlt := List.idxOf_lt_length_of_mem ((h.mem_iff b).mpr hb)
  rw [List.getElem?_eq_getElem hlt, List.getElem_idxOf hlt]

theorem Postorder.idxOf_eq (h : Postorder g post) {i : ℕ} {b : BlockId} (hb : post[i]? = some b) :
    post.idxOf b = i := by
  obtain ⟨hi, rfl⟩ := List.getElem?_eq_some_iff.mp hb
  exact h.nodup.idxOf_getElem i hi

theorem Postorder.reachable (h : Postorder g post) {i : ℕ} {b : BlockId}
    (hb : post[i]? = some b) : g.Reachable b :=
  (h.mem_iff b).mp (List.mem_of_getElem? hb)

theorem Postorder.idxOf_le (h : Postorder g post) {b : BlockId} (hb : g.Reachable b) :
    post.idxOf b ≤ post.length - 1 := by
  have := List.idxOf_lt_length_of_mem ((h.mem_iff b).mpr hb)
  omega

theorem mem_predNumbers (hg : g.WellFormed) (h : Postorder g post) {i p : ℕ} :
    p ∈ predNumbers g post i ↔
      ∃ b q, post[i]? = some b ∧ post[p]? = some q ∧ g.Edge q b := by
  unfold predNumbers
  cases hb : post[i]? with
  | none => simp
  | some b =>
    simp only [Option.elim_some, List.mem_map, List.mem_filter, List.contains_iff_mem]
    constructor
    · rintro ⟨q, ⟨hq, hqp⟩, rfl⟩
      exact ⟨b, q, rfl, h.getElem?_idxOf ((h.mem_iff q).mp hqp), (hg.mem_preds q b).mp hq⟩
    · rintro ⟨b', q, hb', hq, he⟩
      obtain rfl := Option.some_inj.mp hb'
      exact ⟨q, ⟨(hg.mem_preds q b).mpr he, List.mem_of_getElem? hq⟩, h.idxOf_eq hq⟩

theorem idxOf_lt_of_sublist {l : List BlockId} (hl : l.Nodup) {x y : BlockId}
    (h : [x, y].Sublist l) : l.idxOf x < l.idxOf y := by
  obtain ⟨l₁, l₂, rfl, hx, hy⟩ := List.cons_sublist_iff.mp h
  have hy₂ : y ∈ l₂ := List.singleton_sublist.mp hy
  have hy₁ : y ∉ l₁ := fun hm => (List.nodup_append.mp hl).2.2 y hm y hy₂ rfl
  rw [List.idxOf_append_of_mem hx, List.idxOf_append_of_notMem hy₁]
  exact (List.idxOf_lt_length_of_mem hx).trans_le (Nat.le_add_right _ _)

theorem numbered_predNumbers (hg : g.WellFormed) (h : Postorder g post) :
    Numbered (predNumbers g post) (post.length - 1) := by
  constructor
  · intro i p hp
    obtain ⟨b, q, hb, hq, -⟩ := (mem_predNumbers hg h).mp hp
    have h₁ := (List.getElem?_eq_some_iff.mp hb).1
    have h₂ := (List.getElem?_eq_some_iff.mp hq).1
    omega
  · intro i hi
    obtain ⟨b, hb⟩ : ∃ b, post[i]? = some b := ⟨_, List.getElem?_eq_getElem (by omega)⟩
    rcases h.parent b (List.mem_of_getElem? hb) with rfl | ⟨p, he, hsub⟩
    · have := h.idxOf_eq hb
      have := h.idxOf_entry
      omega
    · have hlt := idxOf_lt_of_sublist h.nodup hsub
      rw [h.idxOf_eq hb] at hlt
      have hp : g.Reachable p := (h.mem_iff p).mp (hsub.subset (by simp))
      exact ⟨post.idxOf p, (mem_predNumbers hg h).mpr ⟨b, p, hb, h.getElem?_idxOf hp, he⟩, hlt⟩

/-- A trail of numbers is a path of blocks. -/
theorem exists_path_of_trail (hg : g.WellFormed) (h : Postorder g post) {m i : ℕ} {l : List ℕ}
    (ht : Trail (predNumbers g post) (post.length - 1) m l i) :
    ∃ b L, post[i]? = some b ∧ g.Path g.entry L b ∧
      ∀ x, x ∈ L ∨ x = b → post.idxOf x ∈ l := by
  have key : ∀ {p c : ℕ} {l : List ℕ}, p ∈ predNumbers g post c →
      (∃ b L, post[p]? = some b ∧ g.Path g.entry L b ∧
        ∀ x, x ∈ L ∨ x = b → post.idxOf x ∈ l) →
      ∃ b L, post[c]? = some b ∧ g.Path g.entry L b ∧
        ∀ x, x ∈ L ∨ x = b → post.idxOf x ∈ c :: l := by
    rintro p c l he ⟨b, L, hb, hL, hx⟩
    obtain ⟨b', q, hb', hq, hedge⟩ := (mem_predNumbers hg h).mp he
    obtain rfl : b = q := Option.some_inj.mp (hb.symm.trans hq)
    refine ⟨b', L ++ [b], hb', hL.step hedge, ?_⟩
    rintro x (hmem | rfl)
    · exact List.mem_cons_of_mem _ (hx x (by simpa using hmem))
    · rw [h.idxOf_eq hb']
      exact List.mem_cons_self
  induction ht with
  | here =>
    have hentry := h.getElem?_idxOf (Reachable.entry g)
    rw [h.idxOf_entry] at hentry
    refine ⟨g.entry, [], hentry, .here, ?_⟩
    rintro x (hx | rfl)
    · simp at hx
    · rw [h.idxOf_entry]
      exact List.mem_singleton_self _
  | forth _ he _ ih => exact key he ih
  | back _ he _ ih => exact key he ih

theorem exists_trail_of_path (hg : g.WellFormed) (h : Postorder g post) {b : BlockId}
    {L : List BlockId} (hp : g.Path g.entry L b) :
    ∃ m l, Trail (predNumbers g post) (post.length - 1) m l (post.idxOf b) ∧
      ∀ i ∈ l, ∃ x, (x ∈ L ∨ x = b) ∧ post.idxOf x = i := by
  induction hp with
  | here =>
    refine ⟨0, [post.length - 1], ?_, ?_⟩
    · rw [h.idxOf_entry]
      exact .here
    · intro i hi
      exact ⟨g.entry, .inr rfl, by rw [h.idxOf_entry, List.mem_singleton.mp hi]⟩
  | @step L p b prior he ih =>
    obtain ⟨m, l, ht, hl⟩ := ih
    have hpr : g.Reachable p := ⟨L, prior⟩
    have hmem : post.idxOf p ∈ predNumbers g post (post.idxOf b) :=
      (mem_predNumbers hg h).mpr
        ⟨b, p, h.getElem?_idxOf (hpr.step he), h.getElem?_idxOf hpr, he⟩
    obtain ⟨m', ht'⟩ := ht.step hmem
    refine ⟨m', _, ht', ?_⟩
    intro i hi
    rcases List.mem_cons.mp hi with rfl | hi
    · exact ⟨b, .inr rfl, rfl⟩
    · obtain ⟨x, hx, hxi⟩ := hl i hi
      exact ⟨x, .inl (by simpa using hx), hxi⟩

/-- Dominance, read off the numbers. -/
theorem onAllTrails_iff (hg : g.WellFormed) (h : Postorder g post) {a b : BlockId}
    (ha : g.Reachable a) (hb : g.Reachable b) :
    OnAllTrails (predNumbers g post) (post.length - 1) (post.idxOf a) (post.idxOf b) ↔
      g.Dominates a b := by
  constructor
  · intro hall L hL
    obtain ⟨m, l, ht, hl⟩ := exists_trail_of_path hg h hL
    obtain ⟨x, hx, hxa⟩ := hl _ (hall m l ht)
    rwa [← (List.idxOf_inj ((h.mem_iff a).mpr ha)).mp hxa.symm] at hx
  · intro hdom m l ht
    obtain ⟨b', L, hb', hL, hx⟩ := exists_path_of_trail hg h ht
    obtain rfl : b = b' := Option.some_inj.mp ((h.getElem?_idxOf hb).symm.trans hb')
    exact hx a (hdom L hL)

/-- The blocks of a round, from the largest number below the entry's down. -/
theorem map_tail_reverse (h : Postorder g post) :
    (post.reverse.tail.map fun b =>
      (post.idxOf b, ((g.preds b).filter post.contains).map post.idxOf)) =
      roundOrder (predNumbers g post) (post.length - 1) := by
  obtain ⟨new, hnew⟩ := h.last
  have htail : post.reverse.tail = new.reverse := by simp [hnew]
  have hlen : post.length - 1 = new.length := by simp [hnew]
  rw [htail, roundOrder, List.map_reverse, List.map_reverse, List.reverse_inj, hlen]
  apply List.ext_getElem (by simp)
  intro i hi _
  have hi' : i < new.length := by simpa using hi
  have hget : post[i]? = some new[i] := by
    rw [hnew, List.getElem?_append_left hi', List.getElem?_eq_getElem hi']
  simp [predNumbers, hget, h.idxOf_eq hget]

theorem table_level (hg : g.WellFormed) (h : Postorder g post) :
    Level (predNumbers g post) (post.length - 1) (post.length * post.length + 2)
      (post.length - 1) (table g post) := by
  have hcount : post.length = post.length - 1 + 1 := by have := h.length_pos; omega
  have hstart := (Level.start (predNumbers g post) (post.length - 1)).settle
    (numbered_predNumbers hg h) (post.length * post.length + 2)
  rw [Nat.zero_add, ← hcount] at hstart
  simpa only [table, h.idxOf_entry, map_tail_reverse h] using hstart

end Numbers

/-- The immediate dominator that a table gives to a block. -/
def tableIdom (g : Graph) (post : List BlockId) (b : BlockId) : Option BlockId :=
  ((table g post).getD (post.idxOf b) none).bind fun d => post[d]?

/-- The nearest strict dominator, and one that is later in postorder. -/
theorem tableIdom_spec {g : Graph} {post : List BlockId} (hg : g.WellFormed)
    (h : Postorder g post) {b : BlockId} (hb : g.Reachable b) (hne : b ≠ g.entry) :
    ∃ d, tableIdom g post b = some d ∧ g.Dominates d b ∧ d ≠ b ∧
      (∀ x, g.Dominates x b → x ≠ b → g.Dominates x d) ∧ post.idxOf b < post.idxOf d := by
  have ht := table_level hg h
  have hP := numbered_predNumbers hg h
  have hsq : post.length - 1 < post.length * post.length + 2 := by
    have := Nat.le_mul_self post.length
    omega
  have hbound := h.idxOf_le hb
  have hroot : post.idxOf b ≠ post.length - 1 := by
    rw [← h.idxOf_entry]
    exact fun heq => hne ((List.idxOf_inj ((h.mem_iff b).mpr hb)).mp heq)
  obtain ⟨i, hi⟩ := ht.defined _ hbound (.inr (by omega))
  obtain ⟨hlt, hle⟩ := ht.rising.above hi hroot
  obtain ⟨d, hd⟩ : ∃ d, post[i]? = some d :=
    ⟨_, List.getElem?_eq_getElem (by have := h.length_pos; omega)⟩
  have hdr := h.reachable hd
  have hdi := h.idxOf_eq hd
  refine ⟨d, by simp [tableIdom, hi, hd], ?_, ?_, ?_, by omega⟩
  · rw [← onAllTrails_iff hg h hdr hb, ← ht.chain_iff hP hsq hbound, hdi]
    exact .up hi (.self i)
  · rintro rfl
    omega
  · intro x hx hxb
    have hxr := hx.reachable hb
    rw [← onAllTrails_iff hg h hxr hb, ← ht.chain_iff hP hsq hbound] at hx
    rw [← onAllTrails_iff hg h hxr hdr, ← ht.chain_iff hP hsq (h.idxOf_le hdr), hdi]
    refine hx.tail ?_ hi
    exact fun heq => hxb ((List.idxOf_inj ((h.mem_iff x).mpr hxr)).mp heq)

end FlowCheck.Dominance

namespace FlowCheck.Graph

open Dominance

/-! ### Writing the tree into the graph -/

def dominees (g : Graph) (b : BlockId) : List BlockId := (g.block b).dominees

theorem sameShape_setIdom (g : Graph) (b d : BlockId) : SameShape g (g.setIdom b d) := by
  refine (SameShape.modifyBlock g b _ ?_ ?_ ?_ ?_).trans (SameShape.modifyBlock _ d _ ?_ ?_ ?_ ?_)
    <;> intro x <;> rfl

theorem idom_setIdom {g : Graph} {b : BlockId} (d : BlockId) (hb : b < g.blocks.size)
    (x : BlockId) : (g.setIdom b d).idom x = if b = x then some d else g.idom x := by
  have h := proj_modifyBlock BasicBlock.idom (g.modifyBlock b fun y => { y with idom := some d }) d
    (fun y => { y with dominees := y.dominees ++ [b] }) (by intro; rfl) x
  refine h.trans ?_
  rw [block_modifyBlock]
  by_cases hx : b = x
  · subst hx
    simp [hb]
  · simp [hx, idom]

theorem dominees_setIdom {g : Graph} (b : BlockId) {d : BlockId} (hd : d < g.blocks.size)
    (x : BlockId) :
    (g.setIdom b d).dominees x = g.dominees x ++ if d = x then [b] else [] := by
  have h : (g.modifyBlock b fun y => { y with idom := some d }).dominees x = g.dominees x :=
    proj_modifyBlock BasicBlock.dominees g b _ (by intro; rfl) x
  rw [← h, dominees, setIdom, block_modifyBlock]
  by_cases hx : d = x
  · subst hx
    simp [hd, dominees]
  · simp [hx, dominees]

theorem phis_setIdom (g : Graph) (b d c : BlockId) : (g.setIdom b d).phis c = g.phis c := by
  have h := proj_modifyBlock BasicBlock.phis (g.modifyBlock b fun y => { y with idom := some d }) d
    (fun y => { y with dominees := y.dominees ++ [b] }) (by intro; rfl) c
  exact h.trans (proj_modifyBlock BasicBlock.phis g b _ (by intro; rfl) c)

theorem foldl_setIdom (L : List (BlockId × BlockId)) (g : Graph)
    (hL : ∀ p ∈ L, p.1 < g.blocks.size ∧ p.2 < g.blocks.size) (hn : (L.map Prod.fst).Nodup) :
    (∀ x, x ∉ L.map Prod.fst → (L.foldl (fun g p => g.setIdom p.1 p.2) g).idom x = g.idom x) ∧
    (∀ p ∈ L, (L.foldl (fun g p => g.setIdom p.1 p.2) g).idom p.1 = some p.2) ∧
    ∀ x, (L.foldl (fun g p => g.setIdom p.1 p.2) g).dominees x =
      g.dominees x ++ (L.filter fun p => p.2 = x).map Prod.fst := by
  induction L generalizing g with
  | nil => simp
  | cons p L ih =>
    rw [List.map_cons, List.nodup_cons] at hn
    obtain ⟨hp, hn⟩ := hn
    have hsize := (sameShape_setIdom g p.1 p.2).size_eq
    obtain ⟨hb, hd⟩ := hL p List.mem_cons_self
    obtain ⟨h₁, h₂, h₃⟩ := ih (g.setIdom p.1 p.2)
      (fun q hq => by rw [hsize]; exact hL q (List.mem_cons_of_mem _ hq)) hn
    simp only [List.foldl_cons]
    refine ⟨?_, ?_, ?_⟩
    · intro x hx
      rw [List.map_cons, List.mem_cons, not_or] at hx
      rw [h₁ x hx.2, idom_setIdom p.2 hb, if_neg (Ne.symm hx.1)]
    · intro q hq
      rcases List.mem_cons.mp hq with rfl | hq
      · rw [h₁ _ hp, idom_setIdom q.2 hb, if_pos rfl]
      · exact h₂ q hq
    · intro x
      rw [h₃, dominees_setIdom p.1 hd, List.append_assoc]
      by_cases hx : p.2 = x <;> simp [hx]

/-- The dominator tree as it is written down in a graph, with the order that it was found in. -/
structure DominatorTree (g : Graph) (post : List BlockId) : Prop where
  postorder : Postorder g post
  order_eq : g.order = some post.reverse
  idom_entry : g.idom g.entry = none
  idom_unreachable : ∀ {b}, ¬ g.Reachable b → g.idom b = none
  exists_idom : ∀ {b}, g.Reachable b → b ≠ g.entry → ∃ d, g.idom b = some d
  dominates : ∀ {b d}, g.idom b = some d → g.Dominates d b
  ne : ∀ {b d}, g.idom b = some d → d ≠ b
  nearest : ∀ {b d x}, g.idom b = some d → g.Dominates x b → x ≠ b → g.Dominates x d
  idxOf_lt : ∀ {b d}, g.idom b = some d → post.idxOf b < post.idxOf d
  dominees_eq : ∀ d, g.dominees d = post.reverse.tail.filter fun b => g.idom b = some d

theorem block_clearDominance (g : Graph) (b : BlockId) :
    g.clearDominance.block b = { g.block b with idom := none, dominees := [] } := by
  rw [block_eq, block_eq, clearDominance, Array.getElem?_map]
  cases g.blocks[b]? <;> rfl

theorem sameShape_clearDominance (g : Graph) : SameShape g g.clearDominance := by
  refine ⟨by simp [clearDominance], rfl, rfl, rfl, ?_, ?_, ?_, ?_⟩ <;> intro b
  · rw [block_clearDominance]
  · rw [nodes, block_clearDominance, nodes]
  · rw [succs, block_clearDominance, succs]
  · rw [preds, block_clearDominance, preds]

/-- Pairs of the members of a list with what they are sent to. -/
theorem map_fst_filterMap {f : BlockId → Option BlockId} {l : List BlockId}
    (hf : ∀ b ∈ l, ∃ d, f b = some d) :
    (l.filterMap fun b => (f b).map (b, ·)).map Prod.fst = l := by
  induction l with
  | nil => rfl
  | cons b l ih =>
    obtain ⟨d, hd⟩ := hf b List.mem_cons_self
    have hl := ih fun c hc => hf c (List.mem_cons_of_mem _ hc)
    simp [hd, hl]

theorem map_fst_filter_filterMap (f : BlockId → Option BlockId) (l : List BlockId) (x : BlockId) :
    ((l.filterMap fun b => (f b).map (b, ·)).filter fun p => p.2 = x).map Prod.fst =
      l.filter fun b => f b = some x := by
  induction l with
  | nil => rfl
  | cons b l ih =>
    cases hb : f b with
    | none => simpa [hb] using ih
    | some d => by_cases hd : d = x <;> simpa [hb, hd] using ih

/-- The pairs of blocks and immediate dominators that are written into a graph. -/
def idomPairs (g : Graph) : List (BlockId × BlockId) :=
  (postorder g).reverse.tail.filterMap fun b => (tableIdom g (postorder g) b).map (b, ·)

theorem computeDominance_eq (g : Graph) :
    g.computeDominance = { (g.idomPairs.foldl (fun g p => g.setIdom p.1 p.2) g.clearDominance) with
      order := some (postorder g).reverse } := rfl

theorem sameShape_computeDominance (g : Graph) : SameShape g g.computeDominance := by
  have h := (sameShape_clearDominance g).trans
    (SameShape.foldl (fun g (p : BlockId × BlockId) => sameShape_setIdom g p.1 p.2) g.idomPairs _)
  rw [computeDominance_eq]
  exact ⟨h.size_eq, h.entry_eq, h.ret_eq, h.exit_eq, h.id_eq, h.nodes_eq, h.succs_eq, h.preds_eq⟩

theorem phis_computeDominance (g : Graph) (b : BlockId) : g.computeDominance.phis b = g.phis b := by
  have hfold : ∀ (L : List (BlockId × BlockId)) (h : Graph),
      (L.foldl (fun g p => g.setIdom p.1 p.2) h).phis b = h.phis b := by
    intro L
    induction L with
    | nil => intro h; rfl
    | cons p L ih =>
      intro h
      rw [List.foldl_cons, ih, phis_setIdom]
  refine (hfold g.idomPairs g.clearDominance).trans ?_
  rw [phis, block_clearDominance, phis]

theorem mem_tail_reverse_iff {g : Graph} {post : List BlockId} (h : Postorder g post)
    {b : BlockId} : b ∈ post.reverse.tail ↔ g.Reachable b ∧ b ≠ g.entry := by
  rw [← h.mem_iff]
  obtain ⟨new, rfl, hnot⟩ := h.exists_entry_notMem
  simp only [List.reverse_append, List.reverse_singleton, List.singleton_append, List.tail_cons,
    List.mem_reverse, List.mem_append, List.mem_singleton]
  constructor
  · intro hb
    exact ⟨.inl hb, fun he => hnot (he ▸ hb)⟩
  · rintro ⟨hb | hb, hne⟩
    · exact hb
    · exact absurd hb hne

section Written

variable {g : Graph}

theorem mem_idomPairs {b d : BlockId} : (b, d) ∈ g.idomPairs ↔
    b ∈ (postorder g).reverse.tail ∧ tableIdom g (postorder g) b = some d := by
  simp [idomPairs]

theorem map_fst_idomPairs (hg : g.WellFormed) :
    g.idomPairs.map Prod.fst = (postorder g).reverse.tail := by
  have hpost := postorder_spec hg
  refine map_fst_filterMap ?_
  intro b hb
  obtain ⟨hr, hne⟩ := (mem_tail_reverse_iff hpost).mp hb
  obtain ⟨d, hd, -⟩ := tableIdom_spec hg hpost hr hne
  exact ⟨d, hd⟩

theorem nodup_idomPairs (hg : g.WellFormed) : (g.idomPairs.map Prod.fst).Nodup := by
  rw [map_fst_idomPairs hg]
  exact (List.nodup_reverse.mpr (postorder_spec hg).nodup).sublist (List.tail_sublist _)

theorem lt_of_mem_idomPairs (hg : g.WellFormed) {p : BlockId × BlockId} (hp : p ∈ g.idomPairs) :
    p.1 < g.clearDominance.blocks.size ∧ p.2 < g.clearDominance.blocks.size := by
  have hpost := postorder_spec hg
  obtain ⟨hb, hd⟩ := mem_idomPairs.mp hp
  obtain ⟨hr, hne⟩ := (mem_tail_reverse_iff hpost).mp hb
  obtain ⟨d, hd', hdom, -⟩ := tableIdom_spec hg hpost hr hne
  obtain rfl : p.2 = d := Option.some_inj.mp (hd.symm.trans hd')
  rw [(sameShape_clearDominance g).size_eq]
  exact ⟨hr.lt_size hg, (hdom.reachable hr).lt_size hg⟩

theorem idom_computeDominance (hg : g.WellFormed) (b : BlockId) :
    g.computeDominance.idom b =
      if b ∈ (postorder g).reverse.tail then tableIdom g (postorder g) b else none := by
  obtain ⟨hout, hin, -⟩ := foldl_setIdom g.idomPairs g.clearDominance
    (fun _ => lt_of_mem_idomPairs hg) (nodup_idomPairs hg)
  rw [map_fst_idomPairs hg] at hout
  change (g.idomPairs.foldl (fun g p => g.setIdom p.1 p.2) g.clearDominance).idom b = _
  split_ifs with hb
  · obtain ⟨⟨b', d⟩, hp, rfl⟩ : ∃ p ∈ g.idomPairs, p.1 = b := by
      simpa [← map_fst_idomPairs hg] using hb
    rw [hin _ hp, (mem_idomPairs.mp hp).2]
  · rw [hout b hb, idom, block_clearDominance]

theorem dominees_computeDominance (hg : g.WellFormed) (d : BlockId) :
    g.computeDominance.dominees d =
      (postorder g).reverse.tail.filter fun b => tableIdom g (postorder g) b = some d := by
  obtain ⟨-, -, hdominees⟩ := foldl_setIdom g.idomPairs g.clearDominance
    (fun _ => lt_of_mem_idomPairs hg) (nodup_idomPairs hg)
  refine (hdominees d).trans ?_
  rw [dominees, block_clearDominance, List.nil_append]
  exact map_fst_filter_filterMap _ _ _

theorem dominatorTree_computeDominance (hg : g.WellFormed) :
    DominatorTree g.computeDominance (postorder g) := by
  have hpost := postorder_spec hg
  have hshape := sameShape_computeDominance g
  have hsome : ∀ {b d}, g.computeDominance.idom b = some d →
      g.Reachable b ∧ b ≠ g.entry ∧ tableIdom g (postorder g) b = some d := by
    intro b d hd
    rw [idom_computeDominance hg] at hd
    split_ifs at hd with hb
    obtain ⟨hr, hne⟩ := (mem_tail_reverse_iff hpost).mp hb
    exact ⟨hr, hne, hd⟩
  have hspec : ∀ {b d}, g.computeDominance.idom b = some d → g.Dominates d b ∧ d ≠ b ∧
      (∀ x, g.Dominates x b → x ≠ b → g.Dominates x d) ∧
      (postorder g).idxOf b < (postorder g).idxOf d := by
    intro b d hd
    obtain ⟨hr, hne, ht⟩ := hsome hd
    obtain ⟨d', hd', hall⟩ := tableIdom_spec hg hpost hr hne
    obtain rfl : d = d' := Option.some_inj.mp (ht.symm.trans hd')
    exact hall
  refine ⟨hpost.congr hshape, rfl, ?_, ?_, ?_, ?_, ?_, ?_, ?_, ?_⟩
  · rw [idom_computeDominance hg, hshape.entry_eq, if_neg]
    exact fun hm => ((mem_tail_reverse_iff hpost).mp hm).2 rfl
  · intro b hb
    rw [idom_computeDominance hg, if_neg]
    exact fun hm => hb (hshape.reachable_iff.mpr ((mem_tail_reverse_iff hpost).mp hm).1)
  · intro b hb hne
    have hm := (mem_tail_reverse_iff hpost).mpr ⟨hshape.reachable_iff.mp hb, hshape.entry_eq ▸ hne⟩
    rw [idom_computeDominance hg, if_pos hm]
    obtain ⟨d, hd, -⟩ := tableIdom_spec hg hpost (hshape.reachable_iff.mp hb)
      (hshape.entry_eq ▸ hne)
    exact ⟨d, hd⟩
  · intro b d hd
    exact hshape.dominates_iff.mpr (hspec hd).1
  · intro b d hd
    exact (hspec hd).2.1
  · intro b d x hd hx hne
    exact hshape.dominates_iff.mpr ((hspec hd).2.2.1 x (hshape.dominates_iff.mp hx) hne)
  · intro b d hd
    exact (hspec hd).2.2.2
  · intro d
    rw [dominees_computeDominance hg]
    refine List.filter_congr ?_
    intro b hb
    rw [idom_computeDominance hg, if_pos hb]

end Written

/-! ### Asking the tree -/

namespace DominatorTree

variable {g : Graph} {post : List BlockId} {a b d : BlockId}

theorem isReachable_iff (h : DominatorTree g post) : g.isReachable b = true ↔ g.Reachable b := by
  rw [isReachable, Bool.or_eq_true, decide_eq_true_iff, Option.isSome_iff_exists]
  constructor
  · rintro (rfl | ⟨d, hd⟩)
    · exact Reachable.entry g
    · by_contra hb
      rw [h.idom_unreachable hb] at hd
      cases hd
  · intro hb
    by_cases hne : b = g.entry
    · exact .inl hne
    · exact .inr (h.exists_idom hb hne)

theorem reachable_of_idom (h : DominatorTree g post) (hd : g.idom b = some d) :
    g.Reachable b := by
  by_contra hb
  rw [h.idom_unreachable hb] at hd
  cases hd

theorem mem_dominees (h : DominatorTree g post) : b ∈ g.dominees d ↔ g.idom b = some d := by
  rw [h.dominees_eq, List.mem_filter, decide_eq_true_iff]
  refine ⟨And.right, fun hd => ⟨?_, hd⟩⟩
  refine (mem_tail_reverse_iff h.postorder).mpr ⟨h.reachable_of_idom hd, ?_⟩
  rintro rfl
  rw [h.idom_entry] at hd
  cases hd

/-- The blocks that a block dominates are itself and what its dominees dominate. -/
theorem dominates_cases (h : DominatorTree g post) (hb : g.Reachable b) (hab : g.Dominates a b) :
    a = b ∨ ∃ d, g.idom b = some d ∧ g.Dominates a d := by
  by_cases hne : a = b
  · exact .inl hne
  · have hentry : b ≠ g.entry := by
      rintro rfl
      exact hne (hab.antisymm (Dominates.entry g a) (hab.reachable hb))
    obtain ⟨d, hd⟩ := h.exists_idom hb hentry
    exact .inr ⟨d, hd, h.nearest hd hab hne⟩

theorem mem_dominators_iff (h : DominatorTree g post) {fuel : ℕ} (hb : g.Reachable b)
    (hfuel : post.length < post.idxOf b + fuel) :
    a ∈ g.dominators fuel (some b) ↔ g.Dominates a b := by
  induction fuel generalizing b with
  | zero =>
    have := h.postorder.idxOf_le hb
    omega
  | succ fuel ih =>
    rw [dominators, List.mem_cons]
    cases hd : g.idom b with
    | none =>
      have hnil : g.dominators fuel none = [] := by cases fuel <;> rfl
      rw [hnil]
      constructor
      · rintro (rfl | hm)
        · exact Dominates.refl g a
        · cases hm
      · intro hab
        rcases h.dominates_cases hb hab with heq | ⟨d, hd', -⟩
        · exact .inl heq
        · rw [hd] at hd'
          cases hd'
    | some d =>
      have hdr := (h.dominates hd).reachable hb
      have hlt := h.idxOf_lt hd
      rw [ih hdr (by omega)]
      constructor
      · rintro (rfl | had)
        · exact Dominates.refl g a
        · exact had.trans (h.dominates hd)
      · intro hab
        rcases h.dominates_cases hb hab with heq | ⟨d', hd', had⟩
        · exact .inl heq
        · obtain rfl : d = d' := Option.some_inj.mp (hd.symm.trans hd')
          exact .inr had

theorem dominates_iff (h : DominatorTree g post) (hg : g.WellFormed) (hb : g.Reachable b) :
    Graph.dominates g a b = true ↔ g.Dominates a b := by
  rw [Graph.dominates, List.contains_iff_mem]
  refine h.mem_dominators_iff hb ?_
  have := h.postorder.length_le hg
  omega

end DominatorTree

/-! ### Computed and actual dominance -/

/-- The computed dominators are those of paths: asking for them gives dominance, the immediate
dominator of a block is the nearest of the blocks that dominate it strictly, and a block has none
if it is the entry or no path leads to it. -/
theorem computeDominance_exact {g : Graph} (hg : g.Assembled) :
    (∀ a b, g.Reachable b → (g.computeDominance.dominates a b = true ↔ g.Dominates a b)) ∧
    (∀ b, g.Reachable b → b ≠ g.entry → ∃ d, g.computeDominance.idom b = some d ∧
      d ≠ b ∧ g.Dominates d b ∧ ∀ a, a ≠ b → g.Dominates a b → g.Dominates a d) ∧
    g.computeDominance.idom g.entry = none ∧
    (∀ b, ¬g.Reachable b → g.computeDominance.idom b = none) ∧
    ∀ b, g.computeDominance.isReachable b = true ↔ g.Reachable b := by
  have htree := dominatorTree_computeDominance hg.wellFormed
  have hshape := sameShape_computeDominance g
  refine ⟨fun a b hb => ?_, fun b hb hne => ?_, ?_, fun b hb => ?_, fun b => ?_⟩
  · rw [htree.dominates_iff (hshape.wellFormed hg.wellFormed) (hshape.reachable_iff.mpr hb),
      hshape.dominates_iff]
  · obtain ⟨d, hd⟩ := htree.exists_idom (hshape.reachable_iff.mpr hb) (hshape.entry_eq ▸ hne)
    refine ⟨d, hd, htree.ne hd, hshape.dominates_iff.mp (htree.dominates hd), fun a ha hab => ?_⟩
    exact hshape.dominates_iff.mp (htree.nearest hd (hshape.dominates_iff.mpr hab) ha)
  · have hentry := htree.idom_entry
    rwa [hshape.entry_eq] at hentry
  · exact htree.idom_unreachable (mt hshape.reachable_iff.mp hb)
  · rw [htree.isReachable_iff, hshape.reachable_iff]

/-- A loop with two ways into it, one block of which stays in place or goes back to the entry, and a
block that nothing leads to. -/
def tangled : Graph :=
  let g := (((Graph.ofName "tangled").newBlock .plain).2.newBlock .plain).2
  let g := (g.newBlock .plain).2
  let g := ((g.connect (some 0) 1).connect (some 0) 2).connect (some 1) 2
  (((g.connect (some 2) 1).connect (some 2) 2).connect (some 2) 0).connect (some 3) 1

theorem assembled_tangled : tangled.Assembled := by
  apply_rules [Assembled.ofName, Assembled.connect, Assembled.newBlock] <;> decide

theorem computeDominance_tangled : tangled.Assembled ∧ tangled.Reachable 2 ∧ ¬tangled.Reachable 3 ∧
    tangled.Dominates 0 2 ∧ ¬tangled.Dominates 1 2 ∧ tangled.computeDominance.idom 2 = some 0 := by
  obtain ⟨hdominates, -, -, -, hreachable⟩ := computeDominance_exact assembled_tangled
  have hr : tangled.Reachable 2 := (hreachable 2).mp (by decide +kernel)
  refine ⟨assembled_tangled, hr, mt (hreachable 3).mpr (by decide +kernel),
    (hdominates 0 2 hr).mp (by decide +kernel), mt (hdominates 1 2 hr).mpr (by decide +kernel),
    by decide +kernel⟩

end FlowCheck.Graph
