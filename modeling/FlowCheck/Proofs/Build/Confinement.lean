import FlowCheck.Proofs.Build.Growth

/-!
# Construction is confined to open blocks

Construction goes on from some open blocks. Between two states nodes go into the open blocks and into
new ones, edges leave those and the ends of enclosing `finally` blocks, and some blocks are left open
for what is built next. What is not open is final, so that a try statement, once built, is sealed: its
blocks are left only through the entry of its `finally` block, whatever is built later.
-/
namespace FlowCheck

namespace Stmt

/-- The nodes of a try statement that its `finally` block stands behind: body and handlers. -/
def guarded : Stmt → List Node
  | .attempt _ body handlers _ => body.walk everywhere ++ CatchClause.walkList everywhere handlers
  | _ => []

/-- The `finally` block of a try statement. -/
def cleanup? : Stmt → Option Block
  | .attempt _ _ _ cleanup => cleanup
  | _ => none

theorem guarded_subset (x : Stmt) : x.guarded ⊆ x.walk everywhere := by
  cases x with
  | attempt m body handlers cleanup =>
    intro n hn
    rw [walk, Node.above_everywhere]
    exact List.mem_cons_of_mem _ (List.mem_append_left _ hn)
  | _ => exact List.nil_subset _

theorem cleanup_subset (x : Stmt) : Block.walkOption everywhere x.cleanup? ⊆ x.walk everywhere := by
  cases x with
  | attempt m body handlers cleanup =>
    intro n hn
    rw [walk, Node.above_everywhere]
    exact List.mem_cons_of_mem _ (List.mem_append_right _ hn)
  | _ => exact List.nil_subset _

end Stmt

namespace Build

/-- The block is open, or still to come. -/
def Open (o : List BlockId) (s : State) (b : BlockId) : Prop := b ∈ o ∨ s.graph.blocks.size ≤ b

/-- The edges that construction under targets may add from one state to the other: from open and new
blocks to new blocks and to targets, and onward from the ends of `finally` blocks. -/
def Around (T : List Target) (o : List BlockId) (s s' : State) (x y : BlockId) : Prop :=
  (Open o s x ∧ ((s.graph.blocks.size ≤ y ∧ y < s'.graph.blocks.size) ∨ y ∈ exposed T)) ∨
    (x, y) ∈ routes T

/-- What has been built of a try statement between two states can be left through the entry `f` of
its `finally` block only, and nothing will be added to its blocks `K` unless it is to open blocks or
to the ends of enclosing `finally` blocks. In the blocks `R` there is nothing else. -/
structure Sealed (T : List Target) (o e : List BlockId) (s s' : State) (A : Stmt) (f : BlockId)
    (K R : BlockId → Prop) : Prop where
  quiet : ∀ b, K b → Open o s b ∧ b < s'.graph.blocks.size ∧ b ∉ e ∧ b ∉ lasts T
  begins : ∀ b k n, (s'.graph.nodes b)[k]? = some n → (s.graph.nodes b).length ≤ k →
    n ∈ A.guarded → K b ∧ b ≠ f ∧ (∀ y ∈ s'.graph.succs b, y = f ∨ R y) ∧
      ∀ m ∈ (s'.graph.nodes b).drop k, m ∈ A.walk everywhere
  inside : ∀ b, R b → K b ∧ (∀ y ∈ s'.graph.succs b, y = f ∨ R y) ∧
    ∀ m ∈ s'.graph.nodes b, m ∈ A.walk everywhere
  entry : K f ∧ ∀ m ∈ s'.graph.nodes f, m ∈ Block.walkOption everywhere A.cleanup?

/-- From `s` to `s'` the nodes `w` have been built, from the open blocks `o` up to the open blocks
`e`, and the statements in `made` are sealed. -/
structure Confined (T : List Target) (o : List BlockId) (w : List Node) (s : State)
    (made : List (Stmt × BlockId)) (e : List BlockId) (s' : State) : Prop extends Grown s s' where
  edges : ∀ {x y}, y ∈ s'.graph.succs x → y ∈ s.graph.succs x ∨ Around T o s s' x y
  added : ∀ b, ∃ ns, s'.graph.nodes b = s.graph.nodes b ++ ns ∧ ∀ n ∈ ns, Open o s b ∧ n ∈ w
  ends : ∀ b ∈ e, Open o s b ∧ b < s'.graph.blocks.size
  marks : ∀ i ∈ s'.dead, i ∈ s.dead ∨ i ∈ w.map Node.id
  within : ∀ p ∈ made, p.1.walk everywhere ⊆ w ∧
    ((Node.stmt p.1).id ∈ s'.dead → (Node.stmt p.1).id ∈ s.dead)
  distinct : (made.map Prod.fst).Nodup
  isSealed : ∀ p ∈ made, ∃ K R, Sealed T o e s s' p.1 p.2 K R

section

variable {T T' : List Target} {o o' e e' : List BlockId} {w w' : List Node}
  {s s₁ s' : State} {made made' : List (Stmt × BlockId)} {A : Stmt} {f b : BlockId}
  {K R : BlockId → Prop} {E : BlockId → BlockId → Prop} {N : BlockId → Node → Prop}

/-- What is open or to come later was so before. -/
theorem Open.back (h : Open o' s₁ b) (hsize : s.graph.blocks.size ≤ s₁.graph.blocks.size)
    (ho : ∀ b ∈ o', Open o s b) : Open o s b :=
  h.elim (ho b) fun h => .inr (hsize.trans h)

theorem Around.mono {x y : BlockId} (h : Around T o s s₁ x y)
    (hsize : s₁.graph.blocks.size ≤ s'.graph.blocks.size) : Around T o s s' x y :=
  h.imp (And.imp_right (.imp_left (And.imp_right hsize.trans_lt'))) id

namespace Confined

/-- Nothing that is sealed has been built. -/
theorem of_adds (h : Adds E N s s') (hE : ∀ x y, E x y → Around T o s s' x y)
    (hN : ∀ b n, N b n → Open o s b ∧ n ∈ w)
    (he : ∀ b ∈ e, Open o s b ∧ b < s'.graph.blocks.size)
    (hdead : ∀ i ∈ s'.dead, i ∈ s.dead ∨ i ∈ w.map Node.id) : Confined T o w s [] e s' where
  toGrown := h.toGrown
  edges hy := (h.mem_succs hy).imp id (hE _ _)
  added b := by
    obtain ⟨ns, hns, hmem⟩ := h.added b
    exact ⟨ns, hns, fun n hn => hN b n (hmem n hn)⟩
  ends := he
  marks := hdead
  within := by simp
  distinct := by simp
  isSealed := by simp

/-- Blocks that are not open keep their nodes. -/
theorem nodes_eq (h : Confined T o w s made e s') (hb : ¬Open o s b) :
    s'.graph.nodes b = s.graph.nodes b := by
  obtain ⟨ns, hns, hmem⟩ := h.added b
  rw [hns, List.eq_nil_iff_forall_not_mem.mpr fun n hn => hb (hmem n hn).1, List.append_nil]

/-- Blocks that are not open and no ends of enclosing `finally` blocks keep their successors. -/
theorem mem_succs (h : Confined T o w s made e s') (hb : ¬Open o s b) (hlast : b ∉ lasts T)
    {y : BlockId} (hy : y ∈ s'.graph.succs b) : y ∈ s.graph.succs b := by
  refine (h.edges hy).resolve_right ?_
  rintro (⟨ho, -⟩ | hroute)
  · exact hb ho
  · exact hlast (mem_lasts_of_mem_routes hroute)

theorem succs_eq_nil (h : Confined T o w s made e s') (hb : ¬Open o s b) (hlast : b ∉ lasts T)
    (hs : s.graph.succs b = []) : s'.graph.succs b = [] :=
  List.eq_nil_iff_forall_not_mem.mpr fun y hy => by
    have hy := h.mem_succs hb hlast hy
    rw [hs] at hy
    cases hy

end Confined

/-! ### Sealed statements among what is built before and after -/

/-- The nodes that a block had before are still in their places. -/
theorem Grown.getElem?_nodes (h : Grown s s') {k : ℕ} {n : Node}
    (hn : (s'.graph.nodes b)[k]? = some n) (hk : k < (s.graph.nodes b).length) :
    (s.graph.nodes b)[k]? = some n := by
  obtain ⟨ns, hns⟩ := h.nodes b
  rwa [← hns, List.getElem?_append_left hk] at hn

/-- A node that has been added is one of those built. -/
theorem Confined.mem_of_getElem? (h : Confined T o w s made e s') {k : ℕ} {n : Node}
    (hn : (s'.graph.nodes b)[k]? = some n) (hk : (s.graph.nodes b).length ≤ k) : n ∈ w := by
  obtain ⟨ns, hns, hmem⟩ := h.added b
  rw [hns, List.getElem?_append_right hk] at hn
  exact (hmem n (List.mem_of_getElem? hn)).2

namespace Sealed

/-- What was built before does not matter, if it has none of the nodes of the statement. -/
theorem before (h : Confined T o w s made e s₁) (hA : Sealed T o' e' s₁ s' A f K R) (ho : o' ⊆ e)
    (hgrown : Grown s₁ s') (hw : ∀ n ∈ A.guarded, n ∉ w) : Sealed T o e' s s' A f K R where
  quiet b hb := by
    obtain ⟨hopen, hrest⟩ := hA.quiet b hb
    exact ⟨hopen.back h.size_le fun b hb => (h.ends b (ho hb)).1, hrest⟩
  begins b k n hn hk hguarded := by
    refine hA.begins b k n hn (not_lt.mp fun hlt => ?_) hguarded
    exact hw n hguarded (h.mem_of_getElem? (hgrown.getElem?_nodes hn hlt) hk)
  inside := hA.inside
  entry := hA.entry

/-- What is built later does not matter, if it has none of the nodes of the statement. -/
theorem after (hA : Sealed T o e s s₁ A f K R) (h : Confined T o' w' s₁ made' e' s') (ho : o' ⊆ e)
    (hw : ∀ n ∈ A.guarded, n ∉ w') : Sealed T o e' s s' A f K R := by
  have hclosed : ∀ b, K b → ¬Open o' s₁ b := by
    rintro b hb (hmem | hsize)
    · exact (hA.quiet b hb).2.2.1 (ho hmem)
    · exact absurd (hA.quiet b hb).2.1 (not_lt.mpr hsize)
  have hnodes : ∀ b, K b → s'.graph.nodes b = s₁.graph.nodes b := fun b hb =>
    h.nodes_eq (hclosed b hb)
  have hsuccs : ∀ b, K b → ∀ y ∈ s'.graph.succs b, y ∈ s₁.graph.succs b := fun b hb _ =>
    h.mem_succs (hclosed b hb) (hA.quiet b hb).2.2.2
  refine ⟨fun b hb => ?_, fun b k n hn hk hguarded => ?_, fun b hb => ?_, ?_⟩
  · obtain ⟨hopen, hlt, -, hlast⟩ := hA.quiet b hb
    exact ⟨hopen, hlt.trans_le h.size_le, fun he => hclosed b hb (h.ends b he).1, hlast⟩
  · have hold : k < (s₁.graph.nodes b).length :=
      not_le.mp fun hle => hw n hguarded (h.mem_of_getElem? hn hle)
    obtain ⟨hb, hne, hleave, hrest⟩ :=
      hA.begins b k n (h.toGrown.getElem?_nodes hn hold) hk hguarded
    exact ⟨hb, hne, fun y hy => hleave y (hsuccs b hb y hy), hnodes b hb ▸ hrest⟩
  · obtain ⟨hb', hleave, hrest⟩ := hA.inside b hb
    exact ⟨hb', fun y hy => hleave y (hsuccs b hb' y hy), hnodes b hb' ▸ hrest⟩
  · exact ⟨hA.entry.1, hnodes f hA.entry.1 ▸ hA.entry.2⟩

end Sealed

namespace Confined

/-- What is built first and what is built next, with no node in common. -/
theorem trans (h : Confined T o w s made e s₁) (h' : Confined T o' w' s₁ made' e' s') (ho : o' ⊆ e)
    (hw : List.Disjoint (w.map Node.id) (w'.map Node.id)) :
    Confined T o (w ++ w') s (made ++ made') e' s' := by
  have hback {b : BlockId} : Open o' s₁ b → Open o s b := fun hb =>
    hb.back h.size_le fun b hb => (h.ends b (ho hb)).1
  have hleft : ∀ p ∈ made, ∀ n ∈ p.1.guarded, n ∉ w' := fun p hp n hn hn' =>
    hw (List.mem_map_of_mem ((h.within p hp).1 (p.1.guarded_subset hn))) (List.mem_map_of_mem hn')
  have hright : ∀ p ∈ made', ∀ n ∈ p.1.guarded, n ∉ w := fun p hp n hn hn' =>
    hw (List.mem_map_of_mem hn') (List.mem_map_of_mem ((h'.within p hp).1 (p.1.guarded_subset hn)))
  -- a statement of one is no node of the other
  have hself (x : Stmt) : Node.stmt x ∈ x.walk everywhere := (Node.stmt x).mem_subtree
  refine ⟨h.toGrown.trans h'.toGrown, fun hy => ?_, fun b => ?_, fun b hb => ?_, fun i hi => ?_,
    fun p hp => ?_, ?_, fun p hp => ?_⟩
  · rcases h'.edges hy with hy | ⟨hopen, hto⟩ | hroute
    · exact (h.edges hy).imp id (.mono · h'.size_le)
    · exact .inr (.inl ⟨hback hopen, hto.imp (And.imp_left h.size_le.trans) id⟩)
    · exact .inr (.inr hroute)
  · obtain ⟨ns, hns, hmem⟩ := h.added b
    obtain ⟨ms, hms, hmem'⟩ := h'.added b
    refine ⟨ns ++ ms, by rw [hms, hns, List.append_assoc], fun n hn => ?_⟩
    rcases List.mem_append.mp hn with hn | hn
    · exact (hmem n hn).imp id (List.mem_append_left _)
    · exact (hmem' n hn).imp hback (List.mem_append_right _)
  · exact ⟨hback (h'.ends b hb).1, (h'.ends b hb).2⟩
  · rw [List.map_append, List.mem_append]
    rcases h'.marks i hi with hi | hi
    · exact (h.marks i hi).imp id .inl
    · exact .inr (.inr hi)
  · rcases List.mem_append.mp hp with hp | hp
    · obtain ⟨hwalk, hlive⟩ := h.within p hp
      refine ⟨fun n hn => List.mem_append_left _ (hwalk hn), fun hi => hlive ?_⟩
      exact (h'.marks _ hi).resolve_right (hw (List.mem_map_of_mem (hwalk (hself p.1))))
    · obtain ⟨hwalk, hlive⟩ := h'.within p hp
      refine ⟨fun n hn => List.mem_append_right _ (hwalk hn), fun hi => ?_⟩
      refine (h.marks _ (hlive hi)).resolve_right fun hi => ?_
      exact hw hi (List.mem_map_of_mem (hwalk (hself p.1)))
  · rw [List.map_append]
    refine h.distinct.append h'.distinct fun x hx hx' => ?_
    obtain ⟨p, hp, rfl⟩ := List.mem_map.mp hx
    obtain ⟨q, hq, hpq⟩ := List.mem_map.mp hx'
    refine hw (List.mem_map_of_mem ((h.within p hp).1 (hself p.1))) ?_
    exact List.mem_map_of_mem (hpq ▸ (h'.within q hq).1 (hself q.1))
  · rcases List.mem_append.mp hp with hp | hp
    · obtain ⟨K, R, hA⟩ := h.isSealed p hp
      exact ⟨K, R, hA.after h' ho (hleft p hp)⟩
    · obtain ⟨K, R, hA⟩ := h'.isSealed p hp
      exact ⟨K, R, hA.before h ho h'.toGrown (hright p hp)⟩

/-- No node is added at the end. -/
theorem thenIdle (h : Confined T o w s made e s₁) (h' : Confined T o' [] s₁ [] e' s')
    (ho : o' ⊆ e) : Confined T o w s made e' s' := by
  simpa using h.trans h' ho (by simp)

/-- No node is added at the beginning. -/
theorem afterIdle (h : Confined T o [] s [] e s₁) (h' : Confined T o' w' s₁ made' e' s')
    (ho : o' ⊆ e) : Confined T o w' s made' e' s' := by
  simpa using h.trans h' ho (by simp)

/-- Blocks that are left alone may as well be open throughout. -/
theorem frame (h : Confined T o w s made e s') (x : List BlockId)
    (hx : ∀ b ∈ x, b < s.graph.blocks.size ∧ b ∉ o) : Confined T (x ++ o) w s made (x ++ e) s' := by
  have hopen {b : BlockId} : Open o s b → Open (x ++ o) s b := Or.imp_left (List.mem_append_right x)
  refine ⟨h.toGrown, fun hy => (h.edges hy).imp id (.imp_left (And.imp_left hopen)), fun b => ?_,
    fun b hb => ?_, h.marks, h.within, h.distinct, fun p hp => ?_⟩
  · obtain ⟨ns, hns, hmem⟩ := h.added b
    exact ⟨ns, hns, fun n hn => (hmem n hn).imp hopen id⟩
  · rcases List.mem_append.mp hb with hb | hb
    · exact ⟨.inl (List.mem_append_left _ hb), (hx b hb).1.trans_le h.size_le⟩
    · exact (h.ends b hb).imp hopen id
  · obtain ⟨K, R, hA⟩ := h.isSealed p hp
    refine ⟨K, R, ⟨fun b hb => ?_, hA.begins, hA.inside, hA.entry⟩⟩
    obtain ⟨hb', hlt, he, hlast⟩ := hA.quiet b hb
    refine ⟨hopen hb', hlt, fun hmem => ?_, hlast⟩
    rcases List.mem_append.mp hmem with hmem | hmem
    · exact hb'.elim (hx b hmem).2 (not_le.mpr (hx b hmem).1)
    · exact he hmem

/-- More nodes, more blocks that were open, and fewer that are. -/
theorem mono (h : Confined T o w s made e s') (ho : o ⊆ o') (hw : w ⊆ w') (he : e' ⊆ e) :
    Confined T o' w' s made e' s' := by
  have hopen {b : BlockId} : Open o s b → Open o' s b := Or.imp_left fun hb => ho hb
  refine ⟨h.toGrown, fun hy => (h.edges hy).imp id (.imp_left (And.imp_left hopen)), fun b => ?_,
    fun b hb => (h.ends b (he hb)).imp hopen id,
    fun i hi => (h.marks i hi).imp id (List.map_subset _ hw ·),
    fun p hp => (h.within p hp).imp (List.Subset.trans · hw) id, h.distinct, fun p hp => ?_⟩
  · obtain ⟨ns, hns, hmem⟩ := h.added b
    exact ⟨ns, hns, fun n hn => (hmem n hn).imp hopen fun hn => hw hn⟩
  · obtain ⟨K, R, hA⟩ := h.isSealed p hp
    refine ⟨K, R, ⟨fun b hb => ?_, hA.begins, hA.inside, hA.entry⟩⟩
    obtain ⟨hb', hlt, hend, hlast⟩ := hA.quiet b hb
    exact ⟨hopen hb', hlt, fun hmem => hend (he hmem), hlast⟩

/-- Other targets, whose ways are the same but for those to new blocks and from new blocks. -/
theorem retarget (h : Confined T o w s made e s')
    (hexposed : ∀ y ∈ exposed T,
      (s.graph.blocks.size ≤ y ∧ y < s'.graph.blocks.size) ∨ y ∈ exposed T')
    (hroutes : ∀ x y, (x, y) ∈ routes T → Around T' o s s' x y)
    (hlasts : ∀ b ∈ lasts T', b ∈ lasts T ∨ b ∈ e) : Confined T' o w s made e s' := by
  refine ⟨h.toGrown, fun hy => (h.edges hy).imp id ?_, h.added, h.ends, h.marks, h.within,
    h.distinct, fun p hp => ?_⟩
  · rintro (⟨hopen, hto⟩ | hroute)
    · exact .inl ⟨hopen, hto.elim .inl (hexposed _)⟩
    · exact hroutes _ _ hroute
  · obtain ⟨K, R, hA⟩ := h.isSealed p hp
    refine ⟨K, R, ⟨fun b hb => ?_, hA.begins, hA.inside, hA.entry⟩⟩
    obtain ⟨hb', hlt, he, hlast⟩ := hA.quiet b hb
    exact ⟨hb', hlt, he, fun hmem => (hlasts b hmem).elim hlast he⟩

end Confined

end

end Build

end FlowCheck
