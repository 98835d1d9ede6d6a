import FlowCheck.Flow.Graph
import Mathlib.Data.List.Nodup
import Mathlib.Tactic

/-!
# Graphs: look-ups, updates and well-formedness

What each update of a graph does to the blocks that it touches and to the others. `WellFormed` is
what construction keeps: blocks know their numbers, every edge is listed once at both of its ends,
and the entry is the first block. `Assembled` graphs are those made from a single entry by adding
blocks, edges and nodes; they are well-formed and carry no results of analyses.
-/
namespace FlowCheck.Graph

/-- The nodes of a block, in order. -/
def nodes (g : Graph) (b : BlockId) : List Node := (g.block b).nodes

def phis (g : Graph) (b : BlockId) : List Phi := (g.block b).phis

/-- Control may pass from `a` to `b`. -/
def Edge (g : Graph) (a b : BlockId) : Prop := b ∈ g.succs a

instance (g : Graph) (a b : BlockId) : Decidable (g.Edge a b) :=
  inferInstanceAs (Decidable (b ∈ g.succs a))

/-! ### Look-ups after updates -/

theorem block_eq (g : Graph) (b : BlockId) : g.block b = g.blocks[b]?.getD (absent b) := by
  simp [block]

theorem block_of_size_le {g : Graph} {b : BlockId} (h : g.blocks.size ≤ b) :
    g.block b = absent b := by
  rw [block_eq, Array.getElem?_eq_none h, Option.getD_none]

theorem block_of_getElem? {g : Graph} {b : BlockId} {x : BasicBlock} (h : g.blocks[b]? = some x) :
    g.block b = x := by
  rw [block_eq, h, Option.getD_some]

theorem getElem?_of_lt {g : Graph} {b : BlockId} (h : b < g.blocks.size) :
    g.blocks[b]? = some (g.block b) := by
  rw [block_eq, Array.getElem?_eq_getElem h, Option.getD_some]

theorem block_modifyBlock (g : Graph) (b : BlockId) (f : BasicBlock → BasicBlock) (c : BlockId) :
    (g.modifyBlock b f).block c =
      if b = c ∧ c < g.blocks.size then f (g.block c) else g.block c := by
  by_cases hc : c < g.blocks.size
  · have hm : c < (g.modifyBlock b f).blocks.size := by simpa [modifyBlock] using hc
    rw [block_eq, block_eq, Array.getElem?_eq_getElem hc, Array.getElem?_eq_getElem hm]
    simp [modifyBlock, Array.getElem_modify, hc]
  · have hle : g.blocks.size ≤ c := not_lt.mp hc
    rw [block_of_size_le hle, block_of_size_le (by simpa [modifyBlock] using hle)]
    simp [hc]

theorem block_modifyBlock_self {g : Graph} {b : BlockId} (f : BasicBlock → BasicBlock)
    (h : b < g.blocks.size) : (g.modifyBlock b f).block b = f (g.block b) := by
  simp [block_modifyBlock, h]

theorem block_modifyBlock_ne {g : Graph} {b c : BlockId} (f : BasicBlock → BasicBlock)
    (h : b ≠ c) : (g.modifyBlock b f).block c = g.block c := by
  simp [block_modifyBlock, h]

/-- A part of the blocks that an update leaves alone stays as it was everywhere. -/
theorem proj_modifyBlock {α : Type} (p : BasicBlock → α) (g : Graph) (b : BlockId)
    (f : BasicBlock → BasicBlock) (hf : ∀ x, p (f x) = p x) (c : BlockId) :
    p ((g.modifyBlock b f).block c) = p (g.block c) := by
  rw [block_modifyBlock]
  split_ifs <;> simp [hf]

@[simp] theorem size_modifyBlock (g : Graph) (b : BlockId) (f : BasicBlock → BasicBlock) :
    (g.modifyBlock b f).blocks.size = g.blocks.size := by
  simp [modifyBlock]

@[simp] theorem entry_modifyBlock (g : Graph) (b : BlockId) (f : BasicBlock → BasicBlock) :
    (g.modifyBlock b f).entry = g.entry := rfl

@[simp] theorem size_newBlock (g : Graph) (k : BlockKind) :
    (g.newBlock k).2.blocks.size = g.blocks.size + 1 := by
  simp [newBlock]

@[simp] theorem newBlock_fst (g : Graph) (k : BlockKind) : (g.newBlock k).1 = g.blocks.size := rfl

theorem block_newBlock (g : Graph) (k : BlockKind) (c : BlockId) :
    (g.newBlock k).2.block c =
      if c = g.blocks.size then { id := c, kind := k } else g.block c := by
  rw [block_eq, block_eq]
  simp only [newBlock, Array.getElem?_push]
  by_cases hc : c = g.blocks.size <;> simp [hc]

/-- The part of a new block that an absent one has as well is the same as before. -/
theorem proj_newBlock {α : Type} (p : BasicBlock → α) (g : Graph) (k : BlockKind)
    (hp : ∀ b, p { id := b, kind := k } = p (absent b)) (c : BlockId) :
    p ((g.newBlock k).2.block c) = p (g.block c) := by
  rw [block_newBlock]
  split_ifs with h
  · rw [hp, block_of_size_le h.ge]
  · rfl

@[simp] theorem succs_newBlock (g : Graph) (k : BlockKind) (c : BlockId) :
    (g.newBlock k).2.succs c = g.succs c :=
  proj_newBlock BasicBlock.succs g k (fun _ => rfl) c

@[simp] theorem preds_newBlock (g : Graph) (k : BlockKind) (c : BlockId) :
    (g.newBlock k).2.preds c = g.preds c :=
  proj_newBlock BasicBlock.preds g k (fun _ => rfl) c

@[simp] theorem nodes_newBlock (g : Graph) (k : BlockKind) (c : BlockId) :
    (g.newBlock k).2.nodes c = g.nodes c :=
  proj_newBlock BasicBlock.nodes g k (fun _ => rfl) c

theorem succs_of_size_le {g : Graph} {b : BlockId} (h : g.blocks.size ≤ b) : g.succs b = [] := by
  simp [succs, block_of_size_le h, absent]

theorem preds_of_size_le {g : Graph} {b : BlockId} (h : g.blocks.size ≤ b) : g.preds b = [] := by
  simp [preds, block_of_size_le h, absent]

theorem nodes_of_size_le {g : Graph} {b : BlockId} (h : g.blocks.size ≤ b) : g.nodes b = [] := by
  simp [nodes, block_of_size_le h, absent]

theorem lt_of_mem_succs {g : Graph} {a b : BlockId} (h : b ∈ g.succs a) : a < g.blocks.size := by
  by_contra hn
  simp [succs_of_size_le (not_lt.mp hn)] at h

theorem lt_of_mem_preds {g : Graph} {a b : BlockId} (h : a ∈ g.preds b) : b < g.blocks.size := by
  by_contra hn
  simp [preds_of_size_le (not_lt.mp hn)] at h

/-! ### Adding nodes and edges -/

@[simp] theorem size_addNode (g : Graph) (b : BlockId) (n : Node) :
    (g.addNode b n).blocks.size = g.blocks.size := by
  simp [addNode]

@[simp] theorem succs_addNode (g : Graph) (b : BlockId) (n : Node) (c : BlockId) :
    (g.addNode b n).succs c = g.succs c :=
  proj_modifyBlock BasicBlock.succs g b _ (by intro; rfl) c

@[simp] theorem preds_addNode (g : Graph) (b : BlockId) (n : Node) (c : BlockId) :
    (g.addNode b n).preds c = g.preds c :=
  proj_modifyBlock BasicBlock.preds g b _ (by intro; rfl) c

theorem nodes_addNode_self {g : Graph} {b : BlockId} (n : Node) (h : b < g.blocks.size) :
    (g.addNode b n).nodes b = g.nodes b ++ [n] := by
  simp [nodes, addNode, block_modifyBlock_self _ h]

theorem nodes_addNode_ne {g : Graph} {b c : BlockId} (n : Node) (h : b ≠ c) :
    (g.addNode b n).nodes c = g.nodes c := by
  simp [nodes, addNode, block_modifyBlock_ne _ h]

@[simp] theorem size_addEdge (g : Graph) (a b : BlockId) :
    (g.addEdge a b).blocks.size = g.blocks.size := by
  unfold addEdge
  split_ifs <;> simp

@[simp] theorem entry_addEdge (g : Graph) (a b : BlockId) : (g.addEdge a b).entry = g.entry := by
  unfold addEdge
  split_ifs <;> rfl

@[simp] theorem nodes_addEdge (g : Graph) (a b c : BlockId) :
    (g.addEdge a b).nodes c = g.nodes c := by
  unfold addEdge
  split_ifs with h
  · rfl
  · calc _ = BasicBlock.nodes _ := proj_modifyBlock BasicBlock.nodes _ _ _ (by intro; rfl) c
      _ = g.nodes c := proj_modifyBlock BasicBlock.nodes _ _ _ (by intro; rfl) c

theorem hasEdge_iff (g : Graph) (a b : BlockId) : g.hasEdge a b = true ↔ b ∈ g.succs a := by
  simp [hasEdge]

theorem succs_addEdge {g : Graph} {a : BlockId} (b : BlockId) (ha : a < g.blocks.size)
    (c : BlockId) :
    (g.addEdge a b).succs c =
      if a = c ∧ b ∉ g.succs a then g.succs c ++ [b] else g.succs c := by
  unfold addEdge
  by_cases h : g.hasEdge a b = true
  · simp [h, (hasEdge_iff g a b).mp h]
  · have hb : b ∉ g.succs a := fun hb => h ((hasEdge_iff g a b).mpr hb)
    simp only [h, hb, not_false_eq_true, and_true]
    rw [if_neg Bool.false_ne_true, succs,
      proj_modifyBlock BasicBlock.succs _ _ _ (by intro; rfl), block_modifyBlock]
    by_cases hc : a = c
    · subst hc
      simp [ha, succs]
    · simp [hc, succs]

theorem preds_addEdge {g : Graph} {b : BlockId} (a : BlockId) (hb : b < g.blocks.size)
    (c : BlockId) :
    (g.addEdge a b).preds c =
      if b = c ∧ b ∉ g.succs a then g.preds c ++ [a] else g.preds c := by
  unfold addEdge
  by_cases h : g.hasEdge a b = true
  · simp [h, (hasEdge_iff g a b).mp h]
  · have hs : b ∉ g.succs a := fun hs => h ((hasEdge_iff g a b).mpr hs)
    simp only [h, hs, not_false_eq_true, and_true]
    rw [if_neg Bool.false_ne_true, preds, block_modifyBlock]
    by_cases hc : b = c
    · subst hc
      simp [hb, preds, proj_modifyBlock BasicBlock.preds]
    · simp [hc, preds, proj_modifyBlock BasicBlock.preds]

theorem mem_succs_addEdge {g : Graph} {a : BlockId} (b : BlockId) (ha : a < g.blocks.size)
    {c d : BlockId} :
    d ∈ (g.addEdge a b).succs c ↔ d ∈ g.succs c ∨ (c = a ∧ d = b) := by
  rw [succs_addEdge b ha]
  split_ifs with h
  · obtain ⟨rfl, -⟩ := h
    simp
  · constructor
    · exact Or.inl
    · rintro (hd | ⟨rfl, rfl⟩)
      · exact hd
      · by_contra hd
        exact h ⟨rfl, hd⟩

theorem mem_preds_addEdge {g : Graph} {a b : BlockId} (hb : b < g.blocks.size)
    (hm : ∀ x y, x ∈ g.preds y ↔ y ∈ g.succs x) {c d : BlockId} :
    d ∈ (g.addEdge a b).preds c ↔ d ∈ g.preds c ∨ (d = a ∧ c = b) := by
  rw [preds_addEdge a hb]
  split_ifs with h
  · obtain ⟨rfl, -⟩ := h
    simp
  · constructor
    · exact Or.inl
    · rintro (hd | ⟨rfl, rfl⟩)
      · exact hd
      · by_contra hd
        exact h ⟨rfl, fun hs => hd ((hm _ _).mpr hs)⟩

/-! ### Well-formed graphs -/

/-- Blocks know their numbers, edges are listed once at both ends, and the entry comes first. -/
structure WellFormed (g : Graph) : Prop where
  entry_eq : g.entry = 0
  size_pos : 0 < g.blocks.size
  id_eq : ∀ b < g.blocks.size, (g.block b).id = b
  mem_preds : ∀ a b, a ∈ g.preds b ↔ b ∈ g.succs a
  succs_nodup : ∀ b, (g.succs b).Nodup
  preds_nodup : ∀ b, (g.preds b).Nodup

namespace WellFormed

variable {g : Graph}

theorem succ_lt (h : g.WellFormed) {a b : BlockId} (he : b ∈ g.succs a) : b < g.blocks.size :=
  lt_of_mem_preds ((h.mem_preds a b).mpr he)

theorem entry_lt (h : g.WellFormed) : g.entry < g.blocks.size := by
  rw [h.entry_eq]
  exact h.size_pos

theorem ofName (name : String) : (Graph.ofName name).WellFormed := by
  have hb : ∀ b, (Graph.ofName name).succs b = [] ∧ (Graph.ofName name).preds b = [] := by
    intro b
    simp only [Graph.ofName, succs_newBlock, preds_newBlock]
    exact ⟨succs_of_size_le (Nat.zero_le b), preds_of_size_le (Nat.zero_le b)⟩
  refine ⟨rfl, Nat.one_pos, ?_, ?_, ?_, ?_⟩
  · intro b h
    obtain rfl : b = 0 := by simpa [Graph.ofName] using h
    rfl
  · intro a b
    simp [hb]
  · intro b
    simp [hb]
  · intro b
    simp [hb]

theorem newBlock (h : g.WellFormed) (k : BlockKind) : (g.newBlock k).2.WellFormed := by
  refine ⟨h.entry_eq, by simp, ?_, ?_, ?_, ?_⟩
  · intro b hb
    rw [block_newBlock]
    split_ifs with hs
    · rfl
    · exact h.id_eq b (Nat.lt_of_le_of_ne (Nat.le_of_lt_succ (by simpa using hb)) hs)
  · simpa using h.mem_preds
  · simpa using h.succs_nodup
  · simpa using h.preds_nodup

theorem addNode (h : g.WellFormed) (b : BlockId) (n : Node) : (g.addNode b n).WellFormed := by
  refine ⟨h.entry_eq, by simpa using h.size_pos, ?_, ?_, ?_, ?_⟩
  · intro c hc
    rw [Graph.addNode, proj_modifyBlock BasicBlock.id _ _ _ (by intro; rfl)]
    exact h.id_eq c (by simpa using hc)
  · simpa using h.mem_preds
  · simpa using h.succs_nodup
  · simpa using h.preds_nodup

theorem id_addEdge (h : g.WellFormed) (a b c : BlockId) (hc : c < g.blocks.size) :
    ((g.addEdge a b).block c).id = c := by
  unfold addEdge
  split_ifs with he
  · exact h.id_eq c hc
  · calc _ = BasicBlock.id _ := proj_modifyBlock BasicBlock.id _ _ _ (by intro; rfl) c
      _ = (g.block c).id := proj_modifyBlock BasicBlock.id _ _ _ (by intro; rfl) c
      _ = c := h.id_eq c hc

theorem addEdge (h : g.WellFormed) {a b : BlockId} (ha : a < g.blocks.size)
    (hb : b < g.blocks.size) : (g.addEdge a b).WellFormed := by
  refine ⟨by simpa using h.entry_eq, by simpa using h.size_pos, ?_, ?_, ?_, ?_⟩
  · intro c hc
    exact h.id_addEdge a b c (by simpa using hc)
  · intro c d
    rw [mem_preds_addEdge hb h.mem_preds, mem_succs_addEdge b ha, h.mem_preds]
  · intro c
    rw [succs_addEdge b ha]
    split_ifs with hc
    · obtain ⟨rfl, hn⟩ := hc
      exact (h.succs_nodup _).append (List.nodup_singleton _) (by simpa using hn)
    · exact h.succs_nodup c
  · intro c
    rw [preds_addEdge a hb]
    split_ifs with hc
    · obtain ⟨rfl, hn⟩ := hc
      refine (h.preds_nodup _).append (List.nodup_singleton _) ?_
      simpa [h.mem_preds] using hn
    · exact h.preds_nodup c

theorem connect (h : g.WellFormed) {a : Option BlockId} {b : BlockId}
    (ha : ∀ x ∈ a, x < g.blocks.size) (hb : b < g.blocks.size) : (g.connect a b).WellFormed := by
  cases a with
  | none => exact h
  | some a => exact h.addEdge (ha a rfl) hb

end WellFormed

/-! ### Assembled graphs -/

/-- Made from a single entry by adding blocks, edges between blocks that are there, and nodes. -/
inductive Assembled : Graph → Prop
  | ofName (name : String) : Assembled (Graph.ofName name)
  | newBlock {g : Graph} (k : BlockKind) (prior : Assembled g) : Assembled (g.newBlock k).2
  | connect {g : Graph} {a : Option BlockId} {b : BlockId} (prior : Assembled g)
      (source : ∀ x ∈ a, x < g.blocks.size) (target : b < g.blocks.size) :
      Assembled (g.connect a b)
  | addNode {g : Graph} {b : BlockId} (n : Node) (prior : Assembled g)
      (place : b < g.blocks.size) : Assembled (g.addNode b n)

theorem Assembled.wellFormed {g : Graph} (h : g.Assembled) : g.WellFormed := by
  induction h with
  | ofName name => exact WellFormed.ofName name
  | newBlock k _ ih => exact ih.newBlock k
  | connect _ ha hb ih => exact ih.connect ha hb
  | addNode n _ _ ih => exact ih.addNode _ n

theorem phis_addEdge (g : Graph) (a b c : BlockId) : (g.addEdge a b).phis c = g.phis c := by
  unfold addEdge
  split_ifs with h
  · rfl
  · calc _ = BasicBlock.phis _ := proj_modifyBlock BasicBlock.phis _ _ _ (by intro; rfl) c
      _ = g.phis c := proj_modifyBlock BasicBlock.phis _ _ _ (by intro; rfl) c

theorem phis_connect (g : Graph) (a : Option BlockId) (b c : BlockId) :
    (g.connect a b).phis c = g.phis c := by
  cases a with
  | none => rfl
  | some a => exact phis_addEdge g a b c

theorem phis_newBlock (g : Graph) (k : BlockKind) (c : BlockId) :
    (g.newBlock k).2.phis c = g.phis c :=
  proj_newBlock BasicBlock.phis g k (fun _ => rfl) c

theorem phis_addNode (g : Graph) (b : BlockId) (n : Node) (c : BlockId) :
    (g.addNode b n).phis c = g.phis c :=
  proj_modifyBlock BasicBlock.phis g b _ (by intro; rfl) c

theorem Assembled.phis_eq_nil {g : Graph} (h : g.Assembled) (b : BlockId) : g.phis b = [] := by
  induction h with
  | ofName name =>
    rw [Graph.ofName, phis_newBlock, phis, block_of_size_le (Nat.zero_le b), absent]
  | newBlock k _ ih => rw [phis_newBlock, ih]
  | connect _ _ _ ih => rw [phis_connect, ih]
  | addNode n _ _ ih => rw [phis_addNode, ih]

end FlowCheck.Graph
