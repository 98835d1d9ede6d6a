import FlowCheck.Proofs.Graph.Basic

/-!
# Paths and dominance

A path is written down by the blocks that it passes before it arrives. One block dominates another
if every path from the entry to the second passes through the first. On reachable blocks dominance
is a partial order in which the dominators of one block form a chain.
-/
namespace FlowCheck.Graph

/-- A path from `a` to `b`: the blocks passed, the first of them `a`, without the arrival at `b`. -/
inductive Path (g : Graph) (a : BlockId) : List BlockId → BlockId → Prop
  | here : Path g a [] a
  | step {l : List BlockId} {p b : BlockId} (prior : Path g a l p) (edge : g.Edge p b) :
      Path g a (l ++ [p]) b

/-- Some path leads from the entry to the block. -/
def Reachable (g : Graph) (b : BlockId) : Prop := ∃ l, g.Path g.entry l b

/-- Every path from the entry to `b` passes or ends in `a`. -/
def Dominates (g : Graph) (a b : BlockId) : Prop :=
  ∀ l, g.Path g.entry l b → a ∈ l ∨ a = b

theorem exists_last_place {α : Type} {l : List α} {x : α} (h : x ∈ l) :
    ∃ m₁ m₂, l = m₁ ++ x :: m₂ ∧ x ∉ m₂ := by
  obtain ⟨m₁, m₂, he, hn⟩ := List.eq_append_cons_of_mem (List.mem_reverse.mpr h)
  refine ⟨m₂.reverse, m₁.reverse, ?_, by simpa using hn⟩
  rw [← List.reverse_reverse l, he]
  simp

namespace Path

variable {g : Graph} {a b c x : BlockId} {l m : List BlockId}

theorem trans (h : g.Path a l b) (h' : g.Path b m c) : g.Path a (l ++ m) c := by
  induction h' with
  | here => simpa using h
  | step _ he ih =>
    rw [← List.append_assoc]
    exact ih.step he

theorem single (he : g.Edge a b) : g.Path a [a] b := Path.here.step he

theorem cons (he : g.Edge a b) (h : g.Path b l c) : g.Path a (a :: l) c := (single he).trans h

theorem cut (h : g.Path a (l ++ x :: m) b) : g.Path a l x ∧ g.Path x (x :: m) b := by
  generalize hk : l ++ x :: m = k at h
  induction h generalizing m with
  | here => simp at hk
  | @step k p b prior he ih =>
    rcases List.eq_nil_or_concat m with rfl | ⟨m', y, rfl⟩
    · obtain ⟨rfl, hp⟩ := List.append_inj' hk rfl
      obtain rfl : x = p := by simpa using hp
      exact ⟨prior, single he⟩
    · rw [List.concat_eq_append] at hk ⊢
      have hk' : (l ++ x :: m') ++ [y] = k ++ [p] := by simpa using hk
      obtain ⟨hl, hp⟩ := List.append_inj' hk' rfl
      obtain rfl : y = p := by simpa using hp
      obtain ⟨h₁, h₂⟩ := ih hl
      exact ⟨h₁, h₂.step he⟩

theorem cut_of_mem (h : g.Path a l b) (hx : x ∈ l) :
    ∃ m₁ m₂, l = m₁ ++ x :: m₂ ∧ g.Path a m₁ x ∧ g.Path x (x :: m₂) b := by
  obtain ⟨m₁, m₂, rfl⟩ := List.append_of_mem hx
  exact ⟨m₁, m₂, rfl, h.cut⟩

theorem eq_of_nil (h : g.Path a [] b) : a = b := by
  generalize hl : ([] : List BlockId) = l at h
  cases h with
  | here => rfl
  | step => simp at hl

theorem head (h : g.Path a (x :: l) b) : a = x := by
  have h' : g.Path a ([] ++ x :: l) b := h
  exact h'.cut.1.eq_of_nil

theorem congr {g' : Graph} (hs : ∀ x y, g.Edge x y → g'.Edge x y) (h : g.Path a l b) :
    g'.Path a l b := by
  induction h with
  | here => exact .here
  | step _ he ih => exact ih.step (hs _ _ he)

theorem lt_size (hg : g.WellFormed) (ha : a < g.blocks.size) (h : g.Path a l b) :
    b < g.blocks.size := by
  cases h with
  | here => exact ha
  | step _ he => exact hg.succ_lt he

/-- What every edge out of a block that is passed preserves, the path preserves. -/
theorem preserves {P : BlockId → Prop} (h : g.Path a l b) (ha : P a)
    (hstep : ∀ x ∈ l, ∀ y, P x → g.Edge x y → P y) : P b := by
  induction h with
  | here => exact ha
  | @step l p b _ he ih =>
    have hp : P p := ih fun x hx => hstep x (List.mem_append_left [p] hx)
    exact hstep p (by simp) b hp he

/-- A path that passes a block twice goes round a cycle. -/
theorem exists_cycle (h : g.Path a l b) (hx : 2 ≤ (l ++ [b]).count x) :
    ∃ m, g.Path x (x :: m) x := by
  have hmem : x ∈ l := by
    rw [List.count_append, List.count_singleton] at hx
    apply List.count_pos_iff.mp
    split_ifs at hx <;> omega
  obtain ⟨m₁, m₂, rfl, hn⟩ := List.eq_append_cons_of_mem hmem
  have h₂ := h.cut.2
  have hagain : x ∈ m₂ ++ [b] := by
    rw [List.append_assoc, List.count_append, List.count_eq_zero_of_not_mem hn, List.cons_append,
      List.count_cons_self] at hx
    exact List.count_pos_iff.mp (by omega)
  rcases List.mem_append.mp hagain with hm | hm
  · obtain ⟨k₁, k₂, rfl⟩ := List.append_of_mem hm
    exact ⟨k₁, (h₂ : g.Path x ((x :: k₁) ++ x :: k₂) b).cut.1⟩
  · exact ⟨m₂, List.mem_singleton.mp hm ▸ h₂⟩

end Path

namespace Reachable

variable {g : Graph} {a b : BlockId}

theorem entry (g : Graph) : g.Reachable g.entry := ⟨[], .here⟩

theorem step (h : g.Reachable a) (he : g.Edge a b) : g.Reachable b := by
  obtain ⟨l, hl⟩ := h
  exact ⟨l ++ [a], hl.step he⟩

theorem of_mem_path {l : List BlockId} (h : g.Path g.entry l b) (ha : a ∈ l ++ [b]) :
    g.Reachable a := by
  rcases List.mem_append.mp ha with ha | ha
  · obtain ⟨m, -, -, hm, -⟩ := h.cut_of_mem ha
    exact ⟨m, hm⟩
  · exact ⟨l, List.mem_singleton.mp ha ▸ h⟩

theorem lt_size (hg : g.WellFormed) (h : g.Reachable b) : b < g.blocks.size := by
  obtain ⟨l, hl⟩ := h
  exact hl.lt_size hg hg.entry_lt

end Reachable

namespace Dominates

variable {g : Graph} {a b c p : BlockId}

theorem refl (g : Graph) (a : BlockId) : g.Dominates a a := fun _ _ => .inr rfl

theorem entry (g : Graph) (b : BlockId) : g.Dominates g.entry b := by
  intro l h
  cases l with
  | nil => exact .inr h.eq_of_nil
  | cons x l => exact .inl (by rw [h.head]; exact List.mem_cons_self)

theorem reachable (h : g.Dominates a b) (hb : g.Reachable b) : g.Reachable a := by
  obtain ⟨l, hl⟩ := hb
  rcases h l hl with ha | rfl
  · obtain ⟨m₁, m₂, -, h₁, -⟩ := hl.cut_of_mem ha
    exact ⟨m₁, h₁⟩
  · exact ⟨l, hl⟩

theorem trans (h : g.Dominates a b) (h' : g.Dominates b c) : g.Dominates a c := by
  intro l hl
  rcases h' l hl with hb | rfl
  · obtain ⟨m₁, m₂, rfl, h₁, -⟩ := hl.cut_of_mem hb
    rcases h m₁ h₁ with ha | rfl
    · exact .inl (by simp [ha])
    · exact .inl hb
  · exact h l hl

/-- A dominator of a block, other than the block, dominates the blocks before it. -/
theorem pred (h : g.Dominates a b) (hne : a ≠ b) (he : g.Edge p b) : g.Dominates a p := by
  intro l hl
  rcases h _ (hl.step he) with ha | rfl
  · simpa using ha
  · exact absurd rfl hne

theorem antisymm (h : g.Dominates a b) (h' : g.Dominates b a) (ha : g.Reachable a) : a = b := by
  obtain ⟨l, hl⟩ := ha
  induction hn : l.length using Nat.strong_induction_on generalizing l with
  | _ n ih =>
    rcases h' l hl with hb | rfl
    · -- the way to `b` is shorter, and it passes `a` before that
      obtain ⟨m₁, m₂, rfl, h₁, -⟩ := hl.cut_of_mem hb
      rcases h m₁ h₁ with ha | rfl
      · obtain ⟨k₁, k₂, rfl, h₂, -⟩ := h₁.cut_of_mem ha
        exact ih k₁.length (by simp at hn; omega) k₁ h₂ rfl
      · rfl
    · rfl

/-- The dominators of a reachable block are ordered by dominance. -/
theorem comparable (ha : g.Dominates a c) (hb : g.Dominates b c) (hc : g.Reachable c) :
    g.Dominates a b ∨ g.Dominates b a := by
  -- whichever of the two comes last on a path to `c`, the other one comes before it on all
  have key : ∀ {x y : BlockId} {m₁ m₂ : List BlockId}, g.Dominates x c → x ≠ y → x ∉ m₂ →
      x ≠ c → g.Path g.entry (m₁ ++ y :: m₂) c → g.Dominates x y := by
    intro x y m₁ m₂ hx hxy hn hxc hp k hk
    rcases hx _ (hk.trans hp.cut.2) with hm | rfl
    · rcases List.mem_append.mp hm with hm | hm
      · exact .inl hm
      · exact absurd ((List.mem_cons.mp hm).resolve_left hxy) hn
    · exact absurd rfl hxc
  by_cases hab : a = b
  · exact .inl (hab ▸ refl g a)
  by_cases hac : a = c
  · exact .inr (hac ▸ hb)
  by_cases hbc : b = c
  · exact .inl (hbc ▸ ha)
  obtain ⟨l, hl⟩ := hc
  have hal := (ha l hl).resolve_right hac
  have hbl := (hb l hl).resolve_right hbc
  obtain ⟨m₁, m₂, rfl, hn⟩ := exists_last_place hbl
  by_cases ham : a ∈ m₂
  · obtain ⟨k₁, k₂, rfl, -⟩ := exists_last_place ham
    have hl' : g.Path g.entry ((m₁ ++ b :: k₁) ++ a :: k₂) c := by simpa using hl
    exact .inr (key hb (Ne.symm hab) (by simp at hn; tauto) hbc hl')
  · exact .inl (key ha hab ham hac hl)

end Dominates

/-! ### Graphs of the same shape -/

/-- The same blocks with the same nodes and edges, whatever an analysis has written into them. -/
structure SameShape (g g' : Graph) : Prop where
  size_eq : g'.blocks.size = g.blocks.size
  entry_eq : g'.entry = g.entry
  ret_eq : g'.ret = g.ret
  exit_eq : g'.exit = g.exit
  id_eq : ∀ b, (g'.block b).id = (g.block b).id
  nodes_eq : ∀ b, g'.nodes b = g.nodes b
  succs_eq : ∀ b, g'.succs b = g.succs b
  preds_eq : ∀ b, g'.preds b = g.preds b

namespace SameShape

variable {g g' g'' : Graph}

theorem refl (g : Graph) : SameShape g g := by
  constructor <;> intros <;> rfl

theorem trans (h : SameShape g g') (h' : SameShape g' g'') : SameShape g g'' where
  size_eq := h'.size_eq.trans h.size_eq
  entry_eq := h'.entry_eq.trans h.entry_eq
  ret_eq := h'.ret_eq.trans h.ret_eq
  exit_eq := h'.exit_eq.trans h.exit_eq
  id_eq b := (h'.id_eq b).trans (h.id_eq b)
  nodes_eq b := (h'.nodes_eq b).trans (h.nodes_eq b)
  succs_eq b := (h'.succs_eq b).trans (h.succs_eq b)
  preds_eq b := (h'.preds_eq b).trans (h.preds_eq b)

theorem modifyBlock (g : Graph) (b : BlockId) (f : BasicBlock → BasicBlock)
    (hid : ∀ x, (f x).id = x.id) (hnodes : ∀ x, (f x).nodes = x.nodes)
    (hsuccs : ∀ x, (f x).succs = x.succs) (hpreds : ∀ x, (f x).preds = x.preds) :
    SameShape g (g.modifyBlock b f) where
  size_eq := by simp
  entry_eq := rfl
  ret_eq := rfl
  exit_eq := rfl
  id_eq := proj_modifyBlock _ g b f hid
  nodes_eq := proj_modifyBlock _ g b f hnodes
  succs_eq := proj_modifyBlock _ g b f hsuccs
  preds_eq := proj_modifyBlock _ g b f hpreds

theorem foldl {α : Type} {step : Graph → α → Graph} (hstep : ∀ g x, SameShape g (step g x))
    (xs : List α) (g : Graph) : SameShape g (xs.foldl step g) := by
  induction xs generalizing g with
  | nil => exact refl g
  | cons x xs ih => exact (hstep g x).trans (ih _)

theorem wellFormed (h : SameShape g g') (hg : g.WellFormed) : g'.WellFormed where
  entry_eq := h.entry_eq.trans hg.entry_eq
  size_pos := h.size_eq ▸ hg.size_pos
  id_eq b hb := (h.id_eq b).trans (hg.id_eq b (h.size_eq ▸ hb))
  mem_preds a b := by rw [h.preds_eq, h.succs_eq, hg.mem_preds]
  succs_nodup b := by rw [h.succs_eq]; exact hg.succs_nodup b
  preds_nodup b := by rw [h.preds_eq]; exact hg.preds_nodup b

theorem edge_iff (h : SameShape g g') (a b : BlockId) : g'.Edge a b ↔ g.Edge a b := by
  rw [Edge, Edge, h.succs_eq]

theorem path_iff (h : SameShape g g') {a b : BlockId} {l : List BlockId} :
    g'.Path a l b ↔ g.Path a l b :=
  ⟨.congr fun x y => (h.edge_iff x y).mp, .congr fun x y => (h.edge_iff x y).mpr⟩

theorem path_entry_iff (h : SameShape g g') {b : BlockId} {l : List BlockId} :
    g'.Path g'.entry l b ↔ g.Path g.entry l b := by
  rw [h.entry_eq, h.path_iff]

theorem reachable_iff (h : SameShape g g') {b : BlockId} : g'.Reachable b ↔ g.Reachable b := by
  simp only [Reachable, h.path_entry_iff]

theorem dominates_iff (h : SameShape g g') {a b : BlockId} :
    g'.Dominates a b ↔ g.Dominates a b := by
  simp only [Dominates, h.entry_eq, h.path_iff]

end SameShape

end FlowCheck.Graph
