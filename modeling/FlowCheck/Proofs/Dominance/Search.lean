import FlowCheck.Flow.Dominance
import FlowCheck.Proofs.Graph.Path

/-!
# Depth-first order

The search from the entry leaves every reachable block once and the entry last, and every other
block before one that has an edge to it.
-/
namespace FlowCheck.Dominance

open FlowCheck.Graph

variable {g : Graph}

/-- What a search that was sent to `starts` has added: the blocks `new`, in the order of leaving. -/
structure Found (g : Graph) (starts : List BlockId) (s : Search) (new : List BlockId)
    (s' : Search) : Prop where
  post_eq : s'.post = s.post ++ new
  mem_seen : ∀ x, x ∈ s'.seen ↔ x ∈ s.seen ∨ x ∈ new
  fresh : ∀ x ∈ new, x ∉ s.seen
  nodup : new.Nodup
  closed : ∀ x ∈ new, ∀ y, g.Edge x y → y ∈ s'.seen
  parent : ∀ x ∈ new, x ∈ starts ∨ ∃ p, g.Edge p x ∧ [x, p].Sublist new
  path : ∀ x ∈ new, ∃ r ∈ starts, ∃ l, g.Path r l x

namespace Found

variable {s s' s'' : Search} {starts starts' new new' : List BlockId}

theorem nothing (g : Graph) (starts : List BlockId) (s : Search) : Found g starts s [] s where
  post_eq := by simp
  mem_seen := by simp
  fresh := by simp
  nodup := List.nodup_nil
  closed := by simp
  parent := by simp
  path := by simp

theorem append (h : Found g starts s new s') (h' : Found g starts' s' new' s'') :
    Found g (starts ++ starts') s (new ++ new') s'' where
  post_eq := by rw [h'.post_eq, h.post_eq, List.append_assoc]
  mem_seen := by
    intro x
    rw [h'.mem_seen, h.mem_seen, List.mem_append, or_assoc]
  fresh := by
    intro x hx
    rcases List.mem_append.mp hx with hx | hx
    · exact h.fresh x hx
    · exact fun hs => h'.fresh x hx ((h.mem_seen x).mpr (.inl hs))
  nodup := by
    refine h.nodup.append h'.nodup ?_
    intro x hx hx'
    exact h'.fresh x hx' ((h.mem_seen x).mpr (.inr hx))
  closed := by
    intro x hx y he
    rcases List.mem_append.mp hx with hx | hx
    · exact (h'.mem_seen y).mpr (.inl (h.closed x hx y he))
    · exact h'.closed x hx y he
  parent := by
    intro x hx
    rcases List.mem_append.mp hx with hx | hx
    · rcases h.parent x hx with hs | ⟨p, he, hl⟩
      · exact .inl (by simp [hs])
      · exact .inr ⟨p, he, hl.trans (List.sublist_append_left _ _)⟩
    · rcases h'.parent x hx with hs | ⟨p, he, hl⟩
      · exact .inl (by simp [hs])
      · exact .inr ⟨p, he, hl.trans (List.sublist_append_right _ _)⟩
  path := by
    intro x hx
    rcases List.mem_append.mp hx with hx | hx
    · obtain ⟨r, hr, l, hl⟩ := h.path x hx
      exact ⟨r, by simp [hr], l, hl⟩
    · obtain ⟨r, hr, l, hl⟩ := h'.path x hx
      exact ⟨r, by simp [hr], l, hl⟩

/-- Leaving a block after everything that was found from its successors. -/
theorem leave {b : BlockId} (hb : b ∉ s.seen)
    (h : Found g (g.succs b) { s with seen := b :: s.seen } new s')
    (hall : ∀ t ∈ g.succs b, t ∈ s'.seen) :
    Found g [b] s (new ++ [b]) { s' with post := s'.post ++ [b] } where
  post_eq := by simp [h.post_eq]
  mem_seen := by
    intro x
    rw [h.mem_seen]
    simp only [List.mem_cons, List.mem_append, List.not_mem_nil, or_false]
    tauto
  fresh := by
    intro x hx
    rcases List.mem_append.mp hx with hx | hx
    · exact fun hs => h.fresh x hx (List.mem_cons_of_mem _ hs)
    · rwa [List.mem_singleton.mp hx]
  nodup := by
    refine h.nodup.append (List.nodup_singleton b) ?_
    intro x hx hx'
    rw [List.mem_singleton.mp hx'] at hx
    exact h.fresh b hx List.mem_cons_self
  closed := by
    intro x hx y he
    rcases List.mem_append.mp hx with hx | hx
    · exact h.closed x hx y he
    · rw [List.mem_singleton.mp hx] at he
      exact hall y he
  parent := by
    intro x hx
    rcases List.mem_append.mp hx with hx | hx
    · rcases h.parent x hx with hs | ⟨p, he, hl⟩
      · exact .inr ⟨b, hs, (List.singleton_sublist.mpr hx).append (List.Sublist.refl [b])⟩
      · exact .inr ⟨p, he, hl.trans (List.sublist_append_left _ _)⟩
    · exact .inl hx
  path := by
    intro x hx
    refine ⟨b, List.mem_singleton_self b, ?_⟩
    rcases List.mem_append.mp hx with hx | hx
    · obtain ⟨r, hr, l, hl⟩ := h.path x hx
      exact ⟨[b] ++ l, (Path.single hr).trans hl⟩
    · rw [List.mem_singleton.mp hx]
      exact ⟨[], .here⟩

end Found

/-- The number of blocks not seen yet. -/
def unseen (g : Graph) (s : Search) : ℕ := (Finset.range g.blocks.size \ s.seen.toFinset).card

theorem unseen_le {s s' : Search} (h : ∀ x, x ∈ s.seen → x ∈ s'.seen) :
    unseen g s' ≤ unseen g s := by
  apply Finset.card_le_card
  intro x hx
  simp only [Finset.mem_sdiff, List.mem_toFinset] at hx ⊢
  exact ⟨hx.1, fun hs => hx.2 (h x hs)⟩

theorem unseen_mark {s : Search} {b : BlockId} (hb : b ∉ s.seen) (hlt : b < g.blocks.size) :
    unseen g { s with seen := b :: s.seen } < unseen g s := by
  apply Finset.card_lt_card
  refine Finset.ssubset_iff_subset_ne.mpr ⟨?_, ?_⟩
  · intro x hx
    simp only [Finset.mem_sdiff, List.mem_toFinset, List.mem_cons] at hx ⊢
    exact ⟨hx.1, fun hs => hx.2 (.inr hs)⟩
  · intro heq
    have hmem : b ∈ Finset.range g.blocks.size \ s.seen.toFinset := by simp [hb, hlt]
    rw [← heq] at hmem
    simp at hmem

/-- The search through a list of blocks, each visited if it has not been seen. -/
theorem found_foldl {f : Search → BlockId → Search} {fuel : ℕ}
    (hf : ∀ s b, b ∉ s.seen → b < g.blocks.size → unseen g s ≤ fuel →
      ∃ new, Found g [b] s (new ++ [b]) (f s b)) :
    ∀ (ts : List BlockId) (s : Search), (∀ t ∈ ts, t < g.blocks.size) → unseen g s ≤ fuel →
      ∃ new, Found g ts s new (ts.foldl (fun s t => if s.seen.contains t then s else f s t) s) ∧
        ∀ t ∈ ts, t ∈ (ts.foldl (fun s t => if s.seen.contains t then s else f s t) s).seen := by
  intro ts
  induction ts with
  | nil =>
    intro s _ _
    exact ⟨[], Found.nothing g [] s, by simp⟩
  | cons t ts ih =>
    intro s hlt hfuel
    have hrest : ∀ x ∈ ts, x < g.blocks.size := fun x hx => hlt x (List.mem_cons_of_mem _ hx)
    simp only [List.foldl_cons]
    by_cases ht : t ∈ s.seen
    · rw [if_pos (by simpa using ht)]
      obtain ⟨new, hn, hall⟩ := ih s hrest hfuel
      refine ⟨[] ++ new, (Found.nothing g [t] s).append hn, ?_⟩
      intro x hx
      rcases List.mem_cons.mp hx with rfl | hx
      · exact (hn.mem_seen _).mpr (.inl ht)
      · exact hall x hx
    · rw [if_neg (by simpa using ht)]
      obtain ⟨m, hm⟩ := hf s t ht (hlt t List.mem_cons_self) hfuel
      have hle : unseen g (f s t) ≤ fuel :=
        (unseen_le fun x hx => (hm.mem_seen x).mpr (.inl hx)).trans hfuel
      obtain ⟨new, hn, hall⟩ := ih (f s t) hrest hle
      refine ⟨(m ++ [t]) ++ new, hm.append hn, ?_⟩
      intro x hx
      rcases List.mem_cons.mp hx with rfl | hx
      · exact (hn.mem_seen _).mpr (.inl ((hm.mem_seen _).mpr (.inr (by simp))))
      · exact hall x hx

theorem found_visit (hg : g.WellFormed) (fuel : ℕ) (s : Search) (b : BlockId) (hb : b ∉ s.seen)
    (hlt : b < g.blocks.size) (hfuel : unseen g s ≤ fuel) :
    ∃ new, Found g [b] s (new ++ [b]) (visit g fuel s b) := by
  induction fuel generalizing s b with
  | zero =>
    have := unseen_mark hb hlt
    omega
  | succ fuel ih =>
    have hmark := unseen_mark hb hlt
    obtain ⟨new, hn, hall⟩ := found_foldl ih (g.succs b) { s with seen := b :: s.seen }
      (fun t ht => hg.succ_lt ht) (by omega)
    exact ⟨new, hn.leave hb hall⟩

/-- The order of leaving blocks: each once, the entry last, each other before a predecessor. -/
structure Postorder (g : Graph) (post : List BlockId) : Prop where
  nodup : post.Nodup
  mem_iff : ∀ b, b ∈ post ↔ g.Reachable b
  last : ∃ new, post = new ++ [g.entry]
  parent : ∀ b ∈ post, b = g.entry ∨ ∃ p, g.Edge p b ∧ [b, p].Sublist post

namespace Postorder

variable {post : List BlockId}

theorem congr {g' : Graph} (hs : SameShape g g') (h : Postorder g post) : Postorder g' post where
  nodup := h.nodup
  mem_iff b := by rw [h.mem_iff, hs.reachable_iff]
  last := by rw [hs.entry_eq]; exact h.last
  parent b hb := by simpa only [hs.entry_eq, hs.edge_iff] using h.parent b hb

theorem length_le (hg : g.WellFormed) (h : Postorder g post) : post.length ≤ g.blocks.size := by
  have hsub : post.toFinset ⊆ Finset.range g.blocks.size := by
    intro b hb
    rw [List.mem_toFinset, h.mem_iff] at hb
    exact Finset.mem_range.mpr (hb.lt_size hg)
  have hcard := Finset.card_le_card hsub
  rwa [Finset.card_range, List.toFinset_card_of_nodup h.nodup] at hcard

end Postorder

theorem postorder_spec (hg : g.WellFormed) : Postorder g (postorder g) := by
  have hfuel : unseen g {} ≤ g.blocks.size + 1 := by
    have h := Finset.card_le_card
      (Finset.sdiff_subset (s := Finset.range g.blocks.size) (t := ([] : List BlockId).toFinset))
    rw [Finset.card_range] at h
    exact h.trans (Nat.le_succ _)
  obtain ⟨new, hn⟩ := found_visit hg (g.blocks.size + 1) {} g.entry (by simp) hg.entry_lt hfuel
  have hpost : postorder g = new ++ [g.entry] := by simpa [postorder] using hn.post_eq
  have hseen : ∀ x, x ∈ (visit g (g.blocks.size + 1) {} g.entry).seen ↔ x ∈ new ++ [g.entry] := by
    intro x
    simpa using hn.mem_seen x
  refine ⟨hpost ▸ hn.nodup, ?_, ⟨new, hpost⟩, ?_⟩
  · intro b
    rw [hpost]
    constructor
    · intro hb
      obtain ⟨r, hr, l, hl⟩ := hn.path b hb
      rw [List.mem_singleton.mp hr] at hl
      exact ⟨l, hl⟩
    · rintro ⟨l, hl⟩
      induction hl with
      | here => simp
      | step _ he ih => exact (hseen _).mp (hn.closed _ ih _ he)
  · rw [hpost]
    intro b hb
    rcases hn.parent b hb with hs | h
    · exact .inl (List.mem_singleton.mp hs)
    · exact .inr h

end FlowCheck.Dominance
