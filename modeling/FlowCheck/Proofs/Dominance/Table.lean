import FlowCheck.Flow.Dominance
import Mathlib.Tactic

/-!
# The table of immediate dominators

Blocks are known here by their postorder numbers: `P i` lists the numbers of the blocks before
block `i`, and `r`, the largest number, is that of the entry. The chain of a number is what
following the table upwards from it finds. After `k` rounds the chain of a number holds its
dominators and lies on every trail from the root that goes back fewer than `k` times. No trail
without repetition goes back as often as there are blocks, so enough rounds make chains exact.
-/
namespace FlowCheck.Dominance

/-! ### Trails -/

/-- A way from `a` to a number along edges: how many of them go back, that is, to no smaller
number, and the numbers visited, newest first. -/
inductive Trail (P : ℕ → List ℕ) (a : ℕ) : ℕ → List ℕ → ℕ → Prop
  | here : Trail P a 0 [a] a
  | forth {m p b : ℕ} {l : List ℕ} (prior : Trail P a m l p) (edge : p ∈ P b) (lt : b < p) :
      Trail P a m (b :: l) b
  | back {m p b : ℕ} {l : List ℕ} (prior : Trail P a m l p) (edge : p ∈ P b) (le : p ≤ b) :
      Trail P a (m + 1) (b :: l) b

namespace Trail

variable {P : ℕ → List ℕ} {a b c x m m' : ℕ} {l l' : List ℕ}

theorem end_mem (h : Trail P a m l b) : b ∈ l := by
  cases h <;> simp

theorem step (h : Trail P a m l b) (he : b ∈ P c) : ∃ m', Trail P a m' (c :: l) c := by
  rcases lt_or_ge c b with hlt | hle
  · exact ⟨m, h.forth he hlt⟩
  · exact ⟨m + 1, h.back he hle⟩

theorem append (h : Trail P a m l b) (h' : Trail P b m' l' c) :
    ∃ k, Trail P a (m + m') k c ∧ ∀ x ∈ k, x ∈ l ∨ x ∈ l' := by
  induction h' with
  | here => exact ⟨l, h, fun x hx => .inl hx⟩
  | @forth m' p c l' _ he hlt ih =>
    obtain ⟨k, hk, hsub⟩ := ih
    refine ⟨c :: k, hk.forth he hlt, ?_⟩
    intro x hx
    rcases List.mem_cons.mp hx with rfl | hx
    · exact .inr List.mem_cons_self
    · exact (hsub x hx).imp_right (List.mem_cons_of_mem _)
  | @back m' p c l' _ he hle ih =>
    obtain ⟨k, hk, hsub⟩ := ih
    refine ⟨c :: k, hk.back he hle, ?_⟩
    intro x hx
    rcases List.mem_cons.mp hx with rfl | hx
    · exact .inr List.mem_cons_self
    · exact (hsub x hx).imp_right (List.mem_cons_of_mem _)

theorem cut (h : Trail P a m l b) (hx : x ∈ l) :
    ∃ m₁ l₁ m₂ l₂, Trail P a m₁ l₁ x ∧ Trail P x m₂ l₂ b ∧ m₁ + m₂ = m ∧ l₁ <:+ l := by
  induction h with
  | here =>
    obtain rfl : x = a := by simpa using hx
    exact ⟨0, [x], 0, [x], .here, .here, rfl, List.suffix_rfl⟩
  | @forth m p b l prior he hlt ih =>
    rcases List.mem_cons.mp hx with rfl | hx
    · exact ⟨m, x :: l, 0, [x], prior.forth he hlt, .here, rfl, List.suffix_rfl⟩
    · obtain ⟨m₁, l₁, m₂, l₂, h₁, h₂, hm, hl⟩ := ih hx
      exact ⟨m₁, l₁, m₂, b :: l₂, h₁, h₂.forth he hlt, hm, hl.trans (List.suffix_cons b l)⟩
  | @back m p b l prior he hle ih =>
    rcases List.mem_cons.mp hx with rfl | hx
    · exact ⟨m + 1, x :: l, 0, [x], prior.back he hle, .here, rfl, List.suffix_rfl⟩
    · obtain ⟨m₁, l₁, m₂, l₂, h₁, h₂, hm, hl⟩ := ih hx
      exact ⟨m₁, l₁, m₂ + 1, b :: l₂, h₁, h₂.back he hle, by omega,
        hl.trans (List.suffix_cons b l)⟩

/-- A trail that never goes back only visits numbers up to its start. -/
theorem le_of_forth (h : Trail P a m l b) (hm : m = 0) : ∀ x ∈ l, x ≤ a := by
  induction h with
  | here => simp
  | @forth m p b l prior _ hlt ih =>
    intro x hx
    rcases List.mem_cons.mp hx with rfl | hx
    · exact hlt.le.trans (ih hm p prior.end_mem)
    · exact ih hm x hx
  | back => omega

/-- A trail goes back less often than it visits numbers. -/
theorem lt_length (h : Trail P a m l b) : m < l.length := by
  induction h with
  | here => simp
  | forth _ _ _ ih => exact ih.trans (Nat.lt_succ_self _)
  | back _ _ _ ih => exact Nat.succ_lt_succ ih

/-- Leaving out rounds, a trail visits no number twice. -/
theorem exists_nodup (h : Trail P a m l b) : ∃ m' l', Trail P a m' l' b ∧ l' ⊆ l ∧ l'.Nodup := by
  -- a number that was visited before ends the trail there already
  have key : ∀ {m p b : ℕ} {l : List ℕ}, Trail P a m l p → l.Nodup → p ∈ P b →
      ∃ m' l', Trail P a m' l' b ∧ l' ⊆ b :: l ∧ l'.Nodup := by
    intro m p b l ht hn he
    by_cases hb : b ∈ l
    · obtain ⟨m₁, l₁, _, _, h₁, -, -, hl⟩ := ht.cut hb
      exact ⟨m₁, l₁, h₁, List.subset_cons_of_subset _ hl.subset, hl.sublist.nodup hn⟩
    · obtain ⟨m', h'⟩ := ht.step he
      exact ⟨m', b :: l, h', List.Subset.refl _, List.nodup_cons.mpr ⟨hb, hn⟩⟩
  induction h with
  | here => exact ⟨0, [a], .here, List.Subset.refl _, List.nodup_singleton a⟩
  | forth _ he _ ih =>
    obtain ⟨m', l', h', hl, hn⟩ := ih
    obtain ⟨m'', l'', h'', hl', hn'⟩ := key h' hn he
    exact ⟨m'', l'', h'', List.Subset.trans hl' (List.cons_subset_cons _ hl), hn'⟩
  | back _ he _ ih =>
    obtain ⟨m', l', h', hl, hn⟩ := ih
    obtain ⟨m'', l'', h'', hl', hn'⟩ := key h' hn he
    exact ⟨m'', l'', h'', List.Subset.trans hl' (List.cons_subset_cons _ hl), hn'⟩

end Trail

/-! ### Chains -/

/-- Following the table upwards from a number finds `x`. -/
inductive Chain (t : Table) : ℕ → ℕ → Prop
  | self (i : ℕ) : Chain t i i
  | up {i d x : ℕ} (parent : t.getD i none = some d) (rest : Chain t d x) : Chain t i x

/-- Every number that the table defines, except for the root, has a larger one above it. -/
structure Rising (r : ℕ) (t : Table) : Prop where
  root : t.getD r none = some r
  above : ∀ {i d : ℕ}, t.getD i none = some d → i ≠ r → i < d ∧ d ≤ r
  defined : ∀ {i d : ℕ}, t.getD i none = some d → ∃ e, t.getD d none = some e

namespace Chain

variable {t : Table} {r i j x y : ℕ}

theorem trans (h : Chain t i j) (h' : Chain t j x) : Chain t i x := by
  induction h with
  | self => exact h'
  | up hp _ ih => exact .up hp (ih h')

theorem root_eq (ht : Rising r t) (h : Chain t r x) : x = r := by
  generalize hi : r = i at h
  induction h with
  | self => rfl
  | up hp _ ih =>
    subst hi
    rw [ht.root] at hp
    have hd := Option.some_inj.mp hp
    exact (ih hd).trans hd.symm

theorem le (ht : Rising r t) (h : Chain t i x) : i ≤ x := by
  induction h with
  | self => exact le_rfl
  | @up i d x hp _ ih =>
    by_cases hi : i = r
    · rw [hi, ht.root] at hp
      rw [hi, Option.some_inj.mp hp]
      exact ih
    · exact (ht.above hp hi).1.le.trans ih

theorem defined (ht : Rising r t) (h : Chain t i x) (hi : ∃ d, t.getD i none = some d) :
    ∃ d, t.getD x none = some d := by
  induction h with
  | self => exact hi
  | up hp _ ih => exact ih (ht.defined hp)

/-- What a chain finds beyond its start it finds from the number above the start. -/
theorem tail {d : ℕ} (h : Chain t i x) (hne : x ≠ i) (hp : t.getD i none = some d) :
    Chain t d x := by
  cases h with
  | self => exact absurd rfl hne
  | up hp' hrest =>
    rw [hp] at hp'
    rw [Option.some_inj.mp hp']
    exact hrest

end Chain

/-! ### The meeting point of chains -/

/-- The first number that two chains share; everything that they share is above it. -/
theorem meet_spec {t : Table} {r : ℕ} (ht : Rising r t) (fuel a b : ℕ) (ha : a ≤ r) (hb : b ≤ r)
    (hda : ∃ d, t.getD a none = some d) (hdb : ∃ d, t.getD b none = some d)
    (hfuel : (r - a) + (r - b) < fuel) :
    Chain t a (meet t fuel a b) ∧ Chain t b (meet t fuel a b) ∧
      ∀ x, Chain t a x → Chain t b x → Chain t (meet t fuel a b) x := by
  induction fuel generalizing a b with
  | zero => omega
  | succ fuel ih =>
    rw [meet]
    split_ifs with hab hlt
    · subst hab
      exact ⟨.self a, .self a, fun x hx _ => hx⟩
    · obtain ⟨d, hd⟩ := hda
      obtain ⟨hlow, hhigh⟩ := ht.above hd (by omega)
      rw [hd, Option.getD_some]
      obtain ⟨h₁, h₂, h₃⟩ := ih d b hhigh hb (ht.defined hd) hdb (by omega)
      refine ⟨.up hd h₁, h₂, fun x hx hx' => h₃ x (hx.tail ?_ hd) hx'⟩
      rintro rfl
      exact absurd (hx'.le ht) (by omega)
    · obtain ⟨d, hd⟩ := hdb
      obtain ⟨hlow, hhigh⟩ := ht.above hd (by omega)
      rw [hd, Option.getD_some]
      obtain ⟨h₁, h₂, h₃⟩ := ih a d ha hhigh hda (ht.defined hd) (by omega)
      refine ⟨h₁, .up hd h₂, fun x hx hx' => h₃ x hx (hx'.tail ?_ hd)⟩
      rintro rfl
      exact absurd (hx.le ht) (by omega)

/-- The meeting point of the chains of those numbers in a list that the table defines. -/
structure Meets (t : Table) (ps : List ℕ) (c : ℕ) : Prop where
  above : ∀ p ∈ ps, (∃ d, t.getD p none = some d) → Chain t p c
  least : ∀ x, (∀ p ∈ ps, (∃ d, t.getD p none = some d) → Chain t p x) → Chain t c x
  defined : ∃ d, t.getD c none = some d
  bound : c < t.size

theorem lt_size_of_getD {t : Table} {i d : ℕ} (h : t.getD i none = some d) : i < t.size := by
  by_contra hn
  simp [Array.getD, hn] at h

theorem Meets.step {t : Table} {r : ℕ} (ht : Rising r t) (hsize : t.size = r + 1) {ps : List ℕ}
    {c p : ℕ} (h : Meets t ps c) (hp : ∃ d, t.getD p none = some d) :
    Meets t (ps ++ [p]) (meet t (2 * t.size + 1) p c) := by
  obtain ⟨d, hd⟩ := hp
  have hpr := lt_size_of_getD hd
  have hcr := h.bound
  obtain ⟨h₁, h₂, h₃⟩ := meet_spec ht (2 * t.size + 1) p c (by omega) (by omega) ⟨d, hd⟩ h.defined
    (by omega)
  obtain ⟨e, he⟩ := h₂.defined ht h.defined
  refine ⟨?_, ?_, ⟨e, he⟩, lt_size_of_getD he⟩
  · intro q hq hdq
    rcases List.mem_append.mp hq with hq | hq
    · exact (h.above q hq hdq).trans h₂
    · rw [List.mem_singleton.mp hq]
      exact h₁
  · intro x hx
    exact h₃ x (hx p (by simp) ⟨d, hd⟩) (h.least x fun q hq hdq => hx q (by simp [hq]) hdq)

/-- The candidate for a block, once the numbers before it that the table defines are gathered. -/
theorem candidate_foldl {t : Table} {r : ℕ} (ht : Rising r t) (hsize : t.size = r + 1)
    (ps : List ℕ) : ∀ (qs : List ℕ) (found : Option ℕ),
    (∀ c, found = some c → Meets t qs c) →
    (found = none → ∀ q ∈ qs, ¬ ∃ d, t.getD q none = some d) →
    ∀ result, ps.foldl (fun found p =>
      if (t.getD p none).isNone then found
      else match found with
        | none => some p
        | some d => some (meet t (2 * t.size + 1) p d)) found = result →
    (∀ c, result = some c → Meets t (qs ++ ps) c) ∧
      (result = none → ∀ q ∈ qs ++ ps, ¬ ∃ d, t.getD q none = some d) := by
  induction ps with
  | nil =>
    rintro qs found hsome hnone result rfl
    rw [List.append_nil]
    exact ⟨hsome, hnone⟩
  | cons p ps ih =>
    intro qs found hsome hnone result hresult
    have hsplit : qs ++ p :: ps = (qs ++ [p]) ++ ps := by simp
    rw [hsplit]
    rw [List.foldl_cons] at hresult
    refine ih (qs ++ [p]) _ ?_ ?_ result hresult
    · intro c hc
      cases hp : t.getD p none with
      | none =>
        rw [hp] at hc
        have h := hsome c (by simpa using hc)
        refine ⟨?_, ?_, h.defined, h.bound⟩
        · intro q hq hdq
          rcases List.mem_append.mp hq with hq | hq
          · exact h.above q hq hdq
          · rw [List.mem_singleton.mp hq, hp] at hdq
            simp at hdq
        · exact fun x hx => h.least x fun q hq hdq => hx q (by simp [hq]) hdq
      | some d =>
        rw [hp] at hc
        cases found with
        | none =>
          obtain rfl : p = c := by simpa using hc
          refine ⟨?_, fun x hx => hx p (by simp) ⟨d, hp⟩, ⟨d, hp⟩, lt_size_of_getD hp⟩
          intro q hq hdq
          rcases List.mem_append.mp hq with hq | hq
          · exact absurd hdq (hnone rfl q hq)
          · rw [List.mem_singleton.mp hq]
            exact .self p
        | some e =>
          obtain rfl : meet t (2 * t.size + 1) p e = c := by simpa using hc
          exact (hsome e rfl).step ht hsize ⟨d, hp⟩
    · intro hn q hq
      cases hp : t.getD p none with
      | none =>
        rw [hp] at hn
        rcases List.mem_append.mp hq with hq | hq
        · exact hnone (by simpa using hn) q hq
        · rw [List.mem_singleton.mp hq, hp]
          simp
      | some d =>
        rw [hp] at hn
        cases found <;> simp at hn

theorem candidate_spec {t : Table} {r : ℕ} (ht : Rising r t) (hsize : t.size = r + 1)
    {ps : List ℕ} {p : ℕ} (hp : p ∈ ps) (hd : ∃ d, t.getD p none = some d) :
    ∃ c, candidate t ps = some c ∧ Meets t ps c := by
  obtain ⟨hsome, hnone⟩ := candidate_foldl ht hsize ps [] none (by simp) (by simp) _ rfl
  rw [List.nil_append] at hsome hnone
  change candidate t ps = none → _ at hnone
  cases hc : candidate t ps with
  | none => exact absurd hd (hnone hc p hp)
  | some c => exact ⟨c, rfl, hsome c hc⟩

/-! ### Rounds -/

/-- What depth-first numbering promises: edges join numbers up to the root, and every other number
has an edge from a larger one. -/
structure Numbered (P : ℕ → List ℕ) (r : ℕ) : Prop where
  bound : ∀ i, ∀ p ∈ P i, i ≤ r ∧ p ≤ r
  forth : ∀ i < r, ∃ p ∈ P i, i < p

theorem Numbered.exists_forth {P : ℕ → List ℕ} {r : ℕ} (hP : Numbered P r) {i : ℕ} (hi : i ≤ r) :
    ∃ l, Trail P r 0 l i := by
  induction hn : r - i using Nat.strong_induction_on generalizing i with
  | _ n ih =>
    rcases hi.eq_or_lt with rfl | hlt
    · exact ⟨[i], .here⟩
    · obtain ⟨p, hp, hip⟩ := hP.forth i hlt
      obtain ⟨l, hl⟩ := ih (r - p) (by omega) (hP.bound i p hp).2 rfl
      exact ⟨i :: l, hl.forth hp hip⟩

theorem Numbered.le_of_trail {P : ℕ → List ℕ} {r a m b : ℕ} {l : List ℕ} (hP : Numbered P r)
    (ha : a ≤ r) (h : Trail P a m l b) : ∀ x ∈ l, x ≤ r := by
  induction h with
  | here => simpa using ha
  | forth _ he _ ih =>
    intro x hx
    rcases List.mem_cons.mp hx with rfl | hx
    · exact (hP.bound _ _ he).1
    · exact ih x hx
  | back _ he _ ih =>
    intro x hx
    rcases List.mem_cons.mp hx with rfl | hx
    · exact (hP.bound _ _ he).1
    · exact ih x hx

/-- Every trail from the root to `i` visits `x`. -/
def OnAllTrails (P : ℕ → List ℕ) (r x i : ℕ) : Prop := ∀ m l, Trail P r m l i → x ∈ l

/-- The state after `k` rounds and the part of the next one that deals with numbers from `j` on. -/
structure Level (P : ℕ → List ℕ) (r k j : ℕ) (t : Table) : Prop where
  size : t.size = r + 1
  rising : Rising r t
  defined : ∀ i ≤ r, j ≤ i ∨ 0 < k → ∃ d, t.getD i none = some d
  undefined : ∀ i < j, k = 0 → t.getD i none = none
  within : ∀ i m l x, Trail P r m l i → m < k + (if j ≤ i then 1 else 0) → Chain t i x → x ∈ l
  covers : ∀ i x, (∃ d, t.getD i none = some d) → OnAllTrails P r x i → Chain t i x

theorem getD_setIfInBounds {α : Type} {t : Array α} {d : α} {b : ℕ} (hb : b < t.size) (v : α)
    (i : ℕ) : (t.setIfInBounds b v).getD i d = if b = i then v else t.getD i d := by
  simp only [Array.getD_eq_getD_getElem?, Array.getElem?_setIfInBounds, hb, if_true]
  split_ifs <;> simp

section Update

variable {P : ℕ → List ℕ} {r k b c : ℕ} {t : Table}

/-- Chains above the changed number stay. -/
theorem chain_update_of_lt (ht : Rising r t) (hb : b < r) (hsize : b < t.size) {i x : ℕ}
    (hi : b < i) : Chain (t.setIfInBounds b (some c)) i x ↔ Chain t i x := by
  have hnext : ∀ {j d : ℕ}, b < j → t.getD j none = some d → b < d := by
    intro j d hj hd
    by_cases hr : j = r
    · rw [hr, ht.root] at hd
      rw [← Option.some_inj.mp hd]
      exact hb
    · exact hj.trans (ht.above hd hr).1
  constructor
  · intro h
    induction h with
    | self => exact .self _
    | up hp _ ih =>
      rw [getD_setIfInBounds hsize, if_neg (by omega)] at hp
      exact .up hp (ih (hnext hi hp))
  · intro h
    induction h with
    | self => exact .self _
    | up hp _ ih =>
      exact .up (by rw [getD_setIfInBounds hsize, if_neg (by omega)]; exact hp) (ih (hnext hi hp))

/-- A changed chain is the old one up to the changed number and follows the new one from there. -/
theorem chain_of_update (hsize : b < t.size) {i x : ℕ}
    (h : Chain (t.setIfInBounds b (some c)) i x) :
    Chain t i x ∨ (Chain t i b ∧ Chain (t.setIfInBounds b (some c)) b x) := by
  induction h with
  | self i => exact .inl (.self i)
  | @up i d x hp hrest ih =>
    by_cases hi : b = i
    · subst hi
      exact .inr ⟨.self _, .up hp hrest⟩
    · rw [getD_setIfInBounds hsize, if_neg hi] at hp
      rcases ih with h | ⟨h, h'⟩
      · exact .inl (.up hp h)
      · exact .inr ⟨.up hp h, h'⟩

theorem update_of_chain (hsize : b < t.size) {i x : ℕ} (h : Chain t i x) :
    Chain (t.setIfInBounds b (some c)) i x ∨
      (Chain (t.setIfInBounds b (some c)) i b ∧ Chain t i b ∧ Chain t b x) := by
  induction h with
  | self i => exact .inl (.self i)
  | @up i d x hp hrest ih =>
    by_cases hi : b = i
    · subst hi
      exact .inr ⟨.self _, .self _, .up hp hrest⟩
    · have hp' : (t.setIfInBounds b (some c)).getD i none = some d := by
        rw [getD_setIfInBounds hsize, if_neg hi]
        exact hp
      rcases ih with h | ⟨h, h', h''⟩
      · exact .inl (.up hp' h)
      · exact .inr ⟨.up hp' h, .up hp h', h''⟩

theorem chain_update_self (ht : Rising r t) (hb : b < r) (hsize : b < t.size) (hbc : b < c)
    {x : ℕ} : Chain (t.setIfInBounds b (some c)) b x ↔ x = b ∨ Chain t c x := by
  have hget : (t.setIfInBounds b (some c)).getD b none = some c := by
    rw [getD_setIfInBounds hsize, if_pos rfl]
  constructor
  · intro hx
    by_cases hxb : x = b
    · exact .inl hxb
    · exact .inr ((chain_update_of_lt ht hb hsize hbc).mp (hx.tail hxb hget))
  · rintro (rfl | hx)
    · exact .self x
    · exact .up hget ((chain_update_of_lt ht hb hsize hbc).mpr hx)

theorem Rising.update (ht : Rising r t) (hb : b < r) (hsize : b < t.size) (hbc : b < c)
    (hcr : c ≤ r) (hc : ∃ d, t.getD c none = some d) : Rising r (t.setIfInBounds b (some c)) := by
  have hget := getD_setIfInBounds (d := none) hsize (some c)
  refine ⟨?_, ?_, ?_⟩
  · rw [hget, if_neg (by omega)]
    exact ht.root
  · intro i d hd hi
    rw [hget] at hd
    split_ifs at hd with hbi
    · obtain rfl := Option.some_inj.mp hd
      exact ⟨hbi ▸ hbc, hcr⟩
    · exact ht.above hd hi
  · intro i d hd
    rw [hget] at hd ⊢
    split_ifs with hbd
    · exact ⟨c, rfl⟩
    · split_ifs at hd with hbi
      · obtain rfl := Option.some_inj.mp hd
        exact hc
      · exact ht.defined hd

/-- A trail to a number ends with an edge from one whose chain goes through the candidate. -/
theorem Level.mem_of_trail (hP : Numbered P r) (h : Level P r k (b + 1) t) (hb : b < r)
    (hmeet : Meets t (P b) c) {m x : ℕ} {l : List ℕ} (ht : Trail P r m l b) (hm : m < k + 1)
    (hx : Chain t c x) : x ∈ l := by
  cases ht with
  | here => omega
  | @forth m q b l prior he hlt =>
    have hq := hmeet.above q he (h.defined q (hP.bound b q he).2 (.inl hlt))
    have hm' : m < k + (if b + 1 ≤ q then 1 else 0) := by
      rw [if_pos (by omega)]
      exact hm
    exact List.mem_cons_of_mem _ (h.within q m l x prior hm' (hq.trans hx))
  | @back m q b l prior he hle =>
    have hq := hmeet.above q he (h.defined q (hP.bound b q he).2 (.inr (by omega)))
    exact List.mem_cons_of_mem _ (h.within q m l x prior (by omega) (hq.trans hx))

/-- What lies on all trails to a number is above the candidate or the number itself. -/
theorem Level.chain_of_onAllTrails (h : Level P r k (b + 1) t) (hmeet : Meets t (P b) c) {x : ℕ}
    (hx : OnAllTrails P r x b) : x = b ∨ Chain t c x := by
  by_cases hxb : x = b
  · exact .inl hxb
  refine .inr (hmeet.least x fun q hq hdq => h.covers q x hdq ?_)
  intro m l ht
  obtain ⟨m', ht'⟩ := ht.step hq
  exact (List.mem_cons.mp (hx m' _ ht')).resolve_left hxb

/-- What lies on all trails to a number and beyond a number on its chain, lies on all trails to that
one: no edge leads back on the rest of the way. -/
theorem Level.onAllTrails_of_chain (hP : Numbered P r) (h : Level P r k (b + 1) t) (hk : 0 < k)
    (hb : b < r) {i x : ℕ} (hib : Chain t i b) (hbx : b < x) (hx : OnAllTrails P r x i) :
    OnAllTrails P r x b := by
  have hle := hib.le h.rising
  obtain ⟨l₀, h₀⟩ := hP.exists_forth (i := i) (by omega)
  obtain ⟨m₁, l₁, m₂, l₂, -, h₂, hsum, -⟩ := h₀.cut (h.within i 0 l₀ b h₀ (by omega) hib)
  intro m l ht
  obtain ⟨n, hn, hsub⟩ := ht.append h₂
  rcases hsub x (hx _ n hn) with hxl | hxl
  · exact hxl
  · have := h₂.le_of_forth (by omega) x hxl
    omega

/-- Dealing with one number raises it to the level of the numbers after it. -/
theorem Level.update (hP : Numbered P r) (h : Level P r k (b + 1) t) (hb : b < r) :
    Level P r k b (t.setIfInBounds b (candidate t (P b))) := by
  have hsize : b < t.size := by rw [h.size]; omega
  obtain ⟨p, hp, hbp⟩ := hP.forth b hb
  have hdefined := h.defined p (hP.bound b p hp).2 (.inl hbp)
  obtain ⟨c, hc, hmeet⟩ := candidate_spec h.rising h.size hp hdefined
  have hbc : b < c := hbp.trans_le ((hmeet.above p hp hdefined).le h.rising)
  have hcr : c ≤ r := by have := hmeet.bound; rw [h.size] at this; omega
  rw [hc]
  have hget := getD_setIfInBounds (d := none) hsize (some c)
  have hself := @chain_update_self r b c t h.rising hb hsize hbc
  have hwithin : ∀ m l x, Trail P r m l b → m < k + 1 →
      Chain (t.setIfInBounds b (some c)) b x → x ∈ l := by
    intro m l x ht hm hx
    rcases hself.mp hx with rfl | hx
    · exact ht.end_mem
    · exact h.mem_of_trail hP hb hmeet ht hm hx
  refine ⟨by simpa using h.size, h.rising.update hb hsize hbc hcr hmeet.defined, ?_, ?_, ?_, ?_⟩
  · intro i hi hji
    rw [hget]
    split_ifs with hbi
    · exact ⟨c, rfl⟩
    · exact h.defined i hi (by omega)
  · intro i hi hk
    rw [hget, if_neg (by omega)]
    exact h.undefined i (by omega) hk
  · intro i m l x ht hm hx
    by_cases hbi : b = i
    · subst hbi
      exact hwithin m l x ht (by simpa using hm) hx
    have hm' : m < k + (if b + 1 ≤ i then 1 else 0) := by
      have hiff : b + 1 ≤ i ↔ b ≤ i := by omega
      simpa only [hiff] using hm
    rcases chain_of_update hsize hx with hx | ⟨hib, hx⟩
    · exact h.within i m l x ht hm' hx
    · have hle := hib.le h.rising
      obtain ⟨m₁, l₁, m₂, l₂, h₁, -, hsum, hl⟩ := ht.cut (h.within i m l b ht hm' hib)
      rw [if_neg (by omega)] at hm
      exact hl.subset (hwithin m₁ l₁ x h₁ (by omega) hx)
  · intro i x hd hx
    by_cases hbi : b = i
    · subst hbi
      exact hself.mpr (h.chain_of_onAllTrails hmeet hx)
    rw [hget, if_neg hbi] at hd
    rcases update_of_chain hsize (h.covers i x hd hx) with h' | ⟨hib', hib, hbx⟩
    · exact h'
    -- `i` is below `b`, so it has been dealt with in an earlier round
    have hle := hib.le h.rising
    have hk : 0 < k := by
      by_contra hk
      obtain ⟨d, hd⟩ := hd
      rw [h.undefined i (by omega) (by omega)] at hd
      exact absurd hd (by simp)
    by_cases hxb : x = b
    · rw [hxb]
      exact hib'
    have hxb' : b < x := lt_of_le_of_ne (hbx.le h.rising) (Ne.symm hxb)
    have hx' := h.onAllTrails_of_chain hP hk hb hib hxb' hx
    exact hib'.trans (hself.mpr (h.chain_of_onAllTrails hmeet hx'))

end Update

/-- The numbers below the root with the numbers before them, in the order of a round. -/
def roundOrder (P : ℕ → List ℕ) (j : ℕ) : List (ℕ × List ℕ) :=
  (List.range j).reverse.map fun i => (i, P i)

theorem roundOrder_succ (P : ℕ → List ℕ) (j : ℕ) :
    roundOrder P (j + 1) = (j, P j) :: roundOrder P j := by
  simp [roundOrder, List.range_succ]

section Rounds

variable {P : ℕ → List ℕ} {r k j : ℕ} {t : Table}

theorem Level.sweep_part (hP : Numbered P r) (h : Level P r k j t) (hj : j ≤ r) :
    Level P r k 0 (sweep t (roundOrder P j)) := by
  induction j generalizing t with
  | zero => exact h
  | succ j ih =>
    rw [roundOrder_succ, sweep, List.foldl_cons]
    exact ih (h.update hP (by omega)) (by omega)

/-- A whole round takes every number to the next level. -/
theorem Level.sweep (hP : Numbered P r) (h : Level P r k r t) :
    Level P r (k + 1) r (Dominance.sweep t (roundOrder P r)) := by
  have h' := h.sweep_part hP le_rfl
  refine ⟨h'.size, h'.rising, ?_, ?_, ?_, h'.covers⟩
  · intro i hi _
    exact h'.defined i hi (.inl (Nat.zero_le i))
  · intro i _ hk
    omega
  · intro i m l x ht hm hx
    by_cases hi : r ≤ i
    · -- nothing is above the root
      have hxi : x = i := by
        rcases hi.eq_or_lt with rfl | hlt
        · exact hx.root_eq h'.rising
        · cases hx with
          | self => rfl
          | up hp _ =>
            have := lt_size_of_getD hp
            rw [h'.size] at this
            omega
      rw [hxi]
      exact ht.end_mem
    · rw [if_neg hi] at hm
      exact h'.within i m l x ht (by rw [if_pos (Nat.zero_le i)]; omega) hx

theorem Level.of_fixed (hP : Numbered P r) (h : Level P r k r t)
    (hfix : Dominance.sweep t (roundOrder P r) = t) (n : ℕ) : Level P r (k + n) r t := by
  induction n with
  | zero => exact h
  | succ n ih =>
    have h' := ih.sweep hP
    rw [hfix] at h'
    exact h'

/-- Rounds go on until the fuel is used up or a round changes nothing, and then any number of
further rounds would change nothing either. -/
theorem Level.settle (hP : Numbered P r) (fuel : ℕ) (h : Level P r k r t) :
    Level P r (k + fuel) r (Dominance.settle (roundOrder P r) fuel t) := by
  induction fuel generalizing k t with
  | zero => exact h
  | succ fuel ih =>
    simp only [Dominance.settle]
    split_ifs with hfix
    · exact h.of_fixed hP hfix (fuel + 1)
    · have h' := ih (h.sweep hP)
      rwa [show k + 1 + fuel = k + (fuel + 1) by omega] at h'

/-- After as many rounds as there are numbers, chains hold the dominators and nothing else. -/
theorem Level.chain_iff (hP : Numbered P r) (h : Level P r k r t) (hk : r < k) {i x : ℕ}
    (hi : i ≤ r) : Chain t i x ↔ OnAllTrails P r x i := by
  constructor
  · intro hx m l ht
    obtain ⟨m', l', ht', hl, hn⟩ := ht.exists_nodup
    have hlen : l'.length ≤ r + 1 := by
      have hsub : l' ⊆ List.range (r + 1) := fun y hy =>
        List.mem_range.mpr (Nat.lt_succ_of_le (hP.le_of_trail le_rfl ht' y hy))
      simpa using (hn.subperm hsub).length_le
    have hm := ht'.lt_length
    exact hl (h.within i m' l' x ht' (by omega) hx)
  · exact h.covers i x (h.defined i hi (.inr (by omega)))

theorem Level.start (P : ℕ → List ℕ) (r : ℕ) :
    Level P r 0 r ((Array.replicate (r + 1) none).setIfInBounds r (some r)) := by
  have hget : ∀ i, ((Array.replicate (r + 1) (none : Option ℕ)).setIfInBounds r (some r)).getD i
      none = if r = i then some r else none := by
    intro i
    rw [getD_setIfInBounds (by simp)]
    congr 1
    rw [Array.getD_eq_getD_getElem?, Array.getElem?_replicate]
    split_ifs <;> rfl
  have hself : ∀ {i x : ℕ}, Chain ((Array.replicate (r + 1) (none : Option ℕ)).setIfInBounds r
      (some r)) i x → x = i := by
    intro i x h
    induction h with
    | self => rfl
    | up hp _ ih =>
      rw [hget] at hp
      split_ifs at hp with hr
      rw [ih, ← hr, Option.some_inj.mp hp]
  refine ⟨by simp, ⟨?_, ?_, ?_⟩, ?_, ?_, ?_, ?_⟩
  · rw [hget, if_pos rfl]
  · intro i d hd hi
    rw [hget, if_neg (Ne.symm hi)] at hd
    exact absurd hd (by simp)
  · intro i d hd
    rw [hget] at hd
    split_ifs at hd
    obtain rfl := Option.some_inj.mp hd
    exact ⟨r, by rw [hget, if_pos rfl]⟩
  · intro i hi hr
    exact ⟨r, by rw [hget, if_pos (by omega)]⟩
  · intro i hi _
    rw [hget, if_neg (by omega)]
  · intro i m l x ht _ hx
    rw [hself hx]
    exact ht.end_mem
  · rintro i x ⟨d, hd⟩ hx
    rw [hget] at hd
    split_ifs at hd with hr
    subst hr
    obtain rfl : x = r := by simpa using hx 0 [r] .here
    exact .self x

end Rounds

end FlowCheck.Dominance
