import FlowCheck.Proofs.Dominance.Tree

/-!
# Rounds come to an end

The search for dominators as the steps that it takes, without a bound on their number. Every step
that reads the table reads an entry that the table defines, so a derivation is a run that comes to
an end and never asks for an entry that is missing. A round deals with a block only when one of its
predecessors is defined. After as many rounds as there are numbers the chains of the table are
exact, so one more round changes nothing, and the table that `computeDominance` reads is the one
that the run ends with.
-/
namespace FlowCheck.Dominance

open FlowCheck.Graph

/-! ### Runs -/

/-- The climb from two numbers to the first one that their chains share: the smaller of the two is
replaced by the entry of the table that it reads. -/
inductive Climbs (t : Table) : ℕ → ℕ → ℕ → Prop
  | meet (a : ℕ) : Climbs t a a a
  | left {a b c d : ℕ} (lt : a < b) (read : t.getD a none = some d) (rest : Climbs t d b c) :
      Climbs t a b c
  | right {a b c d : ℕ} (lt : b < a) (read : t.getD b none = some d) (rest : Climbs t a d c) :
      Climbs t a b c

/-- The passage over the predecessors of a block, from what has been found to what is found in the
end. Predecessors that the table does not define are passed over. -/
inductive Finds (t : Table) : List ℕ → Option ℕ → Option ℕ → Prop
  | done (found : Option ℕ) : Finds t [] found found
  | skip {p : ℕ} {ps : List ℕ} {found result : Option ℕ} (undefined : t.getD p none = none)
      (rest : Finds t ps found result) : Finds t (p :: ps) found result
  | first {p d : ℕ} {ps : List ℕ} {result : Option ℕ} (defined : t.getD p none = some d)
      (rest : Finds t ps (some p) result) : Finds t (p :: ps) none result
  | climb {p d c m : ℕ} {ps : List ℕ} {result : Option ℕ} (defined : t.getD p none = some d)
      (climbs : Climbs t p c m) (rest : Finds t ps (some m) result) :
      Finds t (p :: ps) (some c) result

/-- A round over blocks, given by number with the numbers of their predecessors. When a block is
dealt with, one of its predecessors is defined, and every number that the table defines, except for
the root `r`, has a larger one above it that is defined as well. -/
inductive Sweeps (r : ℕ) : List (ℕ × List ℕ) → Table → Table → Prop
  | done {t : Table} (rising : Rising r t) : Sweeps r [] t t
  | block {b c : ℕ} {ps : List ℕ} {rest : List (ℕ × List ℕ)} {t t' : Table} (rising : Rising r t)
      (known : ∃ p ∈ ps, ∃ d, t.getD p none = some d) (finds : Finds t ps none (some c))
      (later : Sweeps r rest (t.setIfInBounds b (some c)) t') : Sweeps r ((b, ps) :: rest) t t'

/-- Rounds up to the first one that changes nothing. -/
inductive Settles (r : ℕ) (blocks : List (ℕ × List ℕ)) : Table → Table → Prop
  | fixed {t : Table} (round : Sweeps r blocks t t) : Settles r blocks t t
  | again {t t' u : Table} (round : Sweeps r blocks t t') (changed : t' ≠ t)
      (rest : Settles r blocks t' u) : Settles r blocks t u

/-! ### Runs are what the functions compute -/

section

variable {P : ℕ → List ℕ} {r k j : ℕ} {t t' : Table}

theorem climbs_meet (ht : Rising r t) (fuel a b : ℕ) (ha : a ≤ r) (hb : b ≤ r)
    (hda : ∃ d, t.getD a none = some d) (hdb : ∃ d, t.getD b none = some d)
    (hfuel : (r - a) + (r - b) < fuel) : Climbs t a b (meet t fuel a b) := by
  induction fuel generalizing a b with
  | zero => omega
  | succ fuel ih =>
    rw [meet]
    split_ifs with hab hlt
    · subst hab
      exact .meet a
    · obtain ⟨d, hd⟩ := hda
      obtain ⟨hlow, hhigh⟩ := ht.above hd (by omega)
      rw [hd, Option.getD_some]
      exact .left hlt hd (ih d b hhigh hb (ht.defined hd) hdb (by omega))
    · obtain ⟨d, hd⟩ := hdb
      obtain ⟨hlow, hhigh⟩ := ht.above hd (by omega)
      rw [hd, Option.getD_some]
      exact .right (by omega) hd (ih a d ha hhigh hda (ht.defined hd) (by omega))

/-- Whatever has been found is a number that the table defines. -/
theorem finds_foldl (ht : Rising r t) (hsize : t.size = r + 1) (ps : List ℕ) (found : Option ℕ)
    (hfound : ∀ c ∈ found, ∃ d, t.getD c none = some d) :
    Finds t ps found (ps.foldl (fun found p =>
      if (t.getD p none).isNone then found
      else match found with
        | none => some p
        | some d => some (meet t (2 * t.size + 1) p d)) found) := by
  induction ps generalizing found with
  | nil => exact .done found
  | cons p ps ih =>
    rw [List.foldl_cons]
    cases hp : t.getD p none with
    | none => exact .skip hp (ih found hfound)
    | some d =>
      cases found with
      | none =>
        refine .first hp (ih (some p) fun c hc => ?_)
        obtain rfl := Option.mem_some_iff.mp hc
        exact ⟨d, hp⟩
      | some c =>
        obtain ⟨e, he⟩ := hfound c rfl
        have hpr := lt_size_of_getD hp
        have hcr := lt_size_of_getD he
        have hfuel : (r - p) + (r - c) < 2 * t.size + 1 := by omega
        refine .climb hp (climbs_meet ht _ p c (by omega) (by omega) ⟨d, hp⟩ ⟨e, he⟩ hfuel) ?_
        refine ih _ fun m hm => ?_
        obtain rfl := Option.mem_some_iff.mp hm
        have hshared := (meet_spec ht (2 * t.size + 1) p c (by omega) (by omega) ⟨d, hp⟩ ⟨e, he⟩
          hfuel).2.1
        exact hshared.defined ht ⟨e, he⟩

/-- The rest of a round, from the number below `j` on. -/
theorem Level.sweeps_part (hP : Numbered P r) (h : Level P r k j t) (hj : j ≤ r) :
    Sweeps r (roundOrder P j) t (Dominance.sweep t (roundOrder P j)) := by
  induction j generalizing t with
  | zero => exact .done h.rising
  | succ j ih =>
    rw [roundOrder_succ, Dominance.sweep, List.foldl_cons]
    obtain ⟨p, hp, hlt⟩ := hP.forth j hj
    have hdefined := h.defined p (hP.bound j p hp).2 (.inl hlt)
    obtain ⟨c, hc, -⟩ := candidate_spec h.rising h.size hp hdefined
    have hfinds := finds_foldl h.rising h.size (P j) none (by simp)
    have hnext := h.update hP hj
    dsimp only
    rw [hc] at hnext ⊢
    exact .block h.rising ⟨p, hp, hdefined⟩ (hc ▸ hfinds) (ih hnext (by omega))

theorem Level.sweeps (hP : Numbered P r) (h : Level P r k r t) :
    Sweeps r (roundOrder P r) t (Dominance.sweep t (roundOrder P r)) :=
  h.sweeps_part hP le_rfl

/-! ### The last round -/

/-- The number above another one is the next one on its chain, so chains tell what a table holds. -/
theorem Rising.eq_of_chain_iff (ht : Rising r t) (ht' : Rising r t') (hsize : t.size = r + 1)
    (hsize' : t'.size = r + 1) (hdefined : ∀ i ≤ r, ∃ d, t.getD i none = some d)
    (hdefined' : ∀ i ≤ r, ∃ d, t'.getD i none = some d)
    (hchain : ∀ i ≤ r, ∀ x, Chain t i x ↔ Chain t' i x) : t = t' := by
  have hentry : ∀ i ≤ r, t.getD i none = t'.getD i none := by
    intro i hi
    obtain ⟨d, hd⟩ := hdefined i hi
    obtain ⟨d', hd'⟩ := hdefined' i hi
    by_cases hroot : i = r
    · rw [hroot, ht.root, ht'.root]
    have hlow := ht.above hd hroot
    have hlow' := ht'.above hd' hroot
    have hle : d' ≤ d := (((hchain i hi d).mp (.up hd (.self d))).tail (by omega) hd').le ht'
    have hle' : d ≤ d' := (((hchain i hi d').mpr (.up hd' (.self d'))).tail (by omega) hd).le ht
    rw [hd, hd', le_antisymm hle' hle]
  apply Array.ext (by omega)
  intro i hi hi'
  have := hentry i (by omega)
  simpa [Array.getD, hi, hi'] using this

/-- Once chains are exact, a round changes nothing. -/
theorem Level.sweep_eq (hP : Numbered P r) (h : Level P r k r t) (hk : r < k) :
    Dominance.sweep t (roundOrder P r) = t := by
  have h' := h.sweep hP
  refine h'.rising.eq_of_chain_iff h.rising h'.size h.size
    (fun i hi => h'.defined i hi (.inr (by omega))) (fun i hi => h.defined i hi (.inr (by omega)))
    fun i hi x => ?_
  rw [h'.chain_iff hP (by omega) hi, h.chain_iff hP hk hi]

/-- There is fuel for all the rounds that it takes. -/
theorem Level.settles (hP : Numbered P r) (h : Level P r k r t) (fuel : ℕ) (hfuel : r < k + fuel) :
    Settles r (roundOrder P r) t (Dominance.settle (roundOrder P r) fuel t) := by
  induction fuel generalizing k t with
  | zero =>
    have hround := h.sweeps hP
    rw [h.sweep_eq hP (by omega)] at hround
    exact .fixed hround
  | succ fuel ih =>
    have hround := h.sweeps hP
    simp only [Dominance.settle]
    split_ifs with hfix
    · rw [hfix] at hround
      exact .fixed hround
    · exact .again hround hfix (ih (h.sweep hP) (by omega))

end

/-- The blocks of a round by number, the last to be left first, with their reachable
predecessors. -/
def rounds (g : Graph) (post : List BlockId) : List (ℕ × List ℕ) :=
  post.reverse.tail.map fun b => (post.idxOf b, ((g.preds b).filter post.contains).map post.idxOf)

/-- Only the entry is its own dominator before the first round. -/
def firstTable (g : Graph) (post : List BlockId) : Table :=
  (Array.replicate post.length none).setIfInBounds (post.idxOf g.entry) (some (post.idxOf g.entry))

/-- The rounds over an assembled graph come to an end with every block that they deal with knowing
a predecessor and every entry that they read defined, and then every block reachable from the entry
has a dominator. -/
theorem settles_table {g : Graph} (h : g.Assembled) :
    (∀ b, b ∈ (postorder g).reverse.tail ↔ g.Reachable b ∧ b ≠ g.entry) ∧
      Settles ((postorder g).idxOf g.entry) (rounds g (postorder g)) (firstTable g (postorder g))
        (table g (postorder g)) ∧
      ∀ b ∈ postorder g, ∃ d ∈ postorder g, tableIdom g (postorder g) b = some d := by
  have hg := h.wellFormed
  have hpost := postorder_spec hg
  have hP := numbered_predNumbers hg hpost
  have hcount : (postorder g).length = (postorder g).length - 1 + 1 := by
    have := hpost.length_pos
    omega
  have hstart := Level.start (predNumbers g (postorder g)) ((postorder g).length - 1)
  rw [← hcount] at hstart
  have hsettles := hstart.settles hP ((postorder g).length * (postorder g).length + 2) (by
    have := Nat.le_mul_self (postorder g).length
    omega)
  refine ⟨fun _ => mem_tail_reverse_iff hpost, ?_, fun b hb => ?_⟩
  · simpa only [rounds, firstTable, table, hpost.idxOf_entry, map_tail_reverse hpost] using hsettles
  · have hlevel := table_level hg hpost
    have hbound := hpost.idxOf_le ((hpost.mem_iff b).mp hb)
    obtain ⟨i, hi⟩ := hlevel.defined _ hbound (.inr (by omega))
    obtain ⟨j, hj⟩ := hlevel.rising.defined hi
    have hlt : i < (postorder g).length := by
      have := lt_size_of_getD hj
      rw [hlevel.size] at this
      omega
    exact ⟨(postorder g)[i], List.getElem_mem hlt, by simp [tableIdom, hi, hlt]⟩

/-- The first round of the tangled loop gives its two blocks their dominators, the second one changes
nothing. -/
theorem settles_tangled : tangled.Assembled ∧
    Settles 2 [(1, [2, 0]), (0, [2, 1, 0])] #[none, none, some 2] #[some 2, some 2, some 2] := by
  have hsettles := (settles_table assembled_tangled).2.1
  have hentry : (postorder tangled).idxOf tangled.entry = 2 := by decide +kernel
  have hrounds : rounds tangled (postorder tangled) = [(1, [2, 0]), (0, [2, 1, 0])] := by
    decide +kernel
  have hfirst : firstTable tangled (postorder tangled) = #[none, none, some 2] := by
    decide +kernel
  have htable : table tangled (postorder tangled) = #[some 2, some 2, some 2] := by decide +kernel
  rw [hentry, hrounds, hfirst, htable] at hsettles
  exact ⟨assembled_tangled, hsettles⟩

end FlowCheck.Dominance
