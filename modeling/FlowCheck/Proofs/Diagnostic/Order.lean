import FlowCheck.Diagnostic.Bag
import Mathlib.Data.Prod.Lex
import Mathlib.Data.String.Basic
import Mathlib.Order.Basic

/-!
# The order of diagnostics

Positions are linearly ordered, so a bag that is shown by position depends on nothing but what was
reported at each position, and in which order.
-/
namespace FlowCheck

/-- A position as a member of a lexicographic order. -/
def Pos.key (p : Pos) : String ×ₗ Nat ×ₗ Nat := toLex (p.file, toLex (p.line, p.col))

theorem Pos.key_injective : Function.Injective Pos.key := by
  intro p q h
  obtain ⟨file, line, col⟩ := p
  obtain ⟨file', line', col'⟩ := q
  simpa [Pos.key] using h

theorem Pos.before_iff {p q : Pos} : p.before q = true ↔ p.key < q.key := by
  rw [Pos.key, Pos.key, Prod.Lex.toLex_lt_toLex, Prod.Lex.toLex_lt_toLex, Pos.before]
  by_cases hfile : p.file = q.file
  · by_cases hline : p.line = q.line <;> simp [hfile, hline]
  · simp [hfile]

/-- In order of positions. -/
abbrev Arranged (xs : List Diagnostic) : Prop := xs.Pairwise fun d e => d.pos.key ≤ e.pos.key

/-- Lists in order of positions are equal if they have the same at each position. -/
theorem Arranged.eq {xs ys : List Diagnostic} (hx : Arranged xs) (hy : Arranged ys)
    (h : ∀ p, xs.filter (·.pos = p) = ys.filter (·.pos = p)) : xs = ys := by
  have hmem (d : Diagnostic) : d ∈ xs ↔ d ∈ ys := by
    have hd : d ∈ xs.filter (·.pos = d.pos) ↔ d ∈ ys.filter (·.pos = d.pos) := by rw [h]
    simpa using hd
  induction xs generalizing ys with
  | nil =>
    refine (List.eq_nil_iff_forall_not_mem.2 fun d hd => ?_).symm
    exact List.not_mem_nil ((hmem d).2 hd)
  | cons x xs ih =>
    cases ys with
    | nil => exact absurd ((hmem x).1 List.mem_cons_self) List.not_mem_nil
    | cons y ys =>
      obtain ⟨hfirst, htail⟩ := List.pairwise_cons.1 hx
      obtain ⟨hfirst', htail'⟩ := List.pairwise_cons.1 hy
      have hle : x.pos.key ≤ y.pos.key := by
        rcases List.mem_cons.1 ((hmem y).2 List.mem_cons_self) with rfl | hin
        · exact le_rfl
        · exact hfirst y hin
      have hge : y.pos.key ≤ x.pos.key := by
        rcases List.mem_cons.1 ((hmem x).1 List.mem_cons_self) with rfl | hin
        · exact le_rfl
        · exact hfirst' x hin
      have hpos : x.pos = y.pos := Pos.key_injective (le_antisymm hle hge)
      -- both heads come first at their position
      obtain rfl : x = y := by
        have hhead := h x.pos
        rw [List.filter_cons_of_pos (by simp), List.filter_cons_of_pos (by simp [hpos])] at hhead
        exact (List.cons.inj hhead).1
      have hrest (p : Pos) : xs.filter (·.pos = p) = ys.filter (·.pos = p) := by
        have hp := h p
        by_cases he : x.pos = p
        · simpa [he] using hp
        · simpa [he] using hp
      refine congrArg (x :: ·) (ih htail htail' hrest fun d => ?_)
      have hd : d ∈ xs.filter (·.pos = d.pos) ↔ d ∈ ys.filter (·.pos = d.pos) := by rw [hrest]
      simpa using hd

namespace Bag

theorem items_reportAll (b : Bag) (ds : List Diagnostic) :
    (b.reportAll ds).items = b.items ++ ds.map b.promote := by
  unfold reportAll
  induction ds generalizing b with
  | nil => simp
  | cons d ds ih =>
    rw [List.foldl_cons, ih]
    simp only [report, List.append_assoc, List.singleton_append, List.map_cons]
    rfl

theorem isError_promote {b : Bag} {d : Diagnostic} (h : d.isError) : (b.promote d).isError := by
  unfold promote
  split
  · rfl
  · exact h

theorem not_before_iff {d e : Diagnostic} :
    (!e.pos.before d.pos) = true ↔ d.pos.key ≤ e.pos.key := by
  rw [Bool.not_eq_true', ← Bool.not_eq_true, Pos.before_iff, not_lt]

theorem not_before_trans (a b c : Diagnostic) (h : (!b.pos.before a.pos) = true)
    (h' : (!c.pos.before b.pos) = true) : (!c.pos.before a.pos) = true :=
  not_before_iff.2 ((not_before_iff.1 h).trans (not_before_iff.1 h'))

theorem not_before_total (a b : Diagnostic) :
    ((!b.pos.before a.pos) || !a.pos.before b.pos) = true := by
  rw [Bool.or_eq_true, not_before_iff, not_before_iff]
  exact le_total _ _

theorem arranged_sorted (b : Bag) : Arranged b.sorted :=
  (List.pairwise_mergeSort not_before_trans not_before_total b.items).imp fun h =>
    not_before_iff.1 h

/-- What was reported at a position stays in its order. -/
theorem filter_sorted (b : Bag) (p : Pos) :
    b.sorted.filter (·.pos = p) = b.items.filter (·.pos = p) := by
  have hchosen : (b.items.filter (·.pos = p)).Sublist b.sorted := by
    refine List.sublist_mergeSort not_before_trans not_before_total ?_ List.filter_sublist
    refine List.pairwise_of_forall_mem_list fun d hd e he => not_before_iff.2 ?_
    have hdp : d.pos = p := by simpa using (List.mem_filter.1 hd).2
    have hep : e.pos = p := by simpa using (List.mem_filter.1 he).2
    rw [hdp, hep]
  have hsub := hchosen.filter (·.pos = p)
  simp only [List.filter_filter, Bool.and_self] at hsub
  refine (hsub.eq_of_length ?_).symm
  exact ((List.mergeSort_perm _ _).filter _).length_eq.symm

/-- Two bags look the same if they have the same at each position. -/
theorem sorted_congr {b b' : Bag}
    (h : ∀ p, b.items.filter (·.pos = p) = b'.items.filter (·.pos = p)) : b.sorted = b'.sorted := by
  refine b.arranged_sorted.eq b'.arranged_sorted fun p => ?_
  rw [filter_sorted, filter_sorted, h]

theorem errors_eq_sorted (b : Bag) : b.errors = b.sorted.countP Diagnostic.isError :=
  ((List.mergeSort_perm _ _).countP_eq _).symm

theorem warnings_eq_sorted (b : Bag) : b.warnings = b.sorted.countP fun d => !d.isError :=
  ((List.mergeSort_perm _ _).countP_eq _).symm

end Bag

end FlowCheck
