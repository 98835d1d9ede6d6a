import FlowCheck.Flow.Jump
import FlowCheck.Proofs.Execution.Behavior
import FlowCheck.Proofs.Graph.Path

/-!
# Observations along a graph

A sequence of moments is traced through a graph by walking its blocks from the entry and completing
their nodes in order. Tracing survives the growth of a graph as construction does it, where a block
that some edge leaves gets no more nodes. The ways of jumps and errors out of enclosing statements
are read off the targets that they meet.
-/
namespace FlowCheck

open Execution

namespace Graph

/-- The moments lead from the entry to place `k` in a block. A node is started one place ahead, in
this block or in the next. -/
inductive Traces (g : Graph) : List Moment → BlockId → ℕ → Prop
  | entry : Traces g [] g.entry 0
  | pass {t : List Moment} {b c : BlockId} (prior : Traces g t b (g.nodes b).length)
      (edge : g.Edge b c) : Traces g t c 0
  | complete {t : List Moment} {b : BlockId} {k : ℕ} {n : Node} (prior : Traces g t b k)
      (next : (g.nodes b)[k]? = some n) : Traces g (t ++ [.completed n]) b (k + 1)
  | start {t : List Moment} {b : BlockId} {k : ℕ} {n : Node} (prior : Traces g t b k)
      (next : (g.nodes b)[k]? = some n) : Traces g (t ++ [.started n]) b k
  | startNext {t : List Moment} {b c : BlockId} {n : Node}
      (prior : Traces g t b (g.nodes b).length) (edge : g.Edge b c)
      (next : (g.nodes c)[0]? = some n) : Traces g (t ++ [.started n]) b (g.nodes b).length

namespace Traces

variable {g : Graph} {t : List Moment} {b : BlockId} {k : ℕ}

theorem completed_append (t t' : List Moment) :
    completed (t ++ t') = completed t ++ completed t' :=
  List.filterMap_append

/-- The nodes completed are those of the blocks passed and the first of the block arrived in. -/
theorem exists_path (h : g.Traces t b k) : ∃ l, g.Path g.entry l b ∧ k ≤ (g.nodes b).length ∧
    completed t = l.flatMap g.nodes ++ (g.nodes b).take k := by
  induction h with
  | entry => exact ⟨[], .here, Nat.zero_le _, rfl⟩
  | @pass t b c _ he ih =>
    obtain ⟨l, hl, -, hc⟩ := ih
    refine ⟨l ++ [b], hl.step he, Nat.zero_le _, ?_⟩
    simpa using hc
  | @complete t b k n _ hn ih =>
    obtain ⟨l, hl, -, hc⟩ := ih
    obtain ⟨hlt, rfl⟩ := List.getElem?_eq_some_iff.mp hn
    refine ⟨l, hl, hlt, ?_⟩
    rw [completed_append, hc, List.append_assoc, List.take_add_one, List.getElem?_eq_getElem hlt]
    rfl
  | start _ _ ih =>
    obtain ⟨l, hl, hk, hc⟩ := ih
    refine ⟨l, hl, hk, ?_⟩
    rw [completed_append, hc]
    exact List.append_nil _
  | startNext _ _ _ ih =>
    obtain ⟨l, hl, hk, hc⟩ := ih
    refine ⟨l, hl, hk, ?_⟩
    rw [completed_append, hc]
    exact List.append_nil _

/-- Where a node started, it stands at the end of a path whose nodes are those completed before. -/
theorem exists_path_of_started {n : Node} {t' : List Moment}
    (h : g.Traces (t ++ .started n :: t') b k) : ∃ c j l, (g.nodes c)[j]? = some n ∧
      g.Path g.entry l c ∧ completed t = l.flatMap g.nodes ++ (g.nodes c).take j := by
  generalize hall : t ++ .started n :: t' = all at h
  induction h generalizing t' with
  | entry => simp at hall
  | pass _ _ ih => exact ih hall
  | complete _ _ ih =>
    rcases List.eq_nil_or_concat t' with rfl | ⟨t'', m, rfl⟩
    · obtain ⟨-, hm⟩ := List.append_inj' hall rfl
      cases hm
    · rw [List.concat_eq_append, ← List.cons_append, ← List.append_assoc] at hall
      exact ih (List.append_inj' hall rfl).1
  | @start all b k m prior hm ih =>
    rcases List.eq_nil_or_concat t' with rfl | ⟨t'', m', rfl⟩
    · obtain ⟨rfl, hn⟩ := List.append_inj' hall rfl
      obtain rfl : n = m := by simpa using hn
      obtain ⟨l, hl, -, hc⟩ := prior.exists_path
      exact ⟨b, k, l, hm, hl, hc⟩
    · rw [List.concat_eq_append, ← List.cons_append, ← List.append_assoc] at hall
      exact ih (List.append_inj' hall rfl).1
  | @startNext all b c m prior he hm ih =>
    rcases List.eq_nil_or_concat t' with rfl | ⟨t'', m', rfl⟩
    · obtain ⟨rfl, hn⟩ := List.append_inj' hall rfl
      obtain rfl : n = m := by simpa using hn
      obtain ⟨l, hl, -, hc⟩ := (prior.pass he).exists_path
      exact ⟨c, 0, l, hm, hl, hc⟩
    · rw [List.concat_eq_append, ← List.cons_append, ← List.append_assoc] at hall
      exact ih (List.append_inj' hall rfl).1

end Traces

/-! ### Growth -/

/-- What construction does to a graph: nodes are added at the end of blocks that no edge leaves,
and edges are only added. -/
structure Grows (g g' : Graph) : Prop where
  nodes : ∀ b, g.nodes b <+: g'.nodes b
  closed : ∀ b, g.succs b ≠ [] → g'.nodes b = g.nodes b
  succs : ∀ {b c}, c ∈ g.succs b → c ∈ g'.succs b

namespace Grows

variable {g g' g'' G : Graph} {t : List Moment} {a b : BlockId} {k : ℕ} {n : Node}

theorem refl (g : Graph) : Grows g g := ⟨fun _ => List.prefix_rfl, fun _ _ => rfl, id⟩

theorem trans (h : Grows g g') (h' : Grows g' g'') : Grows g g'' where
  nodes b := (h.nodes b).trans (h'.nodes b)
  closed b hb := by
    obtain ⟨c, hc⟩ := List.exists_mem_of_ne_nil _ hb
    rw [h'.closed b (List.ne_nil_of_mem (h.succs hc)), h.closed b hb]
  succs hc := h'.succs (h.succs hc)

/-- The end of a block that an edge leaves is its end for good. -/
theorem pass (h : Grows g G) (he : b ∈ g.succs a) (ht : G.Traces t a (g.nodes a).length) :
    G.Traces t b 0 := by
  rw [← h.closed a (List.ne_nil_of_mem he)] at ht
  exact ht.pass (h.succs he)

theorem getElem? (h : Grows g G) (hn : (g.nodes b)[k]? = some n) : (G.nodes b)[k]? = some n := by
  obtain ⟨hk, -⟩ := List.getElem?_eq_some_iff.mp hn
  obtain ⟨rest, hrest⟩ := h.nodes b
  rw [← hrest, List.getElem?_append_left hk, hn]

end Grows

end Graph

/-! ### Ways out -/

/-- What leaves a statement abruptly. -/
inductive Way where
  | jump (exit : Exit)
  | error (x : Failure)

/-- The block where a target takes what comes its way, if it does. -/
def Target.takes : Target → Way → Option BlockId
  | .landing exit b, .jump exit' => if exit = exit' then some b else none
  | .escape b, .error _ => some b
  | .handler accepts b, .error x => if x.Is accepts then some b else none
  | _, _ => none

/-- What comes its way goes past the target. Only errors cross a barrier. -/
def Target.ignores : Target → Way → Bool
  | .cleanup .., _ => false
  | .barrier, .jump _ => false
  | a, w => (a.takes w).isNone

namespace Graph

/-- Edges lead the way out from the end of a block, through every `finally` block on it, to the
first target that takes it. -/
inductive Leads (g : Graph) (w : Way) : BlockId → List Target → Prop
  | taken {c b : BlockId} {a : Target} {rest : List Target} (takes : a.takes w = some b)
      (edge : g.Edge c b) : Leads g w c (a :: rest)
  | past {c : BlockId} {a : Target} {rest : List Target} (ignores : a.ignores w = true)
      (beyond : Leads g w c rest) : Leads g w c (a :: rest)
  | through {c entry : BlockId} {last : Option BlockId} {rest : List Target}
      (edge : g.Edge c entry) (beyond : ∀ l, last = some l → Leads g w l rest) :
      Leads g w c (.cleanup entry last :: rest)

variable {g g' : Graph} {w : Way} {c b : BlockId} {T : List Target}

theorem Leads.mono (hs : ∀ {b c}, c ∈ g.succs b → c ∈ g'.succs b) (h : g.Leads w c T) :
    g'.Leads w c T := by
  induction h with
  | taken htakes he => exact .taken htakes (hs he)
  | past hignores _ ih => exact .past hignores ih
  | through he _ ih => exact .through (hs he) ih

theorem Leads.succs_ne_nil (h : g.Leads w c T) : g.succs c ≠ [] := by
  induction h with
  | taken _ he => exact List.ne_nil_of_mem he
  | past _ _ ih => exact ih
  | through he _ _ => exact List.ne_nil_of_mem he

/-- The moments lead through `G` to the end of a block from which edges of `g` lead the way out. -/
def Departs (g G : Graph) (w : Way) (T : List Target) (t : List Moment) : Prop :=
  ∃ c, G.Traces t c (G.nodes c).length ∧ g.Leads w c T

/-- A way out that begins at the end of a block in construction. -/
theorem Grows.departs {G : Graph} {t : List Moment} (h : Grows g G) (hl : g.Leads w c T)
    (ht : G.Traces t c (g.nodes c).length) : g.Departs G w T t := by
  refine ⟨c, ?_, hl⟩
  rwa [h.closed c hl.succs_ne_nil]

end Graph

/-- What a jump statement asks for. -/
def Jump.exit : Jump → Exit
  | .toEnd => .loopEnd
  | .toNext => .nextRound

/-- The way out that an abrupt ending takes. -/
def Execution.Ending.way? : Ending → Option Way
  | .normal | .cut => none
  | .jump kind => some (.jump kind.exit)
  | .ret => some (.jump .functionEnd)
  | .error x => some (.error x)

end FlowCheck
