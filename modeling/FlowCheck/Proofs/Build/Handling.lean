import FlowCheck.Proofs.Build.Ways

/-!
# Errors reach what handles them

A raised error type stands for a set of errors. Each of them is led to the first target that takes
it, through the `finally` blocks before. The type gives no edge to a handler that takes none of its
errors, and none to a target below the first that takes all of them. This rests on error types being
nested or disjoint.
-/
namespace FlowCheck

open Execution

/-- The block in which a target is entered. -/
def Target.block? : Target → Option BlockId
  | .landing _ b | .escape b | .handler _ b | .cleanup b _ => some b
  | .barrier => none

/-- The block in which a target is entered by some errors of a type. -/
def Target.admits (e : ErrorType) : Target → Option BlockId
  | .escape b | .cleanup b _ => some b
  | .handler accepts b => if accepts.overlaps e then some b else none
  | _ => none

/-- The target takes all errors of a type. -/
def Target.absorbs (e : ErrorType) : Target → Bool
  | .escape _ => true
  | .handler accepts _ => accepts.covers e
  | _ => false

theorem Target.block?_of_admits {e : ErrorType} {t : Target} {b : BlockId}
    (h : t.admits e = some b) : t.block? = some b := by
  cases t with
  | handler accepts c =>
    rw [admits] at h
    split_ifs at h
    exact h
  | escape c => exact h
  | cleanup entry last => exact h
  | landing exit c => cases h
  | barrier => cases h

/-- Edges lead from a block through the `finally` blocks among the targets to the block `b`, or to
the first of these `finally` blocks that never completes. -/
def Graph.Threads (g : Graph) (b : BlockId) : Option BlockId → List Target → Prop
  | none, _ => True
  | some a, [] => g.Edge a b
  | some a, .cleanup entry last :: T => g.Edge a entry ∧ g.Threads b last T
  | some a, _ :: T => g.Threads b (some a) T

theorem Graph.threads_cons {g : Graph} {b : BlockId} {t : Target} {T : List Target}
    (ht : ∀ entry last, t ≠ .cleanup entry last) (c : Option BlockId) :
    g.Threads b c (t :: T) ↔ g.Threads b c T := by
  cases c with
  | none => simp [Threads]
  | some a =>
    cases t with
    | cleanup entry last => exact absurd rfl (ht entry last)
    | _ => exact Iff.rfl

/-- A target by which some errors of the type enter the block; none above takes all of them. -/
def Admitted (e : ErrorType) (T : List Target) (b : BlockId) : Prop :=
  ∃ above t below, T = above ++ t :: below ∧ (∀ u ∈ above, u.absorbs e = false) ∧
    t.admits e = some b

namespace Admitted

variable {e : ErrorType} {t : Target} {T : List Target} {b : BlockId}

theorem here (h : t.admits e = some b) : Admitted e (t :: T) b :=
  ⟨[], t, T, rfl, by simp, h⟩

theorem further (ht : t.absorbs e = false) (h : Admitted e T b) : Admitted e (t :: T) b := by
  obtain ⟨above, u, below, rfl, habove, hu⟩ := h
  exact ⟨t :: above, u, below, rfl, List.forall_mem_cons.mpr ⟨ht, habove⟩, hu⟩

/-- A handler that takes no error of the type admits none. -/
theorem exists_of_disjoint {above below : List Target} {accepts : ErrorType} {c : BlockId}
    (hnone : accepts.overlaps e = false)
    (h : Admitted e (above ++ .handler accepts c :: below) b) :
    ∃ u ∈ above ++ below, u.block? = some b := by
  obtain ⟨above', u, below', hT, -, hu⟩ := h
  have hmem : u ∈ above ++ .handler accepts c :: below := hT ▸ by simp
  have hne : u ≠ .handler accepts c := by
    rintro rfl
    simp [Target.admits, hnone] at hu
  refine ⟨u, ?_, Target.block?_of_admits hu⟩
  simpa [hne] using hmem

/-- Nothing below a target that takes all errors of the type admits any. -/
theorem exists_of_absorbs {above below : List Target} (ht : t.absorbs e = true)
    (h : Admitted e (above ++ t :: below) b) : ∃ u ∈ above ++ [t], u.block? = some b := by
  induction above with
  | nil =>
    obtain ⟨above', u, below', hT, habove, hu⟩ := h
    cases above' with
    | nil =>
      obtain ⟨rfl, -⟩ := List.cons.inj hT
      exact ⟨t, by simp, Target.block?_of_admits hu⟩
    | cons v above' =>
      obtain ⟨rfl, -⟩ := List.cons.inj hT
      simp [ht] at habove
  | cons v above ih =>
    obtain ⟨above', u, below', hT, habove, hu⟩ := h
    cases above' with
    | nil =>
      obtain ⟨rfl, -⟩ := List.cons.inj hT
      exact ⟨v, by simp, Target.block?_of_admits hu⟩
    | cons w above' =>
      obtain ⟨rfl, htail⟩ := List.cons.inj hT
      obtain ⟨x, hx, hb⟩ := ih ⟨above', u, below', htail, fun y hy => habove y (by simp [hy]), hu⟩
      exact ⟨x, List.mem_cons_of_mem v hx, hb⟩

end Admitted

namespace Build

variable {e : ErrorType} {T : List Target} {s s' : State} {a b : BlockId}

theorem edge_withEdge_cursor (ha : a < s.graph.blocks.size) (hc : s.cursor = some a) (b : BlockId) :
    (s.withEdge s.cursor b).graph.Edge a b := by
  rw [hc]
  exact (Graph.mem_succs_addEdge b ha).mpr (.inr ⟨rfl, rfl⟩)

theorem edge_of_edge_withEdge {c : Option BlockId} {d : BlockId}
    (h : (s.withEdge c d).graph.Edge a b) : s.graph.Edge a b ∨ b = d := by
  cases c with
  | none => exact .inl h
  | some c => exact (Graph.mem_succs_of_addEdge h).imp id And.right

/-- The edge from the cursor stays, wherever the raised type goes on from. -/
theorem edge_of_raise {c : Option BlockId} (ha : a < s.graph.blocks.size) (hc : s.cursor = some a)
    (h : raise e T { s.withEdge s.cursor b with cursor := c } = .ok () s') : s'.graph.Edge a b :=
  (departed_raise h).gains.succs_mono (edge_withEdge_cursor ha hc b)

/-- Every error of a raised type is led to the first target that takes it. -/
theorem threads_of_raise (h : raise e T s = .ok () s')
    (hc : ∀ a, s.cursor = some a → a < s.graph.blocks.size)
    (hlasts : ∀ a ∈ lasts T, a < s.graph.blocks.size) {x : Failure} (hx : x.Is e)
    {above below : List Target} {t : Target} (hT : T = above ++ t :: below)
    (habove : ∀ u ∈ above, u.takes (.error x) = none) (ht : t.takes (.error x) = some b) :
    s'.graph.Threads b s.cursor above := by
  induction T generalizing s above with
  | nil => simp at hT
  | cons u T ih =>
    have hbelow : ∀ a ∈ lasts T, a < s.graph.blocks.size := fun a ha => hlasts a (mem_lasts_cons ha)
    cases above with
    | nil =>
      obtain ⟨rfl, -⟩ := List.cons.inj hT
      cases hcur : s.cursor with
      | none => trivial
      | some a =>
        have ha := hc a hcur
        cases u with
        | escape c =>
          obtain rfl := Option.some_inj.mp ht
          cases h
          exact edge_withEdge_cursor ha hcur c
        | handler accepts c =>
          rw [Target.takes] at ht
          split_ifs at ht with his
          obtain rfl := Option.some_inj.mp ht
          rw [raise] at h
          split_ifs at h with hcovers hmay
          · cases h
            exact edge_withEdge_cursor ha hcur c
          · exact edge_of_raise (c := s.cursor) ha hcur h
          · exact absurd (nested_of_is his hx) (by simp [hcovers, hmay])
        | landing exit c => cases ht
        | cleanup entry last => cases ht
        | barrier => cases ht
    | cons v above =>
      obtain ⟨rfl, htail⟩ := List.cons.inj hT
      have hu := habove u List.mem_cons_self
      have hrest : ∀ w ∈ above, w.takes (.error x) = none := fun w hw =>
        habove w (List.mem_cons_of_mem u hw)
      cases u with
      | escape c => cases hu
      | handler accepts c =>
        have his : ¬ x.Is accepts := by simpa [Target.takes] using hu
        rw [Graph.threads_cons (by simp)]
        rw [raise] at h
        split_ifs at h with hcovers hmay
        · exact absurd (ErrorType.covers_trans hcovers hx) his
        · have h' : raise e T (s.withEdge s.cursor c) = .ok () s' := h
          exact ih h' (fun a ha => by simpa using hc a ha) (by simpa using hbelow) htail hrest
        · exact ih h hc hbelow htail hrest
      | cleanup entry last =>
        have hthrough := ih (s := { s.withEdge s.cursor entry with cursor := last }) h ?_
          (by simpa using hbelow) htail hrest
        · cases hcur : s.cursor with
          | none => trivial
          | some a => exact ⟨edge_of_raise (hc a hcur) hcur h, hthrough⟩
        · intro a ha
          simpa using hlasts a ((lasts_cons_cleanup entry last T).mpr (.inl ha))
      | landing exit c =>
        rw [Graph.threads_cons (by simp)]
        exact ih h hc hbelow htail hrest
      | barrier =>
        rw [Graph.threads_cons (by simp)]
        exact ih h hc hbelow htail hrest

/-- A raised type adds edges to blocks in which it is admitted only. -/
theorem admitted_of_raise (h : raise e T s = .ok () s') (hab : s'.graph.Edge a b) :
    s.graph.Edge a b ∨ Admitted e T b := by
  induction T generalizing s with
  | nil =>
    obtain ⟨-, rfl⟩ := ok_pure h
    exact .inl hab
  | cons t T ih =>
    -- the edge to a target that admits some errors, after which the search goes on or not
    have hentered {c : BlockId} (ht : t.admits e = some c)
        (h : (s.withEdge s.cursor c).graph.Edge a b ∨ t.absorbs e = false ∧ Admitted e T b) :
        s.graph.Edge a b ∨ Admitted e (t :: T) b := by
      rcases h with h | ⟨hnot, h⟩
      · rcases edge_of_edge_withEdge h with h | rfl
        · exact .inl h
        · exact .inr (.here ht)
      · exact .inr (h.further hnot)
    cases t with
    | escape c =>
      cases h
      exact hentered rfl (.inl hab)
    | handler accepts c =>
      rw [raise] at h
      split_ifs at h with hcovers hmay
      · cases h
        exact hentered (by simp [Target.admits, ErrorType.overlaps, hcovers]) (.inl hab)
      · have h' : raise e T (s.withEdge s.cursor c) = .ok () s' := h
        refine hentered (c := c) (by simp [Target.admits, ErrorType.overlaps, hmay]) ?_
        exact (ih h').imp id fun h => ⟨by simpa [Target.absorbs] using hcovers, h⟩
      · exact (ih h).imp id (.further (by simpa [Target.absorbs] using hcovers))
    | cleanup entry last =>
      exact hentered rfl ((ih h).imp id fun h => ⟨rfl, h⟩)
    | landing exit c => exact (ih h).imp id (.further rfl)
    | barrier => exact (ih h).imp id (.further rfl)

/-- Where the errors of a raised type go from the block `fork`. -/
structure Propagated (e : ErrorType) (T : List Target) (fork : BlockId) (g g' : Graph) : Prop where
  /-- Every error gets to the first target that takes it. -/
  reaches : ∀ x : Failure, x.Is e → ∃ above t below b, T = above ++ t :: below ∧
    (∀ u ∈ above, u.takes (.error x) = none) ∧ t.takes (.error x) = some b ∧
    g'.Threads b (some fork) above
  /-- New edges enter blocks in which some of the errors are admitted. -/
  admitted : ∀ a b, g'.Edge a b → g.Edge a b ∨ Admitted e T b
  /-- A handler that takes none of the errors gets no edge. -/
  spares : ∀ above accepts b below, T = above ++ .handler accepts b :: below →
    accepts.overlaps e = false → (∀ u ∈ above ++ below, u.block? ≠ some b) →
    ∀ a, g'.Edge a b → g.Edge a b
  /-- Nothing below a target that takes all errors gets an edge. -/
  stops : ∀ above t below, T = above ++ t :: below → t.absorbs e = true →
    ∀ b, (∀ u ∈ above ++ [t], u.block? ≠ some b) → ∀ a, g'.Edge a b → g.Edge a b

/-- Among targets that end with the way out of the function some target takes the error. -/
theorem exists_takes {x : Failure} {exit : BlockId} (h : Target.escape exit ∈ T) :
    ∃ above t below b, T = above ++ t :: below ∧ (∀ u ∈ above, u.takes (.error x) = none) ∧
      t.takes (.error x) = some b := by
  induction T with
  | nil => cases h
  | cons t T ih =>
    cases ht : t.takes (.error x) with
    | some b => exact ⟨[], t, T, b, rfl, by simp, ht⟩
    | none =>
      have hmem : Target.escape exit ∈ T := by
        refine (List.mem_cons.mp h).resolve_left ?_
        rintro rfl
        cases ht
      obtain ⟨above, u, below, b, rfl, habove, hu⟩ := ih hmem
      exact ⟨t :: above, u, below, b, rfl, List.forall_mem_cons.mpr ⟨ht, habove⟩, hu⟩

/-- Errors reach what handles them: raising a type from a block, under any targets that end with
those of the function, leads each of its errors to where it is handled, and nowhere else. -/
theorem propagated_raise (e : ErrorType) (inner : List Target) (exit ret fork : BlockId)
    (hcursor : s.cursor = some fork) (hfork : fork < s.graph.blocks.size)
    (hlasts : ∀ a ∈ lasts inner, a < s.graph.blocks.size) :
    ∃ s', raise e (inner ++ [.escape exit, .landing .functionEnd ret]) s = .ok () s' ∧
      Propagated e (inner ++ [.escape exit, .landing .functionEnd ret]) fork s.graph s'.graph := by
  generalize hT : inner ++ [.escape exit, .landing .functionEnd ret] = T
  have hlasts' : ∀ a ∈ lasts T, a < s.graph.blocks.size := by
    subst hT
    simpa [lasts_append, lasts] using hlasts
  have hescape : Target.escape exit ∈ T := by
    subst hT
    simp
  obtain ⟨s', h⟩ := exists_ok_raise e T s
  have hadmitted {a b : BlockId} : s'.graph.Edge a b → s.graph.Edge a b ∨ Admitted e T b :=
    admitted_of_raise h
  refine ⟨s', h, ⟨fun x hx => ?_, fun _ _ => hadmitted, ?_, ?_⟩⟩
  · obtain ⟨above, t, below, b, hsplit, habove, ht⟩ := exists_takes (x := x) hescape
    refine ⟨above, t, below, b, hsplit, habove, ht, hcursor ▸ ?_⟩
    refine threads_of_raise h (fun a ha => ?_) hlasts' hx hsplit habove ht
    obtain rfl := Option.some_inj.mp (hcursor.symm.trans ha)
    exact hfork
  · rintro above accepts b below rfl hnone hothers a hab
    refine (hadmitted hab).resolve_right fun hb => ?_
    obtain ⟨u, hu, hblock⟩ := hb.exists_of_disjoint hnone
    exact hothers u hu hblock
  · rintro above t below rfl habsorbs b hothers a hab
    refine (hadmitted hab).resolve_right fun hb => ?_
    obtain ⟨u, hu, hblock⟩ := hb.exists_of_absorbs habsorbs
    exact hothers u hu hblock

/-- Blocks without edges: entry, return and exit, a handler, a `finally` block and its end, and
another handler. -/
def bareState : State where
  graph := [.ret, .exit, .handler, .cleanup, .plain, .handler].foldl
    (fun g k => (g.newBlock k).2) (.ofName "f")
  cursor := some 0

def strayDomain : Domain := ⟨0, "D"⟩

/-- A handler for one code inside of a `finally` block, inside of a handler for the whole domain. -/
def nestedHandlers : List Target :=
  [.handler (.code strayDomain "A") 3, .cleanup 4 (some 5), .handler (.domain strayDomain) 6]

theorem propagated_bareState :
    bareState.cursor = some 0 ∧ ∃ s', raise (.domain strayDomain)
        (nestedHandlers ++ [.escape 2, .landing .functionEnd 1]) bareState = .ok () s' ∧
      Propagated (.domain strayDomain) (nestedHandlers ++ [.escape 2, .landing .functionEnd 1]) 0
        bareState.graph s'.graph :=
  ⟨rfl, propagated_raise _ nestedHandlers 2 1 0 rfl (by decide) (by decide)⟩

/-- Some errors are handled at once, the others behind the `finally` block. -/
example : (match raise (.domain strayDomain) nestedHandlers bareState with
    | .ok _ s => (List.range 7).map s.graph.succs
    | .error _ _ => []) = [[3, 4], [], [], [], [], [6], []] := by
  decide +kernel

end Build

end FlowCheck
