import FlowCheck.Proofs.Build.Landing

/-!
# The edges of a departure

A jump or an error that leaves some targets may enter those up to the first `finally` block, and
from the end of each `finally` block those up to the next one. A departure adds no edges but these,
whatever is jumped or raised.
-/
namespace FlowCheck

/-- The graph `g` with some edges more, each from a block `a` to a block `b` with `E a b`. -/
inductive Graph.Gains (E : BlockId → BlockId → Prop) (g : Graph) : Graph → Prop
  | refl : Gains E g g
  | edge {g' : Graph} {a b : BlockId} (prior : Gains E g g') (h : E a b) : Gains E g (g'.addEdge a b)

namespace Graph

variable {E E' : BlockId → BlockId → Prop} {g g' g'' : Graph} {a b c d : BlockId}

/-! ### One edge -/

theorem kind_addEdge (g : Graph) (a b c : BlockId) :
    ((g.addEdge a b).block c).kind = (g.block c).kind := by
  unfold addEdge
  split_ifs
  · rfl
  · simp only
    rw [proj_modifyBlock BasicBlock.kind _ _ _ (by intro; rfl),
      proj_modifyBlock BasicBlock.kind _ _ _ (by intro; rfl)]

theorem addEdge_of_size_le (h : g.blocks.size ≤ a) : (g.addEdge a b).succs c = g.succs c := by
  unfold addEdge
  split_ifs
  · rfl
  · simp only [succs]
    rw [proj_modifyBlock BasicBlock.succs _ _ _ (by intro; rfl), block_modifyBlock, if_neg]
    rintro ⟨rfl, hlt⟩
    exact absurd hlt (not_lt.mpr h)

/-- The successors after an edge is added, wherever it comes from. -/
theorem mem_succs_of_addEdge (h : d ∈ (g.addEdge a b).succs c) : d ∈ g.succs c ∨ (c = a ∧ d = b) := by
  by_cases ha : a < g.blocks.size
  · exact (mem_succs_addEdge b ha).mp h
  · exact .inl (addEdge_of_size_le (not_lt.mp ha) ▸ h)

theorem mem_succs_addEdge_of_mem (a b : BlockId) (h : d ∈ g.succs c) :
    d ∈ (g.addEdge a b).succs c := by
  by_cases ha : a < g.blocks.size
  · exact (mem_succs_addEdge b ha).mpr (.inl h)
  · exact (addEdge_of_size_le (not_lt.mp ha)).symm ▸ h

theorem mem_preds_of_addEdge (h : d ∈ (g.addEdge a b).preds c) : d ∈ g.preds c ∨ (d = a ∧ c = b) := by
  by_cases hb : b < g.blocks.size
  · rw [preds_addEdge a hb] at h
    split_ifs at h with hnew
    · rcases List.mem_append.mp h with h | h
      · exact .inl h
      · exact .inr ⟨List.mem_singleton.mp h, hnew.1.symm⟩
    · exact .inl h
  · unfold addEdge at h
    split_ifs at h
    · exact .inl h
    · simp only [preds] at h
      rw [block_modifyBlock, if_neg, proj_modifyBlock BasicBlock.preds _ _ _ (by intro; rfl)] at h
      · exact .inl h
      · rintro ⟨rfl, hlt⟩
        rw [size_modifyBlock] at hlt
        exact hb hlt

/-! ### Many edges -/

namespace Gains

theorem mono (h : Gains E g g') (hE : ∀ a b, E a b → E' a b) : Gains E' g g' := by
  induction h with
  | refl => exact .refl
  | edge _ he ih => exact ih.edge (hE _ _ he)

theorem trans (h : Gains E g g') (h' : Gains E g' g'') : Gains E g g'' := by
  induction h' with
  | refl => exact h
  | edge _ he ih => exact ih.edge he

theorem connect {a : Option BlockId} (ha : ∀ x, a = some x → E x b) : Gains E g (g.connect a b) := by
  cases a with
  | none => exact .refl
  | some a => exact Gains.refl.edge (ha a rfl)

theorem size_eq (h : Gains E g g') : g'.blocks.size = g.blocks.size := by
  induction h with
  | refl => rfl
  | edge _ _ ih => rw [size_addEdge, ih]

theorem succs_mono (h : Gains E g g') (hd : d ∈ g.succs c) : d ∈ g'.succs c := by
  induction h with
  | refl => exact hd
  | edge _ _ ih => exact mem_succs_addEdge_of_mem _ _ ih

end Gains

end Graph

namespace Build

/-! ### Ways out -/

/-- The blocks that a jump or an error may enter straight from where it starts. -/
def exposed : List Target → List BlockId
  | [] => []
  | .landing _ b :: T | .escape b :: T | .handler _ b :: T => b :: exposed T
  | .cleanup entry _ :: _ => [entry]
  | .barrier :: T => exposed T

/-- The ways on from the ends of the `finally` blocks among targets. -/
def routes : List Target → List (BlockId × BlockId)
  | [] => []
  | .cleanup _ last :: T => last.toList.flatMap (fun a => (exposed T).map (a, ·)) ++ routes T
  | _ :: T => routes T

/-- The edges that a departure from `c` may add. -/
def Outward (c : Option BlockId) (T : List Target) (a b : BlockId) : Prop :=
  (c = some a ∧ b ∈ exposed T) ∨ (a, b) ∈ routes T

/-- A jump of the kind meets the edge of a `finally` block before a place to land. -/
def Barred (wanted : Exit) : List Target → Prop
  | [] => False
  | .barrier :: _ => True
  | .landing exit _ :: T => exit ≠ wanted ∧ Barred wanted T
  | _ :: T => Barred wanted T

section

variable {T : List Target} {a b : BlockId}

theorem mem_routes_cleanup {entry : BlockId} {last : Option BlockId} :
    (a, b) ∈ routes (.cleanup entry last :: T) ↔
      (last = some a ∧ b ∈ exposed T) ∨ (a, b) ∈ routes T := by
  cases last with
  | none => simp [routes]
  | some l => simp [routes, Eq.comm, and_comm]

theorem mem_lasts_of_mem_routes (h : (a, b) ∈ routes T) : a ∈ lasts T := by
  induction T with
  | nil => cases h
  | cons t T ih =>
    cases t with
    | cleanup entry last =>
      rw [lasts_cons_cleanup]
      exact (mem_routes_cleanup.mp h).imp And.left ih
    | _ => exact mem_lasts_cons (ih h)

/-- A target that is no `finally` block leaves the ways out of the targets below it open. -/
theorem Outward.below {t : Target} (ht : ∀ entry last, t ≠ .cleanup entry last)
    {c : Option BlockId} (h : Outward c T a b) : Outward c (t :: T) a b := by
  cases t with
  | cleanup entry last => exact absurd rfl (ht entry last)
  | barrier => exact h
  | _ => exact h.imp (And.imp_right (List.mem_cons_of_mem _)) id

/-- The way on from the end of a `finally` block. -/
theorem Outward.through {entry : BlockId} {last c : Option BlockId} (h : Outward last T a b) :
    Outward c (.cleanup entry last :: T) a b :=
  .inr (mem_routes_cleanup.mpr h)

end

/-- A departure from `c`: some ways out are there afterwards, nodes, findings and marks of dead code
are as before, and no run of dead statements begins. -/
structure Departed (c : Option BlockId) (T : List Target) (s s' : State) : Prop where
  gains : Graph.Gains (Outward c T) s.graph s'.graph
  cursor : ∀ b, s'.cursor = some b → c = some b ∨ b ∈ lasts T
  diagnostics : s'.diagnostics = s.diagnostics
  dead : s'.dead = s.dead
  warned : s'.warned = true → s.warned = true

namespace Departed

variable {c : Option BlockId} {T : List Target} {s s₁ s' : State} {t : Target} {b : BlockId}

theorem refl (s : State) (T : List Target) : Departed s.cursor T s s :=
  ⟨.refl, fun _ => Or.inl, rfl, rfl, id⟩

theorem trans (h : Departed c T s s₁) (h' : Departed c T s₁ s') : Departed c T s s' where
  gains := h.gains.trans h'.gains
  cursor := h'.cursor
  diagnostics := h'.diagnostics.trans h.diagnostics
  dead := h'.dead.trans h.dead
  warned := h.warned ∘ h'.warned

/-- The cursor may be moved to where the departure started. -/
theorem back (h : Departed c T s s') : Departed c T s { s' with cursor := c } :=
  ⟨h.gains, fun _ => .inl, h.diagnostics, h.dead, h.warned⟩

/-- An edge to a block that is open to departures, after which the cursor is gone. -/
theorem enter (s : State) (hb : b ∈ exposed T) :
    Departed s.cursor T s ((s.withEdge s.cursor b).movedTo none) :=
  ⟨.connect fun _ hx => .inl ⟨hx, hb⟩, fun _ h => (nomatch h), rfl, rfl, fun h => (nomatch h)⟩

theorem below (ht : ∀ entry last, t ≠ .cleanup entry last) (h : Departed c T s s') :
    Departed c (t :: T) s s' :=
  ⟨h.gains.mono fun _ _ => .below ht, fun b hb => (h.cursor b hb).imp id mem_lasts_cons,
    h.diagnostics, h.dead, h.warned⟩

/-- Departing through a `finally` block. -/
theorem through {entry : BlockId} {last : Option BlockId}
    (h : Departed last T { s.withEdge s.cursor entry with cursor := last } s') :
    Departed s.cursor (.cleanup entry last :: T) s s' where
  gains := .trans (.connect fun _ hx => .inl ⟨hx, List.mem_singleton.mpr rfl⟩)
    (h.gains.mono fun _ _ => .through)
  cursor b hb := .inr ((lasts_cons_cleanup entry last T).mpr (h.cursor b hb))
  diagnostics := h.diagnostics
  dead := h.dead
  warned := h.warned

end Departed

@[simp] theorem size_withEdge (s : State) (a : Option BlockId) (b : BlockId) :
    (s.withEdge a b).graph.blocks.size = s.graph.blocks.size := by
  cases a with
  | none => rfl
  | some a => exact Graph.size_addEdge s.graph a b

/-! ### Completed steps -/

section

variable {T : List Target} {s s' : State}

theorem departed_jump {pos : Pos} {wanted : Exit} {found : Bool}
    (h : jump pos wanted T s = .ok found s') :
    Departed s.cursor T s s' ∧ (found = true → s'.cursor = none ∧ s'.warned = false) := by
  induction T generalizing s with
  | nil =>
    obtain ⟨rfl, rfl⟩ := ok_pure h
    exact ⟨.refl s [], by simp⟩
  | cons t T ih =>
    cases t with
    | landing exit b =>
      rw [jump] at h
      split_ifs at h
      · cases h
        exact ⟨.enter s List.mem_cons_self, fun _ => ⟨rfl, rfl⟩⟩
      · exact ⟨(ih h).1.below (by simp), (ih h).2⟩
    | escape b => exact ⟨(ih h).1.below (by simp), (ih h).2⟩
    | handler a b => exact ⟨(ih h).1.below (by simp), (ih h).2⟩
    | cleanup entry last => exact ⟨.through (ih h).1, (ih h).2⟩
    | barrier => cases h

/-- A jump that completes meets the edge of no `finally` block before a place to land. -/
theorem not_barred_of_ok {pos : Pos} {wanted : Exit} {found : Bool}
    (h : jump pos wanted T s = .ok found s') : ¬Barred wanted T := by
  induction T generalizing s with
  | nil => exact not_false
  | cons t T ih =>
    cases t with
    | landing exit b =>
      rw [jump] at h
      split_ifs at h with hexit
      · exact fun hbarred => hbarred.1 hexit
      · exact fun hbarred => ih h hbarred.2
    | escape b => exact ih h
    | handler a b => exact ih h
    | cleanup entry last =>
      obtain ⟨_, s₁, -, h⟩ := ok_bind.mp h
      exact ih h
    | barrier => cases h

/-- A jump that completes without a place to land passes neither the edge of a `finally` block nor a
landing of its kind. -/
theorem lost_jump {pos : Pos} {wanted : Exit} (h : jump pos wanted T s = .ok false s') :
    .barrier ∉ T ∧ ∀ b, .landing wanted b ∉ T := by
  induction T generalizing s with
  | nil => simp
  | cons t T ih =>
    cases t with
    | landing exit b =>
      rw [jump] at h
      split_ifs at h with hexit
      · cases h
      · simpa [Ne.symm hexit] using ih h
    | escape b => simpa using ih h
    | handler a b => simpa using ih h
    | cleanup entry last =>
      obtain ⟨_, s₁, -, h⟩ := ok_bind.mp h
      simpa using ih h
    | barrier => cases h

/-- A jump that does not complete is refused where it meets the edge of a `finally` block. -/
theorem refused_jump {pos : Pos} {wanted : Exit} {e : Aborted}
    (h : jump pos wanted T s = .error e s') :
    e = .jumpOutOfFinally ∧ Barred wanted T ∧ ∃ s₁, Departed s.cursor T s s₁ ∧
      s' = s₁.reported .jumpOutOfFinally pos "jump out of finally block not permitted" := by
  induction T generalizing s with
  | nil => cases h
  | cons t T ih =>
    cases t with
    | landing exit b =>
      rw [jump] at h
      split_ifs at h with hexit
      · cases h
      · obtain ⟨he, hbarred, s₁, hd, hs'⟩ := ih h
        exact ⟨he, ⟨hexit, hbarred⟩, s₁, hd.below (by simp), hs'⟩
    | escape b =>
      obtain ⟨he, hbarred, s₁, hd, hs'⟩ := ih h
      exact ⟨he, hbarred, s₁, hd.below (by simp), hs'⟩
    | handler a b =>
      obtain ⟨he, hbarred, s₁, hd, hs'⟩ := ih h
      exact ⟨he, hbarred, s₁, hd.below (by simp), hs'⟩
    | cleanup entry last =>
      have h' : jump pos wanted T { s.withEdge s.cursor entry with cursor := last } = .error e s' := h
      obtain ⟨he, hbarred, s₁, hd, hs'⟩ := ih h'
      exact ⟨he, hbarred, s₁, .through hd, hs'⟩
    | barrier =>
      cases h
      exact ⟨rfl, trivial, s, .refl s _, rfl⟩

theorem departed_raise {e : ErrorType} (h : raise e T s = .ok () s') : Departed s.cursor T s s' := by
  induction T generalizing s with
  | nil =>
    obtain ⟨-, rfl⟩ := ok_pure h
    exact .refl s []
  | cons t T ih =>
    cases t with
    | escape b =>
      cases h
      exact .enter s List.mem_cons_self
    | handler a b =>
      rw [raise] at h
      split_ifs at h with hcovers hmay
      · cases h
        exact .enter s List.mem_cons_self
      · -- some of the errors may be handled here, the rest goes on
        have h' : raise e T (s.withEdge s.cursor b) = .ok () s' := h
        have hedge : Departed s.cursor (.handler a b :: T) s (s.withEdge s.cursor b) :=
          ⟨.connect fun _ hx => .inl ⟨hx, List.mem_cons_self⟩, fun _ => .inl, rfl, rfl, id⟩
        exact hedge.trans ((ih h').below (by simp))
      · exact (ih h).below (by simp)
    | cleanup entry last => exact .through (ih h)
    | landing exit b => exact (ih h).below (by simp)
    | barrier => exact (ih h).below (by simp)

theorem departed_raiseAll {fork : Option BlockId} {errors : List ErrorType}
    (hs : s.cursor = fork) (h : raiseAll T fork errors s = .ok () s') : Departed fork T s s' := by
  subst hs
  suffices ∀ s₁, Departed s.cursor T s s₁ → raiseAll T s.cursor errors s₁ = .ok () s' →
      Departed s.cursor T s s' from this s (.refl s T) h
  clear h
  induction errors with
  | nil =>
    intro s₁ hs₁ h
    obtain ⟨-, rfl⟩ := ok_pure h
    exact hs₁
  | cons e errors ih =>
    intro s₁ hs₁ h
    rw [raiseAll_cons] at h
    obtain ⟨_, s₂, hraise, h⟩ := ok_bind.mp h
    have hraise : raise e T { s₁ with cursor := s.cursor } = .ok () s₂ := hraise
    exact ih s₂ (hs₁.back.trans (departed_raise hraise)) h

/-- Leaving a try statement is a departure to the block after it. -/
theorem departed_leaveAttempt {cl : Option Target} {after : BlockId}
    (hcl : ∀ t, cl = some t → ∃ entry last, t = .cleanup entry last)
    (h : leaveAttempt cl after s = .ok () s') :
    Departed s.cursor (cl.toList ++ [.landing .loopEnd after]) s s' := by
  cases hc : s.cursor with
  | none =>
    rw [leaveAttempt, ok_bind] at h
    obtain ⟨_, _, ⟨rfl⟩, h⟩ := h
    simp only [hc, Option.isSome_none, Bool.false_eq_true, if_false] at h
    obtain ⟨-, rfl⟩ := ok_pure h
    exact hc ▸ .refl s _
  | some c =>
    rw [leaveAttempt, ok_bind] at h
    obtain ⟨_, _, ⟨rfl⟩, h⟩ := h
    simp only [hc, Option.isSome_some, if_true] at h
    rw [← hc]
    have hafter (s : State) : Departed s.cursor [.landing .loopEnd after] s (s.withEdge s.cursor after) :=
      ⟨.connect fun _ hx => .inl ⟨hx, List.mem_cons_self⟩, fun _ => .inl, rfl, rfl, id⟩
    cases cl with
    | none =>
      cases h
      exact hafter s
    | some t =>
      obtain ⟨entry, last, rfl⟩ := hcl t rfl
      cases h
      exact .through (hafter { s.withEdge s.cursor entry with cursor := last })

end

end Build

end FlowCheck
