import FlowCheck.Proofs.Build.Departure

/-!
# What building a part does

A part of a program is built at the cursor. It adds nodes to the block there and to new blocks, and
edges to those and to the ends of enclosing `finally` blocks, and leaves all else alone. `Built`
says this together with what the part is built for: whatever can be observed of the part can be
traced through every graph that the one built so far grows into.
-/
namespace FlowCheck.Build

open Execution

/-! ### Frames -/

/-- The block at the cursor and all blocks to come. -/
def Own (s : State) (b : BlockId) : Prop := s.cursor = some b ∨ s.graph.blocks.size ≤ b

/-- Only blocks of one's own get nodes, and only those and the blocks in `L` get edges. -/
structure Frame (own : BlockId → Prop) (L : List BlockId) (g g' : Graph) : Prop where
  grows : Graph.Grows g g'
  nodes : ∀ b, ¬ own b → g'.nodes b = g.nodes b
  succs : ∀ b, ¬ own b → b ∉ L → g'.succs b = g.succs b

namespace Frame

variable {own own' : BlockId → Prop} {L L' : List BlockId} {g g' g'' : Graph}

theorem trans (h : Frame own L g g') (h' : Frame own L g' g'') : Frame own L g g'' where
  grows := h.grows.trans h'.grows
  nodes b hb := (h'.nodes b hb).trans (h.nodes b hb)
  succs b hb hL := (h'.succs b hb hL).trans (h.succs b hb hL)

theorem mono (h : Frame own L g g') (hown : ∀ b, own b → own' b)
    (hL : ∀ b, b ∈ L → own' b ∨ b ∈ L') : Frame own' L' g g' where
  grows := h.grows
  nodes b hb := h.nodes b fun ho => hb (hown b ho)
  succs b hb hb' := h.succs b (fun ho => hb (hown b ho)) fun hm => (hL b hm).elim hb hb'

end Frame

theorem Wired.frame {A own : BlockId → Prop} {L : List BlockId} {s s' : State} (h : Wired A s s')
    (hA : ∀ c, A c → own c ∨ c ∈ L) : Frame own L s.graph s'.graph where
  grows := h.grows
  nodes b _ := h.nodes b
  succs b hb hL := h.succs b fun hc => (hA b hc).elim hb hL

/-- No edge leaves the block at the cursor yet, and it is not the end of a `finally` block. -/
def Tidy (T : List Target) (s : State) : Prop :=
  ∀ b, s.cursor = some b → s.graph.succs b = [] ∧ b ∉ lasts T

/-- Building a part under targets stays within its frame, and so does the cursor. -/
structure Framed (T : List Target) (s s' : State) : Prop where
  frame : Frame (Own s) (lasts T) s.graph s'.graph
  owned : ∀ b, s'.cursor = some b → Own s b
  tidy : Tidy T s'

theorem own_of_own {s s' : State} (hl : s.graph.blocks.size ≤ s'.graph.blocks.size)
    (ho : ∀ b, s'.cursor = some b → Own s b) {b : BlockId} (hb : Own s' b) : Own s b :=
  hb.elim (ho b) fun h => .inr (hl.trans h)

theorem Framed.trans {T : List Target} {s s' s'' : State} (h : Framed T s s') (h' : Framed T s' s'')
    (hl : Later s s') : Framed T s s'' where
  frame := h.frame.trans (h'.frame.mono (fun _ => own_of_own hl.size_le h.owned) fun _ => .inr)
  owned b hb := own_of_own hl.size_le h.owned (h'.owned b hb)
  tidy := h'.tidy

/-! ### Observations -/

/-- The moments lead to the cursor. -/
def At (G : Graph) (s : State) (t : List Moment) : Prop :=
  ∃ b, s.cursor = some b ∧ G.Traces t b (s.graph.nodes b).length

/-- The moments lead to where an ending says: where `N` says, anywhere, or on the way out. -/
structure Ends (N : List Moment → Prop) (g G : Graph) (T : List Target) (t : List Moment)
    (e : Ending) : Prop where
  normal : e = .normal → N t
  cut : e = .cut → ∃ b k, G.Traces t b k
  abrupt : ∀ w, e.way? = some w → g.Departs G w T t

/-- Whatever can be observed of a part from the cursor on is traced in all graphs to come. -/
def Simulates (T : List Target) (B : Behavior) (s s' : State) : Prop :=
  ∀ G, s'.graph.Grows G → ∀ t t' e, At G s t → B t' e → Ends (At G s') s'.graph G T (t ++ t') e

/-- The part with behavior `B` has been built under the targets `T`. -/
structure Built (T : List Target) (B : Behavior) (s s' : State) : Prop where
  safe : Safe s'
  later : Later s s'
  framed : Clean s' → Tidy T s → Framed T s s'
  simulates : Clean s' → Tidy T s → Simulates T B s s'

section Endings

variable {N N' : List Moment → Prop} {g g' G : Graph} {T T' : List Target} {t : List Moment}
  {e : Ending} {w : Way} {c b : BlockId}

theorem Ends.of_cut {k : ℕ} (ht : G.Traces t b k) : Ends N g G T t .cut :=
  ⟨by simp, fun _ => ⟨b, k, ht⟩, by simp [Ending.way?]⟩

theorem Ends.of_normal (h : N t) : Ends N g G T t .normal :=
  ⟨fun _ => h, by simp, by simp [Ending.way?]⟩

theorem Ends.of_way (he : e.way? = some w) (h : g.Departs G w T t) : Ends N g G T t e := by
  refine ⟨?_, ?_, ?_⟩
  · rintro rfl
    cases he
  · rintro rfl
    cases he
  · intro w' hw'
    obtain rfl := Option.some_inj.mp (he.symm.trans hw')
    exact h

/-- An ending of an inner part is one of an outer part if what it leads to is. -/
theorem Ends.mono (h : Ends N g G T t e) (hN : e = .normal → N t → N' t)
    (hT : ∀ w c, e.way? = some w → g.Leads w c T → g'.Leads w c T') : Ends N' g' G T' t e :=
  ⟨fun hn => hN hn (h.normal hn), h.cut, fun w hw => by
    obtain ⟨c, hc, hleads⟩ := h.abrupt w hw
    exact ⟨c, hc, hT w c hw hleads⟩⟩

/-- An abrupt ending does not depend on where the cursor is later. -/
theorem Ends.later (h : Ends N g G T t e) (he : e ≠ .normal)
    (hs : ∀ {b c}, c ∈ g.succs b → c ∈ g'.succs b) : Ends N' g' G T t e :=
  h.mono (fun hn => absurd hn he) fun _ _ _ hl => hl.mono hs

theorem edge_of_leads {exit : Exit} (h : g.Leads (.jump exit) c (.landing exit b :: T)) :
    g.Edge c b := by
  cases h with
  | taken htakes he =>
    obtain rfl : b = _ := by simpa [Target.takes] using htakes
    exact he
  | past hignores _ => simp [Target.ignores, Target.takes] at hignores

theorem leads_of_landing {exit : Exit} (h : g.Leads w c (.landing exit b :: T))
    (hw : w ≠ .jump exit) : g.Leads w c T := by
  cases h with
  | taken htakes _ =>
    cases w with
    | error x => cases htakes
    | jump exit' =>
      have hne : exit ≠ exit' := fun heq => hw (heq ▸ rfl)
      simp [Target.takes, hne] at htakes
  | past _ hbeyond => exact hbeyond

end Endings

namespace Built

variable {T : List Target} {A B : Behavior} {s s' s'' : State}

/-- A step that does not touch the graph and has nothing to be observed. -/
theorem silent (hs : Safe s) (hgraph : s'.graph = s.graph) (hcursor : s'.cursor = s.cursor)
    (hdiag : s.diagnostics <+: s'.diagnostics) : Built T (silent .normal) s s' := by
  have hwired : Wired (fun _ => False) s s' := .of_graph_eq hs.sane hgraph hdiag
  refine ⟨⟨hwired.sane, ?_⟩, hwired.later, ?_, ?_⟩
  · rw [hcursor, hgraph]
    exact hs.cursor
  · intro _ ht
    refine ⟨hwired.frame (by simp), ?_, ?_⟩
    · intro b hb
      exact .inl (hcursor ▸ hb)
    · unfold Tidy
      rw [hcursor, hgraph]
      exact ht
  · rintro _ _ G _ t t' e ⟨b, hb, ht⟩ ⟨rfl, rfl⟩
    rw [List.append_nil]
    exact .of_normal ⟨b, hcursor ▸ hb, hgraph ▸ ht⟩

/-- Where there is no cursor, nothing can be observed. -/
theorem dead (hs : Safe s) (hnone : s.cursor = none) (hgraph : s'.graph = s.graph)
    (hcursor : s'.cursor = s.cursor) (hdiag : s.diagnostics <+: s'.diagnostics) :
    Built T B s s' := by
  have h : Built T (Execution.silent .normal) s s' := .silent hs hgraph hcursor hdiag
  refine ⟨h.safe, h.later, h.framed, ?_⟩
  rintro _ _ G _ t t' e ⟨b, hb, -⟩ _
  rw [hnone] at hb
  cases hb

/-- Building for more than what can be observed. -/
theorem weaken (h : Built T A s s') (hB : ∀ t e, B t e → A t e) : Built T B s s' :=
  ⟨h.safe, h.later, h.framed, fun hc ht G hG t t' e hat hrun =>
    h.simulates hc ht G hG t t' e hat (hB t' e hrun)⟩

theorem andThen (h : Built T A s s') (h' : Built T B s' s'') : Built T (Then A B) s s'' := by
  refine ⟨h'.safe, h.later.trans h'.later, ?_, ?_⟩
  · intro hc ht
    have hframed := h.framed (h'.later.clean hc) ht
    exact hframed.trans (h'.framed hc hframed.tidy) h.later
  · intro hc ht G hG t t' e hat hrun
    have hc' := h'.later.clean hc
    have hframed := h.framed hc' ht
    have hframed' := h'.framed hc hframed.tidy
    have hsim := h.simulates hc' ht G (hframed'.frame.grows.trans hG) t
    cases hrun with
    | stops hfirst hne => exact (hsim _ _ hat hfirst).later hne h'.later.succs
    | @goesOn t₁ t₂ _ hfirst hsecond =>
      have hat' := (hsim _ _ hat hfirst).normal rfl
      rw [← List.append_assoc]
      exact h'.simulates hc hframed.tidy G hG _ _ _ hat' hsecond

end Built

/-- Where the state is safe and the targets fit, the part with behavior `B` has been built. -/
def Realizes (T : List Target) (B : Behavior) (s s' : State) : Prop :=
  Safe s → (∀ a ∈ T, Fits s.graph a) → Built T B s s'

namespace Realizes

variable {T : List Target} {A B : Behavior} {s s₁ s' : State}

theorem silent (hgraph : s'.graph = s.graph) (hcursor : s'.cursor = s.cursor)
    (hdiag : s.diagnostics <+: s'.diagnostics) : Realizes T (silent .normal) s s' :=
  fun hs _ => .silent hs hgraph hcursor hdiag

theorem weaken (h : Realizes T A s s') (hB : ∀ t e, B t e → A t e) : Realizes T B s s' :=
  fun hs hT => (h hs hT).weaken hB

theorem andThen (h : Realizes T A s s₁) (h' : Realizes T B s₁ s') :
    Realizes T (Then A B) s s' := fun hs hT =>
  (h hs hT).andThen (h' (h hs hT).safe fun a ha => (hT a ha).later (h hs hT).later)

end Realizes

end FlowCheck.Build
