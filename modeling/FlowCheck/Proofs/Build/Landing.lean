import FlowCheck.Proofs.Build.Node

/-!
# Building jumps and the blocks they land in

A compound statement makes the block that follows it before it builds its parts. That block stays
blank while the parts are built, and is entered by edges: from the ends of parts, and by jumps.
-/
namespace FlowCheck.Build

open Execution

/-! ### Blank blocks -/

/-- A block without nodes and without edges out of it. -/
structure Blank (g : Graph) (b : BlockId) : Prop where
  nodes : g.nodes b = []
  succs : g.succs b = []

theorem blank_of_size_le {g : Graph} {b : BlockId} (h : g.blocks.size ≤ b) : Blank g b :=
  ⟨Graph.nodes_of_size_le h, Graph.succs_of_size_le h⟩

theorem Wired.blank {A : BlockId → Prop} {s s' : State} {b : BlockId} (h : Wired A s s')
    (hb : ¬ A b) (hblank : Blank s.graph b) : Blank s'.graph b :=
  ⟨by rw [h.nodes, hblank.nodes], by rw [h.succs b hb, hblank.succs]⟩

theorem Frame.blank {own : BlockId → Prop} {L : List BlockId} {g g' : Graph} {b : BlockId}
    (h : Frame own L g g') (hb : ¬ own b) (hL : b ∉ L) (hblank : Blank g b) : Blank g' b :=
  ⟨by rw [h.nodes b hb, hblank.nodes], by rw [h.succs b hb hL, hblank.succs]⟩

/-- A block that is kept for later while something is built at the cursor. -/
structure Reserved (L : List BlockId) (s : State) (b : BlockId) : Prop where
  goal : Goal s.graph b
  source : Source s.graph b
  blank : Blank s.graph b
  cursor : s.cursor ≠ some b
  notLast : b ∉ L

theorem Framed.reserved {T : List Target} {s s' : State} {b : BlockId} (h : Framed T s s')
    (hl : Later s s') (hb : Reserved (lasts T) s b) : Reserved (lasts T) s' b := by
  have hown : ¬ Own s b := by
    rintro (ho | ho)
    · exact hb.cursor ho
    · exact Nat.lt_irrefl _ (Nat.lt_of_lt_of_le hb.goal.2 ho)
  exact ⟨hl.goal hb.goal, hl.source hb.source, h.frame.blank hown hb.notLast hb.blank,
    fun hc => hown (h.owned b hc), hb.notLast⟩

theorem Wired.reserved {A : BlockId → Prop} {L : List BlockId} {s s' : State} {b : BlockId}
    (h : Wired A s s') (hA : ¬ A b) (hc : s'.cursor ≠ some b) (hb : Reserved L s b) :
    Reserved L s' b :=
  ⟨h.later.goal hb.goal, h.later.source hb.source, h.blank hA hb.blank, hc, hb.notLast⟩

/-- The blocks of one's own but for one that is kept blank. -/
def OwnBut (s : State) (kept b : BlockId) : Prop := Own s b ∧ b ≠ kept

theorem ownBut_of_own {s s' : State} {kept b : BlockId}
    (hl : s.graph.blocks.size ≤ s'.graph.blocks.size) (hk : kept < s'.graph.blocks.size)
    (hc : ∀ c, s'.cursor = some c → OwnBut s kept c) (hb : Own s' b) : OwnBut s kept b := by
  rcases hb with hb | hb
  · exact hc b hb
  · refine ⟨.inr (hl.trans hb), ?_⟩
    rintro rfl
    exact Nat.lt_irrefl _ (Nat.lt_of_lt_of_le hk hb)

/-- A block to come that is kept blank. -/
theorem Frame.keeps {s : State} {g : Graph} {T : List Target} {kept : BlockId}
    (h : Frame (OwnBut s kept) (lasts T) s.graph g) (hT : ∀ a ∈ T, Fits s.graph a)
    (hnew : s.graph.blocks.size ≤ kept) : Frame (Own s) (lasts T) s.graph g ∧ Blank g kept :=
  ⟨h.mono (fun _ => And.left) fun _ => .inr,
    h.blank (fun hb => hb.2 rfl) (notMem_lasts hT hnew) (blank_of_size_le hnew)⟩

/-! ### Arrivals -/

section

variable {g g' G : Graph} {T : List Target} {t t' : List Moment} {b c : BlockId} {w : Way}
  {e : Ending} {s s₁ : State}

/-- The moments lead through `G` to the end of a block from which an edge of `g` enters `b`. -/
def Enters (g G : Graph) (b : BlockId) (t : List Moment) : Prop :=
  ∃ c, g.Edge c b ∧ G.Traces t c (G.nodes c).length

namespace Enters

theorem mono (h : Enters g G b t) (hs : ∀ {b c}, c ∈ g.succs b → c ∈ g'.succs b) :
    Enters g' G b t := by
  obtain ⟨c, hedge, ht⟩ := h
  exact ⟨c, hs hedge, ht⟩

theorem traces (h : Enters g G b t) (hG : g.Grows G) : G.Traces t b 0 := by
  obtain ⟨c, hedge, ht⟩ := h
  exact ht.pass (hG.succs hedge)

theorem preds_ne_nil (h : Enters g G b t) (hg : g.WellFormed) : g.preds b ≠ [] := by
  obtain ⟨c, hedge, -⟩ := h
  exact List.ne_nil_of_mem ((hg.mem_preds c b).mpr hedge)

end Enters

/-- Who stands at the cursor enters a block to which the cursor has been connected. -/
theorem enters_of_at {A : BlockId → Prop} {s' : State} (hw : Wired A s s')
    (hedge : ∀ c, s.cursor = some c → s'.graph.Edge c b) (hG : s'.graph.Grows G)
    (h : At G s t) : Enters s'.graph G b t := by
  obtain ⟨c, hc, ht⟩ := h
  have he := hedge c hc
  refine ⟨c, he, ?_⟩
  rwa [hG.closed c (List.ne_nil_of_mem he), hw.nodes]

theorem leads_past_landing {exit : Exit} (hw : w ≠ .jump exit) (h : g.Leads w c T) :
    g.Leads w c (.landing exit b :: T) := by
  refine .past ?_ h
  cases w with
  | error x => rfl
  | jump exit' =>
    have hne : exit ≠ exit' := fun heq => hw (heq ▸ rfl)
    simp [Target.ignores, Target.takes, hne]

theorem leads_swap {exit exit' : Exit} {b' : BlockId} (hne : exit ≠ exit')
    (h : g.Leads w c (.landing exit b :: .landing exit' b' :: T)) :
    g.Leads w c (.landing exit' b' :: .landing exit b :: T) := by
  by_cases hw : w = .jump exit
  · subst hw
    refine leads_past_landing (by simp [hne]) (.taken (b := b) ?_ (edge_of_leads h))
    simp [Target.takes]
  · have h' := leads_of_landing h hw
    by_cases hw' : w = .jump exit'
    · subst hw'
      exact .taken (b := b') (by simp [Target.takes]) (edge_of_leads h')
    · exact leads_past_landing hw' (leads_past_landing hw (leads_of_landing h' hw'))

theorem eq_jump_of_way {kind : Jump} (h : e.way? = some (.jump kind.exit)) : e = .jump kind := by
  cases e with
  | jump kind' => cases kind <;> cases kind' <;> simp_all [Ending.way?, Jump.exit]
  | ret => cases kind <;> simp [Ending.way?, Jump.exit] at h
  | normal => simp [Ending.way?] at h
  | cut => simp [Ending.way?] at h
  | error x => simp [Ending.way?] at h

/-- Jumps of a kind that land in a block enter it. -/
theorem Ends.lands {N : List Moment → Prop} {kind : Jump} {A : Behavior} (hrun : Lands kind A t' e)
    (h : ∀ e, A t' e → Ends N g G (.landing kind.exit b :: T) (t ++ t') e)
    (hN : Enters g G b (t ++ t') → N (t ++ t')) : Ends N g G T (t ++ t') e := by
  cases hrun with
  | passes hrun hother =>
    refine (h e hrun).mono (fun _ => id) fun w c hw hl => leads_of_landing hl ?_
    rintro rfl
    exact hother (eq_jump_of_way hw)
  | lands hrun =>
    obtain ⟨c, ht, hl⟩ := (h _ hrun).abrupt _ rfl
    exact .of_normal (hN ⟨c, edge_of_leads hl, ht⟩)

theorem Ends.past_landing {N : List Moment → Prop} {exit : Exit}
    (h : Ends N g G (.landing exit b :: T) t e) (he : e.way? ≠ some (.jump exit)) :
    Ends N g G T t e := by
  refine h.mono (fun _ => id) fun w c hw hl => leads_of_landing hl ?_
  rintro rfl
  exact he hw

theorem way_ne_jump {facts : Facts} {n : Node} (hrun : Evaluates facts n t' e) (exit : Exit) :
    e.way? ≠ some (.jump exit) := by
  cases hrun <;> simp [Ending.way?]

/-! ### Going on where jumps land -/

/-- The cursor for going on in a block: there, or nowhere if no edge enters the block. -/
structure Onward (g : Graph) (b : BlockId) (o : Option BlockId) : Prop where
  eq : ∀ c, o = some c → c = b
  of_preds : g.preds b ≠ [] → o = some b

theorem onward_some (g : Graph) (b : BlockId) : Onward g b (some b) :=
  ⟨fun _ hc => (Option.some_inj.mp hc).symm, fun _ => rfl⟩

/-- The cursor that `goOnIfEntered` moves to. -/
def Onward.cursor (g : Graph) (b : BlockId) : Option BlockId :=
  if (g.preds b).isEmpty then none else some b

theorem onward_cursor (g : Graph) (b : BlockId) : Onward g b (Onward.cursor g b) := by
  unfold Onward.cursor
  split_ifs with hempty
  · exact ⟨by simp, fun hne => absurd (List.isEmpty_iff.mp hempty) hne⟩
  · exact onward_some g b

/-- A part that is over in a block kept blank for it. -/
theorem built_onward {B : Behavior} {o : Option BlockId} (hT : ∀ a ∈ T, Fits s.graph a)
    (hsane : Sane s₁.graph) (hlater : Later s s₁) (hb : Source s₁.graph b)
    (hnew : s.graph.blocks.size ≤ b) (ho : Onward s₁.graph b o)
    (hframe : Clean s₁ → Tidy T s →
      Frame (Own s) (lasts T) s.graph s₁.graph ∧ Blank s₁.graph b)
    (hsim : Clean s₁ → Tidy T s → ∀ G, s₁.graph.Grows G → ∀ t t' e, At G s t → B t' e →
      Ends (Enters s₁.graph G b) s₁.graph G T (t ++ t') e) :
    Built T B s (s₁.movedTo o) := by
  have hwired : Wired (fun _ => False) s₁ (s₁.movedTo o) := wired_movedTo hsane o
  refine ⟨⟨hsane, ?_⟩, hlater.trans hwired.later, ?_, ?_⟩
  · intro c hc
    rw [ho.eq c hc]
    exact hb
  · intro hc ht
    obtain ⟨hframe, hblank⟩ := hframe hc ht
    refine ⟨hframe, ?_, ?_⟩
    · intro c hcursor
      rw [ho.eq c hcursor]
      exact .inr hnew
    · intro c hcursor
      rw [ho.eq c hcursor]
      exact ⟨hblank.succs, notMem_lasts hT hnew⟩
  · intro hc ht G hG t t' e hat hrun
    refine (hsim hc ht G hG t t' e hat hrun).mono ?_ fun _ _ _ => id
    intro _ henters
    refine ⟨b, ho.of_preds (henters.preds_ne_nil hsane.wellFormed), ?_⟩
    rw [graph_movedTo, (hframe hc ht).2.nodes]
    exact henters.traces hG

end

/-! ### Jumps and returns -/

section

variable {s s' : State} {T : List Target} {facts : Facts} {b : BlockId}

theorem built_jump {e : Ending} {wanted : Exit} (he : e.way? = some (.jump wanted)) (hs' : Safe s')
    (hw : Wired (Leaving s.cursor T) s s') (hnone : s'.cursor = none)
    (hlead : ∀ b, s.cursor = some b → s'.graph.Leads (.jump wanted) b T) :
    Built T (silent e) s s' := by
  refine ⟨hs', hw.later, fun _ _ => ⟨hw.frame ?_, ?_, ?_⟩, ?_⟩
  · exact fun c => Or.imp_left .inl
  · simp [hnone]
  · simp [Tidy, hnone]
  · rintro _ _ G hG t t' e' ⟨b, hb, ht⟩ ⟨rfl, rfl⟩
    rw [List.append_nil]
    refine .of_way he (hG.departs (hlead b hb) ?_)
    rwa [hw.nodes]

/-- The state with a finding more. -/
def State.reported (s : State) (code : Code) (pos : Pos) (text : String) : State :=
  { s with diagnostics := s.diagnostics ++ [⟨.flow, .error, code, pos, text⟩] }

theorem wired_reported {A : BlockId → Prop} (hs : Sane s.graph) (code : Code) (pos : Pos)
    (text : String) : Wired A s (s.reported code pos text) :=
  .of_graph_eq hs rfl (List.prefix_append _ _)

theorem built_reported {B : Behavior} {A : BlockId → Prop} {pos : Pos} {text : String}
    (hs' : Safe s') (hw : Wired A s s') : Built T B s (s'.reported .noEnclosingLoop pos text) := by
  have hw' : Wired A s' (s'.reported .noEnclosingLoop pos text) := wired_reported hs'.sane ..
  have hstray : ¬ Clean (s'.reported .noEnclosingLoop pos text) :=
    fun hc => hc _ (List.mem_append_right _ (List.mem_singleton.mpr rfl)) rfl
  exact ⟨⟨hs'.sane, hs'.cursor⟩, hw.later.trans hw'.later, fun hc => absurd hc hstray,
    fun hc => absurd hc hstray⟩

theorem runs_jumpStmt {m : Mark} {kind : Jump} (hs : Safe s) (hb : s.cursor = some b)
    (hT : ∀ a ∈ T, Fits s.graph a) : Runs (jumpStmt T m kind) s fun _ s' =>
      Built T (Then (Visits (.stmt (.jump m kind))) (silent (.jump kind))) s s' := by
  have hnode : Built T (Visits (.stmt (.jump m kind))) s _ := built_withNode hs hb
  have hfits := fun a ha => (hT a ha).later hnode.later
  obtain ⟨text, hjump⟩ := exists_jumpStmt T m kind
  rw [hjump, runs_bind, runs_add hb]
  refine (runs_jump m.pos kind.exit hnode.safe hfits).bind ?_
  rintro (_ | _) s' ⟨hsafe, hwired, hfound⟩
  · exact hnode.andThen (built_reported hsafe hwired)
  · exact hnode.andThen (built_jump rfl hsafe hwired (hfound rfl).1 (hfound rfl).2)

theorem runs_ret {m : Mark} {result : Option Expr} (hs : Safe s) (hb : s.cursor = some b)
    (hT : ∀ a ∈ T, Fits s.graph a) (hground : Grounded T) :
    Runs (do
      addNode facts T (.stmt (.ret m result))
      if !(← jump m.pos .functionEnd T) then throw Aborted.returnWithoutTarget) s fun _ s' =>
        Built T (Then (Evaluates facts (.stmt (.ret m result))) (silent .ret)) s s' := by
  refine (runs_addNode hs hb hT hground).bind fun _ s₁ hnode => ?_
  refine (runs_jump m.pos .functionEnd hnode.safe fun a ha => (hT a ha).later hnode.later).bind ?_
  rintro (_ | _) s' ⟨hsafe, hwired, hfound⟩
  · trivial
  · exact hnode.andThen (built_jump rfl hsafe hwired (hfound rfl).1 (hfound rfl).2)

end

end FlowCheck.Build
