import FlowCheck.Proofs.Build.Landing

/-!
# Building try statements

What leaves the body of a try statement abruptly meets its handlers, if it is an error, and then its
`finally` block. There is one copy of that block. It is built first, so that all ways out can be led
through it, and each of them goes on from its end.
-/
namespace FlowCheck.Build

open Execution

/-! ### Ways through handlers and `finally` blocks -/

section

variable {g g' G : Graph} {T : List Target} {t t' : List Moment} {e : Ending} {w : Way}
  {b c after entry : BlockId} {last : Option BlockId} {H : List (ErrorType × BlockId)}

/-- The targets that handlers are. -/
def handlerTargets (H : List (ErrorType × BlockId)) : List Target :=
  H.map fun p => .handler p.1 p.2

theorem map_handler {α : Type} (hs : List (α × ErrorType × BlockId)) :
    hs.map (fun p => Target.handler p.2.1 p.2.2) = handlerTargets (hs.map Prod.snd) := by
  rw [handlerTargets, List.map_map]
  rfl

theorem lasts_handlerTargets (H : List (ErrorType × BlockId)) (T : List Target) :
    lasts (handlerTargets H ++ T) = lasts T := by
  rw [lasts_append, lasts, handlerTargets, List.filterMap_map]
  simp

theorem leads_of_handlerTargets {exit : Exit} (h : g.Leads (.jump exit) c (handlerTargets H ++ T)) :
    g.Leads (.jump exit) c T := by
  induction H with
  | nil => exact h
  | cons p H ih =>
    cases h with
    | taken htakes _ => cases htakes
    | past _ hbeyond => exact ih hbeyond

theorem edge_of_leads_handler {x : Failure} {a : ErrorType}
    (h : g.Leads (.error x) c (.handler a b :: T)) (hx : x.Is a) : g.Edge c b := by
  cases h with
  | taken htakes he =>
    obtain rfl : b = _ := by simpa [Target.takes, hx] using htakes
    exact he
  | past hignores _ => simp [Target.ignores, Target.takes, hx] at hignores

theorem leads_of_leads_handler {x : Failure} {a : ErrorType}
    (h : g.Leads (.error x) c (.handler a b :: T)) (hx : ¬ x.Is a) : g.Leads (.error x) c T := by
  cases h with
  | taken htakes _ => simp [Target.takes, hx] at htakes
  | past _ hbeyond => exact hbeyond

/-- Only errors get out of a `finally` block, and these are not held up. -/
theorem leads_of_leads_barrier (h : g.Leads w c (.barrier :: T)) : g.Leads w c T := by
  cases h with
  | taken htakes _ => cases w <;> cases htakes
  | past _ hbeyond => exact hbeyond

theorem leads_cleanup (h : g.Leads w c (.cleanup entry last :: T)) :
    g.Edge c entry ∧ ∀ l, last = some l → g.Leads w l T := by
  cases h with
  | taken htakes _ => cases w <;> cases htakes
  | past hignores _ => cases w <;> cases hignores
  | through he hbeyond => exact ⟨he, hbeyond⟩

/-- The body or a handler of a try statement is over: what comes after the statement is entered, if
there is a `finally` block through that. -/
def Leaves (cl : Option Target) (after : BlockId) (g G : Graph) (t : List Moment) : Prop :=
  match cl with
  | some (.cleanup entry last) => Enters g G entry t ∧ ∀ l, last = some l → g.Edge l after
  | _ => Enters g G after t

theorem Leaves.mono {cl : Option Target} (h : Leaves cl after g G t)
    (hs : ∀ {b c}, c ∈ g.succs b → c ∈ g'.succs b) : Leaves cl after g' G t := by
  unfold Leaves at h ⊢
  split at h
  · exact ⟨h.1.mono hs, fun l hl => hs (h.2 l hl)⟩
  · exact h.mono hs

/-- Errors of a body go to its handlers, and all else goes past them. -/
theorem Ends.guarded {N : List Moment → Prop} {body : Behavior} {handle : Failure → Behavior}
    (hs : ∀ {b c}, c ∈ g.succs b → c ∈ g'.succs b)
    (hbody : ∀ t' e, body t' e → Ends N g G (handlerTargets H ++ T) (t ++ t') e)
    (hhandle : ∀ x t t' e, g.Departs G (.error x) (handlerTargets H ++ T) t → handle x t' e →
      Ends N g' G T (t ++ t') e)
    (hrun : Guarded body handle t' e) : Ends N g' G T (t ++ t') e := by
  cases hrun with
  | passes hrun hother =>
    refine (hbody _ _ hrun).mono (fun _ => id) fun w c hw hl => ?_
    cases w with
    | jump exit => exact (leads_of_handlerTargets hl).mono hs
    | error x =>
      cases e <;> simp [Ending.way?] at hw
      exact absurd rfl (hother _)
  | handles hrun hrest =>
    rw [← List.append_assoc]
    exact hhandle _ _ _ _ ((hbody _ _ hrun).abrupt _ rfl) hrest

/-- However a part ends, its `finally` block is entered, and what was pending goes on from the end
of that block. -/
theorem Ends.cleaned {A C : Behavior} (hG : g.Grows G)
    (hcleanup : ∀ t t' e, G.Traces t entry 0 → C t' e →
      Ends (fun t => ∃ l, last = some l ∧ G.Traces t l (g.nodes l).length) g G (.barrier :: T)
        (t ++ t') e)
    (hpart : ∀ t' e, A t' e → Ends (Leaves (some (.cleanup entry last)) after g G) g G
      (.cleanup entry last :: T) (t ++ t') e)
    (hrun : Cleaned A C t' e) : Ends (Enters g G after) g G T (t ++ t') e := by
  have hentry : ∀ {t' e}, A t' e → e ≠ .cut → G.Traces (t ++ t') entry 0 := by
    intro t' e hrun hne
    have hends := hpart t' e hrun
    cases hway : e.way? with
    | none =>
      have hnormal : e = .normal := by cases e <;> simp_all [Ending.way?]
      exact (hends.normal hnormal).1.traces hG
    | some w =>
      obtain ⟨c, ht, hl⟩ := hends.abrupt w hway
      exact ht.pass (hG.succs (leads_cleanup hl).1)
  cases hrun with
  | cut hrun =>
    obtain ⟨b, k, ht⟩ := (hpart _ _ hrun).cut rfl
    exact .of_cut ht
  | keeps hrun hne hcleaned =>
    obtain ⟨l, hl, ht⟩ := (hcleanup _ _ _ (hentry hrun hne) hcleaned).normal rfl
    rw [← List.append_assoc]
    have hends := hpart _ _ hrun
    cases hway : e.way? with
    | none =>
      have hnormal : e = .normal := by cases e <;> simp_all [Ending.way?]
      subst hnormal
      have hedge := (hends.normal rfl).2 l hl
      refine .of_normal ⟨l, hedge, ?_⟩
      rwa [hG.closed l (List.ne_nil_of_mem hedge)]
    | some w =>
      obtain ⟨c, -, hlead⟩ := hends.abrupt w hway
      exact .of_way hway (hG.departs ((leads_cleanup hlead).2 l hl) ht)
  | replaces hrun hne hcleaned habrupt =>
    rw [← List.append_assoc]
    exact (hcleanup _ _ _ (hentry hrun hne) hcleaned).mono (fun h => absurd h habrupt)
      fun _ _ _ => leads_of_leads_barrier

end

section

variable {s s' : State} {T : List Target} {facts : Facts} {b after : BlockId}
  {cl : Option Target}

/-! ### Leaving the parts of a try statement -/

theorem runs_passThrough {entry : BlockId} {last : Option BlockId} {Q : Unit → State → Prop} :
    Runs (passThrough entry last) s Q ↔ Q () { s.withEdge s.cursor entry with cursor := last } :=
  Iff.rfl

theorem runs_leaveAttempt (hs : Safe s) (hafter : Goal s.graph after)
    (hcl : ∀ a ∈ cl.toList, Fits s.graph a) :
    Runs (leaveAttempt cl after) s fun _ s' => Wired (Leaving s.cursor cl.toList) s s' ∧
      ∀ G, s'.graph.Grows G → ∀ t, At G s t → Leaves cl after s'.graph G t := by
  unfold leaveAttempt
  rw [runs_bind, runs_cursor]
  cases hcursor : s.cursor with
  | none =>
    refine ⟨.refl hs.sane, ?_⟩
    rintro G _ t ⟨c, hc, -⟩
    rw [hcursor] at hc
    cases hc
  | some c =>
    simp only [Option.isSome_some, if_true]
    rw [← hcursor]
    split
    · rename_i entry last
      have hfits := hcl _ (List.mem_singleton.mpr rfl)
      have hw₁ := wired_connectHere (T := [.cleanup entry last]) (c := last) hs hfits.1 s.warned
      have hs₁ := safe_passThrough hs hfits
      have hw₂ := wired_withEdge (a := last) hs₁.sane hs₁.cursor (hw₁.later.goal hafter)
      have hw := hw₁.trans (hw₂.mono fun x hx => leaving_passThrough (.inl hx) s.cursor)
      rw [runs_bind, runs_passThrough, runs_connectHere]
      refine ⟨hw, fun G hG t hat => ⟨?_, ?_⟩⟩
      · exact enters_of_at hw (fun x hx => hw₂.later.succs (edge_withCursor hs hx)) hG hat
      · rintro l rfl
        exact edge_withEdge (hs₁.cursor l rfl)
    · have hw := wired_withEdge hs.sane hs.cursor hafter
      rw [runs_connectHere]
      refine ⟨hw.mono fun x => .inl, fun G hG t hat => ?_⟩
      have henters := enters_of_at hw (fun x hx => edge_withCursor hs hx) hG hat
      unfold Leaves
      split
      · rename_i entry last hne
        exact absurd rfl (hne entry last)
      · exact henters

theorem completes_leaveAttempt (cl : Option Target) (after : BlockId) (s : State) :
    Completes (leaveAttempt cl after) s := by
  refine Completes.bind ⟨_, _, rfl⟩ fun c s₁ _ => ?_
  split_ifs
  · cases cl with
    | none => exact ⟨_, _, rfl⟩
    | some t => cases t <;> exact ⟨_, _, rfl⟩
  · exact completes_pure _ s₁

/-- The body or a handler of a try statement has been left, through its `finally` block if it has
one. -/
structure Left (cl : Option Target) (after : BlockId) (s s' : State) : Prop where
  cleanup : ∀ t, cl = some t → ∃ entry last, t = .cleanup entry last
  ok : leaveAttempt cl after s = .ok () s'

/-! ### `finally` blocks -/

/-- A `finally` block has been built, if there is one: what it cleans up after goes on behind it. -/
structure Cleansed (facts : Facts) (T : List Target) (cleanup : Option Block) (s : State)
    (cl : Option Target) (s' : State) : Prop where
  sane : Sane s'.graph
  later : Later s s'
  fits : ∀ a ∈ cl.toList, Fits s'.graph a
  frame : Clean s' → Frame (fun c => s.graph.blocks.size ≤ c) (lasts T) s.graph s'.graph
  fresh : Clean s' → ∀ c ∈ lasts cl.toList, s.graph.blocks.size ≤ c
  simulates : Clean s' → ∀ (A : Behavior) g G, s'.graph.Grows g → g.Grows G →
    (∀ c ∈ lasts cl.toList, g.nodes c = s'.graph.nodes c) → ∀ after t t' e,
    (∀ t' e, A t' e → Ends (Leaves cl after g G) g G (cl.toList ++ T) (t ++ t') e) →
    Execution.cleanupOption facts A cleanup t' e → Ends (Enters g G after) g G T (t ++ t') e

/-- Where the graph is sane and the targets fit, the `finally` block has been built. -/
def Cleanses (facts : Facts) (T : List Target) (cleanup : Option Block) (s : State)
    (cl : Option Target) (s' : State) : Prop :=
  Sane s.graph → (∀ a ∈ T, Fits s.graph a) → Cleansed facts T cleanup s cl s'

theorem cleanses_none (s : State) : Cleanses facts T none s none s := by
  intro hs _
  refine ⟨hs, .refl s, by simp, fun _ => (Wired.refl hs).frame (A := fun _ => False) (by simp),
    by simp [lasts], ?_⟩
  intro _ A g G _ _ _ after t t' e hpart hrun
  rw [Execution.cleanupOption] at hrun
  exact hpart t' e hrun

theorem cleanses_some {block' : Block} {s₂ : State}
    (hblock : Realizes (.barrier :: T) (Execution.block facts block')
      ((s.withBlock .cleanup).movedTo (some s.graph.blocks.size)) s₂) :
    Cleanses facts T (some block') s (some (.cleanup s.graph.blocks.size s₂.cursor)) s₂ := by
  intro hs hT
  have hw₁ := wired_withBlock hs .cleanup
  have hw : Wired (fun _ => False) s ((s.withBlock .cleanup).movedTo (some s.graph.blocks.size)) :=
    hw₁.trans (wired_movedTo hw₁.sane _)
  have hs₁ : Safe ((s.withBlock .cleanup).movedTo (some s.graph.blocks.size)) := by
    refine ⟨hw₁.sane, ?_⟩
    rintro c ⟨⟩
    exact source_withBlock hs .cleanup
  have hblank : Blank (s.withBlock .cleanup).graph s.graph.blocks.size :=
    hw₁.blank id (blank_of_size_le le_rfl)
  have htidy : Tidy (.barrier :: T)
      ((s.withBlock .cleanup).movedTo (some s.graph.blocks.size)) := by
    rintro c ⟨⟩
    exact ⟨hblank.succs, notMem_lasts (T := T) hT le_rfl⟩
  have hT₁ : ∀ a ∈ Target.barrier :: T,
      Fits ((s.withBlock .cleanup).movedTo (some s.graph.blocks.size)).graph a := by
    intro a ha
    rcases List.mem_cons.mp ha with rfl | ha
    · trivial
    · exact (hT a ha).later hw.later
  have h₂ := hblock hs₁ hT₁
  have hown : ∀ {c}, Own ((s.withBlock .cleanup).movedTo (some s.graph.blocks.size)) c →
      s.graph.blocks.size ≤ c := by
    rintro c (hc | hc)
    · exact (Option.some_inj.mp hc).le
    · exact hw.later.size_le.trans hc
  refine ⟨h₂.safe.sane, hw.later.trans h₂.later, ?_, ?_, ?_, ?_⟩
  · intro a ha
    obtain rfl : a = _ := by simpa using ha
    exact ⟨h₂.later.goal (goal_withBlock hs .cleanup), h₂.safe.cursor⟩
  · intro hc
    exact (hw.frame (by simp)).trans ((h₂.framed hc htidy).frame.mono (fun _ => hown) fun _ => .inr)
  · intro hc c hlast
    have hcur : s₂.cursor = some c := by simpa [lasts] using hlast
    exact hown ((h₂.framed hc htidy).owned c hcur)
  · intro hc A g G hg hG hnodes after t t' e hpart hrun
    rw [Execution.cleanupOption] at hrun
    refine Ends.cleaned hG ?_ hpart hrun
    intro t t' e ht hrun
    have hat : At G ((s.withBlock .cleanup).movedTo (some s.graph.blocks.size)) t := by
      refine ⟨_, rfl, ?_⟩
      rwa [graph_movedTo, hblank.nodes]
    refine (h₂.simulates hc htidy G (hg.trans hG) _ _ _ hat hrun).mono ?_ fun _ _ _ hl =>
      hl.mono hg.succs
    rintro - ⟨l, hl, hend⟩
    exact ⟨l, hl, by rwa [hnodes l (by simp [lasts, hl])]⟩

/-! ### Handlers -/

/-- The blocks of the handlers of clauses, made one after another. -/
structure Readied (facts : Facts) (clauses : List CatchClause) (H : List (ErrorType × BlockId))
    (s s' : State) : Prop where
  wired : Wired (fun _ => False) s s'
  accepts : H.map Prod.fst = clauses.map facts.catches
  fresh : ∀ p ∈ H, s.graph.blocks.size ≤ p.2 ∧ p.2 < s'.graph.blocks.size
  nodup : (H.map Prod.snd).Nodup

/-- The blocks of some handlers have been made, from the last to the first. -/
inductive Prepared (facts : Facts) : List CatchClause → State → List (ErrorType × BlockId) → State →
    Prop
  | nil {s : State} : Prepared facts [] s [] s
  | cons {c : CatchClause} {cs : List CatchClause} {hs : List (ErrorType × BlockId)} {s s' : State}
    (h : Prepared facts cs s hs s') :
    Prepared facts (c :: cs) s ((facts.catches c, s'.graph.blocks.size) :: hs)
      (s'.withBlock .handler)

theorem completes_handlers (facts : Facts) (clauses : List CatchClause) (s : State) :
    Completes (handlers facts clauses) s := by
  induction clauses with
  | nil => exact completes_pure [] s
  | cons c cs ih => exact Completes.bind ih fun _ _ _ => ⟨_, _, rfl⟩

theorem prepared_handlers {clauses : List CatchClause}
    {H : List (CatchClause × ErrorType × BlockId)} (h : handlers facts clauses s = .ok H s') :
    Prepared facts clauses s (H.map Prod.snd) s' := by
  induction clauses generalizing H s' with
  | nil =>
    obtain ⟨rfl, rfl⟩ := ok_pure h
    exact .nil
  | cons c cs ih =>
    rw [handlers, ok_bind] at h
    obtain ⟨H', s₁, hrest, h⟩ := h
    cases h
    exact .cons (ih hrest)

theorem Prepared.length_eq {clauses : List CatchClause} {hs : List (ErrorType × BlockId)}
    (h : Prepared facts clauses s hs s') : hs.length = clauses.length := by
  induction h with
  | nil => rfl
  | cons _ ih => rw [List.length_cons, List.length_cons, ih]

theorem Prepared.readied {clauses : List CatchClause} {H : List (ErrorType × BlockId)}
    (h : Prepared facts clauses s H s') (hs : Sane s.graph) : Readied facts clauses H s s' := by
  induction h with
  | nil => exact ⟨.refl hs, rfl, by simp, by simp⟩
  | @cons c _ H s s₁ _ ih =>
    have h₁ := ih hs
    have hw := wired_withBlock h₁.wired.sane .handler
    have hlt : s₁.graph.blocks.size < (s₁.withBlock .handler).graph.blocks.size :=
      (goal_withBlock h₁.wired.sane .handler).2
    refine ⟨h₁.wired.trans hw, ?_, ?_, ?_⟩
    · simp [← h₁.accepts]
    · intro p hp
      rcases List.mem_cons.mp hp with rfl | hp
      · exact ⟨h₁.wired.later.size_le, hlt⟩
      · obtain ⟨hlo, hhi⟩ := h₁.fresh p hp
        exact ⟨hlo, hhi.trans hlt⟩
    · refine List.nodup_cons.mpr ⟨fun hm => ?_, h₁.nodup⟩
      obtain ⟨p, hp, heq⟩ := List.mem_map.mp hm
      exact (h₁.fresh p hp).2.ne heq

namespace State

/-- A handler has been compared with those before it. -/
def compared (s : State) (before : List ErrorType) (a : ErrorType) (m : Mark) : State :=
  if before.contains a then
    s.reported .doubleCatch m.pos "double catch clause of same error detected"
  else s

/-- A handler that nothing leads to has been passed over. -/
def uncaught (s : State) (c : CatchClause) : State :=
  { s with
    dead := s.dead ++ (Node.catchClause c).subtree.map Node.id
    diagnostics := s.diagnostics ++
      [⟨.flow, .warning, .unreachableCatch, c.mark.pos, "unreachable catch clause detected"⟩] }

end State

theorem compared_spec (s : State) (before : List ErrorType) (a : ErrorType) (m : Mark) :
    (s.compared before a m).graph = s.graph ∧
      s.diagnostics <+: (s.compared before a m).diagnostics := by
  unfold State.compared
  split_ifs
  · exact ⟨rfl, List.prefix_append _ _⟩
  · exact ⟨rfl, List.prefix_rfl⟩

/-- One handler has been built in its block. -/
structure Caught (T : List Target) (cl : Option Target) (after b : BlockId) (B : Behavior)
    (s s' : State) : Prop where
  sane : Sane s'.graph
  later : Later s s'
  frame : Clean s' → Blank s.graph b →
    Frame (fun c => c = b ∨ s.graph.blocks.size ≤ c) (lasts T) s.graph s'.graph
  simulates : Clean s' → Blank s.graph b → ∀ G, s'.graph.Grows G → ∀ t t' e,
    Enters s.graph G b t → B t' e → Ends (Leaves cl after s'.graph G) s'.graph G T (t ++ t') e

theorem Caught.of_graph_eq {s₀ : State} {B : Behavior} (h : Caught T cl after b B s₀ s')
    (hgraph : s₀.graph = s.graph) (hdiag : s.diagnostics <+: s₀.diagnostics) :
    Caught T cl after b B s s' := by
  obtain ⟨hsane, hlater, hframe, hsim⟩ := h
  rw [hgraph] at hframe hsim
  refine ⟨hsane, ?_, hframe, hsim⟩
  exact ⟨hgraph ▸ hlater.size_le, hgraph ▸ hlater.exit_eq, hgraph ▸ hlater.ret_eq,
    hdiag.trans hlater.diagnostics, hgraph ▸ hlater.succs⟩

theorem caught_dead {B : Behavior} (hs : Sane s.graph) (hgraph : s'.graph = s.graph)
    (hdiag : s.diagnostics <+: s'.diagnostics) (hempty : s.graph.preds b = []) :
    Caught T cl after b B s s' := by
  have hw : Wired (fun _ => False) s s' := .of_graph_eq hs hgraph hdiag
  refine ⟨hw.sane, hw.later, fun _ _ => hw.frame (by simp), ?_⟩
  intro _ _ G _ t t' e henters _
  exact absurd hempty (henters.preds_ne_nil hs.wellFormed)

theorem caught_handler {c : CatchClause} {body : Block} {s₂ s₃ : State} (hs : Sane s.graph)
    (hb : Source s.graph b) (hafter : Goal s.graph after) (hT : ∀ a ∈ T, Fits s.graph a)
    (hcl : ∀ a ∈ cl.toList, a ∈ T) (hlast : b ∉ lasts T)
    (hbody : Realizes T (Execution.block facts body)
      ((s.movedTo (some b)).withNode b (.catchClause c)) s₂) (hleft : Left cl after s₂ s₃) :
    Caught T cl after b (Then (Visits (.catchClause c)) (Execution.block facts body)) s s₃ := by
  have hw₁ : Wired (fun _ => False) s (s.movedTo (some b)) := wired_movedTo hs (some b)
  have hs₁ : Safe (s.movedTo (some b)) := ⟨hs, by rintro x ⟨⟩; exact hb⟩
  have hnode : Built T (Visits (.catchClause c)) (s.movedTo (some b)) _ := built_withNode hs₁ rfl
  have h₂ := hbody hnode.safe fun a ha => (hT a ha).later (hw₁.later.trans hnode.later)
  have hhandler := hnode.andThen h₂
  have hl₂ := hw₁.later.trans hhandler.later
  obtain ⟨hw₃, hleave⟩ := (runs_leaveAttempt h₂.safe (hl₂.goal hafter) fun a ha =>
    (hT a (hcl a ha)).later hl₂).ok hleft.ok
  have htidy : Blank s.graph b → Tidy T (s.movedTo (some b)) := by
    rintro hblank x ⟨⟩
    exact ⟨hblank.succs, hlast⟩
  have hown : ∀ {x}, Own (s.movedTo (some b)) x → x = b ∨ s.graph.blocks.size ≤ x := by
    rintro x (hx | hx)
    · exact .inl (Option.some_inj.mp hx).symm
    · exact .inr hx
  refine ⟨hw₃.sane, hl₂.trans hw₃.later, ?_, ?_⟩
  · intro hc hblank
    have hf := hhandler.framed (hw₃.later.clean hc) (htidy hblank)
    refine (hw₁.frame (by simp)).trans ((hf.frame.mono (fun _ => hown) fun _ => .inr).trans
      (hw₃.frame ?_))
    rintro x (hx | hx)
    · exact .inl (hown (hf.owned x hx))
    · obtain ⟨a, ha, hax⟩ := List.mem_filterMap.mp hx
      exact .inr (List.mem_filterMap.mpr ⟨a, hcl a ha, hax⟩)
  · intro hc hblank G hG t t' e henters hrun
    have hc₂ := hw₃.later.clean hc
    have hf := hhandler.framed hc₂ (htidy hblank)
    have hG₂ := hw₃.grows.trans hG
    have hat : At G (s.movedTo (some b)) t := by
      refine ⟨b, rfl, ?_⟩
      rw [graph_movedTo, hblank.nodes]
      exact henters.traces (hf.frame.grows.trans hG₂)
    exact (hhandler.simulates hc₂ (htidy hblank) G hG₂ _ _ _ hat hrun).mono
      (fun _ => hleave G hG _) fun _ _ _ hl => hl.mono hw₃.later.succs

/-- The handlers have been built: errors on their way to them are handled or go on. -/
structure Handled (facts : Facts) (T : List Target) (cl : Option Target) (after : BlockId)
    (H : List (ErrorType × BlockId)) (clauses : List CatchClause) (s s' : State) : Prop where
  sane : Sane s'.graph
  later : Later s s'
  frame : Clean s' → (∀ p ∈ H, Blank s.graph p.2) →
    Frame (fun c => c ∈ H.map Prod.snd ∨ s.graph.blocks.size ≤ c) (lasts T) s.graph s'.graph
  simulates : Clean s' → (∀ p ∈ H, Blank s.graph p.2) → ∀ G, s'.graph.Grows G → ∀ x t t' e,
    s.graph.Departs G (.error x) (handlerTargets H ++ T) t →
    Execution.handlerList facts clauses x t' e →
    Ends (Leaves cl after s'.graph G) s'.graph G T (t ++ t') e

/-- Where the graph is sane, the targets fit and the handlers have blocks of their own, the handlers
have been built. -/
def Handles (facts : Facts) (T : List Target) (cl : Option Target) (after : BlockId)
    (H : List (ErrorType × BlockId)) (clauses : List CatchClause) (s s' : State) : Prop :=
  H.map Prod.fst = clauses.map facts.catches → (H.map Prod.snd).Nodup →
    (∀ p ∈ H, Source s.graph p.2 ∧ p.2 ∉ lasts T) → Sane s.graph → Goal s.graph after →
    (∀ a ∈ T, Fits s.graph a) → (∀ a ∈ cl.toList, a ∈ T) →
    Handled facts T cl after H clauses s s'

theorem handles_nil (s : State) : Handles facts T cl after [] [] s s := by
  intro _ _ _ hs _ _ _
  refine ⟨hs, .refl s, fun _ _ => (Wired.refl hs).frame (A := fun _ => False) (by simp), ?_⟩
  rintro _ _ G _ x t t' e hdeparts ⟨rfl, rfl⟩
  rw [List.append_nil]
  exact .of_way rfl hdeparts

theorem Caught.handled {s₁ s₂ : State} {c : CatchClause} {a : ErrorType} {B : Behavior}
    {H : List (ErrorType × BlockId)} {rest : List CatchClause}
    (hrun : ∀ x t e, Execution.handlerList facts (c :: rest) x t e →
      (x.Is a ∧ B t e) ∨ (¬ x.Is a ∧ Execution.handlerList facts rest x t e))
    (hnodup : (((a, b) :: H).map Prod.snd).Nodup)
    (hH : ∀ p ∈ H, Source s.graph p.2 ∧ p.2 ∉ lasts T)
    (h : Caught T cl after b B s s₁) (h' : Handled facts T cl after H rest s₁ s₂) :
    Handled facts T cl after ((a, b) :: H) (c :: rest) s s₂ := by
  have hb : b ∉ H.map Prod.snd := (List.nodup_cons.mp hnodup).1
  have hblanks : Clean s₂ → (∀ p ∈ (a, b) :: H, Blank s.graph p.2) →
      Frame (fun c => c = b ∨ s.graph.blocks.size ≤ c) (lasts T) s.graph s₁.graph ∧
        ∀ p ∈ H, Blank s₁.graph p.2 := by
    intro hc hblank
    have hframe := h.frame (h'.later.clean hc) (hblank _ List.mem_cons_self)
    refine ⟨hframe, fun p hp => ?_⟩
    refine hframe.blank ?_ (hH p hp).2 (hblank p (List.mem_cons_of_mem _ hp))
    rintro (heq | hle)
    · exact hb (heq ▸ List.mem_map_of_mem hp)
    · exact Nat.lt_irrefl _ (Nat.lt_of_lt_of_le (hH p hp).1.1 hle)
  refine ⟨h'.sane, h.later.trans h'.later, ?_, ?_⟩
  · intro hc hblank
    obtain ⟨hframe, hblank'⟩ := hblanks hc hblank
    refine (hframe.mono ?_ fun _ => .inr).trans ((h'.frame hc hblank').mono ?_ fun _ => .inr)
    · rintro x (rfl | hx)
      · exact .inl List.mem_cons_self
      · exact .inr hx
    · rintro x (hx | hx)
      · exact .inl (List.mem_cons_of_mem _ hx)
      · exact .inr (h.later.size_le.trans hx)
  · rintro hc hblank G hG x t t' e ⟨d, ht, hl⟩ hlist
    obtain ⟨-, hblank'⟩ := hblanks hc hblank
    rcases hrun x t' e hlist with ⟨hx, hB⟩ | ⟨hx, hlist⟩
    · have hG₁ := (h'.frame hc hblank').grows.trans hG
      have henters : Enters s.graph G b t := ⟨d, edge_of_leads_handler hl hx, ht⟩
      exact (h.simulates (h'.later.clean hc) (hblank _ List.mem_cons_self) G hG₁ _ _ _ henters
        hB).mono (fun _ hleaves => hleaves.mono h'.later.succs) fun _ _ _ hl =>
          hl.mono h'.later.succs
    · refine h'.simulates hc hblank' G hG x _ _ _ ⟨d, ht, ?_⟩ hlist
      exact (leads_of_leads_handler hl hx).mono h.later.succs

theorem handles_cons {s₁ : State} {c : CatchClause} {a : ErrorType} {H : List (ErrorType × BlockId)}
    {rest : List CatchClause}
    (hcaught : Sane s.graph → Source s.graph b → Goal s.graph after → (∀ a ∈ T, Fits s.graph a) →
      (∀ a ∈ cl.toList, a ∈ T) → b ∉ lasts T →
      Caught T cl after b (Then (Visits (.catchClause c)) (Execution.block facts c.body)) s s₁)
    (hrest : Handles facts T cl after H rest s₁ s') :
    Handles facts T cl after ((a, b) :: H) (c :: rest) s s' := by
  intro haccepts hnodup hH hs hafter hT hcl
  obtain ⟨ha, haccepts⟩ : a = facts.catches c ∧ H.map Prod.fst = rest.map facts.catches := by
    simpa using haccepts
  have hH' : ∀ p ∈ H, Source s.graph p.2 ∧ p.2 ∉ lasts T := fun p hp =>
    hH p (List.mem_cons_of_mem _ hp)
  obtain ⟨hb, hlast⟩ := hH _ List.mem_cons_self
  have h₁ := hcaught hs hb hafter hT hcl hlast
  have h₂ := hrest haccepts (List.nodup_cons.mp hnodup).2
    (fun p hp => ⟨h₁.later.source (hH' p hp).1, (hH' p hp).2⟩) h₁.sane (h₁.later.goal hafter)
    (fun x hx => (hT x hx).later h₁.later) hcl
  refine h₁.handled ?_ hnodup hH' h₂
  obtain ⟨m, param, body⟩ := c
  intro x t e hlist
  rw [Execution.handlerList, ← ha] at hlist
  split_ifs at hlist with hx
  · exact .inl ⟨hx, hlist⟩
  · exact .inr ⟨hx, hlist⟩

theorem handles_uncaught {c : CatchClause} {a : ErrorType} {before : List ErrorType}
    {H : List (ErrorType × BlockId)} {rest : List CatchClause} (hempty : s.graph.preds b = [])
    (hrest : Handles facts T cl after H rest ((s.compared before a c.mark).uncaught c) s') :
    Handles facts T cl after ((a, b) :: H) (c :: rest) s s' := by
  obtain ⟨hgraph, hdiag⟩ := compared_spec s before a c.mark
  refine handles_cons (fun hs _ _ _ _ _ => ?_) hrest
  exact caught_dead hs hgraph (hdiag.trans (List.prefix_append _ _)) hempty

theorem handles_caught {s₁ s₂ : State} {c : CatchClause} {a : ErrorType} {before : List ErrorType}
    {H : List (ErrorType × BlockId)} {rest : List CatchClause}
    (hbody : Realizes T (Execution.block facts c.body)
      (((s.compared before a c.mark).movedTo (some b)).withNode b (.catchClause c)) s₁)
    (hleft : Left cl after s₁ s₂) (hrest : Handles facts T cl after H rest s₂ s') :
    Handles facts T cl after ((a, b) :: H) (c :: rest) s s' := by
  obtain ⟨hgraph, hdiag⟩ := compared_spec s before a c.mark
  -- a second handler for the same error is built like any other
  refine handles_cons (fun hs hb hafter hT hcl hlast => ?_) hrest
  rw [← hgraph] at hs hb hafter hT
  exact (caught_handler hs hb hafter hT hcl hlast hbody hleft).of_graph_eq hgraph hdiag

/-! ### Try statements -/

section

variable {s₂ s₃ s₄ s₅ s₆ : State} {body : Block} {clauses : List CatchClause}
  {cleanup : Option Block} {H : List (ErrorType × BlockId)} (hs : Safe s) (hb : s.cursor = some b)
  (h₂ : Cleansed facts T cleanup (s.withBlock .join) cl s₂)
  (h₃ : Readied facts clauses H s₂ s₃) (hlast : ∀ p ∈ H, p.2 ∉ lasts (cl.toList ++ T))
  (h₄ : Built (handlerTargets H ++ (cl.toList ++ T)) (Execution.block facts body)
    (s₃.movedTo (some b)) s₄)
  (hw₅ : Wired (Leaving s₄.cursor cl.toList) s₄ s₅)
  (h₆ : Handled facts (cl.toList ++ T) cl s.graph.blocks.size H clauses s₅ s₆)

include hs hb h₂ h₃ hlast h₄ hw₅ h₆

/-- While a `finally` block and the blocks of handlers are made, the block that the body goes to is
left alone; while the body is built, so are the blocks of handlers. -/
theorem framed_attempt (hc : Clean s₆) (ht : Tidy T s) :
    Frame (fun c => (s.withBlock .join).graph.blocks.size ≤ c) (lasts T) s.graph s₃.graph ∧
      Tidy (handlerTargets H ++ (cl.toList ++ T)) (s₃.movedTo (some b)) ∧
      Framed (handlerTargets H ++ (cl.toList ++ T)) (s₃.movedTo (some b)) s₄ ∧
      ∀ p ∈ H, Blank s₅.graph p.2 := by
  have hw₁ := wired_withBlock hs.sane .join
  have hl₃₄ : Later s₃ s₄ := later_of_movedTo h₄.later
  have hc₄ : Clean s₄ := (hw₅.later.trans h₆.later).clean hc
  have hc₂ : Clean s₂ := (h₃.wired.later.trans hl₃₄).clean hc₄
  have hlt : b < s.graph.blocks.size := (hs.cursor b hb).1
  have hlt₁ : b < (s.withBlock .join).graph.blocks.size := Nat.lt_of_lt_of_le hlt hw₁.later.size_le
  have hframe₃ : Frame (fun c => (s.withBlock .join).graph.blocks.size ≤ c) (lasts T) s.graph
      s₃.graph :=
    (hw₁.frame (by simp)).trans ((h₂.frame hc₂).trans (h₃.wired.frame (by simp)))
  obtain ⟨hopen, hnot⟩ := ht b hb
  have htidy : Tidy (handlerTargets H ++ (cl.toList ++ T)) (s₃.movedTo (some b)) := by
    rintro c ⟨⟩
    refine ⟨by rw [graph_movedTo, hframe₃.succs b (not_le.mpr hlt₁) hnot, hopen], ?_⟩
    rw [lasts_handlerTargets, lasts_append, List.mem_append]
    rintro (hm | hm)
    · exact Nat.lt_irrefl _ (Nat.lt_of_lt_of_le hlt₁ (h₂.fresh hc₂ b hm))
    · exact hnot hm
  have hf₄ := h₄.framed hc₄ htidy
  refine ⟨hframe₃, htidy, hf₄, fun p hp => ?_⟩
  obtain ⟨hlo, hhi⟩ := h₃.fresh p hp
  have hown : ¬ Own (s₃.movedTo (some b)) p.2 := by
    rintro (ho | ho)
    · have heq : b = p.2 := Option.some_inj.mp ho
      rw [← heq] at hlo
      exact Nat.lt_irrefl _ (Nat.lt_of_lt_of_le hlt₁ (h₂.later.size_le.trans hlo))
    · exact Nat.lt_irrefl _ (Nat.lt_of_lt_of_le hhi ho)
  have hblank₃ : Blank s₃.graph p.2 := h₃.wired.blank id (blank_of_size_le hlo)
  have hblank₄ := hf₄.frame.blank hown (by rw [lasts_handlerTargets]; exact hlast p hp) hblank₃
  refine hw₅.blank ?_ hblank₄
  rintro (hcur | hm)
  · exact hown (hf₄.owned p.2 hcur)
  · refine hlast p hp ?_
    rw [lasts_append]
    exact List.mem_append_left _ hm

/-- All that is built stands in the block at the cursor or in new ones, but not in the block after
the statement. -/
theorem keeps_attempt (hT : ∀ a ∈ T, Fits s.graph a) (hc : Clean s₆) (ht : Tidy T s) :
    Frame (Own s) (lasts T) s.graph s₆.graph ∧ Blank s₆.graph s.graph.blocks.size := by
  obtain ⟨hframe₃, -, hf₄, hblanks⟩ := framed_attempt hs hb h₂ h₃ hlast h₄ hw₅ h₆ hc ht
  have hl₃ := h₂.later.trans h₃.wired.later
  have hl₃₅ := (later_of_movedTo h₄.later).trans hw₅.later
  have hc₂ : Clean s₂ := (h₃.wired.later.trans (hl₃₅.trans h₆.later)).clean hc
  have hlt : s.graph.blocks.size < (s.withBlock .join).graph.blocks.size :=
    (goal_withBlock hs.sane .join).2
  have hown : ∀ {c}, (s.withBlock .join).graph.blocks.size ≤ c → OwnBut s s.graph.blocks.size c :=
    fun hle => ⟨.inr (hlt.le.trans hle), (Nat.lt_of_lt_of_le hlt hle).ne'⟩
  have hown₃ : ∀ {c}, Own (s₃.movedTo (some b)) c → OwnBut s s.graph.blocks.size c := by
    rintro c (hcur | hle)
    · obtain rfl : b = c := Option.some_inj.mp hcur
      exact ⟨.inl hb, (hs.cursor b hb).1.ne⟩
    · exact hown (hl₃.size_le.trans hle)
  have hlasts : ∀ c ∈ lasts (cl.toList ++ T), OwnBut s s.graph.blocks.size c ∨ c ∈ lasts T := by
    intro c hm
    rw [lasts_append] at hm
    rcases List.mem_append.mp hm with hm | hm
    · exact .inl (hown (h₂.fresh hc₂ c hm))
    · exact .inr hm
  refine Frame.keeps ?_ hT le_rfl
  refine (hframe₃.mono (fun c => hown) fun _ => .inr).trans ?_
  refine (hf₄.frame.mono (fun _ => hown₃) ?_).trans ((hw₅.frame ?_).trans
    ((h₆.frame hc hblanks).mono ?_ hlasts))
  · rw [lasts_handlerTargets]
    exact hlasts
  · rintro c (hcur | hm)
    · exact .inl (hown₃ (hf₄.owned c hcur))
    · refine hlasts c ?_
      rw [lasts_append]
      exact List.mem_append_left _ hm
  · rintro c (hm | hle)
    · obtain ⟨p, hp, rfl⟩ := List.mem_map.mp hm
      exact hown (h₂.later.size_le.trans (h₃.fresh p hp).1)
    · exact hown ((hl₃.trans hl₃₅).size_le.trans hle)

theorem nodes_attempt (hc : Clean s₆) (ht : Tidy T s) {c : BlockId} (hm : c ∈ lasts cl.toList) :
    s₆.graph.nodes c = s₂.graph.nodes c := by
  obtain ⟨-, -, hf₄, hblanks⟩ := framed_attempt hs hb h₂ h₃ hlast h₄ hw₅ h₆ hc ht
  have hl₃₅ := (later_of_movedTo h₄.later).trans hw₅.later
  have hc₂ : Clean s₂ := (h₃.wired.later.trans (hl₃₅.trans h₆.later)).clean hc
  have hle := (wired_withBlock hs.sane .join).later.size_le.trans (h₂.fresh hc₂ c hm)
  have hlt₂ := (source_of_mem_lasts h₂.fits hm).1
  have hlt₃ := Nat.lt_of_lt_of_le hlt₂ h₃.wired.later.size_le
  have hnot₄ : ¬ Own (s₃.movedTo (some b)) c := by
    rintro (hcur | hge)
    · obtain rfl : b = c := Option.some_inj.mp hcur
      exact Nat.lt_irrefl _ (Nat.lt_of_lt_of_le (hs.cursor b hb).1 hle)
    · exact Nat.lt_irrefl _ (Nat.lt_of_lt_of_le hlt₃ hge)
  have hnot₆ : ¬ (c ∈ H.map Prod.snd ∨ s₅.graph.blocks.size ≤ c) := by
    rintro (hm | hge)
    · obtain ⟨p, hp, rfl⟩ := List.mem_map.mp hm
      exact Nat.lt_irrefl _ (Nat.lt_of_lt_of_le hlt₂ (h₃.fresh p hp).1)
    · exact Nat.lt_irrefl _ (Nat.lt_of_lt_of_le hlt₃ (hl₃₅.size_le.trans hge))
  rw [(h₆.frame hc hblanks).nodes c hnot₆, hw₅.nodes, hf₄.frame.nodes c hnot₄, graph_movedTo,
    h₃.wired.nodes]

theorem built_attempt (hT : ∀ a ∈ T, Fits s.graph a)
    (hleave : ∀ G, s₅.graph.Grows G → ∀ t, At G s₄ t →
      Leaves cl s.graph.blocks.size s₅.graph G t) :
    Built T (Execution.cleanupOption facts (Guarded (Execution.block facts body)
      (Execution.handlerList facts clauses)) cleanup) s
      (s₆.movedTo (Onward.cursor s₆.graph s.graph.blocks.size)) := by
  have hw₁ := wired_withBlock hs.sane .join
  have hl₅₆ := hw₅.later.trans h₆.later
  have hl₂₆ := h₃.wired.later.trans ((later_of_movedTo h₄.later).trans hl₅₆)
  refine built_onward hT h₆.sane (hw₁.later.trans (h₂.later.trans hl₂₆))
    ((h₂.later.trans hl₂₆).source (source_withBlock hs.sane .join)) le_rfl (onward_cursor _ _)
    (keeps_attempt hs hb h₂ h₃ hlast h₄ hw₅ h₆ hT) ?_
  rintro hc ht G hG t t' e ⟨c, hcur, htrace⟩ hrun
  obtain rfl : b = c := Option.some_inj.mp (hb.symm.trans hcur)
  obtain ⟨hframe₃, htidy, hf₄, hblanks⟩ := framed_attempt hs hb h₂ h₃ hlast h₄ hw₅ h₆ hc ht
  have hframe₆ := h₆.frame hc hblanks
  have hG₅ := hframe₆.grows.trans hG
  have hG₄ := hw₅.grows.trans hG₅
  have hat₃ : At G (s₃.movedTo (some b)) t := by
    have hlt := Nat.lt_of_lt_of_le (hs.cursor b hb).1 hw₁.later.size_le
    refine ⟨b, rfl, ?_⟩
    rwa [graph_movedTo, hframe₃.nodes b (not_le.mpr hlt)]
  refine h₂.simulates (hl₂₆.clean hc) _ s₆.graph G ?_ hG ?_ _ t t' e (fun t' e hrun => ?_) hrun
  · exact h₃.wired.grows.trans (hf₄.frame.grows.trans (hw₅.grows.trans hframe₆.grows))
  · exact fun c hm => nodes_attempt hs hb h₂ h₃ hlast h₄ hw₅ h₆ hc ht hm
  · refine Ends.guarded (H := H) h₆.later.succs (fun t' e hrun => ?_) ?_ hrun
    · refine (h₄.simulates (hl₅₆.clean hc) htidy G hG₄ _ _ _ hat₃ hrun).mono ?_ fun _ _ _ hl =>
        hl.mono hw₅.later.succs
      exact fun _ hend => (hleave G hG₅ _ hend).mono h₆.later.succs
    · exact fun x t t' e => h₆.simulates hc hblanks G hG x t t' e

end

theorem realizes_attempt {m : Mark} {body : Block} {clauses : List CatchClause}
    {cleanup : Option Block} {H : List (ErrorType × BlockId)} {s₂ s₃ s₄ s₅ s₆ : State}
    (hb : s.cursor = some b) (hcleanup : Cleanses facts T cleanup (s.withBlock .join) cl s₂)
    (hready : Prepared facts clauses s₂ H s₃)
    (hbody : Realizes (handlerTargets H ++ (cl.toList ++ T)) (Execution.block facts body)
      (s₃.movedTo (some b)) s₄)
    (hleft : Left cl s.graph.blocks.size s₄ s₅)
    (hhandlers : Handles facts (cl.toList ++ T) cl s.graph.blocks.size H clauses s₅ s₆) :
    Realizes T (Execution.stmt facts (.attempt m body clauses cleanup)) s
      (s₆.movedTo (Onward.cursor s₆.graph s.graph.blocks.size)) := by
  intro hs hT
  rw [Execution.stmt]
  have hw₁ := wired_withBlock hs.sane .join
  have hafter := goal_withBlock hs.sane .join
  have h₂ := hcleanup hw₁.sane fun a ha => (hT a ha).later hw₁.later
  have hl₂ := hw₁.later.trans h₂.later
  have h₃ := hready.readied h₂.sane
  have hl₃ := hl₂.trans h₃.wired.later
  have hout : ∀ a ∈ cl.toList ++ T, Fits s₂.graph a := by
    intro a ha
    rcases List.mem_append.mp ha with ha | ha
    · exact h₂.fits a ha
    · exact (hT a ha).later hl₂
  have hHs : ∀ p ∈ H, Source s₃.graph p.2 ∧ p.2 ∉ lasts (cl.toList ++ T) := by
    intro p hp
    obtain ⟨hlo, hhi⟩ := h₃.fresh p hp
    refine ⟨⟨hhi, fun hexit => ?_⟩, notMem_lasts hout hlo⟩
    rw [h₃.wired.later.exit_eq] at hexit
    exact Nat.lt_irrefl _ (Nat.lt_of_lt_of_le (h₂.sane.exit_lt _ hexit) hlo)
  have hin : ∀ a ∈ handlerTargets H ++ (cl.toList ++ T), Fits s₃.graph a := by
    intro a ha
    rcases List.mem_append.mp ha with ha | ha
    · obtain ⟨p, hp, rfl⟩ := List.mem_map.mp ha
      exact ⟨Nat.lt_of_lt_of_le h₂.sane.wellFormed.size_pos (h₃.fresh p hp).1, (hHs p hp).1.1⟩
    · exact (hout a ha).later h₃.wired.later
  have hs₃ : Safe (s₃.movedTo (some b)) :=
    ⟨h₃.wired.sane, by rintro x ⟨⟩; exact hl₃.source (hs.cursor b hb)⟩
  have h₄ := hbody hs₃ hin
  have hl₃₄ : Later s₃ s₄ := later_of_movedTo h₄.later
  have hl₄ := h₃.wired.later.trans hl₃₄
  obtain ⟨hw₅, hleave⟩ := (runs_leaveAttempt h₄.safe ((h₂.later.trans hl₄).goal hafter) fun a ha =>
    (h₂.fits a ha).later hl₄).ok hleft.ok
  have hl₅ := hl₄.trans hw₅.later
  have h₆ := hhandlers h₃.accepts h₃.nodup
    (fun p hp => ⟨(hl₃₄.trans hw₅.later).source (hHs p hp).1, (hHs p hp).2⟩) hw₅.sane
    ((h₂.later.trans hl₅).goal hafter) (fun a ha => (hout a ha).later hl₅)
    fun a ha => List.mem_append_left T ha
  exact built_attempt hs hb h₂ h₃ (fun p hp => (hHs p hp).2) h₄ hw₅ h₆ hT hleave

end

end FlowCheck.Build
