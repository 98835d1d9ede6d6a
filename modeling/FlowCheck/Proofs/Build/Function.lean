import FlowCheck.Proofs.Build.Statement
import FlowCheck.Proofs.Build.Outcome

/-!
# Building functions

The graph of a function begins with an entry, a return block that leads to the exit, and a block for
the function itself. Every run of the function can be traced through its graph: returns and errors
end in the exit, and falling off the end of the body is noted.
-/
namespace FlowCheck

open Execution

/-- Where a run of a function ends in its graph: at the end of the exit when the function returns or
an error leaves it, and at the end of some block when control falls off the end of a body that
should return a result. No jump leaves a function. -/
def Graph.Concludes (g : Graph) (b : BlockId) (k : ℕ) : Ending → Prop
  | .cut => True
  | .normal => g.endReachable = true ∧ k = (g.nodes b).length
  | .ret | .error _ => g.exit = some b ∧ k = (g.nodes b).length
  | .jump _ => False

namespace Build

variable {facts : Facts} {d : FuncDecl}

/-! ### The first blocks -/

/-- The graph with the blocks that every function has. -/
def frameGraph (name : String) : Graph :=
  { (((Graph.ofName name).newBlock .ret).2.newBlock .exit).2 with ret := some 1, exit := some 2 }

theorem size_frameGraph (name : String) : (frameGraph name).blocks.size = 3 := rfl

theorem bare_frameGraph (name : String) (b : BlockId) : (frameGraph name).succs b = [] ∧
    (frameGraph name).preds b = [] ∧ (frameGraph name).nodes b = [] ∧
    (frameGraph name).phis b = [] := by
  change (((Graph.ofName name).newBlock .ret).2.newBlock .exit).2.succs b = [] ∧
    (((Graph.ofName name).newBlock .ret).2.newBlock .exit).2.preds b = [] ∧
    (((Graph.ofName name).newBlock .ret).2.newBlock .exit).2.nodes b = [] ∧
    (((Graph.ofName name).newBlock .ret).2.newBlock .exit).2.phis b = []
  simp only [Graph.ofName, Graph.succs_newBlock, Graph.preds_newBlock, Graph.nodes_newBlock]
  refine ⟨Graph.succs_of_size_le (Nat.zero_le b), Graph.preds_of_size_le (Nat.zero_le b),
    Graph.nodes_of_size_le (Nat.zero_le b), ?_⟩
  exact (Graph.Assembled.ofName name |>.newBlock .ret |>.newBlock .exit).phis_eq_nil b

theorem sane_frameGraph (name : String) : Sane ((frameGraph name).addEdge 1 2) := by
  have hwf := ((Graph.WellFormed.ofName name).newBlock .ret).newBlock .exit
  have hframe : (frameGraph name).WellFormed :=
    ⟨hwf.entry_eq, hwf.size_pos, hwf.id_eq, hwf.mem_preds, hwf.succs_nodup, hwf.preds_nodup⟩
  have hsize := size_frameGraph name
  have hbare := bare_frameGraph name
  obtain ⟨hexit, hret, horder⟩ := Sane.fields_addEdge (frameGraph name) 1 2
  refine ⟨hframe.addEdge (by simp [hsize]) (by simp [hsize]), ?_, ?_, ?_, ?_, ?_, ?_⟩
  · rw [Graph.preds_addEdge 1 (by simp [hsize]), if_neg (by simp), (hbare 0).2.1]
  · intro x hx
    rw [hexit] at hx
    obtain rfl : 2 = x := Option.some_inj.mp hx
    simp [hsize]
  · intro x hx
    rw [hexit] at hx
    obtain rfl : 2 = x := Option.some_inj.mp hx
    rw [Graph.succs_addEdge 2 (by simp [hsize]), if_neg (by simp), (hbare 2).1]
  · intro r x hr hx
    rw [hret] at hr
    rw [hexit] at hx
    obtain rfl : 1 = r := Option.some_inj.mp hr
    obtain rfl : 2 = x := Option.some_inj.mp hx
    exact (Graph.mem_succs_addEdge 2 (by simp [hsize])).mpr (.inr ⟨rfl, rfl⟩)
  · intro b
    rw [Graph.phis_addEdge, (hbare b).2.2.2]
  · rw [horder]
    rfl

/-- The targets of the body of a function. -/
def bodyTargets : List Target := [.escape 2, .landing .functionEnd 1]

/-- The state in which the statements of a function are built. -/
structure Started (d : FuncDecl) (s : State) : Prop where
  safe : Safe s
  clean : Clean s
  tidy : Tidy bodyTargets s
  fits : ∀ a ∈ bodyTargets, Fits s.graph a
  ret : s.graph.ret = some 1
  exit : s.graph.exit = some 2
  nodes : s.graph.nodes 1 = [.stmt (.block d.body)]
  edge : s.graph.Edge 1 2
  bare : s.graph.nodes 2 = []
  apart : ¬ Own s 2
  simulates : ∀ G, s.graph.Grows G → G.entry = 0 → ∀ t e, Visits (.func d) t e →
    Ends (At G s) s.graph G bodyTargets t e

/-- What a function does after its first blocks. -/
def statements (facts : Facts) (d : FuncDecl) : Builder Unit := do
  stmtList facts bodyTargets d.body.stmts
  if (← cursor).isSome then
    modify fun s => { s with graph := { s.graph with endReachable := true } }
    if d.result.isSome then
      report .error .missingReturn d.body.close "missing return statement at end of subroutine body"
    else connectHere 1

/-- The first blocks with the body as a node of the return block. -/
def frameState (d : FuncDecl) (name : String) : State :=
  State.withNode { graph := (frameGraph name).addEdge 1 2, cursor := some 1 } 1
    (.stmt (.block d.body))

/-- The same with a block for the function. -/
def startState (d : FuncDecl) (name : String) : State :=
  ((frameState d name).branched .plain (some 0)).withNode (frameState d name).graph.blocks.size
    (.func d)

theorem function_eq (facts : Facts) (d : FuncDecl) (name : String) :
    function facts d { graph := .ofName name } = statements facts d (startState d name) := rfl

theorem safe_frameState (d : FuncDecl) (name : String) : Safe (frameState d name) := by
  refine safe_withNode ⟨sane_frameGraph name, ?_⟩ 1 _
  rintro b ⟨⟩
  refine ⟨?_, ?_⟩
  · rw [Graph.size_addEdge, size_frameGraph]
    decide
  · rw [(Sane.fields_addEdge _ 1 2).1]
    simp [frameGraph]

theorem started_startState (d : FuncDecl) (name : String) : Started d (startState d name) := by
  have hs₁ := safe_frameState d name
  have hsize : (frameState d name).graph.blocks.size = 3 := rfl
  have hexit : (frameState d name).graph.exit = some 2 := (Sane.fields_addEdge _ 1 2).1
  have hret : (frameState d name).graph.ret = some 1 := (Sane.fields_addEdge _ 1 2).2.1
  have hsrc : ∀ x, some 0 = some x → Source (frameState d name).graph x := by
    rintro x ⟨⟩
    exact ⟨by rw [hsize]; decide, by rw [hexit]; decide⟩
  have hw₂ := wired_branched hs₁.sane hsrc .plain
  have hs₂ := safe_branched hs₁.sane hsrc .plain
  have hfits : ∀ a ∈ bodyTargets, Fits (frameState d name).graph a := by
    intro a ha
    simp only [bodyTargets, List.mem_cons, List.not_mem_nil, or_false] at ha
    rcases ha with rfl | rfl
    · exact ⟨by decide, by rw [hsize]; decide⟩
    · exact ⟨by decide, by rw [hsize]; decide⟩
  have htidy := tidy_branched hs₁.sane hsrc hfits .plain
  have hfunc : Built bodyTargets (Visits (.func d)) ((frameState d name).branched .plain (some 0))
      (startState d name) := built_withNode hs₂ rfl
  have hl := hw₂.later.trans hfunc.later
  have hclean : Clean (startState d name) := by
    intro x hx
    cases hx
  have hret' := hl.ret_eq.trans hret
  have hexit' := hl.exit_eq.trans hexit
  refine ⟨hfunc.safe, hclean, (hfunc.framed hclean htidy).tidy, fun a ha => (hfits a ha).later hl,
    hret', hexit', ?_, hfunc.safe.sane.ret_edge 1 2 hret' hexit', ?_, ?_, ?_⟩
  · change (((frameState d name).branched .plain (some 0)).graph.addNode 3 (.func d)).nodes 1 = _
    rw [Graph.nodes_addNode_ne _ (by decide), hw₂.nodes, frameState, nodes_withNode,
      Graph.nodes_addEdge, (bare_frameGraph name 1).2.2.1, List.nil_append]
    rw [Graph.size_addEdge, size_frameGraph]
    decide
  · change (((frameState d name).branched .plain (some 0)).graph.addNode 3 (.func d)).nodes 2 = _
    rw [Graph.nodes_addNode_ne _ (by decide), hw₂.nodes]
    refine (Graph.nodes_addNode_ne _ (by decide)).trans ?_
    rw [Graph.nodes_addEdge, (bare_frameGraph name 2).2.2.1]
  · rintro (hcur | hle)
    · cases hcur
    · have hlt : 2 < (frameState d name).graph.blocks.size := by
        rw [hsize]
        decide
      exact Nat.lt_irrefl _ (Nat.lt_of_lt_of_le hlt (hl.size_le.trans hle))
  · intro G hG hentry t e hrun
    have hG₂ := (hfunc.framed hclean htidy).frame.grows.trans hG
    refine hfunc.simulates hclean htidy G hG [] t e ?_ hrun
    refine at_branched hs₁.sane (hsrc 0 rfl) hG₂ ?_
    have hnodes : (frameState d name).graph.nodes 0 = [] := by
      refine (Graph.nodes_addNode_ne _ (by decide)).trans ?_
      rw [Graph.nodes_addEdge, (bare_frameGraph name 0).2.2.1]
    rw [hnodes, ← hentry]
    exact .entry

/-! ### Runs of a function -/

theorem grounded_bodyTargets : Grounded bodyTargets :=
  ⟨⟨2, by simp [bodyTargets]⟩, .inr ⟨1, by simp [bodyTargets]⟩⟩

theorem edge_of_leads_error {g : Graph} {c : BlockId} {x : Failure}
    (h : g.Leads (.error x) c bodyTargets) : g.Edge c 2 := by
  cases h with
  | taken htakes he =>
    obtain rfl : 2 = _ := Option.some_inj.mp htakes
    exact he
  | past hignores _ => cases hignores

/-- Of all jumps, only returns get to the edge of a function. -/
theorem edge_of_leads_jump {g : Graph} {c : BlockId} {exit : Exit}
    (h : g.Leads (.jump exit) c bodyTargets) : exit = .functionEnd ∧ g.Edge c 1 := by
  cases h with
  | taken htakes _ => cases htakes
  | past _ hbeyond =>
    by_cases hexit : exit = .functionEnd
    · subst hexit
      exact ⟨rfl, edge_of_leads hbeyond⟩
    · have hnone := leads_of_landing hbeyond (by simpa using hexit)
      cases hnone

/-- A function has been built: all that can be observed of it can be traced. -/
structure Finished (facts : Facts) (d : FuncDecl) (s : State) : Prop where
  sane : Sane s.graph
  ret : s.graph.ret = some 1
  exit : s.graph.exit = some 2
  traced : Clean s → ∀ t e, Execution.function facts d t e →
    ∃ b k, s.graph.Traces t b k ∧ s.graph.Concludes b k e

/-- From the beginning of the return block, with the body as its node, to the exit. -/
theorem traced_return {g : Graph} {t t' : List Moment} {e : Ending} (hexit : g.exit = some 2)
    (hbare : g.nodes 2 = []) (hnodes : g.nodes 1 = [.stmt (.block d.body)]) (hedge : g.Edge 1 2)
    (ht : g.Traces t 1 0)
    (hrun : Then (Visits (.stmt (.block d.body))) (silent .ret) t' e) :
    ∃ b k, g.Traces (t ++ t') b k ∧ g.Concludes b k e := by
  have hnext : (g.nodes 1)[0]? = some (.stmt (.block d.body)) := by simp [hnodes]
  cases hrun with
  | stops hfirst hne =>
    cases hfirst with
    | before => exact ⟨1, 0, by simpa using ht, trivial⟩
    | during => exact ⟨1, 0, ht.start hnext, trivial⟩
    | completes => exact absurd rfl hne
  | goesOn hfirst hsecond =>
    obtain ⟨rfl, rfl⟩ := hsecond
    cases hfirst
    have hend := (ht.start hnext).complete hnext
    refine ⟨2, 0, ?_, hexit, by rw [hbare]; rfl⟩
    refine Graph.Traces.pass (b := 1) ?_ hedge
    simpa [hnodes] using hend

theorem finished_of_wired {s s₁ s' : State} (h : Started d s)
    (h₁ : Built bodyTargets (Execution.stmtList facts d.body.stmts) s s₁)
    (hw : Wired (fun c => s₁.cursor = some c) s₁ s')
    (hend : ∀ c, s₁.cursor = some c → s'.graph.endReachable = true)
    (hedge : ∀ c, s₁.cursor = some c → d.result.isSome = false → s'.graph.Edge c 1) :
    Finished facts d s' := by
  have hl := h₁.later.trans hw.later
  have hexit := hl.exit_eq.trans h.exit
  refine ⟨hw.sane, hl.ret_eq.trans h.ret, hexit, ?_⟩
  intro hc t e hrun
  have hc₁ := hw.later.clean hc
  have hG₁ : s₁.graph.Grows s'.graph := hw.grows
  have hG : s.graph.Grows s'.graph := (h₁.framed hc₁ h.tidy).frame.grows.trans hG₁
  have hbare : s'.graph.nodes 2 = [] := by
    rw [hw.nodes, (h₁.framed hc₁ h.tidy).frame.nodes 2 h.apart, h.bare]
  have hfunc := h.simulates s'.graph hG hw.sane.wellFormed.entry_eq
  -- a return, or the end of a body without a result, gets to the return block
  have hback : ∀ {t t' e}, s'.graph.Traces t 1 0 →
      Then (Visits (.stmt (.block d.body))) (silent .ret) t' e →
      ∃ b k, s'.graph.Traces (t ++ t') b k ∧ s'.graph.Concludes b k e := fun ht =>
    traced_return hexit hbare (by rw [hG.closed 1 (List.ne_nil_of_mem h.edge), h.nodes])
      (hl.succs h.edge) ht
  cases hrun with
  | stops hfirst hne =>
    have hcut : e = .cut := by cases hfirst <;> simp_all
    subst hcut
    obtain ⟨b, k, ht⟩ := (hfunc _ _ hfirst).cut rfl
    exact ⟨b, k, ht, trivial⟩
  | @goesOn t₁ t₂ _ hfirst hsecond =>
    have hat := (hfunc _ _ hfirst).normal rfl
    have hbody := fun t' e => h₁.simulates hc₁ h.tidy s'.graph hG₁ t₁ t' e hat
    cases hsecond with
    | passes hrun hnotBack hnotEnd =>
      have hends := hbody _ _ hrun
      cases e with
      | normal =>
        obtain ⟨b, hb, ht⟩ := hends.normal rfl
        rw [← hw.nodes] at ht
        exact ⟨b, _, ht, hend b hb, rfl⟩
      | jump kind =>
        obtain ⟨c, -, hl⟩ := hends.abrupt _ rfl
        have hexit := (edge_of_leads_jump hl).1
        cases kind <;> cases hexit
      | ret => exact absurd rfl hnotBack
      | error x =>
        obtain ⟨c, ht, hl⟩ := hends.abrupt _ rfl
        refine ⟨2, 0, ht.pass (hw.later.succs (edge_of_leads_error hl)), hexit, ?_⟩
        rw [hbare]
        rfl
      | cut =>
        obtain ⟨b, k, ht⟩ := hends.cut rfl
        exact ⟨b, k, ht, trivial⟩
    | returns hrun hwhy hreads =>
      rw [← List.append_assoc]
      refine hback ?_ hreads
      have hends := hbody _ _ hrun
      rcases hwhy with rfl | ⟨rfl, hresult⟩
      · obtain ⟨c, ht, hl⟩ := hends.abrupt _ rfl
        exact ht.pass (hw.later.succs (edge_of_leads_jump hl).2)
      · have hat₁ := hends.normal rfl
        exact (enters_of_at hw (fun c hc => hedge c hc hresult) (.refl _) hat₁).traces (.refl _)

/-- The state in which control is known to fall off the end of the body. -/
def State.fallenOff (s : State) : State :=
  { s with graph := { s.graph with endReachable := true } }

theorem wired_fallenOff {A : BlockId → Prop} {s : State} (hs : Sane s.graph) :
    Wired A s s.fallenOff := by
  obtain ⟨hwf, h₁, h₂, h₃, h₄, h₅, h₆⟩ := hs
  refine ⟨⟨?_, h₁, h₂, h₃, h₄, h₅, h₆⟩, ⟨le_rfl, rfl, rfl, List.prefix_rfl, id⟩, fun _ => rfl,
    fun _ _ => rfl⟩
  exact ⟨hwf.entry_eq, hwf.size_pos, hwf.id_eq, hwf.mem_preds, hwf.succs_nodup, hwf.preds_nodup⟩

theorem endReachable_withEdge (s : State) (a : Option BlockId) (b : BlockId) :
    (s.withEdge a b).graph.endReachable = s.graph.endReachable := by
  cases a with
  | none => rfl
  | some a =>
    change (s.graph.addEdge a b).endReachable = _
    unfold Graph.addEdge
    split_ifs <;> rfl

/-- What is done about the end of the body of a function, if the body has been built up to it. -/
def State.concluded (s : State) (d : FuncDecl) : State :=
  if s.cursor.isSome then
    if d.result.isSome then
      s.fallenOff.reported .missingReturn d.body.close
        "missing return statement at end of subroutine body"
    else s.fallenOff.withEdge s.cursor 1
  else s

/-- Something is reported at the end of the body only if control gets there and there is a result to
return. -/
theorem mem_diagnostics_concluded {s : State} {x : Diagnostic}
    (hx : x ∈ (s.concluded d).diagnostics) :
    x ∈ s.diagnostics ∨ x.pos = d.body.close ∧ d.result.isSome ∧ s.cursor.isSome := by
  unfold State.concluded at hx
  split_ifs at hx with hcursor hresult
  · refine (List.mem_append.mp hx).imp id fun hx => ?_
    obtain rfl := List.mem_singleton.mp hx
    exact ⟨rfl, hresult, hcursor⟩
  · exact .inl hx
  · exact .inl hx

theorem ok_statements {s s₁ : State} (h : stmtList facts bodyTargets d.body.stmts s = .ok () s₁) :
    statements facts d s = .ok () (s₁.concluded d) := by
  rw [statements, bind_of_ok h, bind_of_ok (show cursor s₁ = .ok s₁.cursor s₁ from rfl),
    State.concluded]
  split_ifs <;> rfl

theorem finished_concluded {made : List (Stmt × BlockId)} {name : String} {s : State}
    (h : Course facts bodyTargets (.stmts d.body.stmts) (startState d name) made s) :
    Finished facts d (s.concluded d) := by
  have hstart := started_startState d name
  have hbuilt := h.realized grounded_bodyTargets hstart.safe hstart.fits
  have hs := hbuilt.safe
  have hw : Wired (fun c => s.cursor = some c) s s.fallenOff := wired_fallenOff hs.sane
  have hsrc : ∀ x, s.cursor = some x → Source s.fallenOff.graph x := fun x hx =>
    hw.later.source (hs.cursor x hx)
  have hgoal : Goal s.fallenOff.graph 1 := (hbuilt.later.trans hw.later).goal
    (hstart.fits (.landing .functionEnd 1) (by simp [bodyTargets]))
  unfold State.concluded
  split_ifs with hsome hresult
  · refine finished_of_wired hstart hbuilt (hw.trans (wired_reported hw.sane _ _ _))
      (fun _ _ => rfl) ?_
    simp [hresult]
  · refine finished_of_wired hstart hbuilt (hw.trans (wired_withEdge hw.sane hsrc hgoal)) ?_ ?_
    · exact fun x _ => endReachable_withEdge s.fallenOff s.cursor 1
    · intro x hx _
      rw [hx]
      exact edge_withEdge (hsrc x hx)
  · rw [Option.not_isSome_iff_eq_none] at hsome
    exact finished_of_wired hstart hbuilt (.refl hs.sane) (by simp [hsome]) (by simp [hsome])

end Build

namespace Construction

open Build

variable {facts : Facts} {d : FuncDecl} {g : Graph}

/-- A function is built in the course of its statements, or construction fails within them. -/
theorem ofFunc_cases (facts : Facts) (d : FuncDecl) :
    (∃ made s, Course facts bodyTargets (.stmts d.body.stmts) (startState d d.name.text) made s ∧
      stmtList facts bodyTargets d.body.stmts (startState d d.name.text) = .ok () s ∧
      ofFunc facts d =
        ⟨.ok (s.concluded d).graph, (s.concluded d).diagnostics, (s.concluded d).dead⟩) ∨
    ∃ e s, Fails facts bodyTargets (.stmts d.body.stmts) (startState d d.name.text) e s ∧
      ofFunc facts d = ⟨.error e, s.diagnostics, s.dead⟩ := by
  have hbody := constructs_stmtList facts bodyTargets d.body.stmts (startState d d.name.text)
  unfold ofFunc
  rw [function_eq]
  cases h : stmtList facts bodyTargets d.body.stmts (startState d d.name.text) with
  | ok _ s =>
    obtain ⟨made, hcourse⟩ := hbody.ok h
    exact .inl ⟨made, s, hcourse, rfl, by rw [ok_statements h]⟩
  | error e s =>
    refine .inr ⟨e, s, hbody.error h, ?_⟩
    rw [show statements facts d (startState d d.name.text) = .error e s from
      error_bind.mpr (.inl h)]

/-- A function whose graph has been built has been built in the course of its statements. -/
theorem exists_course (hg : (ofFunc facts d).outcome = .ok g) :
    ∃ made s, Course facts bodyTargets (.stmts d.body.stmts) (startState d d.name.text) made s ∧
      stmtList facts bodyTargets d.body.stmts (startState d d.name.text) = .ok () s ∧
      g = (s.concluded d).graph ∧ (ofFunc facts d).diagnostics = (s.concluded d).diagnostics ∧
      (ofFunc facts d).dead = (s.concluded d).dead := by
  rcases ofFunc_cases facts d with ⟨made, s, hcourse, hbody, h⟩ | ⟨e, s, -, h⟩
  · rw [h] at hg ⊢
    cases hg
    exact ⟨made, s, hcourse, hbody, rfl, rfl, rfl⟩
  · rw [h] at hg
    cases hg

/-- A function whose construction fails fails within its statements. -/
theorem exists_fails {e : Aborted} (he : (ofFunc facts d).outcome = .error e) :
    ∃ s, Fails facts bodyTargets (.stmts d.body.stmts) (startState d d.name.text) e s ∧
      (ofFunc facts d).diagnostics = s.diagnostics ∧ (ofFunc facts d).dead = s.dead := by
  rcases ofFunc_cases facts d with ⟨made, s, -, -, h⟩ | ⟨e, s, hfails, h⟩
  · rw [h] at he
    cases he
  · rw [h] at he ⊢
    cases he
    exact ⟨s, hfails, rfl, rfl⟩

/-- Building a function fails only on a jump out of a `finally` block. -/
theorem outcome_ofFunc (facts : Facts) (d : FuncDecl) :
    (ofFunc facts d).outcome = .error .jumpOutOfFinally ∨
      ∃ s, Finished facts d s ∧ (ofFunc facts d).outcome = .ok s.graph ∧
        (ofFunc facts d).diagnostics = s.diagnostics := by
  rcases ofFunc_cases facts d with ⟨made, s, hcourse, -, h⟩ | ⟨e, s, hfails, h⟩
  · exact .inr ⟨s.concluded d, finished_concluded hcourse, by rw [h], by rw [h]⟩
  · rw [h, hfails.error_eq grounded_bodyTargets]
    exact .inl rfl

/-- Every observation of a function is traced through its graph, if no jump in it is a stray one. -/
theorem traced_of_function (hg : (ofFunc facts d).outcome = .ok g)
    (hjumps : ∀ x ∈ (ofFunc facts d).diagnostics, x.code ≠ .noEnclosingLoop) {t : List Moment}
    {e : Ending} (hrun : Execution.function facts d t e) :
    ∃ b k, g.Traces t b k ∧ g.Concludes b k e := by
  rcases outcome_ofFunc facts d with hfail | ⟨s, hfinished, hok, hdiag⟩
  · rw [hg] at hfail
    cases hfail
  · obtain rfl : g = s.graph := by
      rw [hg] at hok
      exact Except.ok.inj hok
    exact hfinished.traced (fun x hx => hjumps x (hdiag ▸ hx)) t e hrun

/-- The nodes that a run of a function completes are those of a path of its graph from the entry:
of all blocks passed, and of the block arrived in up to some place. -/
theorem exists_path_of_function (hg : (ofFunc facts d).outcome = .ok g)
    (hjumps : ∀ x ∈ (ofFunc facts d).diagnostics, x.code ≠ .noEnclosingLoop) {t : List Moment}
    {e : Ending} (hrun : Execution.function facts d t e) :
    ∃ l b k, g.Path g.entry l b ∧ k ≤ (g.nodes b).length ∧
      completed t = l.flatMap g.nodes ++ (g.nodes b).take k ∧ g.Concludes b k e := by
  obtain ⟨b, k, ht, hend⟩ := traced_of_function hg hjumps hrun
  obtain ⟨l, hl, hk, hnodes⟩ := ht.exists_path
  exact ⟨l, b, k, hl, hk, hnodes, hend⟩

/-- The graph of the only function of a list, from what is read off its construction. -/
theorem exists_graph_of_map {α β : Type} {ds : List FuncDecl} {p : Graph → α} {q : FuncDecl → β} {a : α}
    {b : β} (h : ds.map (fun d => ((ofFunc facts d).outcome.toOption.map p, q d)) = [(some a, b)]) :
    ∃ d g, ds = [d] ∧ (ofFunc facts d).outcome = .ok g ∧ p g = a ∧ q d = b := by
  obtain ⟨d, hds, hbuilt⟩ := List.map_eq_singleton_iff.mp h
  obtain ⟨hgraph, hrest⟩ := Prod.mk.inj hbuilt
  cases hg : (ofFunc facts d).outcome with
  | error e =>
    rw [hg] at hgraph
    cases hgraph
  | ok g =>
    rw [hg] at hgraph
    exact ⟨d, g, hds, hg, Option.some_inj.mp hgraph, hrest⟩

/-- What is thrown, and the throw. -/
def throwingExpr : Expr := .ident ⟨⟨.none, 7⟩, "x"⟩

def throwingNode : Node := .stmt (.raise ⟨.none, 6⟩ throwingExpr)

/-- A function without parameters that throws from a try statement with an empty `finally` block. -/
def throwing : FuncDecl where
  mark := ⟨.none, 1⟩
  name := ⟨⟨.none, 2⟩, "f"⟩
  params := []
  result := none
  throws := []
  body := .mk ⟨.none, 3⟩
    [.attempt ⟨.none, 4⟩ (.mk ⟨.none, 5⟩ [.raise ⟨.none, 6⟩ throwingExpr] .none) []
      (some (.mk ⟨.none, 8⟩ [] .none))] .none

/-- The throw reads a variable that nothing assigns. -/
def throwingFacts : Facts where
  defs _ := []
  uses n := if n.id = 6 then [⟨⟨0, "x", .local, .none⟩, ⟨"", 1, 1⟩⟩] else []
  raises n := if n.id = 6 then [.any] else []
  catches _ := .any
  constant _ := none

/-- The error leaves the function through the `finally` block. -/
theorem function_throwing : Execution.function throwingFacts throwing
    [.started (.func throwing), .completed (.func throwing), .started throwingNode,
      .completed throwingNode] (.error ⟨⟨0, "D"⟩, "C"⟩) := by
  have hthrow : Throws throwingFacts throwingNode [.started throwingNode, .completed throwingNode]
      (.error ⟨⟨0, "D"⟩, "C"⟩) := .raises (a := .any) (by decide) rfl
  have hbody : Execution.block throwingFacts (.mk ⟨.none, 5⟩ [.raise ⟨.none, 6⟩ throwingExpr] .none)
      [.started throwingNode, .completed throwingNode] (.error ⟨⟨0, "D"⟩, "C"⟩) := by
    rw [Execution.block, Execution.stmtList, Execution.stmt]
    exact .stops hthrow (by simp)
  have hattempt : Execution.stmtList throwingFacts throwing.body.stmts
      [.started throwingNode, .completed throwingNode] (.error ⟨⟨0, "D"⟩, "C"⟩) := by
    change Execution.stmtList throwingFacts [.attempt ..] _ _
    rw [Execution.stmtList, Execution.stmt, Execution.cleanupOption]
    have hunhandled : Execution.handlerList throwingFacts [] ⟨⟨0, "D"⟩, "C"⟩ []
        (.error ⟨⟨0, "D"⟩, "C"⟩) := by
      rw [Execution.handlerList]
      exact ⟨rfl, rfl⟩
    have hcleanup : Execution.block throwingFacts (.mk ⟨.none, 8⟩ [] .none) [] .normal := by
      rw [Execution.block, Execution.stmtList]
      exact ⟨rfl, rfl⟩
    exact .stops (Cleaned.keeps (Guarded.handles hbody hunhandled) (by simp) hcleanup) (by simp)
  exact Then.goesOn Visits.completes (Returns.passes hattempt (by simp) (by simp))

theorem exists_path_throwing : ∃ g, (ofFunc throwingFacts throwing).outcome = .ok g ∧
    (∀ x ∈ (ofFunc throwingFacts throwing).diagnostics, x.code ≠ .noEnclosingLoop) ∧
    ∃ l b k, g.Path g.entry l b ∧ k ≤ (g.nodes b).length ∧
      [.func throwing, throwingNode] = l.flatMap g.nodes ++ (g.nodes b).take k ∧
      g.exit = some b ∧ k = (g.nodes b).length := by
  have hjumps : ∀ x ∈ (ofFunc throwingFacts throwing).diagnostics, x.code ≠ .noEnclosingLoop := by
    decide +kernel
  have hg : ∃ g, (ofFunc throwingFacts throwing).outcome = .ok g := by
    have hok : (ofFunc throwingFacts throwing).outcome.isOk = true := by decide +kernel
    revert hok
    cases (ofFunc throwingFacts throwing).outcome <;> simp [Except.isOk, Except.toBool]
  obtain ⟨g, hg⟩ := hg
  exact ⟨g, hg, hjumps, exists_path_of_function hg hjumps function_throwing⟩

end Construction

end FlowCheck
