import FlowCheck.Proofs.Build.Branching

/-!
# Building loops

Every round of a loop comes back to its header. A round begins at the end of the test and is over
when the header is entered again; the loop is over when the block after it is entered.
-/
namespace FlowCheck.Build

open Execution

/-! ### Runs of loops -/

section

variable {g G : Graph} {T : List Target} {t' : List Moment} {e : Ending} {header p after : BlockId}

/-- A run of a loop ends where its test or one of its rounds does. -/
theorem Ends.loops {test round : Behavior} {leave enter : Prop} {M N : List Moment → Prop}
    (htest : ∀ t t' e, G.Traces t header 0 → test t' e → Ends M g G T (t ++ t') e)
    (hleave : leave → ∀ t, M t → N t)
    (hround : enter → ∀ t t' e, M t → round t' e →
      Ends (fun t => G.Traces t header 0) g G T (t ++ t') e)
    (hrun : Loops test leave enter round t' e) {t : List Moment} (ht : G.Traces t header 0) :
    Ends N g G T (t ++ t') e := by
  -- the invariant of the rounds is to stand at the beginning of the header
  induction hrun generalizing t with
  | cut => exact .of_cut (by simpa using ht)
  | stops htested hne => exact (htest _ _ _ ht htested).later hne id
  | leaves hmay htested => exact .of_normal (hleave hmay _ ((htest _ _ _ ht htested).normal rfl))
  | breaks hmay htested hrun hne =>
    have hmid := (htest _ _ _ ht htested).normal rfl
    rw [← List.append_assoc]
    exact (hround hmay _ _ _ hmid hrun).later hne id
  | again hmay htested hrun _ ih =>
    have hmid := (htest _ _ _ ht htested).normal rfl
    have hback := (hround hmay _ _ _ hmid hrun).normal rfl
    rw [← List.append_assoc, ← List.append_assoc]
    exact ih hback

/-- Jumps to the next round land where the post statement is, and jumps to the end go on. -/
theorem Ends.next {N : List Moment → Prop} {B : Behavior} {t : List Moment}
    (hrun : Lands .toNext B t' e)
    (h : ∀ e, B t' e → Ends N g G
      (.landing .loopEnd after :: .landing .nextRound p :: T) (t ++ t') e)
    (hN : Enters g G p (t ++ t') → N (t ++ t')) :
    Ends N g G (.landing .loopEnd after :: T) (t ++ t') e := by
  refine Ends.lands (b := p) hrun (fun e he => ?_) hN
  exact (h e he).mono (fun _ => id) fun _ _ _ => leads_swap (by simp)

theorem then_silent {A : Behavior} (h : A t' e) : Then A (silent .normal) t' e := by
  by_cases he : e = .normal
  · subst he
    simpa using Then.goesOn h (B := silent .normal) ⟨rfl, rfl⟩
  · exact .stops h he

end

/-! ### The way back to the header -/

section

variable {s s₁ s₂ s' : State} {T : List Target} {facts : Facts} {header after : BlockId}
  {post : Option (Simple × BlockId)}

/-- The block that a round goes to when its body is over. -/
def roundEnd (header : BlockId) (post : Option (Simple × BlockId)) : BlockId :=
  post.elim header Prod.snd

/-- What closing a round does: whoever gets to the end of the body gets to the header. -/
structure Closed (facts : Facts) (T : List Target) (header : BlockId)
    (post : Option (Simple × BlockId)) (s s' : State) : Prop where
  sane : Sane s'.graph
  later : Later s s'
  frame : Clean s' → (∀ q, post = some q → Reserved (lasts T) s q.2) →
    Frame (fun c => Own s c ∨ ∃ q, post = some q ∧ q.2 = c) (lasts T) s.graph s'.graph
  simulates : Clean s' → (∀ q, post = some q → Reserved (lasts T) s q.2) → ∀ G, s'.graph.Grows G →
    ∀ t t' e, At G s t ∨ Enters s.graph G (roundEnd header post) t →
      simpleOption facts (post.map Prod.fst) t' e →
      Ends (Enters s'.graph G header) s'.graph G T (t ++ t') e

theorem closed_none (hs : Safe s) (hheader : Goal s.graph header) :
    Closed facts T header none s (s.withEdge s.cursor header) := by
  have hw := wired_withEdge hs.sane hs.cursor hheader
  refine ⟨hw.sane, hw.later, fun _ _ => hw.frame fun c hc => .inl (.inl (.inl hc)), ?_⟩
  rintro _ _ G hG t t' e hat ⟨rfl, rfl⟩
  rw [List.append_nil]
  refine .of_normal ?_
  rcases hat with hat | henters
  · exact enters_of_at hw (fun c hc => edge_withCursor hs hc) hG hat
  · exact henters.mono hw.later.succs

/-- Nobody gets to the end of the body, so the step after it is dead. -/
theorem closed_dead {step : Simple} {b : BlockId} (hs : Safe s) (hnone : s.cursor = none)
    (hempty : s.graph.preds b = []) (dead : List ℕ) :
    Closed facts T header (some (step, b)) s (State.withEdge { s with dead } none header) := by
  have hw : Wired (fun _ => False) s (State.withEdge { s with dead } none header) :=
    .of_graph_eq hs.sane rfl List.prefix_rfl
  refine ⟨hw.sane, hw.later, fun _ _ => hw.frame (by simp), ?_⟩
  rintro _ _ G _ t t' e (⟨c, hc, -⟩ | henters) _
  · rw [hnone] at hc
    cases hc
  · exact absurd hempty (henters.preds_ne_nil hs.sane.wellFormed)

theorem closed_step {step : Simple} {b : BlockId} {s₃ : State} (hs : Safe s)
    (hheader : Goal s.graph header) (hb : Goal s.graph b)
    (h₃ : Built T (Evaluates facts (.stmt (.simple step)))
      ((s.withEdge s.cursor b).movedTo (some b)) s₃) :
    Closed facts T header (some (step, b)) s (s₃.withEdge s₃.cursor header) := by
  have hw₁ := wired_withEdge hs.sane hs.cursor hb
  have hl₃ : Later s s₃ := hw₁.later.trans (later_of_movedTo h₃.later)
  have hw₄ := wired_withEdge h₃.safe.sane h₃.safe.cursor (hl₃.goal hheader)
  have htidy : Reserved (lasts T) s b → Tidy T ((s.withEdge s.cursor b).movedTo (some b)) := by
    rintro hb c ⟨⟩
    exact ⟨(hw₁.blank hb.cursor hb.blank).succs, hb.notLast⟩
  have hown : ∀ {c}, Own ((s.withEdge s.cursor b).movedTo (some b)) c →
      Own s c ∨ ∃ q, some (step, b) = some q ∧ q.2 = c := by
    rintro c (hc | hc)
    · exact .inr ⟨_, rfl, Option.some_inj.mp hc⟩
    · exact .inl (.inr (hw₁.later.size_le.trans hc))
  refine ⟨hw₄.sane, hl₃.trans hw₄.later, ?_, ?_⟩
  · intro hc hkept
    have hf := h₃.framed (hw₄.later.clean hc) (htidy (hkept _ rfl))
    refine (hw₁.frame fun c hc => .inl (.inl (.inl hc))).trans ((hf.frame.mono (fun _ => hown)
      fun _ => .inr).trans (hw₄.frame fun c hc => .inl (hown (hf.owned c hc))))
  · intro hc hkept G hG t t' e hat hrun
    have hc₃ := hw₄.later.clean hc
    have htidy₂ := htidy (hkept _ rfl)
    have hf := h₃.framed hc₃ htidy₂
    have hG₃ := hw₄.grows.trans hG
    have hG₁ : (s.withEdge s.cursor b).graph.Grows G := hf.frame.grows.trans hG₃
    have henters : Enters (s.withEdge s.cursor b).graph G b t := by
      rcases hat with hat | henters
      · exact enters_of_at hw₁ (fun c hc => edge_withCursor hs hc) hG₁ hat
      · exact henters.mono hw₁.later.succs
    have hat₂ : At G ((s.withEdge s.cursor b).movedTo (some b)) t := by
      refine ⟨b, rfl, ?_⟩
      change G.Traces t b ((s.withEdge s.cursor b).graph.nodes b).length
      rw [(hw₁.blank (hkept _ rfl).cursor (hkept _ rfl).blank).nodes]
      exact henters.traces hG₁
    refine (h₃.simulates hc₃ htidy₂ G hG₃ _ _ _ hat₂ hrun).mono ?_ fun _ _ _ hl =>
      hl.mono hw₄.later.succs
    intro _ hend
    exact enters_of_at hw₄ (fun c hc => edge_withCursor h₃.safe hc) hG hend

/-- The way back to the header of a loop has been built. -/
inductive Closes (facts : Facts) (T : List Target) (header : BlockId) :
    Option (Simple × BlockId) → State → State → Prop
  | straight {s : State} : Closes facts T header none s (s.withEdge s.cursor header)
  | dead {q : Simple} {b : BlockId} {s : State} (hb : (s.withEdge s.cursor b).graph.preds b = []) :
    Closes facts T header (some (q, b)) s
      (((s.withEdge s.cursor b).marked ((Node.stmt (.simple q)).subtree.map Node.id)).withEdge
        s.cursor header)
  | live {q : Simple} {b : BlockId} {s s₁ : State} (hb : (s.withEdge s.cursor b).graph.preds b ≠ [])
    (h : Added facts T (.stmt (.simple q)) ((s.withEdge s.cursor b).movedTo (some b)) s₁) :
    Closes facts T header (some (q, b)) s (s₁.withEdge s₁.cursor header)

theorem Closes.closed (h : Closes facts T header post s s') (hs : Safe s)
    (hT : ∀ a ∈ T, Fits s.graph a) (hground : Grounded T) (hheader : Goal s.graph header)
    (hpost : ∀ q, post = some q → Goal s.graph q.2 ∧ Source s.graph q.2) :
    Closed facts T header post s s' := by
  cases h with
  | straight => exact closed_none hs hheader
  | @dead q b _ hempty =>
    have hw := wired_withEdge hs.sane hs.cursor (hpost _ rfl).1
    have hnone : s.cursor = none := by
      by_contra hsome
      obtain ⟨c, hc⟩ := Option.ne_none_iff_exists'.mp hsome
      have hmem := (hw.sane.wellFormed.mem_preds c b).mpr (edge_withCursor hs hc)
      rw [hempty] at hmem
      cases hmem
    rw [hnone] at hempty ⊢
    exact closed_dead hs hnone hempty _
  | @live q b _ s₁ hne h =>
    obtain ⟨hgoal, hsource⟩ := hpost _ rfl
    have hw := wired_withEdge hs.sane hs.cursor hgoal
    have hs₁ : Safe ((s.withEdge s.cursor b).movedTo (some b)) :=
      ⟨hw.sane, by rintro c ⟨⟩; exact hw.later.source hsource⟩
    have hT₁ : ∀ a ∈ T, Fits (s.withEdge s.cursor b).graph a := fun a ha => (hT a ha).later hw.later
    exact closed_step hs hheader hgoal (h.realizes hground hs₁ hT₁)

theorem completes_closeRound (facts : Facts) (T : List Target) (header : BlockId)
    (q : Option (Simple × BlockId)) (s : State) : Completes (closeRound facts T header q) s := by
  cases q with
  | none => exact ⟨_, _, rfl⟩
  | some p =>
    obtain ⟨q, b⟩ := p
    refine Completes.bind ⟨_, _, rfl⟩ fun _ s₁ _ => Completes.bind ⟨_, _, rfl⟩ fun preds s₂ _ => ?_
    split_ifs
    · exact ⟨_, _, rfl⟩
    · refine Completes.bind ⟨_, _, rfl⟩ fun _ s₃ h => ?_
      cases h
      exact Completes.bind (completes_addNode facts T rfl _) fun _ _ _ => ⟨_, _, rfl⟩

theorem closes_closeRound (h : closeRound facts T header post s = .ok () s') :
    Closes facts T header post s s' := by
  cases post with
  | none =>
    cases h
    exact .straight
  | some p =>
    obtain ⟨q, b⟩ := p
    unfold closeRound at h
    obtain ⟨_, _, ⟨rfl⟩, h⟩ := ok_bind.mp h
    obtain ⟨_, _, ⟨rfl⟩, h⟩ := ok_bind.mp h
    split_ifs at h with hb
    · cases h
      exact .dead (List.isEmpty_iff.mp hb)
    · obtain ⟨_, _, ⟨rfl⟩, h⟩ := ok_bind.mp h
      obtain ⟨_, s₁, hadd, h⟩ := ok_bind.mp h
      cases h
      exact .live (fun he => hb (List.isEmpty_iff.mpr he)) ⟨⟨b, rfl⟩, hadd⟩

/-! ### Rounds -/

/-- The body of a loop is about to be built, from the end of its test at `s`. -/
structure Opened (T : List Target) (leave enter : Prop) (header after : BlockId)
    (post : Option (Simple × BlockId)) (s s₁ : State) : Prop where
  safe : Safe s₁
  wired : Wired (fun c => s.cursor = some c) s s₁
  tidy : Tidy T s → Tidy T s₁
  owned : ∀ c, s₁.cursor = some c → Own s c
  goal : Goal s₁.graph header
  kept : Reserved (lasts T) s₁ after
  keptPost : ∀ q, post = some q → Reserved (lasts T) s₁ q.2 ∧ q.2 ≠ after ∧ Own s q.2
  leaves : leave → ∀ c, s.cursor = some c → s₁.graph.Edge c after
  enters : enter → ∀ G t, s₁.graph.Grows G → At G s t → At G s₁ t

/-- The rounds of a loop have been built from the end of its test at `s`: one either leaves, or
takes a round and comes back to the header. -/
structure Turned (T : List Target) (leave enter : Prop) (round : Behavior) (header after : BlockId)
    (s s' : State) : Prop where
  sane : Sane s'.graph
  later : Later s s'
  source : Source s'.graph after
  frame : Clean s' → Tidy T s → Frame (Own s) (lasts T) s.graph s'.graph ∧ Blank s'.graph after
  leaves : Clean s' → Tidy T s → leave → ∀ G, s'.graph.Grows G → ∀ t, At G s t →
    Enters s'.graph G after t
  rounds : Clean s' → Tidy T s → enter → ∀ G, s'.graph.Grows G → ∀ t t' e, At G s t → round t' e →
    Ends (Enters s'.graph G header) s'.graph G (.landing .loopEnd after :: T) (t ++ t') e

theorem Turned.weaken {leave enter : Prop} {A B : Behavior}
    (h : Turned T leave enter A header after s s') (hB : ∀ t e, B t e → A t e) :
    Turned T leave enter B header after s s' :=
  ⟨h.sane, h.later, h.source, h.frame, h.leaves, fun hc ht henter G hG t t' e hat hrun =>
    h.rounds hc ht henter G hG t t' e hat (hB t' e hrun)⟩

/-- The targets of the body of a loop. -/
def loopTargets (header after : BlockId) (post : Option (Simple × BlockId)) (T : List Target) :
    List Target :=
  .landing .loopEnd after :: .landing .nextRound (roundEnd header post) :: T

theorem way_ne_jump_of_optionally {n : Option Node} {t : List Moment} {e : Ending}
    (hrun : optionally facts n t e) (exit : Exit) : e.way? ≠ some (.jump exit) := by
  cases n with
  | none =>
    obtain ⟨-, rfl⟩ := hrun
    simp [Ending.way?]
  | some n => exact way_ne_jump hrun exit

theorem turned_round {leave enter : Prop} {A : Behavior} {s₃ : State}
    (hopen : Opened T leave enter header after post s s₁)
    (h₂ : Built (loopTargets header after post T) A s₁ s₂)
    (h₃ : Closed facts (loopTargets header after post T) header post s₂ s₃) :
    Turned T leave enter (Then (Lands .toNext A) (simpleOption facts (post.map Prod.fst))) header
      after s s₃ := by
  have hframed : Clean s₃ → Tidy T s → Framed (loopTargets header after post T) s₁ s₂ :=
    fun hc ht => h₂.framed (h₃.later.clean hc) (hopen.tidy ht)
  have hkept : Clean s₃ → Tidy T s →
      ∀ q, post = some q → Reserved (lasts T) s₂ q.2 := fun hc ht q hq =>
    (hframed hc ht).reserved h₂.later (hopen.keptPost q hq).1
  have hown : ∀ {c}, Own s₁ c → Own s c := own_of_own hopen.wired.later.size_le hopen.owned
  have hframe₃ : Clean s₃ → Tidy T s → Frame _ (lasts T) s₂.graph s₃.graph := fun hc ht =>
    h₃.frame hc (hkept hc ht)
  have hgrows : Clean s₃ → Tidy T s → s₁.graph.Grows s₃.graph := fun hc ht =>
    (hframed hc ht).frame.grows.trans (hframe₃ hc ht).grows
  refine ⟨h₃.sane, hopen.wired.later.trans (h₂.later.trans h₃.later),
    (h₂.later.trans h₃.later).source hopen.kept.source, ?_, ?_, ?_⟩
  · intro hc ht
    have hf := hframed hc ht
    refine ⟨?_, ?_⟩
    · refine (hopen.wired.frame fun c hc => .inl (.inl hc)).trans ((hf.frame.mono (fun _ => hown)
        fun _ => .inr).trans ((hframe₃ hc ht).mono ?_ fun _ => .inr))
      rintro c (hc | ⟨q, hq, rfl⟩)
      · exact hown (own_of_own h₂.later.size_le hf.owned hc)
      · exact (hopen.keptPost q hq).2.2
    · have hafter := hf.reserved h₂.later hopen.kept
      refine (hframe₃ hc ht).blank ?_ hafter.notLast hafter.blank
      rintro ((ho | ho) | ⟨q, hq, heq⟩)
      · exact hafter.cursor ho
      · exact Nat.lt_irrefl _ (Nat.lt_of_lt_of_le hafter.goal.2 ho)
      · exact (hopen.keptPost q hq).2.1 heq
  · intro hc ht hleave G hG t hat
    have hG₁ := (hgrows hc ht).trans hG
    exact (enters_of_at hopen.wired (hopen.leaves hleave) hG₁ hat).mono
      (h₂.later.trans h₃.later).succs
  · intro hc ht henter G hG t t' e hat hrun
    have hG₂ := (hframe₃ hc ht).grows.trans hG
    have hat₁ := hopen.enters henter G t ((hgrows hc ht).trans hG) hat
    have hfirst : ∀ {t' e}, Lands .toNext A t' e →
        Ends (fun t => At G s₂ t ∨ Enters s₂.graph G (roundEnd header post) t) s₂.graph G
          (.landing .loopEnd after :: T) (t ++ t') e := by
      intro t' e hrun
      refine Ends.next hrun (fun e he => ?_) .inr
      exact (h₂.simulates (h₃.later.clean hc) (hopen.tidy ht) G hG₂ _ _ _ hat₁ he).mono
        (fun _ => .inl) fun _ _ _ => id
    cases hrun with
    | stops hbody hne => exact (hfirst hbody).later hne h₃.later.succs
    | goesOn hbody hpost =>
      rw [← List.append_assoc]
      have hend := (hfirst hbody).normal rfl
      refine (h₃.simulates hc (hkept hc ht) G hG _ _ _ hend hpost).mono (fun _ => id) ?_
      intro w c hw hl
      refine leads_of_landing (leads_swap (by simp) hl) ?_
      rintro rfl
      exact way_ne_jump_of_optionally hpost _ hw

/-- A round that has been built from where the body begins. -/
theorem Opened.turned {leave enter : Prop} {body : Block}
    (hopen : Opened T leave enter header after post s s₁) (hT : ∀ a ∈ T, Fits s₁.graph a)
    (hground : Grounded T)
    (hbody : Realizes (loopTargets header after post T) (Execution.block facts body) s₁ s₂)
    (hround : Closes facts (loopTargets header after post T) header post s₂ s') :
    Turned T leave enter (Then (Lands .toNext (Execution.block facts body))
      (simpleOption facts (post.map Prod.fst))) header after s s' := by
  have hfits : ∀ a ∈ loopTargets header after post T, Fits s₁.graph a := by
    intro a ha
    simp only [loopTargets, List.mem_cons] at ha
    rcases ha with rfl | rfl | ha
    · exact hopen.kept.goal
    · cases post with
      | none => exact hopen.goal
      | some q => exact (hopen.keptPost q rfl).1.goal
    · exact hT a ha
  have h₂ := hbody hopen.safe hfits
  refine turned_round hopen h₂ (hround.closed h₂.safe (fun a ha => (hfits a ha).later h₂.later)
    (hground.append [_, _]) (h₂.later.goal hopen.goal) fun q hq => ?_)
  obtain ⟨hr, -⟩ := hopen.keptPost q hq
  exact ⟨h₂.later.goal hr.goal, h₂.later.source hr.source⟩

/-! ### Loops -/

/-- A loop whose header is entered from the cursor at `s`. -/
theorem built_loop {test round : Behavior} {leave enter : Prop} {o : Option BlockId}
    (hT : ∀ a ∈ T, Fits s.graph a) (hw : Wired (fun c => s.cursor = some c) s s₁)
    (hcursor : s₁.cursor = some header) (hblank : Blank s₁.graph header)
    (hnew : s.graph.blocks.size ≤ header) (hedge : ∀ c, s.cursor = some c → s₁.graph.Edge c header)
    (htest : Built T test s₁ s₂) (hstay : ∀ {t e}, test t e → e.way? ≠ some (.jump .loopEnd))
    (hturned : Turned T leave enter round header after s₂ s')
    (hnew' : s.graph.blocks.size ≤ after) (ho : Onward s'.graph after o) :
    Built T (Lands .toEnd (Loops test leave enter round)) s (s'.movedTo o) := by
  have htidy₁ : Tidy T s₁ := by
    intro c hc
    obtain rfl := Option.some_inj.mp (hcursor.symm.trans hc)
    exact ⟨hblank.succs, notMem_lasts hT hnew⟩
  have hown : ∀ {c}, Own s₁ c → Own s c := own_of_own hw.later.size_le fun c hc => by
    obtain rfl := Option.some_inj.mp (hcursor.symm.trans hc)
    exact .inr hnew
  have hframed : Clean s' → Framed T s₁ s₂ := fun hc =>
    htest.framed (hturned.later.clean hc) htidy₁
  refine built_onward hT hturned.sane (hw.later.trans (htest.later.trans hturned.later))
    hturned.source hnew' ho ?_ ?_
  · intro hc _
    have hf := hframed hc
    obtain ⟨hframe, hblank'⟩ := hturned.frame hc hf.tidy
    refine ⟨(hw.frame fun c hc => .inl (.inl hc)).trans ((hf.frame.mono (fun _ => hown)
      fun _ => .inr).trans (hframe.mono (fun c hc => hown ?_) fun _ => .inr)), hblank'⟩
    exact own_of_own htest.later.size_le hf.owned hc
  · intro hc _ G hG t t' e hat hrun
    have hf := hframed hc
    have hG₂ := (hturned.frame hc hf.tidy).1.grows.trans hG
    have hG₁ := hf.frame.grows.trans hG₂
    have hheader := (enters_of_at hw hedge hG₁ hat).traces hG₁
    refine Ends.lands hrun (fun e he => ?_) id
    refine Ends.loops (M := At G s₂) ?_ ?_ ?_ he hheader
    · intro t t' e ht hrun
      have hat₁ : At G s₁ t := ⟨header, hcursor, by rwa [hblank.nodes]⟩
      refine (htest.simulates (hturned.later.clean hc) htidy₁ G hG₂ _ _ _ hat₁ hrun).mono
        (fun _ => id) ?_
      intro w c hway hl
      refine leads_past_landing ?_ (hl.mono hturned.later.succs)
      rintro rfl
      exact hstay hrun hway
    · exact fun hleave t hat => hturned.leaves hc hf.tidy hleave G hG t hat
    · intro henter t t' e hat hrun
      exact (hturned.rounds hc hf.tidy henter G hG _ _ _ hat hrun).mono
        (fun _ henters => henters.traces hG) fun _ _ _ => id

/-! ### Loops over a collection -/

/-- After the node of the header one leaves or takes a round, each by an edge of its own. -/
theorem opened_foreach {n : Node} (hs : Safe s) (hcursor : s.cursor = some header)
    (hgoal : Goal s.graph header) (hkept : Reserved (lasts T) s after)
    (hT : ∀ a ∈ T, Fits s.graph a) :
    Opened T True True header after none (s.withNode header n)
      (((s.withNode header n).withEdge (some header) after).branched .branch (some header)) := by
  have hs₁ := safe_withNode hs header n
  have hl₁ := later_withNode s header n
  have hsrc₁ : ∀ x, some header = some x → Source (s.withNode header n).graph x := by
    rintro x ⟨⟩
    exact hs₁.cursor header hcursor
  have hne : header ≠ after := fun heq => hkept.cursor (heq ▸ hcursor)
  have hblank₁ : Blank (s.withNode header n).graph after :=
    ⟨by rw [State.withNode, Graph.nodes_addNode_ne n hne, hkept.blank.nodes],
      by simpa [State.withNode] using hkept.blank.succs⟩
  have hw₂ := wired_withEdge hs₁.sane hsrc₁ (hl₁.goal hkept.goal)
  have hsrc₂ : ∀ x, some header = some x →
      Source ((s.withNode header n).withEdge (some header) after).graph x := fun x hx =>
    hw₂.later.source (hsrc₁ x hx)
  have hl₂ := hl₁.trans hw₂.later
  have hw₃ := wired_branched hw₂.sane hsrc₂ .branch
  have hl₃ := hl₂.trans hw₃.later
  have hcur : ∀ c, (s.withNode header n).cursor = some c ↔ some header = some c := by
    intro c
    rw [← hcursor]
    rfl
  refine ⟨safe_branched hw₂.sane hsrc₂ .branch, ?_, ?_, ?_, hl₃.goal hgoal, ?_, by simp, ?_, ?_⟩
  · exact (hw₂.trans hw₃).mono fun c hc => (hcur c).mpr hc
  · exact fun _ => tidy_branched hw₂.sane hsrc₂ (fun a ha => (hT a ha).later hl₂) .branch
  · rintro c ⟨⟩
    exact .inr hw₂.later.size_le
  · refine ⟨hl₃.goal hkept.goal, hl₃.source hkept.source, ?_, ?_, hkept.notLast⟩
    · exact (hw₂.trans hw₃).blank (by simp [hne]) hblank₁
    · intro heq
      exact (Nat.lt_of_lt_of_le hkept.goal.2 hl₂.size_le).ne' (Option.some_inj.mp heq)
  · intro _ c hc
    obtain rfl := Option.some_inj.mp ((hcur c).mp hc)
    exact hw₃.later.succs (edge_withEdge (hsrc₁ _ rfl))
  · rintro _ G t hG ⟨c, hc, ht⟩
    obtain rfl := Option.some_inj.mp ((hcur c).mp hc)
    refine at_branched hw₂.sane (hsrc₂ _ rfl) hG ?_
    rwa [hw₂.nodes]

/-- The header of a foreach loop with its node, and a branch to its body. -/
def State.iterated (s : State) (n : Node) : State :=
  let header := s.graph.blocks.size
  let after := (s.withBlock .loop).graph.blocks.size
  let s₁ := (((s.withBlock .loop).withBlock .afterLoop).withEdge s.cursor header).movedTo
    (some header)
  ((s₁.withNode header n).withEdge (some header) after).branched .branch (some header)

theorem realizes_foreach {m : Mark} {v : Ident} {operand : Expr} {body : Block}
    (hground : Grounded T) (hoperand : Realizes T (Evaluates facts (.expr operand)) s s₁)
    (hbody : Realizes (loopTargets s₁.graph.blocks.size (s₁.withBlock .loop).graph.blocks.size none T)
      (Execution.block facts body) (s₁.iterated (.stmt (.foreach m v operand body))) s₂) :
    Realizes T (Execution.stmt facts (.foreach m v operand body)) s
      ((s₂.withEdge s₂.cursor s₁.graph.blocks.size).movedTo
        (some (s₁.withBlock .loop).graph.blocks.size)) := by
  rw [Execution.stmt]
  refine hoperand.andThen fun hs₁ hT₁ => ?_
  have hw₂ := wired_withBlock hs₁.sane .loop
  have hw₃ := wired_withBlock hw₂.sane .afterLoop
  have hl₃ := hw₂.later.trans hw₃.later
  set header := s₁.graph.blocks.size with hheader
  set after := (s₁.withBlock .loop).graph.blocks.size with hafter
  have hlt : header < after := (goal_withBlock hs₁.sane .loop).2
  have hsrc : ∀ x, s₁.cursor = some x →
      Source ((s₁.withBlock .loop).withBlock .afterLoop).graph x :=
    fun x hx => hl₃.source (hs₁.cursor x hx)
  have hw₄ := wired_withEdge hw₃.sane hsrc (hw₃.later.goal (goal_withBlock hs₁.sane .loop))
  have hw : Wired (fun c => s₁.cursor = some c) s₁
      ((((s₁.withBlock .loop).withBlock .afterLoop).withEdge s₁.cursor header).movedTo
        (some header)) :=
    (((hw₂.mono (by simp)).trans (hw₃.mono (by simp))).trans hw₄).trans
      (wired_movedTo hw₄.sane _)
  have hfresh : ∀ c, header ≤ c → s₁.cursor ≠ some c := fun c hc hcur =>
    (Nat.lt_of_lt_of_le (hs₁.cursor c hcur).1 hc).ne rfl
  have hs₅ : Safe ((((s₁.withBlock .loop).withBlock .afterLoop).withEdge s₁.cursor header).movedTo
      (some header)) := by
    refine ⟨hw₄.sane, ?_⟩
    rintro c ⟨⟩
    exact (hw₃.later.trans hw₄.later).source (source_withBlock hs₁.sane .loop)
  have hkept : Reserved (lasts T)
      ((((s₁.withBlock .loop).withBlock .afterLoop).withEdge s₁.cursor header).movedTo
        (some header)) after :=
    ⟨hw₄.later.goal (goal_withBlock hw₂.sane .afterLoop),
      hw₄.later.source (source_withBlock hw₂.sane .afterLoop),
      hw.blank (hfresh after hlt.le) (blank_of_size_le hlt.le),
      fun heq => hlt.ne (Option.some_inj.mp heq), notMem_lasts hT₁ hlt.le⟩
  have hT₅ := fun a ha => (hT₁ a ha).later hw.later
  have hopen := opened_foreach (n := .stmt (.foreach m v operand body)) hs₅ rfl
    ((hw₃.later.trans hw₄.later).goal (goal_withBlock hs₁.sane .loop)) hkept hT₅
  have hT₆ := fun a ha => ((hT₅ a ha).later (later_withNode _ header _)).later hopen.wired.later
  have hturned := hopen.turned hT₆ hground hbody .straight
  refine built_loop hT₁ hw rfl ?_ le_rfl ?_ (built_withNode hs₅ rfl) ?_
    (hturned.weaken fun _ _ => then_silent) hlt.le (onward_some _ after)
  · exact hw.blank (hfresh header le_rfl) (blank_of_size_le le_rfl)
  · intro c hc
    rw [hc]
    exact edge_withEdge (hsrc c hc)
  · intro t e hrun
    cases hrun <;> simp [Ending.way?]

/-! ### Loops with a test -/

/-- A node that may be missing. -/
def addOption (facts : Facts) (T : List Target) : Option Node → Builder Unit
  | none => return
  | some n => addNode facts T n

theorem completes_addOption {b : BlockId} (facts : Facts) (T : List Target) (hb : s.cursor = some b)
    (n : Option Node) : Completes (addOption facts T n) s := by
  cases n with
  | none => exact completes_pure () s
  | some n => exact completes_addNode facts T hb n

/-- The node has been built, if it is not missing. -/
def AddedOption (facts : Facts) (T : List Target) : Option Node → State → State → Prop
  | none, s, s' => s' = s
  | some n, s, s' => Added facts T n s s'

theorem added_addOption {b : BlockId} {n : Option Node} (hb : s.cursor = some b)
    (h : addOption facts T n s = .ok () s') : AddedOption facts T n s s' := by
  cases n with
  | none => exact (ok_pure h).2.symm
  | some n => exact ⟨⟨b, hb⟩, h⟩

theorem AddedOption.realizes {n : Option Node} (h : AddedOption facts T n s s')
    (hground : Grounded T) : Realizes T (optionally facts n) s s' := by
  cases n with
  | none =>
    obtain rfl : s' = s := h
    exact .silent rfl rfl List.prefix_rfl
  | some n => exact Added.realizes h hground

/-- The blocks of a loop that stand behind its header: the one after it and one for a post
statement. -/
def State.laidOut (s : State) : Option Simple → State
  | none => s.withBlock .afterLoop
  | some _ => (s.withBlock .afterLoop).withBlock .post

/-- Where the body of a loop begins, seen from the end of its test. -/
def State.opened (s : State) (value : Option Bool) (tested : Bool) (after : BlockId) : State :=
  let s₁ := if value != some true then s.withEdge s.cursor after else s
  if tested then s₁.branchedIf (value != some false) s.cursor else s₁

section

variable {value : Option Bool} {tested : Bool} (hs : Safe s) (hT : ∀ a ∈ T, Fits s.graph a)
  (hgoal : Goal s.graph header) (hw : Wired (fun _ => False) s s₁) (hcursor : s₁.cursor = s.cursor)
  (hkept : Reserved (lasts T) s₁ after)
  (hpost : ∀ q, post = some q → Reserved (lasts T) s₁ q.2 ∧ q.2 ≠ after ∧ s.graph.blocks.size ≤ q.2)

include hs hgoal hw hcursor hkept hpost

/-- Without a test the body begins where the header is. -/
theorem opened_untested :
    Opened T (some true ≠ some true) (some true ≠ some false) header after post s
      (s₁.opened (some true) false after) := by
  change Opened T _ _ header after post s s₁
  refine ⟨⟨hw.sane, ?_⟩, hw.mono (by simp), ?_, ?_, hw.later.goal hgoal, hkept, ?_, by simp, ?_⟩
  · intro c hc
    exact hw.later.source (hs.cursor c (hcursor ▸ hc))
  · intro ht c hc
    obtain ⟨hopen, hlast⟩ := ht c (hcursor ▸ hc)
    exact ⟨by rw [hw.succs c id, hopen], hlast⟩
  · intro c hc
    exact .inl (hcursor ▸ hc)
  · intro q hq
    obtain ⟨hr, hne, hnew⟩ := hpost q hq
    exact ⟨hr, hne, .inr hnew⟩
  · rintro - G t - ⟨c, hc, ht⟩
    exact ⟨c, hcursor.trans hc, by rwa [hw.nodes]⟩

include hT

/-- After a test the body is a branch of its own, unless the test is never passed. -/
theorem opened_tested :
    Opened T (value ≠ some true) (value ≠ some false) header after post s
      (s₁.opened value true after) := by
  have hsrc₁ : ∀ x, s.cursor = some x → Source s₁.graph x := fun x hx =>
    hw.later.source (hs.cursor x hx)
  -- the way past the body
  obtain ⟨s₂, hs₂, hw₂, hcursor₂, hedge⟩ : ∃ s₂, (if value != some true then
      s₁.withEdge s.cursor after else s₁) = s₂ ∧ Wired (fun c => s.cursor = some c) s₁ s₂ ∧
      s₂.cursor = s.cursor ∧
      (value ≠ some true → ∀ c, s.cursor = some c → s₂.graph.Edge c after) := by
    refine ⟨_, rfl, ?_⟩
    split_ifs with hvalue
    · refine ⟨wired_withEdge hw.sane hsrc₁ hkept.goal, hcursor, fun _ c hc => ?_⟩
      rw [hc]
      exact edge_withEdge (hsrc₁ c hc)
    · exact ⟨.refl hw.sane, hcursor, fun hne => absurd (by simpa using hne) hvalue⟩
  have hl₂ := hw.later.trans hw₂.later
  have hsrc₂ : ∀ x, s.cursor = some x → Source s₂.graph x := fun x hx =>
    hl₂.source (hs.cursor x hx)
  have hw₃ := wired_branchedIf hw₂.sane hsrc₂ (value != some false)
  have hreserved : ∀ {b}, Reserved (lasts T) s₁ b →
      Reserved (lasts T) (s₂.branchedIf (value != some false) s.cursor) b := by
    intro b hb
    have hne : ¬ s.cursor = some b := fun h => hb.cursor (hcursor.trans h)
    have hb₂ := hw₂.reserved hne (hcursor₂ ▸ hne) hb
    refine hw₃.reserved hne (fun h => ?_) hb₂
    exact hb₂.goal.2.ne (cursor_branchedIf h)
  have heq : s₁.opened value true after = s₂.branchedIf (value != some false) s.cursor := by
    rw [State.opened, hcursor, hs₂]
    rfl
  rw [heq]
  refine ⟨safe_branchedIf hw₂.sane hsrc₂ _, ?_, ?_, ?_, (hl₂.trans hw₃.later).goal hgoal,
    hreserved hkept, ?_, ?_, ?_⟩
  · exact ((hw.mono (by simp)).trans hw₂).trans hw₃
  · exact fun _ => tidy_branchedIf hw₂.sane hsrc₂ (fun a ha => (hT a ha).later hl₂) _
  · intro c hc
    rw [cursor_branchedIf hc]
    exact .inr hl₂.size_le
  · intro q hq
    obtain ⟨hr, hne, hnew⟩ := hpost q hq
    exact ⟨hreserved hr, hne, .inr hnew⟩
  · exact fun hne c hc => hw₃.later.succs (hedge hne c hc)
  · rintro hne G t hG ⟨c, hc, ht⟩
    have htaken : (value != some false) = true := by simpa using hne
    rw [htaken, hc] at hG ⊢
    refine at_branched hw₂.sane (hsrc₂ c hc) hG ?_
    rwa [hw₂.nodes, hw.nodes]

end

/-- The blocks behind the header are new and kept for later. -/
theorem reserved_laidOut (hs : Safe s) (hT : ∀ a ∈ T, Fits s.graph a) (q : Option Simple) :
    Wired (fun _ => False) s (s.laidOut q) ∧ (s.laidOut q).cursor = s.cursor ∧
      Reserved (lasts T) (s.laidOut q) s.graph.blocks.size ∧
      ∀ p, (q.map fun x => (x, (s.withBlock .afterLoop).graph.blocks.size)) = some p →
        Reserved (lasts T) (s.laidOut q) p.2 ∧ p.2 ≠ s.graph.blocks.size ∧
          s.graph.blocks.size ≤ p.2 := by
  have hw₁ := wired_withBlock hs.sane .afterLoop
  have hfresh : ∀ c, s.graph.blocks.size ≤ c → s.cursor ≠ some c := fun c hc hcur =>
    (Nat.lt_of_lt_of_le (hs.cursor c hcur).1 hc).ne rfl
  have hkept₁ : Reserved (lasts T) (s.withBlock .afterLoop) s.graph.blocks.size :=
    ⟨goal_withBlock hs.sane .afterLoop, source_withBlock hs.sane .afterLoop,
      hw₁.blank id (blank_of_size_le le_rfl), hfresh _ le_rfl, notMem_lasts hT le_rfl⟩
  cases q with
  | none => exact ⟨hw₁, rfl, hkept₁, by simp⟩
  | some q =>
    have hw₂ := wired_withBlock hw₁.sane .post
    have hlt : s.graph.blocks.size < (s.withBlock .afterLoop).graph.blocks.size := hkept₁.goal.2
    refine ⟨hw₁.trans hw₂, rfl, hw₂.reserved id (hfresh _ le_rfl) hkept₁, ?_⟩
    rintro p ⟨⟩
    refine ⟨⟨goal_withBlock hw₁.sane .post, source_withBlock hw₁.sane .post, ?_, ?_, ?_⟩, hlt.ne',
      hlt.le⟩
    · exact hw₂.blank id (blank_of_size_le le_rfl)
    · exact hfresh _ hlt.le
    · exact notMem_lasts hT hlt.le

theorem turned_loop {value : Option Bool} {tested : Bool} {q : Option Simple} {body : Block}
    (hs : Safe s) (hT : ∀ a ∈ T, Fits s.graph a) (hground : Grounded T)
    (hgoal : Goal s.graph header) (hvalue : tested = false → value = some true)
    (hpost : post = q.map fun x => (x, (s.withBlock .afterLoop).graph.blocks.size))
    (hbody : Realizes (loopTargets header s.graph.blocks.size post T) (Execution.block facts body)
      ((s.laidOut q).opened value tested s.graph.blocks.size) s₁)
    (hround : Closes facts (loopTargets header s.graph.blocks.size post T) header post s₁ s') :
    Turned T (value ≠ some true) (value ≠ some false)
      (Then (Lands .toNext (Execution.block facts body)) (simpleOption facts q)) header
      s.graph.blocks.size s s' := by
  obtain ⟨hw, hcursor, hkept, hposts⟩ := reserved_laidOut hs hT q
  rw [← hpost] at hposts
  have hopen : Opened T (value ≠ some true) (value ≠ some false) header s.graph.blocks.size post s
      ((s.laidOut q).opened value tested s.graph.blocks.size) := by
    cases tested with
    | true => exact opened_tested hs hT hgoal hw hcursor hkept hposts
    | false =>
      obtain rfl := hvalue rfl
      exact opened_untested hs hgoal hw hcursor hkept hposts
  have hfirst : post.map Prod.fst = q := by
    rw [hpost]
    cases q <;> rfl
  have hturned := hopen.turned (fun a ha => (hT a ha).later hopen.wired.later) hground hbody hround
  rwa [hfirst] at hturned

theorem realizes_loop {m : Mark} {init q : Option Simple} {test : Option Expr} {body : Block}
    {s₃ s₄ : State} (hground : Grounded T) (hinit : Realizes T (simpleOption facts init) s s₁)
    (htest : Realizes T (optionally facts (test.map .expr)) (s₁.branched .loop s₁.cursor) s₂)
    (hpost : post = q.map fun x => (x, (s₂.withBlock .afterLoop).graph.blocks.size))
    (hbody : Realizes (loopTargets s₁.graph.blocks.size s₂.graph.blocks.size post T)
      (Execution.block facts body) ((s₂.laidOut q).opened (test.elim (some true) facts.constant)
        test.isSome s₂.graph.blocks.size) s₃)
    (hround : Closes facts (loopTargets s₁.graph.blocks.size s₂.graph.blocks.size post T)
      s₁.graph.blocks.size post s₃ s₄) :
    Realizes T (Execution.stmt facts (.loop m init test q body)) s
      (s₄.movedTo (Onward.cursor s₄.graph s₂.graph.blocks.size)) := by
  rw [Execution.stmt]
  refine hinit.andThen fun hs₁ hT₁ => ?_
  have hw₂ := wired_branched hs₁.sane hs₁.cursor .loop
  have hs₂ := safe_branched hs₁.sane hs₁.cursor .loop
  have hT₂ := fun a ha => (hT₁ a ha).later hw₂.later
  have htested := htest hs₂ hT₂
  have hgoal : Goal s₂.graph s₁.graph.blocks.size :=
    htested.later.goal ⟨hs₁.sane.wellFormed.size_pos, (hs₂.cursor _ rfl).1⟩
  have hturned := turned_loop htested.safe (fun a ha => (hT₂ a ha).later htested.later) hground hgoal
    (by cases test <;> simp) hpost hbody hround
  refine built_loop hT₁ hw₂ rfl (hw₂.blank ?_ (blank_of_size_le le_rfl)) le_rfl ?_ htested
    (fun hrun => way_ne_jump_of_optionally hrun _) hturned ?_ (onward_cursor _ _)
  · exact fun hc => Nat.lt_irrefl _ (hs₁.cursor _ hc).1
  · intro c hc
    rw [hc]
    exact edge_branched hs₁.sane (hs₁.cursor c hc) .loop
  · exact (hw₂.later.trans htested.later).size_le

end

end FlowCheck.Build
