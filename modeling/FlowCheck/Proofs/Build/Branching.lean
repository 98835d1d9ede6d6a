import FlowCheck.Proofs.Build.Landing

/-!
# Building branches

Conditions, switches, jumps and returns. A branch starts in a new block; where branches meet again
there is a block that is entered from the end of each of them that has one.
-/
namespace FlowCheck.Build

open Execution

section

variable {s : State} {T : List Target} {facts : Facts}

/-! ### Ways apart and together -/

/-- The cursor moves to a new branch if it can be taken, and nowhere if not. -/
def State.branchedIf (s : State) (taken : Bool) (a : Option BlockId) : State :=
  if taken then s.branched .branch a else s.movedTo none

theorem ok_branchIf (taken : Bool) (a : Option BlockId) (s : State) :
    branchIf taken a s = .ok () (s.branchedIf taken a) := by
  cases taken <;> rfl

theorem wired_branchedIf {a : Option BlockId} (hs : Sane s.graph)
    (ha : ∀ x, a = some x → Source s.graph x) (taken : Bool) :
    Wired (fun c => a = some c) s (s.branchedIf taken a) := by
  cases taken with
  | true => exact wired_branched hs ha .branch
  | false => exact .of_graph_eq hs rfl List.prefix_rfl

theorem safe_branchedIf {a : Option BlockId} (hs : Sane s.graph)
    (ha : ∀ x, a = some x → Source s.graph x) (taken : Bool) : Safe (s.branchedIf taken a) := by
  cases taken with
  | true => exact safe_branched hs ha .branch
  | false => exact ⟨hs, by simp [State.branchedIf]⟩

theorem tidy_branchedIf {a : Option BlockId} (hs : Sane s.graph)
    (ha : ∀ x, a = some x → Source s.graph x) (hT : ∀ x ∈ T, Fits s.graph x) (taken : Bool) :
    Tidy T (s.branchedIf taken a) := by
  cases taken with
  | true => exact tidy_branched hs ha hT .branch
  | false => simp [State.branchedIf, Tidy]

theorem cursor_branchedIf {taken : Bool} {a : Option BlockId} {b : BlockId}
    (hb : (s.branchedIf taken a).cursor = some b) : b = s.graph.blocks.size := by
  cases taken with
  | true => exact (Option.some_inj.mp hb).symm
  | false => cases hb

theorem own_branchedIf {s₀ : State} {taken : Bool} {a : Option BlockId} {b : BlockId}
    (hl : Later s₀ s) (hw : Later s (s.branchedIf taken a)) (hb : Own (s.branchedIf taken a) b) :
    Own s₀ b := by
  rcases hb with hb | hb
  · rw [cursor_branchedIf hb]
    exact .inr hl.size_le
  · exact .inr ((hl.trans hw).size_le.trans hb)

/-- The cursor moves to a new block that is entered from two others, as far as they are there. -/
def State.joined (s : State) (a b : Option BlockId) : State :=
  if a.isNone && b.isNone then s.movedTo none
  else
    (((s.withBlock .join).withEdge a s.graph.blocks.size).withEdge b s.graph.blocks.size).movedTo
      (some s.graph.blocks.size)

theorem ok_join (a b : Option BlockId) (s : State) : join a b s = .ok () (s.joined a b) := by
  unfold join State.joined
  split_ifs <;> rfl

section Join

variable {a b : Option BlockId} (hs : Sane s.graph) (ha : ∀ x, a = some x → Source s.graph x)
  (hb : ∀ x, b = some x → Source s.graph x)

include hs ha hb

theorem meeting_spec :
    let m := ((s.withBlock .join).withEdge a s.graph.blocks.size).withEdge b s.graph.blocks.size
    Wired (fun c => a = some c ∨ b = some c) s m ∧ Source m.graph s.graph.blocks.size ∧
      ∀ c, a = some c ∨ b = some c → m.graph.Edge c s.graph.blocks.size := by
  have h₁ := wired_withBlock hs .join
  have ha₁ := fun x hx => h₁.later.source (ha x hx)
  have h₂ := wired_withEdge (a := a) h₁.sane ha₁ (goal_withBlock hs .join)
  have hb₂ := fun x hx => (h₁.later.trans h₂.later).source (hb x hx)
  have h₃ := wired_withEdge (a := b) h₂.sane hb₂ (h₂.later.goal (goal_withBlock hs .join))
  refine ⟨((h₁.mono (by simp)).trans (h₂.mono fun c => .inl)).trans (h₃.mono fun c => .inr),
    (h₂.later.trans h₃.later).source (source_withBlock hs .join), ?_⟩
  rintro c (rfl | rfl)
  · exact h₃.later.succs (edge_withEdge (ha₁ c rfl))
  · exact edge_withEdge (hb₂ c rfl)

theorem wired_joined : Wired (fun c => a = some c ∨ b = some c) s (s.joined a b) := by
  unfold State.joined
  split_ifs
  · exact .of_graph_eq hs rfl List.prefix_rfl
  · obtain ⟨hw, -, -⟩ := meeting_spec hs ha hb
    exact hw.trans (.of_graph_eq hw.sane rfl List.prefix_rfl)

theorem cursor_joined {c : BlockId} (hc : (s.joined a b).cursor = some c) :
    c = s.graph.blocks.size ∧ Source (s.joined a b).graph c := by
  by_cases hnone : (a.isNone && b.isNone) = true
  · rw [State.joined, if_pos hnone] at hc
    cases hc
  · rw [State.joined, if_neg hnone] at hc ⊢
    cases hc
    exact ⟨rfl, (meeting_spec hs ha hb).2.1⟩

theorem safe_joined : Safe (s.joined a b) :=
  ⟨(wired_joined hs ha hb).sane, fun _ hc => (cursor_joined hs ha hb hc).2⟩

theorem tidy_joined (hT : ∀ x ∈ T, Fits s.graph x) : Tidy T (s.joined a b) := by
  intro c hc
  obtain ⟨rfl, -⟩ := cursor_joined hs ha hb hc
  refine ⟨succs_new (wired_joined hs ha hb) ?_, notMem_lasts hT le_rfl⟩
  rintro (h | h)
  · exact Nat.lt_irrefl _ (ha _ h).1
  · exact Nat.lt_irrefl _ (hb _ h).1

/-- Who stands at the end of one of the two stands at the cursor after they are joined. -/
theorem at_joined {G : Graph} {t : List Moment} {c : BlockId} (hc : a = some c ∨ b = some c)
    (hG : (s.joined a b).graph.Grows G) (ht : G.Traces t c (s.graph.nodes c).length) :
    At G (s.joined a b) t := by
  have hw := wired_joined hs ha hb
  have hsome : ¬ (a.isNone && b.isNone) = true := by
    rcases hc with rfl | rfl <;> simp
  have hcursor : (s.joined a b).cursor = some s.graph.blocks.size := by
    rw [State.joined, if_neg hsome, cursor_movedTo]
  have hedge : (s.joined a b).graph.Edge c s.graph.blocks.size := by
    rw [State.joined, if_neg hsome]
    exact (meeting_spec hs ha hb).2.2 c hc
  refine ⟨_, hcursor, ?_⟩
  rw [nodes_new hw]
  refine hG.pass hedge ?_
  rwa [hw.nodes]

end Join

/-! ### Conditions -/

section Branches

variable {s₂ s₄ : State} {Y N : Behavior} {cy cn : Bool} {p q : Prop}

theorem not_own_branchedIf {taken : Bool} {a : Option BlockId} {c : BlockId}
    (hl : Later s (s.branchedIf taken a)) (hc : c < s.graph.blocks.size) :
    ¬ Own (s.branchedIf taken a) c := by
  rintro (h | h)
  · rw [cursor_branchedIf h] at hc
    exact Nat.lt_irrefl _ hc
  · exact Nat.lt_irrefl _ (Nat.lt_of_lt_of_le hc (hl.size_le.trans h))

/-- Two branches have been built from the block at the cursor, each for what may take it. -/
theorem built_branches (hs : Safe s) (hT : ∀ a ∈ T, Fits s.graph a)
    (h₂ : Built T Y (s.branchedIf cy s.cursor) s₂)
    (h₄ : Built T N (s₂.branchedIf cn s.cursor) s₄) (hp : p → cy = true) (hq : q → cn = true) :
    Built T (Either p Y q N) s (s₄.joined s₂.cursor s₄.cursor) := by
  have hw₁ := wired_branchedIf hs.sane hs.cursor cy
  have hl₂ := hw₁.later.trans h₂.later
  have hsrc₂ : ∀ x, s.cursor = some x → Source s₂.graph x := fun x hx =>
    hl₂.source (hs.cursor x hx)
  have hw₃ := wired_branchedIf h₂.safe.sane hsrc₂ cn
  have hl₄ := hl₂.trans (hw₃.later.trans h₄.later)
  have hyes : ∀ x, s₂.cursor = some x → Source s₄.graph x := fun x hx =>
    (hw₃.later.trans h₄.later).source (h₂.safe.cursor x hx)
  have hw₅ := wired_joined h₄.safe.sane hyes h₄.safe.cursor
  have hl₂₅ := hw₃.later.trans (h₄.later.trans hw₅.later)
  have htidy₁ : Tidy T (s.branchedIf cy s.cursor) := tidy_branchedIf hs.sane hs.cursor hT cy
  have htidy₃ : Tidy T (s₂.branchedIf cn s.cursor) :=
    tidy_branchedIf h₂.safe.sane hsrc₂ (fun a ha => (hT a ha).later hl₂) cn
  have hown₂ : ∀ {c}, Own (s.branchedIf cy s.cursor) c → Own s c :=
    own_branchedIf (.refl s) hw₁.later
  have hown₄ : ∀ {c}, Own (s₂.branchedIf cn s.cursor) c → Own s c :=
    own_branchedIf hl₂ hw₃.later
  refine ⟨safe_joined h₄.safe.sane hyes h₄.safe.cursor, hl₄.trans hw₅.later, ?_, ?_⟩
  · intro hc ht
    have hf₂ := h₂.framed (hl₂₅.clean hc) htidy₁
    have hf₄ := h₄.framed (hw₅.later.clean hc) htidy₃
    refine ⟨?_, ?_, tidy_joined h₄.safe.sane hyes h₄.safe.cursor fun a ha => (hT a ha).later hl₄⟩
    · refine (hw₁.frame fun c hc => .inl (.inl hc)).trans ?_
      refine (hf₂.frame.mono (fun c => hown₂) fun c => .inr).trans ?_
      refine (hw₃.frame fun c hc => .inl (.inl hc)).trans ?_
      refine (hf₄.frame.mono (fun c => hown₄) fun c => .inr).trans (hw₅.frame ?_)
      rintro c (hc | hc)
      · exact .inl (hown₂ (hf₂.owned c hc))
      · exact .inl (hown₄ (hf₄.owned c hc))
    · intro c hc
      rw [(cursor_joined h₄.safe.sane hyes h₄.safe.cursor hc).1]
      exact .inr hl₄.size_le
  · rintro hc ht G hG t t' e ⟨b, hb, htrace⟩ hrun
    have hf₂ := h₂.framed (hl₂₅.clean hc) htidy₁
    have hf₄ := h₄.framed (hw₅.later.clean hc) htidy₃
    have hG₄ := hw₅.grows.trans hG
    have hG₃ := hf₄.frame.grows.trans hG₄
    have hG₂ := hw₃.grows.trans hG₃
    cases hrun with
    | left hmay hrun =>
      have hat : At G (s.branchedIf cy s.cursor) t := by
        have hG₁ := hf₂.frame.grows.trans hG₂
        rw [hp hmay, hb] at hG₁ ⊢
        exact at_branched hs.sane (hs.cursor b hb) hG₁ htrace
      have hends := h₂.simulates (hl₂₅.clean hc) htidy₁ G hG₂ _ _ _ hat hrun
      refine hends.mono ?_ fun _ _ _ hl => hl.mono hl₂₅.succs
      rintro - ⟨y, hy, hty⟩
      refine at_joined h₄.safe.sane hyes h₄.safe.cursor (.inl hy) hG ?_
      -- the end of the first branch is not touched by the second
      have hnot := not_own_branchedIf hw₃.later (h₂.safe.cursor y hy).1
      rwa [hf₄.frame.nodes y hnot, hw₃.nodes]
    | right hmay hrun =>
      have hat : At G (s₂.branchedIf cn s.cursor) t := by
        have hnot := not_own_branchedIf hw₁.later (hs.cursor b hb).1
        rw [hq hmay, hb] at hG₃ ⊢
        refine at_branched h₂.safe.sane (hsrc₂ b hb) hG₃ ?_
        rwa [hf₂.frame.nodes b hnot, hw₁.nodes]
      have hends := h₄.simulates (hw₅.later.clean hc) htidy₃ G hG₄ _ _ _ hat hrun
      refine hends.mono ?_ fun _ _ _ hl => hl.mono hw₅.later.succs
      rintro - ⟨y, hy, hty⟩
      exact at_joined h₄.safe.sane hyes h₄.safe.cursor (.inr hy) hG hty

theorem realizes_branches (hy : Realizes T Y (s.branchedIf cy s.cursor) s₂)
    (hn : Realizes T N (s₂.branchedIf cn s.cursor) s₄) (hp : p → cy = true) (hq : q → cn = true) :
    Realizes T (Either p Y q N) s (s₄.joined s₂.cursor s₄.cursor) := by
  intro hs hT
  have hw₁ := wired_branchedIf hs.sane hs.cursor cy
  have h₂ := hy (safe_branchedIf hs.sane hs.cursor cy) fun a ha => (hT a ha).later hw₁.later
  have hl₂ := hw₁.later.trans h₂.later
  have hsrc₂ : ∀ x, s.cursor = some x → Source s₂.graph x := fun x hx =>
    hl₂.source (hs.cursor x hx)
  have hl₃ := hl₂.trans (wired_branchedIf h₂.safe.sane hsrc₂ cn).later
  have h₄ := hn (safe_branchedIf h₂.safe.sane hsrc₂ cn) fun a ha => (hT a ha).later hl₃
  exact built_branches hs hT h₂ h₄ hp hq

end Branches

theorem realizes_cond {m : Mark} {test : Expr} {yes : Block} {no : Option Stmt} {s₁ s₂ s₃ : State}
    (htest : Realizes T (Evaluates facts (.expr test)) s s₁)
    (hyes : Realizes T (Execution.block facts yes)
      (s₁.branchedIf (facts.constant test != some false) s₁.cursor) s₂)
    (hno : Realizes T (Execution.stmtOption facts no)
      (s₂.branchedIf (facts.constant test != some true) s₁.cursor) s₃) :
    Realizes T (Execution.stmt facts (.cond m test yes no)) s (s₃.joined s₂.cursor s₃.cursor) := by
  rw [Execution.stmt]
  exact htest.andThen (realizes_branches hyes hno (by simp) (by simp))

/-! ### Switches -/

/-- A part that begins at the end of a block and enters another one when it ends normally. -/
structure Linked (T : List Target) (b after : BlockId) (B : Behavior) (s s' : State) : Prop where
  sane : Sane s'.graph
  later : Later s s'
  frame : Clean s' → Frame (fun c => s.graph.blocks.size ≤ c) (b :: lasts T) s.graph s'.graph
  simulates : Clean s' → ∀ G, s'.graph.Grows G → ∀ t t' e,
    G.Traces t b (s.graph.nodes b).length → B t' e →
    Ends (Enters s'.graph G after) s'.graph G T (t ++ t') e

/-- Where the graph is sane and the targets fit, the two blocks have been linked. -/
def Links (T : List Target) (b after : BlockId) (B : Behavior) (s s' : State) : Prop :=
  Sane s.graph → Source s.graph b → Goal s.graph after → (∀ a ∈ T, Fits s.graph a) →
    Linked T b after B s s'

theorem links_nil (b after : BlockId) (s : State) :
    Links T b after (Execution.sectionList facts []) s s := by
  intro hs _ _ _
  rw [Execution.sectionList]
  exact ⟨hs, .refl s, fun _ => (Wired.refl hs).frame (A := fun _ => False) (by simp),
    fun _ _ _ _ _ _ _ => False.elim⟩

/-- The end of a switch section, which no jump leads out of. -/
def State.fallenThrough (s : State) (m : Mark) (after : BlockId) : State :=
  if s.cursor.isSome then
    (s.reported .missingBreak m.pos "missing break statement at end of switch section").withEdge
      s.cursor after
  else s

theorem wired_fallenThrough {after : BlockId} (hs : Safe s) (m : Mark) (hafter : Goal s.graph after) :
    Wired (fun c => s.cursor = some c) s (s.fallenThrough m after) ∧
      ∀ c, s.cursor = some c → (s.fallenThrough m after).graph.Edge c after := by
  unfold State.fallenThrough
  split_ifs with hsome
  · have hreport : Wired (fun c => s.cursor = some c) s (s.reported .missingBreak m.pos
        "missing break statement at end of switch section") := wired_reported hs.sane ..
    have hsrc := fun x hx => hreport.later.source (hs.cursor x hx)
    refine ⟨hreport.trans (wired_withEdge hreport.sane hsrc (hreport.later.goal hafter)), ?_⟩
    intro x hx
    rw [hx]
    exact edge_withEdge (hsrc x hx)
  · exact ⟨.refl hs.sane, fun c hc => absurd (Option.isSome_of_eq_some hc) hsome⟩

/-- A section has been built in a branch of its own and led to the end of the switch, if it has an
end, and then the sections after it. -/
theorem linked_section {b after : BlockId} {A R : Behavior} {s₃ s₄ s₅ : State} (hs : Sane s.graph)
    (hb : Source s.graph b) (hT : ∀ a ∈ T, Fits s.graph a)
    (h₃ : Built T A (s.branched .branch (some b)) s₃)
    (hw₄ : Wired (fun c => s₃.cursor = some c) s₃ s₄)
    (hedge : ∀ c, s₃.cursor = some c → s₄.graph.Edge c after) (h₅ : Linked T b after R s₄ s₅) :
    Linked T b after (Either True A True R) s s₅ := by
  have hsrc : ∀ x, some b = some x → Source s.graph x := by
    rintro x ⟨⟩
    exact hb
  have hw₁ := wired_branched hs hsrc .branch
  have hl₄ := hw₁.later.trans (h₃.later.trans hw₄.later)
  have hl₃₅ := hw₄.later.trans h₅.later
  have hnew : ∀ {c}, Own (s.branched .branch (some b)) c → s.graph.blocks.size ≤ c := by
    rintro c (hc | hc)
    · exact (Option.some_inj.mp hc).le
    · exact hw₁.later.size_le.trans hc
  have htidy := tidy_branched hs hsrc hT .branch
  have hframed : Clean s₅ → Framed T (s.branched .branch (some b)) s₃ := fun hc =>
    h₃.framed (hl₃₅.clean hc) htidy
  have hframe₄ : Clean s₅ →
      Frame (fun c => s.graph.blocks.size ≤ c) (b :: lasts T) s.graph s₄.graph := by
    intro hc
    refine (hw₁.frame ?_).trans (((hframed hc).frame.mono (fun _ => hnew) ?_).trans (hw₄.frame ?_))
    · rintro c ⟨⟩
      exact .inr List.mem_cons_self
    · exact fun c hm => .inr (List.mem_cons_of_mem b hm)
    · exact fun c hm => .inl (hnew ((hframed hc).owned c hm))
  refine ⟨h₅.sane, hl₄.trans h₅.later, ?_, ?_⟩
  · intro hc
    exact (hframe₄ hc).trans ((h₅.frame hc).mono (fun c => hl₄.size_le.trans) fun c => .inr)
  · intro hc G hG t t' e ht hrun
    have hG₄ := (h₅.frame hc).grows.trans hG
    cases hrun with
    | left _ hrun =>
      have hG₃ := hw₄.grows.trans hG₄
      have hat := at_branched hs hb ((hframed hc).frame.grows.trans hG₃) ht
      have hends := h₃.simulates (hl₃₅.clean hc) htidy G hG₃ _ _ _ hat hrun
      refine hends.mono ?_ fun _ _ _ hl => hl.mono hl₃₅.succs
      intro _ hend
      exact (enters_of_at hw₄ hedge hG₄ hend).mono h₅.later.succs
    | right _ hrun =>
      refine h₅.simulates hc G hG _ _ _ ?_ hrun
      rwa [(hframe₄ hc).nodes b (not_le.mpr hb.1)]

theorem links_cons {b after : BlockId} {m : Mark} {values : List Expr} {isDefault : Bool}
    {body : List Stmt} {rest : List CaseClause} {s₁ s₂ s' : State}
    (hlabels : Realizes T (Evaluates facts (.caseClause (.mk m values isDefault body)))
      (s.branched .branch (some b)) s₁)
    (hbody : Realizes T (Execution.stmtList facts body) s₁ s₂)
    (hrest : Links T b after (Execution.sectionList facts rest) (s₂.fallenThrough m after) s') :
    Links T b after (Execution.sectionList facts (.mk m values isDefault body :: rest)) s s' := by
  intro hs hb hafter hT
  have hsrc : ∀ x, some b = some x → Source s.graph x := by
    rintro x ⟨⟩
    exact hb
  have hw₁ := wired_branched hs hsrc .branch
  have hsection := (hlabels.andThen hbody) (safe_branched hs hsrc .branch) fun a ha =>
    (hT a ha).later hw₁.later
  have hl₂ := hw₁.later.trans hsection.later
  obtain ⟨hw₃, hedge⟩ := wired_fallenThrough hsection.safe m (hl₂.goal hafter)
  have hl₃ := hl₂.trans hw₃.later
  have hrest := hrest hw₃.sane (hl₃.source hb) (hl₃.goal hafter) fun a ha => (hT a ha).later hl₃
  rw [Execution.sectionList]
  exact linked_section hs hb hT hsection hw₃ hedge hrest

/-- The tag and the sections have been built, and the end of the tag has been led past the sections
if a run may take none of them. -/
theorem built_switch {b : BlockId} {A R : Behavior} {p : Prop} {s₂ s₃ s₄ : State} (hs : Safe s)
    (hT : ∀ a ∈ T, Fits s.graph a)
    (h₂ : Built (.landing .loopEnd s.graph.blocks.size :: T) A (s.withBlock .join) s₂)
    (hA : ∀ {t e}, A t e → e.way? ≠ some (.jump .loopEnd)) (hb : s₂.cursor = some b)
    (h₃ : Linked (.landing .loopEnd s.graph.blocks.size :: T) b s.graph.blocks.size R s₂ s₃)
    (hw₄ : Wired (fun c => c = b) s₃ s₄)
    (hedge : p → s₄.graph.Edge b s.graph.blocks.size) :
    Built T (Then A (Lands .toEnd (Either p (silent .normal) True R))) s
      (s₄.movedTo (Onward.cursor s₄.graph s.graph.blocks.size)) := by
  have hw₁ := wired_withBlock hs.sane .join
  have hl₂₄ := h₃.later.trans hw₄.later
  have htidy : Tidy T s →
      Tidy (.landing .loopEnd s.graph.blocks.size :: T) (s.withBlock .join) := by
    intro ht c hc
    obtain ⟨hopen, hlast⟩ := ht c hc
    exact ⟨by rw [hw₁.succs c id, hopen], hlast⟩
  have hown : ∀ {c}, Own (s.withBlock .join) c → OwnBut s s.graph.blocks.size c := by
    refine ownBut_of_own hw₁.later.size_le (goal_withBlock hs.sane .join).2 fun c hc =>
      ⟨.inl hc, ?_⟩
    rintro rfl
    exact Nat.lt_irrefl _ (hs.cursor _ hc).1
  refine built_onward hT hw₄.sane (hw₁.later.trans (h₂.later.trans hl₂₄))
    ((h₂.later.trans hl₂₄).source (source_withBlock hs.sane .join)) le_rfl (onward_cursor _ _) ?_ ?_
  · intro hc ht
    have hf₂ := h₂.framed (hl₂₄.clean hc) (htidy ht)
    have hbown := hown (hf₂.owned b hb)
    refine Frame.keeps ?_ hT le_rfl
    refine (hw₁.frame (by simp)).trans ((hf₂.frame.mono (fun _ => hown) fun _ => .inr).trans
      (((h₃.frame (hw₄.later.clean hc)).mono ?_ ?_).trans (hw₄.frame ?_)))
    · intro c hc
      exact hown (own_of_own h₂.later.size_le hf₂.owned (.inr hc))
    · intro c hc
      rcases List.mem_cons.mp hc with rfl | hc
      · exact .inl hbown
      · exact .inr hc
    · rintro c rfl
      exact .inl hbown
  · rintro hc ht G hG t t' e ⟨c, hcur, htrace⟩ hrun
    have hc₃ := hw₄.later.clean hc
    have hframe₃ := h₃.frame hc₃
    have hG₃ := hw₄.grows.trans hG
    have hat : At G (s.withBlock .join) t := ⟨c, hcur, by rwa [hw₁.nodes]⟩
    have htag := fun t' e => h₂.simulates (hl₂₄.clean hc) (htidy ht) G (hframe₃.grows.trans hG₃) t
      t' e hat
    cases hrun with
    | stops hfirst hne => exact ((htag _ _ hfirst).past_landing (hA hfirst)).later hne hl₂₄.succs
    | @goesOn t₁ t₂ _ hfirst hsecond =>
      obtain ⟨c, hcur, htrace⟩ := (htag _ _ hfirst).normal rfl
      obtain rfl : b = c := Option.some_inj.mp (hb.symm.trans hcur)
      rw [← List.append_assoc]
      refine Ends.lands hsecond (fun e he => ?_) id
      cases he with
      | left hmay hrun =>
        obtain ⟨rfl, rfl⟩ := hrun
        rw [List.append_nil]
        refine .of_normal ⟨b, hedge hmay, ?_⟩
        rwa [hG.closed b (List.ne_nil_of_mem (hedge hmay)), hw₄.nodes,
          hframe₃.nodes b (not_le.mpr (h₂.safe.cursor b hb).1)]
      | right _ hrun =>
        exact (h₃.simulates hc₃ G hG₃ _ _ _ htrace hrun).mono
          (fun _ henters => henters.mono hw₄.later.succs) fun _ _ _ hl => hl.mono hw₄.later.succs

/-- The switch is left from its tag if there is no default section. -/
def State.defaulted (s : State) (sections : List CaseClause) (tagEnd : Option BlockId)
    (after : BlockId) : State :=
  if !sections.any CaseClause.isDefault then s.withEdge tagEnd after else s

theorem realizes_switch {m : Mark} {tag : Expr} {sections : List CaseClause} {close : Pos}
    {b : BlockId} {s₁ s₂ : State}
    (htag : Realizes (.landing .loopEnd s.graph.blocks.size :: T) (Evaluates facts (.expr tag))
      (s.withBlock .join) s₁)
    (hb : s₁.cursor = some b)
    (hsections : Links (.landing .loopEnd s.graph.blocks.size :: T) b s.graph.blocks.size
      (Execution.sectionList facts sections) s₁ s₂) :
    Realizes T (Execution.stmt facts (.switch m tag sections close)) s
      ((s₂.defaulted sections s₁.cursor s.graph.blocks.size).movedTo
        (Onward.cursor (s₂.defaulted sections s₁.cursor s.graph.blocks.size).graph
          s.graph.blocks.size)) := by
  intro hs hT
  have hw₁ := wired_withBlock hs.sane .join
  have hafter := goal_withBlock hs.sane .join
  have hs₁ : Safe (s.withBlock .join) :=
    ⟨hw₁.sane, fun c hc => hw₁.later.source (hs.cursor c hc)⟩
  have hinner : ∀ a ∈ Target.landing .loopEnd s.graph.blocks.size :: T,
      Fits (s.withBlock .join).graph a := by
    intro a ha
    rcases List.mem_cons.mp ha with rfl | ha
    · exact hafter
    · exact (hT a ha).later hw₁.later
  have h₂ := htag hs₁ hinner
  have hsrc₂ := h₂.safe.cursor b hb
  have hafter₂ := h₂.later.goal hafter
  have h₃ := hsections h₂.safe.sane hsrc₂ hafter₂ fun a ha => (hinner a ha).later h₂.later
  have hsrc₃ := h₃.later.source hsrc₂
  have hend : Wired (fun c => c = b) s₂ (s₂.defaulted sections s₁.cursor s.graph.blocks.size) ∧
      (sections.any CaseClause.isDefault = false →
        (s₂.defaulted sections s₁.cursor s.graph.blocks.size).graph.Edge b s.graph.blocks.size) := by
    unfold State.defaulted
    rw [hb]
    split_ifs with hdefault
    · have hw := wired_withEdge (a := some b) h₃.sane (by rintro x ⟨⟩; exact hsrc₃)
        (h₃.later.goal hafter₂)
      exact ⟨hw.mono fun c hc => (Option.some_inj.mp hc).symm, fun _ => edge_withEdge hsrc₃⟩
    · exact ⟨.refl h₃.sane, fun hnone => absurd (by simpa using hnone) hdefault⟩
  rw [Execution.stmt]
  exact built_switch hs hT h₂ (fun hrun => way_ne_jump hrun _) hb h₃ hend.1 hend.2

end

end FlowCheck.Build
