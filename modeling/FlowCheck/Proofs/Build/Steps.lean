import FlowCheck.Flow.Build
import FlowCheck.Proofs.Execution.Trace

/-!
# Steps of construction

Construction moves a cursor over a graph. `Results` says what holds after a step, whether it completes
or fails, and `Runs` what holds if it completes. `Sane` is what holds of the graph at all times, and
`Wired` is what a step does that only adds blocks and edges.
-/
namespace FlowCheck

namespace Build

/-- What holds after a step, whether it completes or fails. -/
def Results {α : Type} (m : Builder α) (s : State) (Q : α → State → Prop)
    (F : Aborted → State → Prop) : Prop :=
  match m s with
  | .ok a s' => Q a s'
  | .error e s' => F e s'

/-- The condition holds after the step, if it completes. -/
def Runs {α : Type} (m : Builder α) (s : State) (Q : α → State → Prop) : Prop :=
  Results m s Q fun _ _ => True

/-- The step does not fail. -/
def Completes {α : Type} (m : Builder α) (s : State) : Prop := ∃ a s', m s = .ok a s'

section

variable {α β : Type} {m : Builder α} {f : α → Builder β} {s s₁ s' : State} {a : α} {b : β}
  {e : Aborted} {Q Q' : α → State → Prop} {R : β → State → Prop} {F F' : Aborted → State → Prop}

/-! ### Sequences -/

/-- A sequence of two steps completes if both do. -/
theorem ok_bind : (m >>= f) s = .ok b s' ↔ ∃ a s₁, m s = .ok a s₁ ∧ f a s₁ = .ok b s' := by
  change EStateM.bind m f s = _ ↔ _
  unfold EStateM.bind
  cases m s <;> simp

/-- A sequence of two steps fails where one of them does. -/
theorem error_bind : (m >>= f) s = .error e s' ↔
    m s = .error e s' ∨ ∃ a s₁, m s = .ok a s₁ ∧ f a s₁ = .error e s' := by
  change EStateM.bind m f s = _ ↔ _
  unfold EStateM.bind
  cases m s <;> simp

theorem bind_of_ok (h : m s = .ok a s') : (m >>= f) s = f a s' := by
  change EStateM.bind m f s = _
  rw [EStateM.bind, h]

theorem ok_pure {a b : α} (h : (pure a : Builder α) s = .ok b s') : a = b ∧ s = s' := by
  cases h
  exact ⟨rfl, rfl⟩

/-! ### Results -/

theorem results_bind :
    Results (m >>= f) s R F ↔ Results m s (fun a s' => Results (f a) s' R F) F := by
  unfold Results
  change (match EStateM.bind m f s with | .ok a s' => R a s' | .error e s' => F e s') ↔ _
  unfold EStateM.bind
  cases m s <;> rfl

theorem Results.mono (h : Results m s Q F) (hQ : ∀ a s', Q a s' → Q' a s')
    (hF : ∀ e s', F e s' → F' e s') : Results m s Q' F' := by
  unfold Results at h ⊢
  cases hm : m s with
  | ok a s' =>
    rw [hm] at h
    exact hQ a s' h
  | error e s' =>
    rw [hm] at h
    exact hF e s' h

theorem Results.bind (h : Results m s Q F) (hf : ∀ a s', Q a s' → Results (f a) s' R F) :
    Results (m >>= f) s R F :=
  results_bind.mpr (h.mono hf fun _ _ => id)

/-- Steps with the same outcome have the same results. -/
theorem Results.of_eq {k : Builder α} {t : State} (hm : m s = k t) (h : Results k t Q F) :
    Results m s Q F := by
  unfold Results
  rwa [hm]

/-- After a step whose outcome is known the rest remains. -/
theorem Results.step {t : State} (hm : m s = .ok a t) (h : Results (f a) t R F) :
    Results (m >>= f) s R F :=
  .of_eq (bind_of_ok hm) h

theorem results_of_ok {t : State} (hm : m s = .ok a t) (h : Q a t) : Results m s Q F := by
  unfold Results
  rwa [hm]

theorem results_of_error (hm : m s = .error e s') (h : F e s') : Results m s Q F := by
  unfold Results
  rwa [hm]

theorem Results.ok (h : Results m s Q F) (hm : m s = .ok a s') : Q a s' := by
  unfold Results at h
  rwa [hm] at h

theorem Results.error (h : Results m s Q F) (hm : m s = .error e s') : F e s' := by
  unfold Results at h
  rwa [hm] at h

theorem runs_bind : Runs (m >>= f) s R ↔ Runs m s fun a s' => Runs (f a) s' R := results_bind

theorem Runs.mono (h : Runs m s Q) (hQ : ∀ a s', Q a s' → Q' a s') : Runs m s Q' :=
  Results.mono h hQ fun _ _ => id

theorem Runs.bind (h : Runs m s Q) (hf : ∀ a s', Q a s' → Runs (f a) s' R) :
    Runs (m >>= f) s R :=
  Results.bind h hf

/-! ### Steps that complete -/

/-- If the first of two steps completes, it is the second that fails. -/
theorem Completes.error (hm : Completes m s) (h : (m >>= f) s = .error e s') :
    ∃ a s₁, m s = .ok a s₁ ∧ f a s₁ = .error e s' := by
  obtain ⟨a, s₁, ha⟩ := hm
  rw [bind_of_ok ha] at h
  exact ⟨a, s₁, ha, h⟩

theorem Completes.bind (hm : Completes m s) (hf : ∀ a s₁, m s = .ok a s₁ → Completes (f a) s₁) :
    Completes (m >>= f) s := by
  obtain ⟨a, s₁, ha⟩ := hm
  rw [Completes, bind_of_ok ha]
  exact hf a s₁ ha

theorem completes_pure (a : α) (s : State) : Completes (pure a) s := ⟨a, s, rfl⟩

/-- After a step that completes the rest remains. -/
theorem Completes.results (hm : Completes m s)
    (h : ∀ a s₁, m s = .ok a s₁ → Results (f a) s₁ R F) : Results (m >>= f) s R F := by
  obtain ⟨a, s₁, ha⟩ := hm
  exact .step ha (h a s₁ ha)

end

/-! ### Graphs in construction -/

/-- A block that edges may leave: any but the exit. -/
def Source (g : Graph) (b : BlockId) : Prop := b < g.blocks.size ∧ g.exit ≠ some b

/-- A block that edges may enter: any but the entry. -/
def Goal (g : Graph) (b : BlockId) : Prop := 0 < b ∧ b < g.blocks.size

/-- What holds of a graph at all times: nothing enters the entry or leaves the exit, the return
block leads to the exit, and no analysis has written into it. -/
structure Sane (g : Graph) : Prop where
  wellFormed : g.WellFormed
  preds_entry : g.preds 0 = []
  exit_lt : ∀ x, g.exit = some x → x < g.blocks.size
  exit_succs : ∀ x, g.exit = some x → g.succs x = []
  ret_edge : ∀ r x, g.ret = some r → g.exit = some x → g.Edge r x
  phis_eq : ∀ b, g.phis b = []
  order_eq : g.order = none

namespace Sane

variable {g : Graph} {a b : BlockId}

theorem newBlock (h : Sane g) (k : BlockKind) : Sane (g.newBlock k).2 where
  wellFormed := h.wellFormed.newBlock k
  preds_entry := by rw [Graph.preds_newBlock, h.preds_entry]
  exit_lt x hx := by
    rw [Graph.size_newBlock]
    exact Nat.lt_succ_of_lt (h.exit_lt x hx)
  exit_succs x hx := by rw [Graph.succs_newBlock, h.exit_succs x hx]
  ret_edge r x hr hx := by
    rw [Graph.Edge, Graph.succs_newBlock]
    exact h.ret_edge r x hr hx
  phis_eq b := by rw [Graph.phis_newBlock, h.phis_eq]
  order_eq := h.order_eq

theorem addNode (h : Sane g) (b : BlockId) (n : Node) : Sane (g.addNode b n) where
  wellFormed := h.wellFormed.addNode b n
  preds_entry := by rw [Graph.preds_addNode, h.preds_entry]
  exit_lt x hx := by
    rw [Graph.size_addNode]
    exact h.exit_lt x hx
  exit_succs x hx := by rw [Graph.succs_addNode, h.exit_succs x hx]
  ret_edge r x hr hx := by
    rw [Graph.Edge, Graph.succs_addNode]
    exact h.ret_edge r x hr hx
  phis_eq c := by rw [Graph.phis_addNode, h.phis_eq]
  order_eq := h.order_eq

theorem fields_addEdge (g : Graph) (a b : BlockId) : (g.addEdge a b).exit = g.exit ∧
    (g.addEdge a b).ret = g.ret ∧ (g.addEdge a b).order = g.order := by
  unfold Graph.addEdge
  split_ifs <;> exact ⟨rfl, rfl, rfl⟩

theorem addEdge (h : Sane g) (ha : Source g a) (hb : Goal g b) : Sane (g.addEdge a b) := by
  obtain ⟨hexit, hret, horder⟩ := fields_addEdge g a b
  refine ⟨h.wellFormed.addEdge ha.1 hb.2, ?_, ?_, ?_, ?_, ?_, ?_⟩
  · rw [Graph.preds_addEdge a hb.2, if_neg, h.preds_entry]
    rintro ⟨rfl, -⟩
    exact Nat.lt_irrefl 0 hb.1
  · intro x hx
    rw [Graph.size_addEdge]
    exact h.exit_lt x (hexit ▸ hx)
  · intro x hx
    rw [hexit] at hx
    rw [Graph.succs_addEdge b ha.1, if_neg, h.exit_succs x hx]
    rintro ⟨rfl, -⟩
    exact ha.2 hx
  · intro r x hr hx
    rw [hret] at hr
    rw [hexit] at hx
    exact (Graph.mem_succs_addEdge b ha.1).mpr (.inl (h.ret_edge r x hr hx))
  · intro c
    rw [Graph.phis_addEdge, h.phis_eq]
  · rw [horder, h.order_eq]

end Sane

/-! ### States in construction -/

/-- The graph is sane, and the cursor may go on. -/
structure Safe (s : State) : Prop where
  sane : Sane s.graph
  cursor : ∀ b, s.cursor = some b → Source s.graph b

/-- No jump has been found without a place to go. -/
def Clean (s : State) : Prop := ∀ d ∈ s.diagnostics, d.code ≠ .noEnclosingLoop

/-- One state after another: blocks stay, and so do findings. -/
structure Later (s s' : State) : Prop where
  size_le : s.graph.blocks.size ≤ s'.graph.blocks.size
  exit_eq : s'.graph.exit = s.graph.exit
  ret_eq : s'.graph.ret = s.graph.ret
  diagnostics : s.diagnostics <+: s'.diagnostics
  succs : ∀ {b c}, c ∈ s.graph.succs b → c ∈ s'.graph.succs b

namespace Later

variable {s s' s'' : State} {b : BlockId}

theorem refl (s : State) : Later s s := ⟨le_rfl, rfl, rfl, List.prefix_rfl, id⟩

theorem trans (h : Later s s') (h' : Later s' s'') : Later s s'' where
  size_le := h.size_le.trans h'.size_le
  exit_eq := h'.exit_eq.trans h.exit_eq
  ret_eq := h'.ret_eq.trans h.ret_eq
  diagnostics := h.diagnostics.trans h'.diagnostics
  succs hc := h'.succs (h.succs hc)

theorem clean (h : Later s s') (hc : Clean s') : Clean s := fun d hd =>
  hc d (h.diagnostics.subset hd)

theorem source (h : Later s s') (hb : Source s.graph b) : Source s'.graph b :=
  ⟨Nat.lt_of_lt_of_le hb.1 h.size_le, by rw [h.exit_eq]; exact hb.2⟩

theorem goal (h : Later s s') (hb : Goal s.graph b) : Goal s'.graph b :=
  ⟨hb.1, Nat.lt_of_lt_of_le hb.2 h.size_le⟩

end Later

/-- A step that adds blocks and edges from the blocks in `A`, but no nodes. -/
structure Wired (A : BlockId → Prop) (s s' : State) : Prop where
  sane : Sane s'.graph
  later : Later s s'
  nodes : ∀ c, s'.graph.nodes c = s.graph.nodes c
  succs : ∀ c, ¬ A c → s'.graph.succs c = s.graph.succs c

namespace Wired

variable {A A' : BlockId → Prop} {s s' s'' : State}

theorem refl (hs : Sane s.graph) : Wired A s s := ⟨hs, .refl s, fun _ => rfl, fun _ _ => rfl⟩

theorem trans (h : Wired A s s') (h' : Wired A s' s'') : Wired A s s'' where
  sane := h'.sane
  later := h.later.trans h'.later
  nodes c := (h'.nodes c).trans (h.nodes c)
  succs c hc := (h'.succs c hc).trans (h.succs c hc)

theorem mono (h : Wired A s s') (hA : ∀ c, A c → A' c) : Wired A' s s' where
  sane := h.sane
  later := h.later
  nodes := h.nodes
  succs c hc := h.succs c fun hA' => hc (hA c hA')

theorem grows (h : Wired A s s') : Graph.Grows s.graph s'.graph where
  nodes b := by rw [h.nodes b]
  closed b _ := h.nodes b
  succs hc := h.later.succs hc

/-- Moving the cursor, findings that are no stray jumps and marks of dead code change no graph. -/
theorem of_graph_eq (hs : Sane s.graph) (hgraph : s'.graph = s.graph)
    (hdiag : s.diagnostics <+: s'.diagnostics) : Wired A s s' := by
  refine ⟨hgraph ▸ hs, ⟨?_, ?_, ?_, hdiag, ?_⟩, ?_, ?_⟩ <;> intros <;> simp_all

end Wired

/-! ### Jump statements -/

/-- The two kinds of jumps are built alike, up to the text that reports a jump without a target. -/
theorem exists_jumpStmt (T : List Target) (m : Mark) (kind : Jump) :
    ∃ text, jumpStmt T m kind = (do
      add (.stmt (.jump m kind))
      if !(← jump m.pos kind.exit T) then report .error .noEnclosingLoop m.pos text) := by
  cases kind <;> exact ⟨_, rfl⟩

/-! ### Primitive steps -/

section Primitive

variable {s : State} {b : BlockId}

/-- The state with a new block. -/
def State.withBlock (s : State) (k : BlockKind) : State :=
  { s with graph := (s.graph.newBlock k).2 }

/-- The state with an edge more. -/
def State.withEdge (s : State) (a : Option BlockId) (b : BlockId) : State :=
  { s with graph := s.graph.connect a b }

/-- The state with the cursor elsewhere. -/
def State.movedTo (s : State) (c : Option BlockId) : State :=
  { s with cursor := c, warned := false }

@[simp] theorem cursor_movedTo (c : Option BlockId) : (s.movedTo c).cursor = c := rfl

@[simp] theorem graph_movedTo (c : Option BlockId) : (s.movedTo c).graph = s.graph := rfl

theorem runs_cursor {Q : Option BlockId → State → Prop} : Runs cursor s Q ↔ Q s.cursor s := Iff.rfl

theorem runs_connectHere {Q : Unit → State → Prop} :
    Runs (connectHere b) s Q ↔ Q () (s.withEdge s.cursor b) := Iff.rfl

theorem runs_moveTo {c : Option BlockId} {Q : Unit → State → Prop} :
    Runs (moveTo c) s Q ↔ Q () { s with cursor := c } := Iff.rfl

theorem runs_goOn {c : Option BlockId} {Q : Unit → State → Prop} :
    Runs (goOn c) s Q ↔ Q () (s.movedTo c) := Iff.rfl

theorem wired_movedTo {A : BlockId → Prop} (hs : Sane s.graph) (c : Option BlockId) :
    Wired A s (s.movedTo c) :=
  .of_graph_eq hs rfl List.prefix_rfl

theorem later_of_movedTo {s' : State} {c : Option BlockId} (h : Later (s.movedTo c) s') :
    Later s s' :=
  ⟨h.size_le, h.exit_eq, h.ret_eq, h.diagnostics, h.succs⟩

theorem wired_withBlock (hs : Sane s.graph) (k : BlockKind) :
    Wired (fun _ => False) s (s.withBlock k) where
  sane := hs.newBlock k
  later := ⟨by simp [State.withBlock], rfl, rfl, List.prefix_rfl, by simp [State.withBlock]⟩
  nodes c := by simp [State.withBlock]
  succs c _ := by simp [State.withBlock]

theorem goal_withBlock (hs : Sane s.graph) (k : BlockKind) :
    Goal (s.withBlock k).graph s.graph.blocks.size :=
  ⟨hs.wellFormed.size_pos, by simp [State.withBlock]⟩

theorem source_withBlock (hs : Sane s.graph) (k : BlockKind) :
    Source (s.withBlock k).graph s.graph.blocks.size :=
  ⟨by simp [State.withBlock], fun he => Nat.lt_irrefl _ (hs.exit_lt _ he)⟩

theorem wired_withEdge {a : Option BlockId} (hs : Sane s.graph)
    (ha : ∀ x, a = some x → Source s.graph x) (hb : Goal s.graph b) :
    Wired (fun c => a = some c) s (s.withEdge a b) := by
  cases a with
  | none => exact .refl hs
  | some a =>
    have ha' := ha a rfl
    obtain ⟨hexit, hret, -⟩ := Sane.fields_addEdge s.graph a b
    refine ⟨hs.addEdge ha' hb, ⟨?_, hexit, hret, List.prefix_rfl, ?_⟩, ?_, ?_⟩
    · exact (Graph.size_addEdge s.graph a b).ge
    · intro c d hd
      exact (Graph.mem_succs_addEdge b ha'.1).mpr (.inl hd)
    · intro c
      exact Graph.nodes_addEdge s.graph a b c
    · intro c hc
      refine (Graph.succs_addEdge b ha'.1 c).trans (if_neg ?_)
      rintro ⟨rfl, -⟩
      exact hc rfl

theorem edge_withEdge {a : BlockId} (ha : Source s.graph a) :
    (s.withEdge (some a) b).graph.Edge a b :=
  (Graph.mem_succs_addEdge b ha.1).mpr (.inr ⟨rfl, rfl⟩)

theorem edge_withCursor {c : BlockId} (hs : Safe s) (hc : s.cursor = some c) :
    (s.withEdge s.cursor b).graph.Edge c b := by
  rw [hc]
  exact edge_withEdge (hs.cursor c hc)

end Primitive

end Build

end FlowCheck
