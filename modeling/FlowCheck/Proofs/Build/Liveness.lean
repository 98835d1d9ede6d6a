import FlowCheck.Proofs.Build.Growth

/-!
# What a live cursor is worth

The cursor is in a block only if the block can be reached from the entry or from the beginning of
some `finally` block. A `finally` block is built from a live cursor whether or not anything leads
into it, so a live cursor does not mean that the block can be reached from the entry.
-/
namespace FlowCheck

namespace Graph

variable {g : Graph} {a b : BlockId}

/-- The block can be reached from the entry or from the beginning of a `finally` block. -/
def Rooted (g : Graph) (b : BlockId) : Prop :=
  ∃ r l, (r = 0 ∨ r ∈ g.cleanupEntries) ∧ g.Path r l b

/-- A block of the graph that is rooted. -/
def Live (g : Graph) (b : BlockId) : Prop := b < g.blocks.size ∧ g.Rooted b

theorem Rooted.step (h : g.Rooted a) (he : g.Edge a b) : g.Rooted b := by
  obtain ⟨r, l, hr, hl⟩ := h
  exact ⟨r, l ++ [a], hr, hl.step he⟩

theorem rooted_of_cleanup (h : b ∈ g.cleanupEntries) : g.Rooted b := ⟨b, [], .inr h, .here⟩

theorem mem_cleanupEntries : b ∈ g.cleanupEntries ↔
    b < g.blocks.size ∧ (g.block b).kind = .cleanup := by
  simp [cleanupEntries]

/-- Every block that an edge enters is rooted, but for the exit; so is every block with nodes, but
for the return block. -/
structure Led (g : Graph) : Prop where
  entered : ∀ b, g.exit ≠ some b → g.preds b ≠ [] → g.Rooted b
  filled : ∀ b, g.ret ≠ some b → g.nodes b ≠ [] → g.Rooted b
  exit_lt : ∀ x, g.exit = some x → x < g.blocks.size

theorem Led.exit_ne (h : g.Led) (hb : g.blocks.size ≤ b) : g.exit ≠ some b := fun he =>
  absurd (h.exit_lt b he) (not_lt.mpr hb)

end Graph

namespace Build

variable {E : BlockId → BlockId → Prop} {N : BlockId → Node → Prop} {s s' : State}
  {T : List Target} {b : BlockId} {o : Option BlockId}

theorem Grown.rooted (h : Grown s s') (hb : s.graph.Rooted b) : s'.graph.Rooted b := by
  obtain ⟨r, l, hr, hl⟩ := hb
  refine ⟨r, l, hr.imp id fun hr => ?_, hl.congr fun _ _ => h.succs⟩
  obtain ⟨hlt, hkind⟩ := Graph.mem_cleanupEntries.mp hr
  exact Graph.mem_cleanupEntries.mpr ⟨hlt.trans_le h.size_le, (h.kind_eq r hlt).trans hkind⟩

theorem Grown.live (h : Grown s s') (hb : s.graph.Live b) : s'.graph.Live b :=
  ⟨hb.1.trans_le h.size_le, h.rooted hb.2⟩

/-- Wherever the block is, it is live. -/
def Lives (s : State) (o : Option BlockId) : Prop := ∀ b, o = some b → s.graph.Live b

theorem Lives.none (s : State) : Lives s none := fun _ h => nomatch h

theorem Grown.lives (h : Grown s s') (ho : Lives s o) : Lives s' o := fun b hb => h.live (ho b hb)

/-- The ends of the `finally` blocks among targets are live. -/
def LivesAll (s : State) (T : List Target) : Prop := ∀ b ∈ lasts T, s.graph.Live b

theorem Grown.livesAll (h : Grown s s') (hT : LivesAll s T) : LivesAll s' T := fun b hb =>
  h.live (hT b hb)

theorem LivesAll.append {T' : List Target} (hT : LivesAll s T) (hT' : LivesAll s T') :
    LivesAll s (T ++ T') := by
  intro b hb
  rw [lasts_append] at hb
  exact (List.mem_append.mp hb).elim (hT b) (hT' b)

theorem livesAll_landing (s : State) (k : Exit) (b : BlockId) : LivesAll s [.landing k b] :=
  fun _ hb => nomatch hb

/-- The graph is led to as it should be, and so is the cursor. -/
structure Alive (s : State) : Prop where
  led : s.graph.Led
  cursor : Lives s s.cursor

/-! ### Steps -/

/-- Edges that leave live blocks and nodes in live blocks do no harm. -/
theorem Adds.led (h : Adds E N s s') (hs : s.graph.Led) (hE : ∀ a b, E a b → s.graph.Live a)
    (hN : ∀ b n, N b n → s.graph.Rooted b) : s'.graph.Led where
  entered b hb hpreds := by
    rw [h.exit_eq] at hb
    obtain ⟨a, ha⟩ := List.exists_mem_of_ne_nil _ hpreds
    rcases h.mem_preds ha with ha | ⟨he, hsucc⟩
    · exact h.rooted (hs.entered b hb (List.ne_nil_of_mem ha))
    · have hlive := hE a b he
      exact (h.rooted hlive.2).step (hsucc hlive.1)
  filled b hb hnodes := by
    rw [h.ret_eq] at hb
    obtain ⟨ns, hns, hmem⟩ := h.added b
    cases ns with
    | nil =>
      rw [hns, List.append_nil] at hnodes
      exact h.rooted (hs.filled b hb hnodes)
    | cons n ns => exact h.rooted (hN b n (hmem n List.mem_cons_self))
  exit_lt x hx := (hs.exit_lt x (h.exit_eq ▸ hx)).trans_le h.size_le

namespace Alive

theorem withBlock (h : Alive s) (k : BlockKind) : Alive (s.withBlock k) where
  led := by
    have hgrown := grown_withBlock s k
    refine ⟨fun b hb hpreds => ?_, fun b hb hnodes => ?_, fun x hx => ?_⟩
    · exact hgrown.rooted (h.led.entered b hb (by simpa [State.withBlock] using hpreds))
    · exact hgrown.rooted (h.led.filled b hb (by simpa [State.withBlock] using hnodes))
    · exact (h.led.exit_lt x hx).trans_le hgrown.size_le
  cursor := (grown_withBlock s k).lives h.cursor

theorem movedTo (h : s.graph.Led) (ho : Lives s o) : Alive (s.movedTo o) := ⟨h, ho⟩

theorem stopped (h : Alive s) : Alive (s.movedTo none) := .movedTo h.led (.none s)

theorem withEdge (h : Alive s) {a : Option BlockId} (ha : Lives s a) (b : BlockId) :
    Alive (s.withEdge a b) where
  led := (adds_withEdge (E := fun x _ => a = some x) (N := NoNode) fun _ => id).led h.led
    (fun x _ hx => ha x hx) fun _ _ => False.elim
  cursor := (grown_withEdge s a b).lives h.cursor

theorem withNode (h : Alive s) (hb : s.graph.Live b) (n : Node) : Alive (s.withNode b n) where
  led := (adds_withNode (E := NoEdge) (N := fun c _ => c = b) rfl).led h.led
    (fun _ _ => False.elim) fun _ _ hc => hc ▸ hb.2
  cursor := (adds_withNode (E := NoEdge) (N := fun _ _ => True) trivial).lives h.cursor

/-- A step that leaves graph and cursor alone. -/
theorem congr (h : Alive s) (hgraph : s'.graph = s.graph) (hcursor : s'.cursor = s.cursor) :
    Alive s' := by
  refine ⟨hgraph ▸ h.led, fun b hb => ?_⟩
  rw [hgraph]
  exact h.cursor b (hcursor ▸ hb)

theorem reported (h : Alive s) (code : Code) (pos : Pos) (text : String) :
    Alive (s.reported code pos text) := h.congr rfl rfl

end Alive

/-- A new block that an edge from a live block enters is live. -/
theorem live_withEdge {a : BlockId} (ha : s.graph.Live a) (hb : b < s.graph.blocks.size) :
    (s.withEdge (some a) b).graph.Live b := by
  refine ⟨hb.trans_le (grown_withEdge s (some a) b).size_le, ?_⟩
  have hedge : (s.withEdge (some a) b).graph.Edge a b :=
    (Graph.mem_succs_addEdge b ha.1).mpr (.inr ⟨rfl, rfl⟩)
  exact ((grown_withEdge s (some a) b).rooted ha.2).step hedge

theorem Alive.branched (h : Alive s) {a : BlockId} (ha : s.graph.Live a) (k : BlockKind) :
    Alive (s.branched k (some a)) := by
  have hblock := (grown_withBlock s k).live ha
  have hedge := (h.withBlock k).withEdge (a := some a) (fun x hx => Option.some_inj.mp hx ▸ hblock)
    s.graph.blocks.size
  refine .movedTo hedge.led fun x hx => ?_
  obtain rfl := Option.some_inj.mp hx
  exact live_withEdge hblock (by simp)

theorem Alive.branchedIf (h : Alive s) {a : BlockId} (ha : s.graph.Live a) (taken : Bool) :
    Alive (s.branchedIf taken (some a)) := by
  cases taken with
  | true => exact h.branched ha .branch
  | false => exact h.stopped

theorem Alive.joined (h : Alive s) {a b : Option BlockId} (ha : Lives s a) (hb : Lives s b) :
    Alive (s.joined a b) := by
  unfold State.joined
  split_ifs with hnone
  · exact h.stopped
  · have hblock := grown_withBlock s .join
    have hfirst := (h.withBlock .join).withEdge (hblock.lives ha) s.graph.blocks.size
    have hgrown := hblock.trans (grown_withEdge _ a s.graph.blocks.size)
    have hboth := hfirst.withEdge (hgrown.lives hb) s.graph.blocks.size
    refine .movedTo hboth.led fun x hx => ?_
    obtain rfl := Option.some_inj.mp hx
    cases a with
    | some a =>
      have hlive := live_withEdge (b := s.graph.blocks.size) (hblock.lives ha a rfl) (by simp)
      exact (grown_withEdge _ b s.graph.blocks.size).live hlive
    | none =>
      cases b with
      | none => exact absurd rfl hnone
      | some b =>
        exact live_withEdge (hgrown.lives hb b rfl) ((size_withEdge _ _ _).symm ▸ by simp)

theorem Alive.opened (h : Alive s) {c : BlockId} (hc : s.cursor = some c) (value : Option Bool)
    (tested : Bool) (after : BlockId) : Alive (s.opened value tested after) := by
  have hleave : Alive (if value != some true then s.withEdge s.cursor after else s) := by
    split_ifs
    · exact h.withEdge h.cursor after
    · exact h
  have hgrown : Grown s (if value != some true then s.withEdge s.cursor after else s) := by
    split_ifs
    · exact grown_withEdge s _ after
    · exact .refl s
  unfold State.opened
  cases tested with
  | false => exact hleave
  | true =>
    rw [hc] at hleave hgrown ⊢
    exact hleave.branchedIf (hgrown.live (h.cursor c hc)) _

theorem Alive.laidOut (h : Alive s) (post : Option Simple) : Alive (s.laidOut post) := by
  cases post with
  | none => exact h.withBlock .afterLoop
  | some x => exact (h.withBlock .afterLoop).withBlock .post

/-- From the header of a foreach loop both its body and what follows it can be reached. -/
theorem Alive.iterated (h : Alive s) {c : BlockId} (hc : s.cursor = some c) (n : Node) :
    Alive (s.iterated n) ∧ (s.iterated n).graph.Live (s.withBlock .loop).graph.blocks.size := by
  let header := s.graph.blocks.size
  let after := (s.withBlock .loop).graph.blocks.size
  let s₁ := (s.withBlock .loop).withBlock .afterLoop
  have hgrown : Grown s s₁ := (grown_withBlock s .loop).trans (grown_withBlock _ .afterLoop)
  have hs₁ : Alive s₁ := (h.withBlock .loop).withBlock .afterLoop
  have hsize : header < s₁.graph.blocks.size ∧ after < s₁.graph.blocks.size := by
    simp [header, after, s₁]
  have hheader : (s₁.withEdge s.cursor header).graph.Live header := by
    rw [hc]
    exact live_withEdge (hgrown.live (h.cursor c hc)) hsize.1
  have hentered : Alive ((s₁.withEdge s.cursor header).movedTo (some header)) :=
    .movedTo (hs₁.withEdge (hgrown.lives h.cursor) header).led fun x hx =>
      Option.some_inj.mp hx ▸ hheader
  have hnode := hentered.withNode hheader n
  have hlive := (adds_withNode (s := (s₁.withEdge s.cursor header).movedTo (some header))
    (E := NoEdge) (N := fun _ _ => True) (b := header) (n := n) trivial).live hheader
  have hleave := hnode.withEdge (a := some header) (fun x hx => Option.some_inj.mp hx ▸ hlive) after
  have hafter := live_withEdge (b := after) hlive (by
    rw [size_withNode, graph_movedTo, size_withEdge]
    exact hsize.2)
  have hbranch := adds_branched (N := NoNode) ((((s₁.withEdge s.cursor header).movedTo
    (some header)).withNode header n).withEdge (some header) after) .branch (by decide) (some header)
  exact ⟨hleave.branched ((grown_withEdge _ (some header) after).live hlive) .branch,
    hbranch.live hafter⟩

theorem Alive.fallenThrough (h : Alive s) (m : Mark) (after : BlockId) :
    Alive (s.fallenThrough m after) := by
  unfold State.fallenThrough
  split_ifs
  · exact (h.reported _ _ _).withEdge h.cursor after
  · exact h

theorem Alive.defaulted (h : Alive s) (sections : List CaseClause) {tagEnd : Option BlockId}
    (ht : Lives s tagEnd) (after : BlockId) : Alive (s.defaulted sections tagEnd after) := by
  unfold State.defaulted
  split_ifs
  · exact h.withEdge ht after
  · exact h

theorem Alive.compared (h : Alive s) (before : List ErrorType) (a : ErrorType) (m : Mark) :
    Alive (s.compared before a m) := by
  unfold State.compared
  split_ifs
  · exact h.congr rfl rfl
  · exact h

theorem Alive.markedHere (h : Alive s) (m : Mark) : Alive (s.markedHere m) := by
  unfold State.markedHere
  split_ifs
  · exact h.congr rfl rfl
  · exact h

/-- Going on in a block that jumps may have entered. -/
theorem Alive.onward (h : Alive s) (hb : s.graph.exit ≠ some b) :
    Alive (s.movedTo (Onward.cursor s.graph b)) := by
  refine .movedTo h.led fun c hc => ?_
  unfold Onward.cursor at hc
  split_ifs at hc with hpreds
  obtain rfl := Option.some_inj.mp hc
  rw [List.isEmpty_iff] at hpreds
  obtain ⟨p, hp⟩ := List.exists_mem_of_ne_nil _ hpreds
  exact ⟨Graph.lt_of_mem_preds hp, h.led.entered b hb hpreds⟩

/-! ### Departures and nodes -/

theorem LivesAll.outward (hT : LivesAll s T) (ho : Lives s o) {a b : BlockId}
    (h : Outward o T a b) : s.graph.Live a :=
  h.elim (fun h => ho a h.1) fun h => hT a (mem_lasts_of_mem_routes h)

theorem Departed.alive (h : Departed o T s s') (hs : s.graph.Led) (ho : Lives s o)
    (hT : LivesAll s T) : Alive s' where
  led := (h.adds (N := NoNode)).led hs (fun _ _ he => hT.outward ho he) fun _ _ => False.elim
  cursor b hb := h.grown.live ((h.cursor b hb).elim (ho b) (hT b))

theorem Placed.alive {n : Node} (h : Placed T n s s') (hs : Alive s) (hT : LivesAll s T) :
    Alive s' := by
  cases h with
  | here hb => exact hs.withNode (hs.cursor _ hb) n
  | @after b s₁ hb hd =>
    have hlive : Lives s (some b) := hb ▸ hs.cursor
    have hs₁ := hd.alive hs.led hlive hT
    have hbranch := hs₁.branched (hd.grown.live (hlive b rfl)) .plain
    exact hbranch.withNode (hbranch.cursor _ rfl) n

theorem PlacedOption.alive {n : Option Node} (h : PlacedOption T n s s') (hs : Alive s)
    (hT : LivesAll s T) : Alive s' := by
  cases n with
  | none => exact (show s' = s from h) ▸ hs
  | some n => exact Placed.alive h hs hT

theorem Stands.alive {x : Stmt} (h : Stands T x s s') (hs : Alive s) (hT : LivesAll s T) :
    Alive s' := by
  cases h with
  | goesOn _ h => exact h.alive hs hT
  | leaves _ h hd =>
    have hs₁ := h.alive hs hT
    exact (hd.alive hs₁.led hs₁.cursor (h.adds.livesAll hT)).stopped
  | strays h hd =>
    have hs₁ := h.alive hs hT
    exact (hd.alive hs₁.led hs₁.cursor (h.adds.livesAll hT)).congr rfl rfl

theorem Closes.alive {header : BlockId} {q : Option (Simple × BlockId)}
    (h : Closes facts T header q s s') (hs : Alive s) (hT : LivesAll s T)
    (hq : ∀ p, q = some p → s.graph.exit ≠ some p.2) : Alive s' := by
  cases h with
  | straight => exact hs.withEdge hs.cursor header
  | @dead q b hb =>
    have hentered := hs.withEdge hs.cursor b
    have hmarked : Alive ((s.withEdge s.cursor b).marked ((Node.stmt (.simple q)).subtree.map Node.id)) :=
      hentered.congr rfl rfl
    exact hmarked.withEdge hentered.cursor header
  | @live q b s s₁ hb h =>
    have hgrown := grown_withEdge s s.cursor b
    have hentered := hs.withEdge hs.cursor b
    have hlive : (s.withEdge s.cursor b).graph.Live b := by
      obtain ⟨p, hp⟩ := List.exists_mem_of_ne_nil _ hb
      refine ⟨Graph.lt_of_mem_preds hp, hentered.led.entered b ?_ hb⟩
      rw [hgrown.exit_eq]
      exact hq _ rfl
    have hmoved : Alive ((s.withEdge s.cursor b).movedTo (some b)) :=
      .movedTo hentered.led fun x hx => Option.some_inj.mp hx ▸ hlive
    have hs₁ := h.placed.alive hmoved (hgrown.livesAll hT)
    exact hs₁.withEdge hs₁.cursor header

theorem Prepared.alive {facts : Facts} {cs : List CatchClause} {hs : List (ErrorType × BlockId)}
    (h : Prepared facts cs s hs s') (ha : Alive s) : Alive s' := by
  induction h with
  | nil => exact ha
  | cons _ ih => exact (ih ha).withBlock .handler

/-! ### Courses -/

/-- The blocks around a part that it goes on from are live. -/
def Part.Fed (s : State) : Part → Prop
  | .sections tagEnd _ _ => ∃ c, tagEnd = some c ∧ s.graph.Live c
  | .clauses cl _ _ hs _ => LivesAll s cl.toList ∧ ∀ p ∈ hs, s.graph.exit ≠ some p.2
  | _ => True

theorem Course.cursor_cleanup {facts : Facts} {b : Option Block} {cl : Option Target}
    {made : List (Stmt × BlockId)} (h : Course facts T (.cleanup b cl) s made s') :
    ∀ c ∈ lasts cl.toList, s'.cursor = some c := by
  cases h with
  | noCleanup => simp [lasts]
  | cleanup h => simp [lasts]

/-- Construction of a part takes nothing away, and it keeps the cursor where a path from the entry or
from the beginning of a `finally` block leads. -/
structure KeepsAlive (T : List Target) (p : Part) (s s' : State) : Prop where
  grown : Grown s s'
  alive : Alive s → LivesAll s T → p.Fed s → Alive s'

/-! ### Compound statements

Each part is built from a live cursor, since the steps before it keep it alive. Blocks that are set
aside for later are live when control goes on from them: they were when they were set aside, or some
edge enters them by then. -/

section

variable {facts : Facts} {n : Node} {body : Block} {s₁ s₂ s₃ s₄ s₅ : State}

theorem alive_cond {yes : Block} {xs : List Stmt} {taken taken' : Bool} (hs : Alive s)
    (hT : LivesAll s T) (htest : Placed T n s s₁)
    (hyes : KeepsAlive T (.block yes) (s₁.branchedIf taken s₁.cursor) s₂)
    (hno : KeepsAlive T (.stmts xs) (s₂.branchedIf taken' s₁.cursor) s₃) :
    Alive (s₃.joined s₂.cursor s₃.cursor) := by
  have hs₁ := htest.alive hs hT
  have hg₁ := htest.adds.toGrown
  obtain ⟨c, hc⟩ := htest.cursor
  have hlive := hs₁.cursor c hc
  rw [hc] at hyes hno
  have hgb := (adds_branchedIf (N := NoNode) s₁ taken (some c)).toGrown
  have hs₂ := hyes.alive (hs₁.branchedIf hlive _) ((hg₁.trans hgb).livesAll hT) trivial
  have hg₂ := hgb.trans hyes.grown
  have hgb' := (adds_branchedIf (N := NoNode) s₂ taken' (some c)).toGrown
  have hs₃ := hno.alive (hs₂.branchedIf (hg₂.live hlive) _)
    (((hg₁.trans hg₂).trans hgb').livesAll hT) trivial
  exact hs₃.joined ((hgb'.trans hno.grown).lives hs₂.cursor) hs₃.cursor

theorem alive_loop {post : Option Simple} {value : Option Bool} {tested : Bool} {c : BlockId}
    {q : Option (Simple × BlockId)} {x y : Option Node} (hs : Alive s) (hT : LivesAll s T)
    (hc : s.cursor = some c) (hinit : PlacedOption T x s s₁)
    (htest : PlacedOption T y (s₁.branched .loop s₁.cursor) s₂)
    (hq : q = post.map fun x => (x, (s₂.withBlock .afterLoop).graph.blocks.size))
    (hbody : KeepsAlive (loopTargets s₁.graph.blocks.size s₂.graph.blocks.size q T) (.block body)
      ((s₂.laidOut post).opened value tested s₂.graph.blocks.size) s₃)
    (hround : Closes facts (loopTargets s₁.graph.blocks.size s₂.graph.blocks.size q T)
      s₁.graph.blocks.size q s₃ s₄) :
    Alive (s₄.movedTo (Onward.cursor s₄.graph s₂.graph.blocks.size)) := by
  have hs₁ := PlacedOption.alive hinit hs hT
  have hg₁ := hinit.adds.toGrown
  obtain ⟨c₁, hc₁⟩ := PlacedOption.cursor hinit hc
  rw [hc₁] at htest
  have hheader := (adds_branched (N := NoNode) s₁ .loop (by decide) (some c₁)).toGrown
  have hs₂ := PlacedOption.alive htest (hs₁.branched (hs₁.cursor c₁ hc₁) .loop)
    ((hg₁.trans hheader).livesAll hT)
  obtain ⟨c₂, hc₂⟩ := PlacedOption.cursor htest rfl
  have hg₂ : Grown s s₂ := hg₁.trans (hheader.trans (PlacedOption.adds htest).toGrown)
  have hopen := (adds_laidOut (N := NoNode) s₂ post).toGrown.trans
    (adds_opened (N := NoNode) (s₂.laidOut post) value tested s₂.graph.blocks.size).toGrown
  have hs₃ := hbody.alive ((hs₂.laidOut post).opened ((cursor_laidOut s₂ post).trans hc₂) _ _ _)
    ((hg₂.trans hopen).livesAll hT) trivial
  have hg₃ := hopen.trans hbody.grown
  have hs₄ := hround.alive hs₃ ((hg₂.trans hg₃).livesAll hT) (by
    rintro p rfl
    obtain ⟨x, -, rfl⟩ := Option.map_eq_some_iff.mp hq.symm
    rw [hg₃.exit_eq]
    exact hs₂.led.exit_ne (grown_withBlock s₂ .afterLoop).size_le)
  refine hs₄.onward ?_
  rw [(hg₃.trans hround.grown).exit_eq]
  exact hs₂.led.exit_ne le_rfl

theorem alive_foreach {T' : List Target} {x : Node} (hs : Alive s) (hT : LivesAll s T)
    (hT' : ∀ b ∈ lasts T', b ∈ lasts T) (hoperand : Placed T n s s₁)
    (hbody : KeepsAlive T' (.block body) (s₁.iterated x) s₂) :
    Alive ((s₂.withEdge s₂.cursor s₁.graph.blocks.size).movedTo
      (some (s₁.withBlock .loop).graph.blocks.size)) := by
  have hs₁ := hoperand.alive hs hT
  obtain ⟨c, hc⟩ := hoperand.cursor
  obtain ⟨hopen, hafter⟩ := hs₁.iterated hc x
  have hg := hoperand.adds.toGrown.trans (adds_iterated s₁ x).toGrown
  have hs₂ := hbody.alive hopen (fun b hb => hg.livesAll hT b (hT' b hb)) trivial
  have hback := hs₂.withEdge hs₂.cursor s₁.graph.blocks.size
  refine .movedTo hback.led fun x hx => Option.some_inj.mp hx ▸ ?_
  exact (hbody.grown.trans (grown_withEdge s₂ _ _)).live hafter

theorem alive_switch {sections : List CaseClause} (hs : Alive s) (hT : LivesAll s T)
    (htag : Placed (.landing .loopEnd s.graph.blocks.size :: T) n (s.withBlock .join) s₁)
    (hsections : KeepsAlive (.landing .loopEnd s.graph.blocks.size :: T)
      (.sections s₁.cursor s.graph.blocks.size sections) s₁ s₂) :
    Alive ((s₂.defaulted sections s₁.cursor s.graph.blocks.size).movedTo
      (Onward.cursor (s₂.defaulted sections s₁.cursor s.graph.blocks.size).graph
        s.graph.blocks.size)) := by
  have hs₁ := htag.alive (hs.withBlock .join) ((grown_withBlock s .join).livesAll hT)
  have hg₁ := (grown_withBlock s .join).trans htag.adds.toGrown
  obtain ⟨c, hc⟩ := htag.cursor
  have hs₂ := hsections.alive hs₁ (hg₁.livesAll hT) ⟨c, hc, hs₁.cursor c hc⟩
  have hs₃ := hs₂.defaulted sections (hsections.grown.lives hs₁.cursor) s.graph.blocks.size
  refine hs₃.onward ?_
  have hg₃ := (hg₁.trans hsections.grown).trans
    (adds_defaulted (N := NoNode) s₂ sections s₁.cursor s.graph.blocks.size).toGrown
  rw [hg₃.exit_eq]
  exact hs.led.exit_ne le_rfl

theorem alive_attempt {clauses : List CatchClause} {cleanup : Option Block} {cl : Option Target}
    {hs₀ : List (ErrorType × BlockId)} {c : BlockId} (hs : Alive s) (hT : LivesAll s T)
    (hc : s.cursor = some c) (hcl : ∀ b ∈ lasts cl.toList, s₁.cursor = some b)
    (hcleanup : KeepsAlive T (.cleanup cleanup cl) (s.withBlock .join) s₁)
    (hready : Prepared facts clauses s₁ hs₀ s₂)
    (hbody : KeepsAlive (handlerTargets hs₀ ++ (cl.toList ++ T)) (.block body)
      (s₂.movedTo (some c)) s₃)
    (hleave : Departed s₃.cursor (cl.toList ++ [.landing .loopEnd s.graph.blocks.size]) s₃ s₄)
    (hclauses : KeepsAlive (cl.toList ++ T) (.clauses cl s.graph.blocks.size [] hs₀ clauses) s₄ s₅) :
    Alive (s₅.movedTo (Onward.cursor s₅.graph s.graph.blocks.size)) := by
  have hblock := grown_withBlock s .join
  have hs₁ := hcleanup.alive (hs.withBlock .join) (hblock.livesAll hT) trivial
  have hg₁ := hblock.trans hcleanup.grown
  have hs₂ := hready.alive hs₁
  have hready' := (hready.adds (E := NoEdge) (N := NoNode)).toGrown
  have hg₂ := hg₁.trans hready'
  -- the end of the `finally` block is where its construction left the cursor
  have hlast : LivesAll s₁ cl.toList := fun b hb => hs₁.cursor b (hcl b hb)
  have hboth {s' : State} (h : Grown s₁ s') : LivesAll s' (cl.toList ++ T) :=
    (h.livesAll hlast).append ((hg₁.trans h).livesAll hT)
  have hhandlers : LivesAll s₂ (handlerTargets hs₀ ++ (cl.toList ++ T)) := by
    intro b hb
    rw [lasts_handlerTargets] at hb
    exact hboth hready' b hb
  have hstart : Alive (s₂.movedTo (some c)) :=
    .movedTo hs₂.led fun x hx => hg₂.live (hs.cursor x (hc.trans hx))
  have hs₃ := hbody.alive hstart hhandlers trivial
  have hg₃ := hready'.trans ((grown_movedTo s₂ (some c)).trans hbody.grown)
  have hs₄ := hleave.alive hs₃.led hs₃.cursor ((hg₃.livesAll hlast).append (livesAll_landing _ _ _))
  have hg₄ := hg₃.trans hleave.grown
  have hs₅ := hclauses.alive hs₄ (hboth hg₄) ⟨hg₄.livesAll hlast, fun p hp => by
    rw [(hg₁.trans hg₄).exit_eq]
    exact hs.led.exit_ne (hg₁.size_le.trans
      (hready.fresh.2 p.2 (List.mem_map_of_mem hp)).1)⟩
  refine hs₅.onward ?_
  rw [((hg₁.trans hg₄).trans hclauses.grown).exit_eq]
  exact hs.led.exit_ne le_rfl

theorem alive_section {m : Mark} {xs : List Stmt} {cs : List CaseClause} {c after : BlockId}
    (hs : Alive s) (hT : LivesAll s T) (hc : s.graph.Live c)
    (hlabels : Placed T n (s.branched .branch (some c)) s₁) (hbody : KeepsAlive T (.stmts xs) s₁ s₂)
    (hcs : KeepsAlive T (.sections (some c) after cs) (s₂.fallenThrough m after) s') : Alive s' := by
  have hbranch := (adds_branched (N := NoNode) s .branch (by decide) (some c)).toGrown
  have hs₁ := hlabels.alive (hs.branched hc .branch) (hbranch.livesAll hT)
  have hg₁ := hbranch.trans hlabels.adds.toGrown
  have hs₂ := hbody.alive hs₁ (hg₁.livesAll hT) trivial
  have hg₂ := (hg₁.trans hbody.grown).trans (adds_fallenThrough (N := NoNode) s₂ m after).toGrown
  exact hcs.alive (hs₂.fallenThrough m after) (hg₂.livesAll hT) ⟨c, rfl, hg₂.live hc⟩

section

variable {cl : Option Target} {after b : BlockId} {before : List ErrorType} {a : ErrorType}
  {hs₀ : List (ErrorType × BlockId)} {c : CatchClause} {cs : List CatchClause}

theorem alive_uncaught (hs : Alive s) (hT : LivesAll s T)
    (hp : (Part.clauses cl after before ((a, b) :: hs₀) (c :: cs)).Fed s)
    (hcs : KeepsAlive T (.clauses cl after (a :: before) hs₀ cs)
      ((s.compared before a c.mark).uncaught c) s') : Alive s' := by
  have hg := ((adds_compared (E := NoEdge) (N := NoNode) s before a c.mark).trans
    (adds_uncaught _ c)).toGrown
  refine hcs.alive ((hs.compared before a c.mark).congr rfl rfl) (hg.livesAll hT)
    ⟨hg.livesAll hp.1, fun p hp' => ?_⟩
  rw [hg.exit_eq]
  exact hp.2 p (List.mem_cons_of_mem _ hp')

theorem alive_caught (hs : Alive s) (hT : LivesAll s T)
    (hp : (Part.clauses cl after before ((a, b) :: hs₀) (c :: cs)).Fed s)
    (hb : s.graph.preds b ≠ [])
    (hbody : KeepsAlive T (.block c.body)
      (((s.compared before a c.mark).movedTo (some b)).withNode b (.catchClause c)) s₁)
    (hleave : Departed s₁.cursor (cl.toList ++ [.landing .loopEnd after]) s₁ s₂)
    (hcs : KeepsAlive T (.clauses cl after (a :: before) hs₀ cs) s₂ s') : Alive s' := by
  have hcompared := hs.compared before a c.mark
  have hlive : (s.compared before a c.mark).graph.Live b := by
    have hgraph : (s.compared before a c.mark).graph = s.graph := by
      unfold State.compared
      split_ifs <;> rfl
    rw [hgraph]
    obtain ⟨p, hp'⟩ := List.exists_mem_of_ne_nil _ hb
    exact ⟨Graph.lt_of_mem_preds hp', hs.led.entered b (hp.2 _ List.mem_cons_self) hb⟩
  have hmoved : Alive ((s.compared before a c.mark).movedTo (some b)) :=
    .movedTo hcompared.led fun x hx => Option.some_inj.mp hx ▸ hlive
  have hg : Grown s (((s.compared before a c.mark).movedTo (some b)).withNode b (.catchClause c)) :=
    (((adds_compared (E := NoEdge) (N := fun _ _ => True) s before a c.mark).trans
      (adds_movedTo _ _)).trans (adds_withNode trivial)).toGrown
  have hs₁ := hbody.alive (hmoved.withNode hlive (.catchClause c)) (hg.livesAll hT) trivial
  have hg₁ := hg.trans hbody.grown
  have hs₂ := hleave.alive hs₁.led hs₁.cursor ((hg₁.livesAll hp.1).append (livesAll_landing _ _ _))
  have hg₂ := hg₁.trans hleave.grown
  refine hcs.alive hs₂ (hg₂.livesAll hT) ⟨hg₂.livesAll hp.1, fun p hp' => ?_⟩
  rw [hg₂.exit_eq]
  exact hp.2 p (List.mem_cons_of_mem _ hp')

end

theorem alive_cleanup (hs : Alive s) (hT : LivesAll s T)
    (hbody : KeepsAlive (.barrier :: T) (.block body)
      ((s.withBlock .cleanup).movedTo (some s.graph.blocks.size)) s') : Alive s' := by
  have hentry : (s.withBlock .cleanup).graph.Live s.graph.blocks.size := by
    refine ⟨by simp, Graph.rooted_of_cleanup ?_⟩
    rw [State.withBlock, Graph.cleanupEntries_newBlock]
    simp
  have hstart : Alive ((s.withBlock .cleanup).movedTo (some s.graph.blocks.size)) :=
    .movedTo (hs.withBlock .cleanup).led fun x hx => Option.some_inj.mp hx ▸ hentry
  have hg := (grown_withBlock s .cleanup).trans (grown_movedTo _ (some s.graph.blocks.size))
  exact hbody.alive hstart (hg.livesAll hT) trivial

end

/-- Construction keeps the cursor where a path from the entry or from the beginning of a `finally`
block leads. -/
theorem Course.alive {facts : Facts} {p : Part} {made : List (Stmt × BlockId)}
    (h : Course facts T p s made s') (hs : Alive s) (hT : LivesAll s T) (hp : p.Fed s) :
    Alive s' := by
  induction h with
  | skipped _ _ => exact hs.congr rfl rfl
  | empty => exact hs.markedHere _
  | braces _ ih => exact ih hs hT trivial
  | single h => exact h.stands.alive hs hT
  | cond htest hyes hno ihyes ihno =>
    exact alive_cond hs hT htest.placed ⟨hyes.grown, ihyes⟩ ⟨hno.grown, ihno⟩
  | loop hc hinit htest hq hbody hround ih =>
    exact alive_loop hs hT hc hinit.placed htest.placed hq ⟨hbody.grown, ih⟩ hround
  | foreach hoperand hbody ih =>
    exact alive_foreach hs hT (fun _ => id) hoperand.placed ⟨hbody.grown, ih⟩
  | switch htag hsections ih => exact alive_switch hs hT htag.placed ⟨hsections.grown, ih⟩
  | attempt hc hcleanup hready hbody hleave hclauses ihcleanup ihbody ihclauses =>
    exact alive_attempt hs hT hc hcleanup.cursor_cleanup ⟨hcleanup.grown, ihcleanup⟩ hready
      ⟨hbody.grown, ihbody⟩ hleave.departed ⟨hclauses.grown, ihclauses⟩
  | nil => exact hs
  | cons hx _ ihx ihxs => exact ihxs (ihx hs hT trivial) (hx.grown.livesAll hT) trivial
  | @block T m xs close s s' made _ ih =>
    have hmark := (adds_markedHere (E := NoEdge) (N := NoNode) s m).toGrown
    exact ih (hs.markedHere m) (hmark.livesAll hT) trivial
  | noSections => exact hs
  | sections hlabels hbody hcs ihbody ihcs =>
    obtain ⟨c, rfl, hc⟩ := hp
    exact alive_section hs hT hc hlabels.placed ⟨hbody.grown, ihbody⟩ ⟨hcs.grown, ihcs⟩
  | noClauses => exact hs
  | uncaught _ hcs ih => exact alive_uncaught hs hT hp ⟨hcs.grown, ih⟩
  | caught hb hbody hleave hcs ihbody ihcs =>
    exact alive_caught hs hT hp hb ⟨hbody.grown, ihbody⟩ hleave.departed ⟨hcs.grown, ihcs⟩
  | noCleanup => exact hs
  | cleanup hbody ih => exact alive_cleanup hs hT ⟨hbody.grown, ih⟩

/-! ### Functions -/

theorem alive_startState (d : FuncDecl) (name : String) : Alive (startState d name) := by
  let s : State := { graph := (frameGraph name).addEdge 1 2, cursor := some 1 }
  have hsize : s.graph.blocks.size = 3 :=
    (Graph.size_addEdge (frameGraph name) 1 2).trans (size_frameGraph name)
  have hexit : s.graph.exit = some 2 := (Sane.fields_addEdge (frameGraph name) 1 2).1
  have hret : s.graph.ret = some 1 := (Sane.fields_addEdge (frameGraph name) 1 2).2.1
  have hled : (frameState d name).graph.Led := by
    refine ⟨fun b hb hpreds => ?_, fun b hb hnodes => ?_, fun x hx => ?_⟩
    · -- nothing is entered but the exit
      obtain ⟨p, hp⟩ := List.exists_mem_of_ne_nil _ hpreds
      have hp' : p ∈ ((frameGraph name).addEdge 1 2).preds b := by
        rwa [frameState, State.withNode, Graph.preds_addNode] at hp
      rcases Graph.mem_preds_of_addEdge hp' with hp | ⟨-, rfl⟩
      · rw [(bare_frameGraph name b).2.1] at hp
        cases hp
      · exact absurd hexit hb
    · -- nothing has nodes but the return block
      obtain ⟨ns, hns, hmem⟩ := nodes_withNode_cases s 1 (.stmt (.block d.body)) b
      cases ns with
      | nil =>
        have hempty : s.graph.nodes b = [] :=
          (Graph.nodes_addEdge _ 1 2 b).trans (bare_frameGraph name b).2.2.1
        rw [List.append_nil, hempty] at hns
        exact absurd hns hnodes
      | cons n ns =>
        obtain ⟨rfl, -⟩ := hmem n List.mem_cons_self
        exact absurd hret hb
    · obtain rfl : 2 = x := Option.some_inj.mp (hexit.symm.trans hx)
      rw [frameState, size_withNode]
      exact hsize.symm ▸ by decide
  have hentry : (frameState d name).graph.Live 0 := by
    refine ⟨?_, 0, [], .inl rfl, .here⟩
    rw [frameState, size_withNode]
    exact hsize.symm ▸ by decide
  -- where the cursor was before is no matter
  have hstart : Alive (((frameState d name).movedTo none).branched .plain (some 0)) :=
    Alive.branched (.movedTo hled (.none _)) hentry .plain
  exact hstart.withNode (hstart.cursor _ rfl) (.func d)

theorem Course.alive_of_statements {facts : Facts} {d : FuncDecl} {xs : List Stmt}
    {made : List (Stmt × BlockId)}
    (h : Course facts bodyTargets (.stmts xs) (startState d d.name.text) made s) : Alive s :=
  h.alive (alive_startState d _) (fun _ hb => nomatch hb) trivial

end Build

end FlowCheck
