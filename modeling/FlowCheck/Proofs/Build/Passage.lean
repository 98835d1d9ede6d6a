import FlowCheck.Proofs.Build.Confinement
import FlowCheck.Proofs.Build.Placement

/-!
# Statements are confined to open blocks

Each step of construction is confined to the blocks that are open, and so is each kind of statement if
its parts are.
-/
namespace FlowCheck.Build

section

variable {T T' : List Target} {o e : List BlockId} {w : List Node} {s s₁ s' : State}
  {made : List (Stmt × BlockId)} {a : Option BlockId} {b : BlockId} {n : Node}

/-! ### Steps -/

theorem around_of_outward {c : Option BlockId} {x y : BlockId} (h : Outward c T x y)
    (hc : ∀ x, c = some x → x ∈ o) : Around T o s s' x y :=
  h.imp (And.imp (fun hx => .inl (hc x hx)) .inr) id

/-- A step that adds nothing. -/
theorem confined_still (h : Adds NoEdge NoNode s s') (hdead : s'.dead = s.dead)
    (ho : ∀ b ∈ o, b < s.graph.blocks.size) : Confined T o [] s [] o s' :=
  .of_adds h (fun _ _ => False.elim) (fun _ _ => False.elim)
    (fun b hb => ⟨.inl hb, (ho b hb).trans_le h.size_le⟩) fun _ hi => .inl (hdead ▸ hi)

theorem confined_withBlock (s : State) (k : BlockKind) (ho : ∀ b ∈ o, b < s.graph.blocks.size) :
    Confined T o [] s [] (s.graph.blocks.size :: o) (s.withBlock k) where
  toGrown := grown_withBlock s k
  edges hy := .inl (by simpa [State.withBlock] using hy)
  added b := ⟨[], by simp [State.withBlock], by simp⟩
  ends b hb := by
    rw [size_withBlock]
    rcases List.mem_cons.mp hb with rfl | hb
    · exact ⟨.inr le_rfl, Nat.lt_succ_self _⟩
    · exact ⟨.inl hb, Nat.lt_succ_of_lt (ho b hb)⟩
  marks _ := .inl
  within := by simp
  distinct := by simp
  isSealed := by simp

theorem confined_withEdge (ha : ∀ x, a = some x → x ∈ o) (hb : b ∈ exposed T)
    (ho : ∀ b ∈ o, b < s.graph.blocks.size) : Confined T o [] s [] o (s.withEdge a b) :=
  .of_adds (adds_withEdge (E := fun x y => a = some x ∧ y = b) (N := NoNode) fun _ hx => ⟨hx, rfl⟩)
    (fun _ _ h => .inl ⟨.inl (ha _ h.1), .inr (h.2 ▸ hb)⟩) (fun _ _ => False.elim)
    (fun b hb => ⟨.inl hb, (size_withEdge s a _).symm ▸ ho b hb⟩) fun _ => .inl

theorem confined_branched (s : State) {k : BlockKind} (hk : k ≠ .cleanup)
    (ha : ∀ x, a = some x → x ∈ o) (ho : ∀ b ∈ o, b < s.graph.blocks.size) :
    Confined T o [] s [] (s.graph.blocks.size :: o) (s.branched k a) := by
  refine .of_adds (adds_branched (N := NoNode) s k hk a) (fun x y ⟨hx, hy⟩ => ?_)
    (fun _ _ => False.elim) (fun b hb => ?_) fun _ => .inl
  · exact .inl ⟨.inl (ha x hx), .inl ⟨hy.ge, by simp [hy]⟩⟩
  · rw [size_branched]
    rcases List.mem_cons.mp hb with rfl | hb
    · exact ⟨.inr le_rfl, Nat.lt_succ_self _⟩
    · exact ⟨.inl hb, Nat.lt_succ_of_lt (ho b hb)⟩

theorem confined_branchedIf (s : State) (taken : Bool) (ha : ∀ x, a = some x → x ∈ o)
    (ho : ∀ b ∈ o, b < s.graph.blocks.size) :
    Confined T o [] s [] ((s.branchedIf taken a).cursor.toList ++ o) (s.branchedIf taken a) := by
  cases taken with
  | true => exact confined_branched s (by decide) ha ho
  | false => exact confined_still (adds_movedTo s none) rfl ho

theorem confined_withNode (hb : b ∈ o) (ho : ∀ b ∈ o, b < s.graph.blocks.size) :
    Confined T o [n] s [] o (s.withNode b n) :=
  .of_adds (adds_withNode (E := NoEdge) (N := fun c m => c = b ∧ m = n) ⟨rfl, rfl⟩)
    (fun _ _ => False.elim) (fun _ _ h => ⟨.inl (h.1 ▸ hb), by simp [h.2]⟩)
    (fun c hc => ⟨.inl hc, (size_withNode s b n).symm ▸ ho c hc⟩) fun _ => .inl

theorem confined_departed {c : Option BlockId} (h : Departed c T s s') (hc : ∀ x, c = some x → x ∈ o)
    (ho : ∀ b ∈ o, b < s.graph.blocks.size) : Confined T o [] s [] o s' :=
  .of_adds (h.adds (N := NoNode)) (fun _ _ hxy => around_of_outward hxy hc) (fun _ _ => False.elim)
    (fun b hb => ⟨.inl hb, h.size_eq.symm ▸ ho b hb⟩) fun _ hi => .inl (h.dead ▸ hi)

theorem confined_placed (h : Placed T n s s') (hc : ∀ b, s.cursor = some b → b ∈ o)
    (ho : ∀ b ∈ o, b < s.graph.blocks.size) : Confined T o [n] s [] (s'.cursor.toList ++ o) s' := by
  cases h with
  | @here b hb =>
    refine (confined_withNode (hc b hb) ho).mono (List.Subset.refl o) (List.Subset.refl _) ?_
    intro c hmem
    rcases List.mem_append.mp hmem with hmem | hmem
    · exact hc c (Option.mem_toList.mp hmem)
    · exact hmem
  | @after b s₁ hb hd =>
    have hdeparted : Confined T o [] s [] o s₁ :=
      confined_departed hd (fun x hx => hc x (hb.trans hx)) ho
    have ho₁ : ∀ b ∈ o, b < s₁.graph.blocks.size := fun c hc => (hdeparted.ends c hc).2
    have hbranch : Confined T o [] s₁ [] (s₁.graph.blocks.size :: o) (s₁.branched .plain (some b)) :=
      confined_branched s₁ (by decide) (fun x hx => hc x (hb.trans hx)) ho₁
    have hnode := confined_withNode (T := T) (n := n) List.mem_cons_self
      fun c hc => (hbranch.ends c hc).2
    exact (hdeparted.afterIdle hbranch (List.Subset.refl o)).afterIdle hnode (List.Subset.refl _)

/-! ### From cursor to cursor -/

/-- Construction can go on at the cursor: its block has no successor yet and is not the end of a
`finally` block. -/
structure Ready (T : List Target) (s : State) : Prop where
  cursor : ∀ b, s.cursor = some b →
    b < s.graph.blocks.size ∧ b ∉ lasts T ∧ s.graph.succs b = []
  laid : Laid T s

/-- Construction from the cursor up to the cursor, confined to the blocks where it stands. -/
structure AtCursor (T : List Target) (w : List Node) (s : State) (made : List (Stmt × BlockId))
    (s' : State) : Prop where
  confined : Confined T s.cursor.toList w s made s'.cursor.toList s'
  ready : Ready T s'

theorem Ready.open_lt (h : Ready T s) : ∀ b ∈ s.cursor.toList, b < s.graph.blocks.size :=
  fun b hb => (h.cursor b (Option.mem_toList.mp hb)).1

theorem Ready.open_outside (h : Ready T s) : ∀ b ∈ s.cursor.toList, b ∉ lasts T :=
  fun b hb => (h.cursor b (Option.mem_toList.mp hb)).2.1

theorem mem_open {c : Option BlockId} : ∀ b, c = some b → b ∈ c.toList :=
  fun _ => Option.mem_toList.mpr

/-- What is open at the end is no end of a `finally` block, if nothing was that was open at
its beginning. -/
theorem Confined.outside (h : Confined T o w s made e s') (ho : ∀ b ∈ o, b ∉ lasts T)
    (hlaid : Laid T s) : ∀ b ∈ e, b ∉ lasts T := by
  intro b hb
  rcases (h.ends b hb).1 with hopen | hnew
  · exact ho b hopen
  · exact fun hlast => absurd (hlaid b hlast) (not_lt.mpr hnew)

theorem Confined.laid (h : Confined T o w s made e s') (hlaid : Laid T s) : Laid T s' := fun b hb =>
  (hlaid b hb).trans_le h.size_le

/-- The cursor may be where a block has been left open that has no successor. -/
theorem Confined.ready (h : Confined T o w s made e s') (ho : ∀ b ∈ o, b ∉ lasts T)
    (hlaid : Laid T s)
    (hcursor : ∀ b, s'.cursor = some b → b ∈ e ∧ s'.graph.succs b = []) : Ready T s' where
  cursor b hb := by
    obtain ⟨he, hclear⟩ := hcursor b hb
    exact ⟨(h.ends b he).2, h.outside ho hlaid b he, hclear⟩
  laid := h.laid hlaid

theorem AtCursor.of_confined (h : Confined T s.cursor.toList w s made e s') (hr : Ready T s)
    (hcursor : ∀ b, s'.cursor = some b → b ∈ e ∧ s'.graph.succs b = []) : AtCursor T w s made s' where
  confined := h.mono (List.Subset.refl _) (List.Subset.refl _) fun b hb =>
    (hcursor b (Option.mem_toList.mp hb)).1
  ready := h.ready hr.open_outside hr.laid hcursor

theorem AtCursor.mono {w' : List Node} (h : AtCursor T w s made s') (hw : w ⊆ w') :
    AtCursor T w' s made s' :=
  ⟨h.confined.mono (List.Subset.refl _) hw (List.Subset.refl _), h.ready⟩

theorem AtCursor.refl (hr : Ready T s) : AtCursor T [] s [] s :=
  ⟨confined_still (.refl s) rfl hr.open_lt, hr⟩

theorem AtCursor.trans {w' : List Node} {made' : List (Stmt × BlockId)} (h : AtCursor T w s made s₁)
    (h' : AtCursor T w' s₁ made' s') (hw : List.Disjoint (w.map Node.id) (w'.map Node.id)) :
    AtCursor T (w ++ w') s (made ++ made') s' :=
  ⟨h.confined.trans h'.confined (List.Subset.refl _) hw, h'.ready⟩

/-- A new branch has no successor. -/
theorem succs_branched {k : BlockKind} (hk : k ≠ .cleanup)
    (ha : ∀ x, a = some x → x < s.graph.blocks.size) :
    (s.branched k a).graph.succs s.graph.blocks.size = [] := by
  refine (adds_branched (N := NoNode) s k hk a).succs_eq_nil (Graph.succs_of_size_le le_rfl) ?_
  exact fun y h => absurd (ha _ h.1) (lt_irrefl _)

theorem Ready.branched {k : BlockKind} (hk : k ≠ .cleanup) (hlaid : Laid T s)
    (ha : ∀ x, a = some x → x < s.graph.blocks.size) : Ready T (s.branched k a) where
  cursor b hb := by
    obtain rfl := Option.some_inj.mp hb
    refine ⟨by simp, fun hlast => absurd (hlaid _ hlast) (lt_irrefl _), succs_branched hk ha⟩
  laid b hb := by
    rw [size_branched]
    exact Nat.lt_succ_of_lt (hlaid b hb)

theorem Ready.none (hlaid : Laid T s) : Ready T (s.movedTo none) :=
  ⟨fun _ h => (nomatch h), hlaid⟩

theorem Ready.branchedIf (taken : Bool) (hlaid : Laid T s)
    (ha : ∀ x, a = some x → x < s.graph.blocks.size) : Ready T (s.branchedIf taken a) := by
  cases taken with
  | true => exact .branched (by decide) hlaid ha
  | false => exact .none hlaid

theorem atCursor_placed (h : Placed T n s s') (hr : Ready T s) : AtCursor T [n] s [] s' := by
  refine .of_confined (confined_placed h mem_open hr.open_lt) hr fun b hb => ⟨?_, ?_⟩
  · exact List.mem_append_left _ (mem_open b hb)
  · cases h with
    | @here c hc =>
      obtain rfl := Option.some_inj.mp (hc.symm.trans hb)
      rw [State.withNode, Graph.succs_addNode]
      exact (hr.cursor _ hc).2.2
    | @after c s₁ hc hd =>
      obtain rfl := Option.some_inj.mp hb
      rw [State.withNode, Graph.succs_addNode]
      refine succs_branched (by decide) fun x hx => ?_
      rw [hd.size_eq]
      exact (hr.cursor x (hc.trans hx)).1

theorem atCursor_placedOption {x : Option Node} (h : PlacedOption T x s s') (hr : Ready T s) :
    AtCursor T x.toList s [] s' := by
  cases x with
  | some n => exact atCursor_placed h hr
  | none =>
    obtain rfl : s' = s := h
    exact .refl hr

theorem atCursor_stands {x : Stmt} (h : Stands T x s s') (hr : Ready T s) (hclean : Clean s') :
    AtCursor T [.stmt x] s [] s' := by
  cases h with
  | goesOn _ h => exact atCursor_placed h hr
  | @leaves _ _ s₁ s₂ _ h hd =>
    have hs₁ := atCursor_placed h hr
    have hleave := confined_departed hd mem_open hs₁.ready.open_lt
    have hstop : Confined T s₁.cursor.toList [] s₂ [] s₁.cursor.toList (s₂.movedTo none) :=
      confined_still (adds_movedTo s₂ none) rfl fun b hb => (hleave.ends b hb).2
    have hall := (hs₁.confined.thenIdle hleave (List.Subset.refl _)).thenIdle hstop (List.Subset.refl _)
    exact .of_confined hall hr fun b hb => nomatch hb
  | strays h hd text =>
    refine absurd ?_ (hclean _ (List.mem_append_right _ List.mem_cons_self))
    rfl

theorem Confined.reland (h : Confined T o w s made e s') (hroutes : routes T' = routes T)
    (hlasts : lasts T' = lasts T) (hexposed : ∀ y ∈ exposed T,
      (s.graph.blocks.size ≤ y ∧ y < s'.graph.blocks.size) ∨ y ∈ exposed T') :
    Confined T' o w s made e s' :=
  h.retarget hexposed (fun _ _ hxy => .inr (hroutes ▸ hxy)) fun _ hb => .inl (hlasts ▸ hb)

/-! ### Branches -/

theorem not_mem_branchedIf {c : BlockId} (hc : c < s.graph.blocks.size) (taken : Bool)
    (a : Option BlockId) : c ∉ (s.branchedIf taken a).cursor.toList := by
  intro hmem
  cases taken with
  | true => exact hc.ne (Option.some_inj.mp (Option.mem_toList.mp hmem)).symm
  | false => cases hmem

theorem eq_of_cursor_joined {c : Option BlockId} (h : (s.joined a c).cursor = some b) :
    b = s.graph.blocks.size := by
  unfold State.joined at h
  split_ifs at h
  · cases h
  · exact (Option.some_inj.mp h).symm

theorem confined_joined {c : Option BlockId} (ha : ∀ x, a = some x → x ∈ o)
    (hc : ∀ x, c = some x → x ∈ o) (ho : ∀ b ∈ o, b < s.graph.blocks.size) :
    Confined T o [] s [] ((s.joined a c).cursor.toList ++ o) (s.joined a c) := by
  have hadds := adds_joined (N := NoNode) s a c
  have hfresh {x : BlockId} : (a = some x ∨ c = some x) ∨ (s.joined a c).cursor = some x →
      s.graph.blocks.size < (s.joined a c).graph.blocks.size := by
    unfold State.joined
    split_ifs with hnone
    · rintro ((rfl | rfl) | hx)
      · simp at hnone
      · simp at hnone
      · cases hx
    · simp
  refine .of_adds hadds (fun x y ⟨hx, hy⟩ => ?_) (fun _ _ => False.elim) (fun b hb => ?_)
    fun _ hi => .inl (dead_joined s a c ▸ hi)
  · exact .inl ⟨.inl (hx.elim (ha x) (hc x)), .inl ⟨hy.ge, hy ▸ hfresh (.inl hx)⟩⟩
  · rcases List.mem_append.mp hb with hb | hb
    · have hb := Option.mem_toList.mp hb
      obtain rfl := eq_of_cursor_joined hb
      exact ⟨.inr le_rfl, hfresh (.inr hb)⟩
    · exact ⟨.inl hb, (ho b hb).trans_le hadds.size_le⟩

theorem succs_joined {c : Option BlockId} (ha : ∀ x, a = some x → x < s.graph.blocks.size)
    (hc : ∀ x, c = some x → x < s.graph.blocks.size) (hb : (s.joined a c).cursor = some b) :
    (s.joined a c).graph.succs b = [] := by
  obtain rfl := eq_of_cursor_joined hb
  refine (adds_joined (N := NoNode) s a c).succs_eq_nil (Graph.succs_of_size_le le_rfl) ?_
  exact fun y h => h.1.elim (fun h => absurd (ha _ h) (lt_irrefl _)) fun h =>
    absurd (hc _ h) (lt_irrefl _)

/-- Two branches from the end of a condition, which stays open until both are entered. -/
theorem atCursor_cond {w₁ w₂ : List Node} {taken₁ taken₂ : Bool} {s₂ s₃ : State}
    {made₁ made₂ : List (Stmt × BlockId)} (htest : Placed T n s s₁)
    (hyes : Ready T (s₁.branchedIf taken₁ s₁.cursor) →
      AtCursor T w₁ (s₁.branchedIf taken₁ s₁.cursor) made₁ s₂)
    (hno : Ready T (s₂.branchedIf taken₂ s₁.cursor) →
      AtCursor T w₂ (s₂.branchedIf taken₂ s₁.cursor) made₂ s₃)
    (hr : Ready T s) (hw : ((n :: (w₁ ++ w₂)).map Node.id).Nodup) :
    AtCursor T (n :: (w₁ ++ w₂)) s (made₁ ++ made₂) (s₃.joined s₂.cursor s₃.cursor) := by
  let c := s₁.cursor.toList
  obtain ⟨hn, hparts⟩ := List.nodup_cons.mp hw
  have hdisjoint : List.Disjoint (w₁.map Node.id) (w₂.map Node.id) := by
    rw [List.map_append] at hparts
    exact List.disjoint_of_nodup_append hparts
  have hs₁ := atCursor_placed htest hr
  have hc : ∀ b ∈ c, b < s₁.graph.blocks.size := hs₁.ready.open_lt
  have hfork : Confined T c [] s₁ [] _ (s₁.branchedIf taken₁ s₁.cursor) :=
    confined_branchedIf s₁ taken₁ mem_open hc
  have hyes := hyes (.branchedIf taken₁ hs₁.ready.laid fun x hx => hc x (mem_open x hx))
  have hfirst : Confined T c w₁ s₁ made₁ (c ++ s₂.cursor.toList) s₂ :=
    hfork.afterIdle (hyes.confined.frame c fun b hb => ⟨(hc b hb).trans_le hfork.size_le,
      not_mem_branchedIf (hc b hb) _ _⟩) List.perm_append_comm.subset
  have hfork' : Confined T (c ++ s₂.cursor.toList) [] s₂ [] _ (s₂.branchedIf taken₂ s₁.cursor) :=
    confined_branchedIf s₂ taken₂ (fun x hx => List.mem_append_left _ (mem_open x hx))
      fun b hb => (hfirst.ends b hb).2
  have hno := hno (.branchedIf taken₂ hyes.ready.laid fun x hx =>
    (hfirst.ends x (List.mem_append_left _ (mem_open x hx))).2)
  have hframe := hno.confined.frame s₂.cursor.toList fun b hb =>
    ⟨(hyes.ready.open_lt b hb).trans_le hfork'.size_le,
      not_mem_branchedIf (hyes.ready.open_lt b hb) _ _⟩
  have hsecond := hfork'.afterIdle hframe fun b hb => by
    simp only [List.mem_append] at hb ⊢
    tauto
  have hjoin : Confined T (s₂.cursor.toList ++ s₃.cursor.toList) [] s₃ [] _
      (s₃.joined s₂.cursor s₃.cursor) :=
    confined_joined (fun x hx => List.mem_append_left _ (mem_open x hx))
      (fun x hx => List.mem_append_right _ (mem_open x hx)) fun b hb => (hsecond.ends b hb).2
  have hboth := (hfirst.trans hsecond (List.Subset.refl _) hdisjoint).thenIdle hjoin
    (List.Subset.refl _)
  refine .of_confined (hs₁.confined.trans hboth (List.Subset.refl _) ?_) hr fun b hb => ⟨?_, ?_⟩
  · simpa using hn
  · exact List.mem_append_left _ (mem_open b hb)
  · refine succs_joined (fun x hx => ?_) (fun x hx => ?_) hb
    · exact (hsecond.ends x (List.mem_append_left _ (mem_open x hx))).2
    · exact hno.ready.open_lt x (mem_open x hx)

/-! ### Loops -/

/-- The block of the post statement of a loop. -/
def postBlocks (q : Option (Simple × BlockId)) : List BlockId := (q.map Prod.snd).toList

/-- The nodes of the post statement of a loop. -/
def postNodes (q : Option (Simple × BlockId)) : List Node := q.elim [] fun p => p.1.walk everywhere

theorem confined_marked (ids : List Node) (ho : ∀ b ∈ o, b < s.graph.blocks.size) :
    Confined T o ids s [] o (s.marked (ids.map Node.id)) :=
  .of_adds (adds_marked (E := NoEdge) (N := NoNode) s _) (fun _ _ => False.elim)
    (fun _ _ => False.elim) (fun b hb => ⟨.inl hb, ho b hb⟩) fun _ => List.mem_append.mp

theorem confined_laidOut (s : State) (post : Option Simple) (ho : ∀ b ∈ o, b < s.graph.blocks.size) :
    Confined T o [] s [] (s.graph.blocks.size ::
      (postBlocks (post.map fun x => (x, (s.withBlock .afterLoop).graph.blocks.size)) ++ o))
      (s.laidOut post) := by
  have hafter : Confined T o [] s [] (s.graph.blocks.size :: o) (s.withBlock .afterLoop) :=
    confined_withBlock s .afterLoop ho
  cases post with
  | none => exact hafter
  | some x =>
    have hpost := confined_withBlock (T := T) (s.withBlock .afterLoop) .post fun b hb =>
      (hafter.ends b hb).2
    refine (hafter.afterIdle hpost (List.Subset.refl _)).mono (List.Subset.refl _)
      (List.Subset.refl _) fun b hb => ?_
    simpa [postBlocks, or_left_comm] using hb

theorem confined_opened {value : Option Bool} {tested : Bool} {after : BlockId}
    (hc : ∀ x, s.cursor = some x → x ∈ o) (hafter : after ∈ exposed T)
    (ho : ∀ b ∈ o, b < s.graph.blocks.size) :
    Confined T o [] s [] ((s.opened value tested after).cursor.toList ++ o)
      (s.opened value tested after) := by
  have hleave : Confined T o [] s [] o
      (if value != some true then s.withEdge s.cursor after else s) := by
    split_ifs
    · exact confined_withEdge hc hafter ho
    · exact confined_still (.refl s) rfl ho
  cases tested with
  | true =>
    exact hleave.afterIdle (confined_branchedIf _ _ hc fun b hb => (hleave.ends b hb).2)
      (List.Subset.refl _)
  | false =>
    refine hleave.mono (List.Subset.refl _) (List.Subset.refl _) fun b hb => ?_
    refine (List.mem_append.mp hb).elim (fun hb => hc b ?_) id
    have hb := Option.mem_toList.mp hb
    simp only [State.opened, Bool.false_eq_true, if_false] at hb
    split_ifs at hb <;> exact hb

/-- Only a loop without a condition leaves the cursor where it is, and then there is no way past the
loop. -/
theorem Ready.opened {value : Option Bool} {tested : Bool} {after : BlockId} (hr : Ready T s)
    (h : tested = false → value = some true) : Ready T (s.opened value tested after) := by
  cases tested with
  | false =>
    obtain rfl := h rfl
    exact hr
  | true =>
    unfold State.opened
    simp only [if_true]
    split_ifs
    · refine .branchedIf _ (fun b hb => ?_) fun x hx => ?_
      · exact (size_withEdge s _ _).symm ▸ hr.laid b hb
      · exact (size_withEdge s _ _).symm ▸ hr.open_lt x (mem_open x hx)
    · exact .branchedIf _ hr.laid fun x hx => hr.open_lt x (mem_open x hx)

/-- The way back to the header, under targets among which are the header and the block of the post
statement. -/
theorem confined_closes {header : BlockId} {q : Option (Simple × BlockId)}
    (h : Closes facts T header q s s')
    (hroutes : routes T' = routes T) (hlasts : lasts T' = lasts T)
    (hexposed : ∀ y ∈ exposed T, y ∈ exposed T') (hheader : header ∈ exposed T')
    (hpost : ∀ b ∈ postBlocks q, b ∈ exposed T') (ho : ∀ b ∈ o, b < s.graph.blocks.size)
    (hc : ∀ x, s.cursor = some x → x ∈ o) (hq : ∀ b ∈ postBlocks q, b ∈ o) :
    Confined T' o (postNodes q) s [] [] s' := by
  cases h with
  | straight =>
    exact (confined_withEdge hc hheader ho).mono (List.Subset.refl _) (List.Subset.refl _)
      (List.nil_subset _)
  | @dead q b _ hb =>
    have hentered : Confined T' o [] s [] o (s.withEdge s.cursor b) :=
      confined_withEdge hc (hpost b List.mem_cons_self) ho
    have hmarked := confined_marked (T := T') (Node.stmt (.simple q)).subtree fun b hb =>
      (hentered.ends b hb).2
    have hback := confined_withEdge (T := T') (a := s.cursor) hc hheader
      fun b hb => (hmarked.ends b hb).2
    exact ((hentered.afterIdle hmarked (List.Subset.refl _)).thenIdle hback
      (List.Subset.refl _)).mono (List.Subset.refl _) (List.Subset.refl _) (List.nil_subset _)
  | @live q b _ s₁ _ h =>
    have hentered : Confined T' o [] s [] o (s.withEdge s.cursor b) :=
      confined_withEdge hc (hpost b List.mem_cons_self) ho
    have hmoved : Confined T' o [] _ [] o ((s.withEdge s.cursor b).movedTo (some b)) :=
      confined_still (adds_movedTo _ (some b)) rfl fun b hb => (hentered.ends b hb).2
    have hplaced : Confined T' o [.stmt (.simple q)] ((s.withEdge s.cursor b).movedTo (some b)) []
        (s₁.cursor.toList ++ o) s₁ := by
      refine (confined_placed h.placed (fun x hx => ?_) fun b hb => (hmoved.ends b hb).2).reland
        hroutes hlasts
        fun y hy => .inr (hexposed y hy)
      obtain rfl := Option.some_inj.mp hx
      exact hq b List.mem_cons_self
    have hback := confined_withEdge (T := T') (a := s₁.cursor) (b := header)
      (fun x hx => List.mem_append_left _ (mem_open x hx)) hheader fun b hb => (hplaced.ends b hb).2
    refine (((hentered.afterIdle hmoved (List.Subset.refl _)).afterIdle hplaced
      (List.Subset.refl _)).thenIdle hback (List.Subset.refl _)).mono (List.Subset.refl _) ?_
      (List.nil_subset _)
    intro n hn
    obtain rfl := List.mem_singleton.mp hn
    exact (Node.stmt (.simple q)).mem_subtree

/-- The targets while a loop is built, the header among them. -/
abbrev roundTargets (header after : BlockId) (q : Option (Simple × BlockId)) (T : List Target) :
    List Target :=
  .landing .nextRound header :: loopTargets header after q T

/-- Behind the condition of a loop the block after it and the block of the post statement are laid
out and stay open, while the cursor goes elsewhere. -/
theorem confined_entered {post : Option Simple} {value : Option Bool} {tested : Bool} {header : BlockId}
    {q : Option (Simple × BlockId)}
    (hq : q = post.map fun x => (x, (s.withBlock .afterLoop).graph.blocks.size))
    (hs' : s' = (s.laidOut post).opened value tested s.graph.blocks.size)
    (hvalue : tested = false → value = some true) (hr : Ready T s) :
    Confined (roundTargets header s.graph.blocks.size q T) s.cursor.toList [] s []
        (s.graph.blocks.size :: (postBlocks q ++ s'.cursor.toList)) s' ∧
      Ready (roundTargets header s.graph.blocks.size q T) s' ∧
      s'.graph.succs s.graph.blocks.size = [] ∧
      (∀ b ∈ postBlocks q, s.graph.blocks.size < b) ∧
      ∀ b ∈ s.graph.blocks.size :: postBlocks q, b < s'.graph.blocks.size ∧ b ∉ s'.cursor.toList := by
  let after := s.graph.blocks.size
  let T' := roundTargets header after q T
  let s₁ := s.laidOut post
  have hlaid : Confined T' s.cursor.toList [] s [] (after :: (postBlocks q ++ s.cursor.toList)) s₁ :=
    hq ▸ confined_laidOut s post hr.open_lt
  have hcursor : s₁.cursor = s.cursor := cursor_laidOut s post
  have hclear {b : BlockId} (hb : s.graph.succs b = []) : s₁.graph.succs b = [] :=
    (adds_laidOut (N := NoNode) s post).succs_eq_nil hb fun _ => id
  have hpost : ∀ b ∈ postBlocks q, after < b := by
    intro b hb
    obtain ⟨p, hp, rfl⟩ := Option.map_eq_some_iff.mp (Option.mem_toList.mp hb)
    obtain ⟨x, -, rfl⟩ := Option.map_eq_some_iff.mp (hq.symm.trans hp)
    simp [after]
  have hlt : ∀ b ∈ s.cursor.toList, b < s₁.graph.blocks.size := fun b hb =>
    (hr.open_lt b hb).trans_le hlaid.size_le
  have hopened : Confined T' s.cursor.toList [] s₁ [] (s'.cursor.toList ++ s.cursor.toList) s' := by
    rw [hs']
    refine confined_opened (fun x hx => mem_open x (hcursor ▸ hx)) ?_ hlt
    exact List.mem_cons_of_mem _ List.mem_cons_self
  -- the cursor is at the condition or in a branch, and not in a block that is reserved
  have hreserved : ∀ b ∈ after :: postBlocks q, after ≤ b ∧ b < s₁.graph.blocks.size := by
    refine List.forall_mem_cons.mpr ⟨⟨le_rfl, (hlaid.ends after List.mem_cons_self).2⟩, fun b hb => ?_⟩
    exact ⟨(hpost b hb).le, (hlaid.ends b (List.mem_cons_of_mem _ (List.mem_append_left _ hb))).2⟩
  have hopen : ∀ b ∈ after :: postBlocks q, ¬Open s.cursor.toList s₁ b := by
    rintro b hb (hold | hnew)
    · exact absurd (hr.open_lt b hold) (not_lt.mpr (hreserved b hb).1)
    · exact absurd (hreserved b hb).2 (not_lt.mpr hnew)
  have hframe := hopened.frame (after :: postBlocks q) fun b hb =>
    ⟨(hreserved b hb).2, fun hmem => hopen b hb (.inl hmem)⟩
  refine ⟨(hlaid.afterIdle hframe (by simp)).mono (List.Subset.refl _) (List.Subset.refl _) ?_, ?_,
    ?_, hpost, fun b hb => ⟨(hreserved b hb).2.trans_le hopened.size_le, fun hmem => ?_⟩⟩
  · intro b hb
    simp only [List.mem_append, List.mem_cons] at hb ⊢
    tauto
  · rw [hs']
    refine .opened ⟨fun b hb => ?_, hlaid.laid hr.laid⟩ hvalue
    have hb : b ∈ s.cursor.toList := mem_open b (hcursor ▸ hb)
    exact ⟨hlt b hb, hr.open_outside b hb, hclear (hr.cursor b (Option.mem_toList.mp hb)).2.2⟩
  · refine hopened.succs_eq_nil (hopen after List.mem_cons_self) ?_
      (hclear (Graph.succs_of_size_le le_rfl))
    exact fun hlast => lt_irrefl _ (hr.laid after hlast)
  · exact hopen b hb (hopened.ends b (List.mem_append_left _ hmem)).1

/-- The body of a loop and the way back to the header. The block of the post statement stays open
until the body has been built. -/
theorem confined_turn {header after : BlockId} {q : Option (Simple × BlockId)}
    (hbody : AtCursor (loopTargets header after q T) w s made s₁)
    (hround : Closes facts (loopTargets header after q T) header q s₁ s')
    (hpost : ∀ b ∈ postBlocks q, b < s.graph.blocks.size ∧ b ∉ s.cursor.toList)
    (hw : List.Disjoint (w.map Node.id) ((postNodes q).map Node.id)) :
    Confined (roundTargets header after q T) (postBlocks q ++ s.cursor.toList) (w ++ postNodes q) s
      made [] s' := by
  have hinner : Confined (roundTargets header after q T) s.cursor.toList w s made s₁.cursor.toList s₁ :=
    hbody.confined.reland rfl rfl fun y hy => .inr (List.mem_cons_of_mem _ hy)
  have hframe := hinner.frame (postBlocks q) hpost
  have hback : Confined (roundTargets header after q T) (postBlocks q ++ s₁.cursor.toList)
      (postNodes q) s₁
      [] [] s' := by
    refine confined_closes hround rfl rfl (fun y hy => List.mem_cons_of_mem _ hy) List.mem_cons_self
      (fun b hb => ?_) (fun b hb => (hframe.ends b hb).2)
      (fun x hx => List.mem_append_right _ (mem_open x hx)) fun b hb => List.mem_append_left _ hb
    obtain ⟨p, hp, rfl⟩ := Option.map_eq_some_iff.mp (Option.mem_toList.mp hb)
    simp [loopTargets, exposed, roundEnd, hp]
  simpa using hframe.trans hback (List.Subset.refl _) hw

/-- Behind the condition of a loop its body is built and the way back to the header. The block after
the loop stays open all the while. -/
theorem confined_rounds {post : Option Simple} {value : Option Bool} {tested : Bool} {header : BlockId}
    {s₂ : State} {q : Option (Simple × BlockId)}
    (hq : q = post.map fun x => (x, (s.withBlock .afterLoop).graph.blocks.size))
    (hvalue : tested = false → value = some true)
    (hbody : Ready (loopTargets header s.graph.blocks.size q T)
        ((s.laidOut post).opened value tested s.graph.blocks.size) →
      AtCursor (loopTargets header s.graph.blocks.size q T) w
        ((s.laidOut post).opened value tested s.graph.blocks.size) made s₁)
    (hround : Closes facts (loopTargets header s.graph.blocks.size q T) header q s₁ s₂)
    (hr : Ready T s) (hw : List.Disjoint (w.map Node.id) ((postNodes q).map Node.id)) :
    Confined (roundTargets header s.graph.blocks.size q T) s.cursor.toList (w ++ postNodes q) s made
      [s.graph.blocks.size] s₂ ∧ s₂.graph.succs s.graph.blocks.size = [] ∧
      ∀ b ∈ postBlocks q, s.graph.blocks.size < b ∧ b < s₂.graph.blocks.size := by
  let after := s.graph.blocks.size
  obtain ⟨hentered, hready, hclear, hlate, hapart⟩ :=
    confined_entered hq rfl hvalue hr
  have hturn := confined_turn (hbody ⟨hready.cursor, hready.laid⟩) hround
    (fun b hb => hapart b (List.mem_cons_of_mem _ hb)) hw
  obtain ⟨hlt, hne⟩ := hapart after List.mem_cons_self
  have hopen : after ∉ postBlocks q ++ _ := fun hmem =>
    (List.mem_append.mp hmem).elim (fun hmem => lt_irrefl _ (hlate after hmem)) hne
  refine ⟨?_, ?_, fun b hb => ⟨hlate b hb, ?_⟩⟩
  · refine hentered.afterIdle (hturn.frame [after] fun b hb => ?_) (List.Subset.refl _)
    exact List.mem_singleton.mp hb ▸ ⟨hlt, hopen⟩
  · refine hturn.succs_eq_nil (fun h => h.elim hopen (not_le.mpr hlt)) ?_ hclear
    exact fun hlast => lt_irrefl _ (hr.laid after hlast)
  · exact (hapart b (List.mem_cons_of_mem _ hb)).1.trans_le hturn.size_le

/-- Going on behind a statement in a block that has been open and has got no edge. -/
theorem AtCursor.onward {c : Option BlockId} (h : Confined T s.cursor.toList w s made [b] s₁)
    (hclear : s₁.graph.succs b = []) (hr : Ready T s) (hc : ∀ x, c = some x → x = b) :
    AtCursor T w s made (s₁.movedTo c) := by
  have hmove := confined_still (T := T) (adds_movedTo s₁ c) rfl fun x hx => (h.ends x hx).2
  refine .of_confined (h.thenIdle hmove (List.Subset.refl _)) hr fun x hx => ?_
  obtain rfl := hc x hx
  exact ⟨List.mem_cons_self, hclear⟩

theorem atCursor_loop {init post : Option Simple} {test : Option Expr} {value : Option Bool}
    {s₂ s₃ s₄ : State} {q : Option (Simple × BlockId)}
    (hinit : PlacedOption T (init.map fun x => .stmt (.simple x)) s s₁)
    (htest : PlacedOption T (test.map .expr) (s₁.branched .loop s₁.cursor) s₂)
    (hq : q = post.map fun x => (x, (s₂.withBlock .afterLoop).graph.blocks.size))
    (hvalue : test.isSome = false → value = some true)
    (hbody : Ready (loopTargets s₁.graph.blocks.size s₂.graph.blocks.size q T)
        ((s₂.laidOut post).opened value test.isSome s₂.graph.blocks.size) →
      AtCursor (loopTargets s₁.graph.blocks.size s₂.graph.blocks.size q T) w
        ((s₂.laidOut post).opened value test.isSome s₂.graph.blocks.size) made s₃)
    (hround : Closes facts (loopTargets s₁.graph.blocks.size s₂.graph.blocks.size q T)
      s₁.graph.blocks.size q s₃ s₄) (hr : Ready T s)
    (hw : (((init.map fun x => Node.stmt (.simple x)).toList ++ (test.map Node.expr).toList ++
      (w ++ postNodes q)).map Node.id).Nodup) :
    AtCursor T ((init.map fun x => .stmt (.simple x)).toList ++ (test.map .expr).toList ++
      (w ++ postNodes q)) s made (s₄.movedTo (Onward.cursor s₄.graph s₂.graph.blocks.size)) := by
  let header := s₁.graph.blocks.size
  let after := s₂.graph.blocks.size
  rw [List.map_append, List.map_append, List.map_append, List.nodup_append', List.nodup_append',
    List.nodup_append'] at hw
  obtain ⟨⟨-, -, hhead⟩, ⟨-, -, hrest⟩, hdisjoint⟩ := hw
  rw [← List.map_append, ← List.map_append] at hdisjoint
  have hs₁ := atCursor_placedOption hinit hr
  have hheader : Confined T s₁.cursor.toList [] s₁ [] (header :: s₁.cursor.toList)
      (s₁.branched .loop s₁.cursor) := confined_branched s₁ (by decide) mem_open hs₁.ready.open_lt
  have hs₂ := atCursor_placedOption htest (.branched (by decide) hs₁.ready.laid fun x hx =>
    hs₁.ready.open_lt x (mem_open x hx))
  have hcursor : (s₁.branched .loop s₁.cursor).cursor.toList ⊆ header :: s₁.cursor.toList := by
    intro b hb
    obtain rfl := Option.some_inj.mp (Option.mem_toList.mp hb)
    exact List.mem_cons_self
  have htop := hs₁.confined.trans (hheader.afterIdle hs₂.confined hcursor) (List.Subset.refl _) hhead
  obtain ⟨hrounds, hclear, hpost⟩ := confined_rounds hq hvalue hbody hround hs₂.ready hrest
  have htop' : Confined (roundTargets header after q T) _ _ s _ _ s₂ :=
    htop.reland rfl rfl fun y hy => .inr (by simp [loopTargets, exposed, hy])
  have hall := htop'.trans hrounds (List.Subset.refl _) hdisjoint
  refine .onward (hall.reland rfl rfl fun y hy => ?_) hclear hr fun x hx => (onward_cursor _ _).eq x hx
  -- header, end and post statement of the loop have got new blocks
  have hle₁ : s.graph.blocks.size ≤ header := hs₁.confined.size_le
  have hlt₁ : header < after := by
    have := hs₂.confined.size_le
    rw [size_branched] at this
    exact this
  have hlt₂ : after < s₄.graph.blocks.size := (hrounds.ends after List.mem_cons_self).2
  have hbounds : ∀ b ∈ header :: after :: postBlocks q,
      s.graph.blocks.size ≤ b ∧ b < s₄.graph.blocks.size := by
    simp only [List.mem_cons, forall_eq_or_imp]
    refine ⟨by omega, by omega, fun b hb => ?_⟩
    obtain ⟨hlow, hhigh⟩ := hpost b hb
    exact ⟨by omega, hhigh⟩
  rcases List.mem_cons.mp hy with rfl | hy
  · exact .inl (hbounds _ (by simp))
  rcases List.mem_cons.mp hy with rfl | hy
  · exact .inl (hbounds _ (by simp [after]))
  rcases List.mem_cons.mp hy with rfl | hy
  · refine .inl (hbounds _ ?_)
    cases q <;> simp [roundEnd, postBlocks, header]
  · exact .inr hy

theorem cursor_iterated (s : State) (n : Node) :
    (s.iterated n).cursor = some (s.graph.blocks.size + 2) := by
  unfold State.iterated State.branched
  simp

theorem confined_iterated (s : State) (n : Node) (hc : ∀ x, s.cursor = some x → x ∈ o)
    (ho : ∀ b ∈ o, b < s.graph.blocks.size) :
    Confined T o [n] s [] ((s.graph.blocks.size + 1) :: (s.graph.blocks.size + 2) :: o)
      (s.iterated n) := by
  refine .of_adds (adds_iterated s n) (fun x y hxy => ?_) (fun b m h => ?_) (fun b hb => ?_)
    fun _ hi => .inl (dead_iterated s n ▸ hi)
  · rw [Around, size_iterated]
    rcases hxy with ⟨hx, rfl⟩ | ⟨rfl, hlow, hhigh⟩
    · exact .inl ⟨.inl (hc x hx), .inl ⟨le_rfl, Nat.lt_add_of_pos_right (by decide)⟩⟩
    · exact .inl ⟨.inr le_rfl, .inl ⟨hlow.le, hhigh⟩⟩
  · exact ⟨.inr h.1.ge, by simp [h.2]⟩
  · rw [List.mem_cons, List.mem_cons] at hb
    rw [size_iterated, Open]
    rcases hb with rfl | rfl | hb
    · exact ⟨.inr (Nat.le_add_right _ 1), Nat.add_lt_add_left (by decide) _⟩
    · exact ⟨.inr (Nat.le_add_right _ 2), Nat.add_lt_add_left (by decide) _⟩
    · exact ⟨.inl hb, (ho b hb).trans_le (Nat.le_add_right _ 3)⟩

/-- Only the header of a foreach loop has got edges. -/
theorem succs_iterated (hr : Ready T s) (n : Node) (hb : s.graph.blocks.size < b) :
    (s.iterated n).graph.succs b = [] := by
  refine (adds_iterated s n).succs_eq_nil (Graph.succs_of_size_le hb.le) ?_
  rintro y (⟨hc, -⟩ | ⟨rfl, -⟩)
  · exact absurd (hr.cursor b hc).1 hb.not_gt
  · exact lt_irrefl _ hb

theorem Ready.iterated (hr : Ready T s) (n : Node) : Ready T (s.iterated n) where
  cursor b hb := by
    obtain rfl := Option.some_inj.mp ((cursor_iterated s n).symm.trans hb)
    refine ⟨by simp, fun hlast => ?_, succs_iterated hr n (by omega)⟩
    have hlt : s.graph.blocks.size + 2 < s.graph.blocks.size := hr.laid _ hlast
    omega
  laid b hb := by
    rw [size_iterated]
    exact (hr.laid b hb).trans_le (Nat.le_add_right _ 3)

/-- The header of a foreach loop, its body and the way back; the block after it stays open. -/
theorem atCursor_foreach {operand : Node} {s₂ : State} (hoperand : Placed T operand s s₁)
    (hbody : Ready (loopTargets s₁.graph.blocks.size (s₁.withBlock .loop).graph.blocks.size none T)
        (s₁.iterated n) →
      AtCursor (loopTargets s₁.graph.blocks.size (s₁.withBlock .loop).graph.blocks.size none T) w
        (s₁.iterated n) made s₂) (hr : Ready T s)
    (hw : ((operand :: n :: w).map Node.id).Nodup) :
    AtCursor T (operand :: n :: w) s made ((s₂.withEdge s₂.cursor s₁.graph.blocks.size).movedTo
      (some (s₁.withBlock .loop).graph.blocks.size)) := by
  let header := s₁.graph.blocks.size
  let after := (s₁.withBlock .loop).graph.blocks.size
  let T' := loopTargets header after none T
  have hafter : after = header + 1 := size_withBlock s₁ .loop
  obtain ⟨hfirst, hrest⟩ := List.nodup_cons.mp hw
  have hs₁ := atCursor_placed hoperand hr
  have hopen : Confined T' s₁.cursor.toList [n] s₁ [] _ (s₁.iterated n) :=
    confined_iterated s₁ n mem_open hs₁.ready.open_lt
  have hready := hs₁.ready.iterated n
  have hbody := hbody ⟨hready.cursor, hready.laid⟩
  have hback : Confined T' s₂.cursor.toList [] s₂ [] [] (s₂.withEdge s₂.cursor header) :=
    (confined_withEdge mem_open (List.mem_cons_of_mem _ List.mem_cons_self) hbody.ready.open_lt).mono
      (List.Subset.refl _) (List.Subset.refl _) (List.nil_subset _)
  have hround := hbody.confined.thenIdle hback (List.Subset.refl _)
  rw [cursor_iterated] at hround
  have hlt : after < (s₁.iterated n).graph.blocks.size := by
    rw [size_iterated]
    omega
  have hne : after ∉ (some (header + 2)).toList := by
    simp [hafter]
  have hframe := hround.frame [after] fun b hb => by
    obtain rfl := List.mem_singleton.mp hb
    exact ⟨hlt, hne⟩
  have hrounds := hopen.trans hframe (fun b hb => by
    simp only [List.mem_append, List.mem_singleton, Option.toList_some, hafter] at hb
    rcases hb with rfl | rfl <;> simp [header]) (by
    simpa using (List.nodup_cons.mp hrest).1)
  have hs₁' : Confined T' s.cursor.toList [operand] s [] s₁.cursor.toList s₁ :=
    hs₁.confined.reland rfl rfl fun y hy => .inr (by simp [T', loopTargets, exposed, hy])
  have hall := hs₁'.trans hrounds (List.Subset.refl _) (by simpa using hfirst)
  refine .onward (hall.reland rfl rfl fun y hy => ?_) ?_ hr fun x hx => (Option.some_inj.mp hx).symm
  · have hle := hs₁.confined.size_le
    have hround := hround.size_le
    rw [size_iterated] at hround
    have hlow : s.graph.blocks.size ≤ header + 1 := Nat.le_succ_of_le hle
    have hhigh : header + 1 < (s₂.withEdge s₂.cursor header).graph.blocks.size := by omega
    rcases List.mem_cons.mp hy with rfl | hy
    · exact .inl (hafter ▸ ⟨hlow, hhigh⟩)
    rcases List.mem_cons.mp hy with rfl | hy
    · exact .inl ⟨hle, Nat.lt_of_succ_lt hhigh⟩
    · exact .inr hy
  · refine hround.succs_eq_nil ?_ (fun hlast => ?_) (succs_iterated hs₁.ready n (by omega))
    · rintro (hmem | hnew)
      · exact hne hmem
      · exact absurd hlt (not_lt.mpr hnew)
    · have hlt : header + 1 < header := hafter ▸ hs₁.ready.laid _ hlast
      omega

/-! ### Switches -/

/-- A new block changes nothing about the cursor. -/
theorem Ready.withBlock (hr : Ready T s) (k : BlockKind) (hlasts : lasts T' = lasts T) :
    Ready T' (s.withBlock k) where
  cursor b hb := by
    obtain ⟨hlt, hlast, hclear⟩ := hr.cursor b hb
    refine ⟨(size_withBlock s k).symm ▸ Nat.lt_succ_of_lt hlt, hlasts ▸ hlast, ?_⟩
    simpa [State.withBlock] using hclear
  laid b hb := (size_withBlock s k).symm ▸ Nat.lt_succ_of_lt (hr.laid b (hlasts ▸ hb))

/-- Between the tag of a switch and what follows it, the block after the switch stays open. -/
theorem atCursor_switch {sections : List CaseClause} {tag : Node} {s₂ : State}
    (htag : Placed (.landing .loopEnd s.graph.blocks.size :: T) tag (s.withBlock .join) s₁)
    (hsections : Ready (.landing .loopEnd s.graph.blocks.size :: T) s₁ →
      Confined (.landing .loopEnd s.graph.blocks.size :: T) s₁.cursor.toList w s₁ made
        s₁.cursor.toList s₂) (hr : Ready T s) (hw : ((tag :: w).map Node.id).Nodup) :
    AtCursor T (tag :: w) s made ((s₂.defaulted sections s₁.cursor s.graph.blocks.size).movedTo
      (Onward.cursor (s₂.defaulted sections s₁.cursor s.graph.blocks.size).graph
        s.graph.blocks.size)) := by
  let after := s.graph.blocks.size
  let T' := Target.landing .loopEnd after :: T
  have hblock : Confined T' s.cursor.toList [] s [] (after :: s.cursor.toList) (s.withBlock .join) :=
    confined_withBlock s .join hr.open_lt
  have hready : Ready T' (s.withBlock .join) := hr.withBlock .join rfl
  have hs₁ := atCursor_placed htag hready
  have hsections := hsections hs₁.ready
  have hleave : Confined T' s₁.cursor.toList [] s₂ [] s₁.cursor.toList
      (s₂.defaulted sections s₁.cursor after) := by
    have hlt : ∀ b ∈ s₁.cursor.toList, b < s₂.graph.blocks.size := fun b hb =>
      (hsections.ends b hb).2
    unfold State.defaulted
    split_ifs
    · exact confined_withEdge mem_open List.mem_cons_self hlt
    · exact confined_still (.refl s₂) rfl hlt
  have hinner := (hs₁.confined.trans hsections (List.Subset.refl _) (by
    simpa using (List.nodup_cons.mp hw).1)).thenIdle hleave (List.Subset.refl _)
  have hne : after ∉ s.cursor.toList := fun hmem => lt_irrefl _ (hr.open_lt after hmem)
  have hlt : after < (s.withBlock .join).graph.blocks.size := by
    rw [size_withBlock]
    exact Nat.lt_succ_self after
  have hframe := hinner.frame [after] fun b hb => by
    obtain rfl := List.mem_singleton.mp hb
    exact ⟨hlt, hne⟩
  have hall := (hblock.afterIdle hframe (List.Subset.refl _)).mono (List.Subset.refl _)
    (List.Subset.refl _) (List.subset_append_left [after] s₁.cursor.toList)
  refine .onward (hall.reland rfl rfl fun y hy => ?_) ?_ hr fun x hx => (onward_cursor _ _).eq x hx
  · rcases List.mem_cons.mp hy with rfl | hy
    · exact .inl ⟨le_rfl, hlt.trans_le hinner.size_le⟩
    · exact .inr hy
  · refine hinner.succs_eq_nil ?_ (fun hlast => lt_irrefl _ (hr.laid after hlast)) ?_
    · exact fun hopen => hopen.elim hne (not_le.mpr hlt)
    · rw [State.withBlock, Graph.succs_newBlock]
      exact Graph.succs_of_size_le le_rfl

/-- One section of a switch after another, each entered from the end of the tag. -/
theorem confined_sections {tagEnd : Option BlockId} {after : BlockId} {m : Mark} {w' : List Node}
    {made' : List (Stmt × BlockId)} {s₂ : State}
    (hlabels : Placed T n (s.branched .branch tagEnd) s₁) (hbody : Ready T s₁ → AtCursor T w s₁ made s₂)
    (hrest : Laid T (s₂.fallenThrough m after) → (∀ b ∈ tagEnd.toList,
        b < (s₂.fallenThrough m after).graph.blocks.size) →
      Confined T tagEnd.toList w' (s₂.fallenThrough m after) made' tagEnd.toList s')
    (hlaid : Laid T s) (htag : ∀ b ∈ tagEnd.toList, b < s.graph.blocks.size)
    (hafter : after ∈ exposed T) (hw : ((n :: (w ++ w')).map Node.id).Nodup) :
    Confined T tagEnd.toList (n :: (w ++ w')) s (made ++ made') tagEnd.toList s' := by
  obtain ⟨hn, hparts⟩ := List.nodup_cons.mp hw
  rw [List.map_append] at hparts
  have hbranch : Confined T tagEnd.toList [] s [] (s.graph.blocks.size :: tagEnd.toList)
      (s.branched .branch tagEnd) := confined_branched s (by decide) mem_open htag
  have hs₁ := atCursor_placed hlabels (.branched (by decide) hlaid fun x hx => htag x (mem_open x hx))
  have hbody := hbody hs₁.ready
  have hfall : Confined T s₂.cursor.toList [] s₂ [] [] (s₂.fallenThrough m after) := by
    unfold State.fallenThrough
    split_ifs
    · have hreport : Confined T s₂.cursor.toList [] s₂ [] s₂.cursor.toList (s₂.reported .missingBreak
          m.pos "missing break statement at end of switch section") :=
        confined_still (adds_reported s₂ (by decide) _ _) rfl hbody.ready.open_lt
      have hedge := confined_withEdge (T := T) (a := s₂.cursor) mem_open hafter fun b hb =>
        (hreport.ends b hb).2
      exact (hreport.afterIdle hedge (List.Subset.refl _)).mono (List.Subset.refl _)
        (List.Subset.refl _) (List.nil_subset _)
    · exact (confined_still (.refl s₂) rfl hbody.ready.open_lt).mono (List.Subset.refl _)
        (List.Subset.refl _) (List.nil_subset _)
  have hinner := (hs₁.confined.trans hbody.confined (List.Subset.refl _) (by
    rw [List.map_append, List.mem_append, not_or] at hn
    simpa using hn.1)).thenIdle hfall (List.Subset.refl _)
  have hframe := hinner.frame tagEnd.toList fun b hb => by
    refine ⟨(htag b hb).trans_le hbranch.size_le, fun hmem => ?_⟩
    obtain rfl := Option.some_inj.mp (Option.mem_toList.mp hmem)
    exact lt_irrefl _ (htag _ hb)
  rw [List.append_nil] at hframe
  have hfirst := hbranch.afterIdle hframe fun b hb => by
    rcases List.mem_append.mp hb with hb | hb
    · exact List.mem_cons_of_mem _ hb
    · obtain rfl := Option.some_inj.mp (Option.mem_toList.mp hb)
      exact List.mem_cons_self
  have hrest := hrest (hfirst.laid hlaid) fun b hb => (hfirst.ends b hb).2
  refine hfirst.trans hrest (List.Subset.refl _) ?_
  rw [List.map_append, List.disjoint_append_left]
  refine ⟨?_, List.disjoint_of_nodup_append hparts⟩
  rw [List.map_append, List.mem_append, not_or] at hn
  simpa using hn.2

end

end FlowCheck.Build
