import FlowCheck.Proofs.Build.Confinement
import FlowCheck.Proofs.Build.Placement

/-!
# The record of `finally` blocks

Construction makes one entry for each try statement with a `finally` block that control gets to, and
records them in the order of their blocks.
-/
namespace FlowCheck

/-! ### Try statements with a `finally` block -/

/-- The statement that a node is, if it is a try statement with a `finally` block. -/
def Node.guarding? : Node → Option Stmt
  | .stmt x => if x.cleanup?.isSome then some x else none
  | _ => none

/-- The try statements with a `finally` block among some nodes. -/
def attempts (w : List Node) : List Stmt := w.filterMap Node.guarding?

theorem mem_attempts {w : List Node} {x : Stmt} :
    x ∈ attempts w ↔ .stmt x ∈ w ∧ x.cleanup?.isSome := by
  rw [attempts, List.mem_filterMap]
  constructor
  · rintro ⟨n, hn, h⟩
    unfold Node.guarding? at h
    split at h
    · split_ifs at h with hsome
      obtain rfl := Option.some_inj.mp h
      exact ⟨hn, hsome⟩
    · cases h
  · rintro ⟨hn, hsome⟩
    exact ⟨_, hn, if_pos hsome⟩

@[simp] theorem attempts_nil : attempts [] = [] := rfl

@[simp] theorem attempts_append (w v : List Node) : attempts (w ++ v) = attempts w ++ attempts v :=
  List.filterMap_append

theorem attempts_cons {n : Node} (w : List Node) (hn : n.guarding? = none) :
    attempts (n :: w) = attempts w :=
  List.filterMap_cons_none hn

@[simp] theorem attempts_ident (name : Ident) : attempts name.walk = [] := rfl

mutual

@[simp] theorem attempts_expr (x : Expr) : attempts (x.walk everywhere) = [] := by
  match x with
  | .ident _ | .literal .. => rfl
  | .unary _ _ y | .paren _ y | .sliceType _ y =>
    rw [Expr.walk, Node.above_everywhere, attempts_cons _ rfl, attempts_expr y]
  | .binary _ _ y z | .index _ y z =>
    rw [Expr.walk, Node.above_everywhere, attempts_cons _ rfl, attempts_append, attempts_expr y,
      attempts_expr z, List.append_nil]
  | .call _ y ys =>
    rw [Expr.walk, Node.above_everywhere, attempts_cons _ rfl, attempts_append, attempts_expr y,
      attempts_exprs ys, List.append_nil]
  | .select _ y name =>
    rw [Expr.walk, Node.above_everywhere, attempts_cons _ rfl, attempts_append, attempts_expr y,
      attempts_ident, List.append_nil]

@[simp] theorem attempts_exprs (xs : List Expr) : attempts (Expr.walkList everywhere xs) = [] := by
  match xs with
  | [] => rfl
  | x :: xs => rw [Expr.walkList, attempts_append, attempts_expr x, attempts_exprs xs, List.append_nil]

end

@[simp] theorem attempts_exprOption (x : Option Expr) :
    attempts (Expr.walkOption everywhere x) = [] := by
  cases x with
  | none => rfl
  | some x => exact attempts_expr x

@[simp] theorem attempts_simple (x : Simple) : attempts (x.walk everywhere) = [] := by
  cases x with
  | expr m x => exact attempts_expr x
  | assign m op target value =>
    rw [Simple.walk, Node.above_everywhere, attempts_cons _ rfl]
    simp

@[simp] theorem attempts_simpleOption (x : Option Simple) :
    attempts (x.elim [] (·.walk everywhere)) = [] := by
  cases x with
  | none => rfl
  | some x => exact attempts_simple x

@[simp] theorem attempts_varDecl (d : VarDecl) : attempts (d.walk everywhere) = [] := by
  rw [VarDecl.walk, Node.above_everywhere, attempts_cons _ rfl]
  simp

theorem Stmt.Single.attempts_eq_nil {x : Stmt} (hx : x.Single) :
    attempts (x.walk everywhere) = [] := by
  cases x with
  | simple x => exact attempts_simple x
  | var m d | ret m y | raise m y =>
    rw [Stmt.walk, Node.above_everywhere, attempts_cons _ rfl]
    simp
  | jump m kind => rfl
  | _ => cases hx

namespace Build

/-! ### Entries -/

/-- The entry that is made for a `finally` block itself. -/
def Part.entry : Part → List BlockId
  | .cleanup _ (some (.cleanup entry _)) => [entry]
  | _ => []

section

variable {facts : Facts} {T : List Target} {p : Part} {s s' : State} {made : List (Stmt × BlockId)}

theorem snd_recorded (x : Stmt) (b : Option Block) (cl : Option Target) :
    (recorded x cl).map Prod.snd = (Part.cleanup b cl).entry := by
  cases cl with
  | none => rfl
  | some t => cases t <;> rfl

theorem Placed.cleanups {n : Node} (h : Placed T n s s') :
    s'.graph.cleanupEntries = s.graph.cleanupEntries :=
  h.adds.cleanups

theorem PlacedOption.cleanups {n : Option Node} (h : PlacedOption T n s s') :
    s'.graph.cleanupEntries = s.graph.cleanupEntries :=
  h.adds.cleanups

theorem Departed.cleanups {c : Option BlockId} (h : Departed c T s s') :
    s'.graph.cleanupEntries = s.graph.cleanupEntries :=
  (h.adds (N := NoNode)).cleanups

theorem cleanups_withEdge (s : State) (a : Option BlockId) (b : BlockId) :
    (s.withEdge a b).graph.cleanupEntries = s.graph.cleanupEntries :=
  (adds_withEdge (E := fun _ _ => True) (N := NoNode) fun _ _ => trivial).cleanups

theorem Stands.cleanups {x : Stmt} (h : Stands T x s s') :
    s'.graph.cleanupEntries = s.graph.cleanupEntries := by
  cases h with
  | goesOn _ h => exact h.cleanups
  | leaves _ h hd => exact hd.cleanups.trans h.cleanups
  | strays h hd => exact hd.cleanups.trans h.cleanups

theorem Closes.cleanups {header : BlockId} {q : Option (Simple × BlockId)}
    (h : Closes facts T header q s s') : s'.graph.cleanupEntries = s.graph.cleanupEntries := by
  cases h with
  | straight => exact cleanups_withEdge s _ header
  | @dead q b hb => exact (cleanups_withEdge _ _ header).trans (cleanups_withEdge s _ b)
  | @live q b s s₁ hb h =>
    exact ((cleanups_withEdge s₁ _ header).trans h.placed.cleanups).trans
      (cleanups_withEdge s s.cursor b)

/-- The entries of `finally` blocks are recorded in their order. -/
theorem Course.entries (h : Course facts T p s made s') :
    s'.graph.cleanupEntries = s.graph.cleanupEntries ++ (p.entry ++ made.map Prod.snd) := by
  induction h with
  | @skipped T x s _ _ => simp [Part.entry, (adds_skipped (E := NoEdge) (N := NoNode) s _).cleanups]
  | @empty T m s => simp [Part.entry, (adds_markedHere (E := NoEdge) (N := NoNode) s m).cleanups]
  | braces _ ih => exact ih
  | single h => simp [Part.entry, h.stands.cleanups]
  | @cond T m test yes no s s₁ s₂ s₃ made₁ made₂ htest _ _ ihyes ihno =>
    rw [(adds_joined (N := NoNode) s₃ s₂.cursor s₃.cursor).cleanups, ihno,
      (adds_branchedIf (N := NoNode) s₂ _ s₁.cursor).cleanups, ihyes,
      (adds_branchedIf (N := NoNode) s₁ _ s₁.cursor).cleanups, htest.placed.cleanups]
    simp [Part.entry]
  | @loop T m init post test body c s s₁ s₂ s₃ s₄ q made _ hinit htest _ _ hround ih =>
    rw [State.movedTo, hround.cleanups, ih, (adds_opened (N := NoNode) _ _ _ _).cleanups,
      (adds_laidOut (N := NoNode) s₂ post).cleanups, PlacedOption.cleanups htest.placed,
      (adds_branched (N := NoNode) s₁ .loop (by decide) _).cleanups, PlacedOption.cleanups hinit.placed]
    rfl
  | foreach hoperand _ ih =>
    rw [State.movedTo, cleanups_withEdge, ih, (adds_iterated _ _).cleanups, hoperand.placed.cleanups]
    rfl
  | @switch T m tag sections close s s₁ s₂ made htag _ ih =>
    rw [State.movedTo, (adds_defaulted (N := NoNode) s₂ sections _ _).cleanups, ih,
      htag.placed.cleanups, (adds_withBlock (E := NoEdge) (N := NoNode) s .join (by decide)).cleanups]
    rfl
  | @attempt T m body clauses cleanup c s s₁ s₂ s₃ s₄ s₅ cl hs made₁ made₂ made₃ _ _ hready _ hleave _
      ihcleanup ihbody ihclauses =>
    rw [State.movedTo, ihclauses, hleave.departed.cleanups, ihbody, State.movedTo,
      (hready.adds (E := NoEdge) (N := NoNode)).cleanups, ihcleanup,
      (adds_withBlock (E := NoEdge) (N := NoNode) s .join (by decide)).cleanups,
      ← snd_recorded (.attempt m body clauses cleanup)]
    simp [Part.entry]
  | nil | noSections | noClauses | noCleanup => simp [Part.entry]
  | cons _ _ ihx ihxs =>
    rw [ihxs, ihx]
    simp [Part.entry]
  | @block T m xs close s s' made _ ih =>
    rw [ih, (adds_markedHere (E := NoEdge) (N := NoNode) s m).cleanups]
    rfl
  | sections hlabels _ _ ihbody ihcs =>
    rw [ihcs, (adds_fallenThrough (N := NoNode) _ _ _).cleanups, ihbody, hlabels.placed.cleanups,
      (adds_branched (N := NoNode) _ .branch (by decide) _).cleanups]
    simp [Part.entry]
  | @uncaught T cl after b before a hs x cs s s' made _ _ ih =>
    rw [ih, (adds_uncaught (E := NoEdge) (N := NoNode) _ x).cleanups,
      (adds_compared (E := NoEdge) (N := NoNode) s before a x.mark).cleanups]
    rfl
  | @caught T cl after b before a hs x cs s s₁ s₂ s' made₁ made₂ _ _ hleave _ ihbody ihcs =>
    rw [ihcs, hleave.departed.cleanups, ihbody,
      (adds_withNode (E := NoEdge) (N := fun _ _ => True) trivial).cleanups, State.movedTo,
      (adds_compared (E := NoEdge) (N := NoNode) s before a x.mark).cleanups]
    simp [Part.entry]
  | @cleanup T b s s' made _ ih =>
    rw [ih, State.movedTo, State.withBlock, Graph.cleanupEntries_newBlock]
    simp [Part.entry]

/-! ### What is recorded -/

/-- The try statements are recorded or dead. -/
def Covers (xs : List Stmt) (made : List (Stmt × BlockId)) (s : State) : Prop :=
  ∀ x ∈ xs, (Node.stmt x).id ∈ s.dead ∨ x ∈ made.map Prod.fst

namespace Covers

variable {xs ys : List Stmt} {s₁ : State} {made' : List (Stmt × BlockId)}

theorem later (h : Covers xs made s) (hg : Grown s s') : Covers xs made s' := fun x hx =>
  (h x hx).imp (hg.dead.subset ·) id

/-- What is recorded first and what is recorded next. -/
theorem trans (h : Covers xs made s₁) (h' : Covers ys made' s') (hg : Grown s₁ s') :
    Covers (xs ++ ys) (made ++ made') s' := by
  intro x hx
  rw [List.map_append, List.mem_append]
  rcases List.mem_append.mp hx with hx | hx
  · exact (h x hx).imp (hg.dead.subset ·) .inl
  · exact (h' x hx).imp id .inr

/-- What is marked as dead as a whole need not be recorded. -/
theorem of_dead {w : List Node} (h : ∀ n ∈ w, n.id ∈ s.dead) : Covers (attempts w) made s :=
  fun _ hx => .inl (h _ (mem_attempts.mp hx).1)

end Covers

theorem Course.exists_target {b : Block} {cl : Option Target}
    (h : Course facts T (.cleanup (some b) cl) s made s') :
    ∃ entry last, cl = some (.cleanup entry last) := by
  cases h with
  | cleanup h => exact ⟨_, _, rfl⟩

/-- Every try statement with a `finally` block that control gets to is recorded. -/
theorem Course.covers (h : Course facts T p s made s') : Covers (attempts p.walk) made s' := by
  induction h with
  | @skipped T x s _ _ =>
    exact .of_dead fun n hn => List.mem_append_right _ (List.mem_map_of_mem (f := Node.id) hn)
  | empty => exact fun x hx => absurd hx List.not_mem_nil
  | braces _ ih => exact ih
  | single h =>
    intro x hx
    rw [Part.walk, h.single.attempts_eq_nil] at hx
    exact absurd hx List.not_mem_nil
  | @cond T m test yes no s s₁ s₂ s₃ made₁ made₂ htest _ hno ihyes ihno =>
    have hjoin := (adds_joined (N := NoNode) s₃ s₂.cursor s₃.cursor).toGrown
    have hg := ((adds_branchedIf (N := NoNode) s₂ _ s₁.cursor).toGrown.trans hno.grown).trans hjoin
    rw [Part.walk, Stmt.walk, Node.above_everywhere, attempts_cons _ rfl, attempts_append,
      attempts_append, attempts_expr, List.nil_append, ← walkList_toList]
    exact ihyes.trans (ihno.later hjoin) hg
  | @loop T m init post test body c s s₁ s₂ s₃ s₄ q made _ hinit htest _ _ hround ih =>
    rw [Part.walk, Stmt.walk, Node.above_everywhere, attempts_cons _ rfl]
    have hbody : Covers (attempts (body.walk everywhere)) made s₃ := ih
    simpa using hbody.later (hround.grown.trans (grown_movedTo s₄ _))
  | @foreach T m v operand body s s₁ s₂ made _ _ ih =>
    rw [Part.walk, Stmt.walk, Node.above_everywhere, attempts_cons _ rfl]
    have hbody : Covers (attempts (body.walk everywhere)) made s₂ := ih
    simpa using hbody.later ((grown_withEdge s₂ _ _).trans (grown_movedTo _ _))
  | @switch T m tag sections close s s₁ s₂ made _ _ ih =>
    rw [Part.walk, Stmt.walk, Node.above_everywhere, attempts_cons _ rfl]
    have hsections : Covers (attempts (CaseClause.walkList everywhere sections)) made s₂ := ih
    simpa using hsections.later ((adds_defaulted (N := NoNode) s₂ sections _ _).toGrown.trans
      (grown_movedTo _ _))
  | @attempt T m body clauses cleanup c s s₁ s₂ s₃ s₄ s₅ cl hs made₁ made₂ made₃ _ hcleanup hready
      hbody hleave hclauses ihcleanup ihbody ihclauses =>
    have hg₅ := grown_movedTo s₅ (Onward.cursor s₅.graph s.graph.blocks.size)
    have hg₃ := (hleave.departed.grown.trans hclauses.grown).trans hg₅
    have hg₁ := (((hready.adds (E := NoEdge) (N := NoNode)).toGrown.trans
      (grown_movedTo s₂ (some c))).trans hbody.grown).trans hg₃
    intro x hx
    obtain ⟨hwalk, hsome⟩ := mem_attempts.mp hx
    simp only [List.map_append, List.mem_append]
    rw [Part.walk, Stmt.walk, Node.above_everywhere] at hwalk
    rcases List.mem_cons.mp hwalk with heq | hwalk
    · -- the statement itself
      obtain rfl : x = .attempt m body clauses cleanup := Node.stmt.inj heq
      obtain ⟨b, rfl⟩ := Option.isSome_iff_exists.mp hsome
      obtain ⟨entry, last, rfl⟩ := hcleanup.exists_target
      exact .inr (.inl (.inl (.inl List.mem_cons_self)))
    rcases List.mem_append.mp hwalk with hwalk | hwalk
    · rcases List.mem_append.mp hwalk with hwalk | hwalk
      · exact (ihbody.later hg₃ x (mem_attempts.mpr ⟨hwalk, hsome⟩)).imp id fun h => .inl (.inr h)
      · exact (ihclauses.later hg₅ x (mem_attempts.mpr ⟨hwalk, hsome⟩)).imp id .inr
    · exact (ihcleanup.later hg₁ x (mem_attempts.mpr ⟨hwalk, hsome⟩)).imp id
        fun h => .inl (.inl (.inr h))
  | nil | noSections | noClauses | noCleanup => exact fun x hx => absurd hx List.not_mem_nil
  | @cons T x xs s s₁ s' made₁ made₂ _ hxs ihx ihxs =>
    rw [Part.walk, Stmt.walkList, attempts_append]
    exact ihx.trans ihxs hxs.grown
  | block _ ih =>
    rw [Part.walk, Block.walk, Node.above_everywhere, attempts_cons _ rfl]
    exact ih
  | @sections T tagEnd after m values isDefault body cs s s₁ s₂ s' made₁ made₂ _ _ hcs ihbody ihcs =>
    rw [Part.walk, CaseClause.walkList, CaseClause.walk, Node.above_everywhere, attempts_append,
      attempts_cons _ rfl, attempts_append, attempts_exprs, List.nil_append]
    exact ihbody.trans ihcs ((adds_fallenThrough (N := NoNode) s₂ m after).toGrown.trans hcs.grown)
  | @uncaught T cl after b before a hs x cs s s' made _ hcs ih =>
    rw [Part.walk, CatchClause.walkList, attempts_append]
    have hpassed : Covers (attempts (x.walk everywhere)) []
        ((s.compared before a x.mark).uncaught x) :=
      .of_dead fun n hn => List.mem_append_right _ (List.mem_map_of_mem (f := Node.id) hn)
    exact hpassed.trans ih hcs.grown
  | @caught T cl after b before a hs x cs s s₁ s₂ s' made₁ made₂ _ _ hleave hcs ihbody ihcs =>
    obtain ⟨m, param, body⟩ := x
    have hparam : attempts (param.elim [] fun p => p.1.walk ++ p.2.walk everywhere) = [] := by
      cases param <;> simp
    rw [Part.walk, CatchClause.walkList, CatchClause.walk, Node.above_everywhere, attempts_append,
      attempts_cons _ rfl, attempts_append, hparam, List.nil_append]
    exact ihbody.trans ihcs (hleave.departed.grown.trans hcs.grown)
  | cleanup _ ih => exact ih

/-- Nothing else is recorded. -/
theorem Course.guarding (h : Course facts T p s made s') : ∀ q ∈ made, q.1.cleanup?.isSome := by
  induction h with
  | skipped | empty | single | nil | noSections | noClauses | noCleanup => simp
  | braces _ ih | block _ ih | cleanup _ ih => exact ih
  | loop _ _ _ _ _ _ ih => exact ih
  | foreach _ _ ih | switch _ _ ih | uncaught _ _ ih => exact ih
  | cond _ _ _ ih ih' | sections _ _ _ ih ih' => exact List.forall_mem_append.mpr ⟨ih, ih'⟩
  | cons _ _ ih ih' => exact List.forall_mem_append.mpr ⟨ih, ih'⟩
  | caught _ _ _ _ ih ih' => exact List.forall_mem_append.mpr ⟨ih, ih'⟩
  | attempt _ hcleanup _ _ _ _ ih₁ ih₂ ih₃ =>
    refine List.forall_mem_append.mpr ⟨List.forall_mem_append.mpr
      ⟨List.forall_mem_append.mpr ⟨?_, ih₁⟩, ih₂⟩, ih₃⟩
    cases hcleanup with
    | noCleanup => exact fun q hq => nomatch hq
    | cleanup _ => exact fun q hq => List.mem_singleton.mp hq ▸ rfl

end

end Build

end FlowCheck
