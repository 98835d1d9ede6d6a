import FlowCheck.Proofs.Build.Escape
import FlowCheck.Proofs.Build.Handling
import FlowCheck.Proofs.Parse.Position

/-!
# Refused jumps

Construction fails where a jump is refused, and nowhere else. On the way to this jump it begins one
part of the program after the other, each inside the one before. `Descends` is what each beginning
has to do with the part around it and `Refused` what the way down comes to: the jump offends in the
part, and what has been found dead stands elsewhere. What has been reported on the way stands in the
part.
-/
namespace FlowCheck

namespace Build

/-- A throw statement is built whatever is around it. -/
theorem completes_throw (facts : Facts) (T : List Target) (m : Mark) (x : Expr) (s : State) :
    Completes (stmt facts T (.raise m x)) s := by
  rw [stmt]
  cases hc : s.cursor with
  | none => exact ⟨(), _, whenReached_of_none hc _⟩
  | some b =>
    rw [Completes, whenReached_of_some hc]
    exact completes_addRaising facts T hc _

/-! ### The way to a refused jump -/

/-- Nothing has been found dead, and nothing reported. -/
structure NoFinding (s s' : State) : Prop where
  dead : s'.dead = s.dead
  diagnostics : s'.diagnostics = s.diagnostics

/-- What has been found dead or reported stands in `w`. -/
structure Touches (w : List Node) (s s' : State) : Prop where
  dead : ∀ i ∈ s'.dead, i ∈ s.dead ∨ i ∈ w.map Node.id
  reports : Reports w s s'

/-- Building a part gets to building another one inside it. What has been found dead or reported on
the way stands in the first and not in the second, and what offends in the second offends in the
first. -/
structure Descends (T : List Target) (p : Part) (s : State) (T' : List Target) (q : Part)
    (s' : State) : Prop where
  grown : Grown s s'
  beside : ∃ w, Touches w s s' ∧ (w ++ q.walk).Subperm p.walk
  offends : ∀ y, Offends T' q y → Offends T p y

/-- Building a part fails where the jump `y` in it is refused. What has been found dead or reported
stands in the part, but it is not this jump. -/
structure Refused (T : List Target) (p : Part) (s : State) (y : Stmt) (s' : State) : Prop where
  offends : Offends T p y
  ends : ∃ s₁ w, Grown s s₁ ∧ Touches w s s₁ ∧ (w ++ [Node.stmt y]).Subperm p.walk ∧
    s' = s₁.reported .jumpOutOfFinally y.mark.pos "jump out of finally block not permitted"

section

variable {facts : Facts} {T T' : List Target} {p q : Part} {s s₁ s' : State} {w w' : List Node}
  {made : List (Stmt × BlockId)} {y : Stmt} {n : Node}

theorem NoFinding.refl (s : State) : NoFinding s s := ⟨rfl, rfl⟩

theorem NoFinding.trans (h : NoFinding s s₁) (h' : NoFinding s₁ s') : NoFinding s s' :=
  ⟨h'.dead.trans h.dead, h'.diagnostics.trans h.diagnostics⟩

theorem noFinding_withBlock (s : State) (k : BlockKind) : NoFinding s (s.withBlock k) := ⟨rfl, rfl⟩

theorem noFinding_movedTo (s : State) (c : Option BlockId) : NoFinding s (s.movedTo c) := ⟨rfl, rfl⟩

theorem noFinding_branched (s : State) (k : BlockKind) (a : Option BlockId) :
    NoFinding s (s.branched k a) :=
  ⟨dead_branched s k a, diagnostics_branched s k a⟩

theorem noFinding_branchedIf (s : State) (taken : Bool) (a : Option BlockId) :
    NoFinding s (s.branchedIf taken a) :=
  ⟨dead_branchedIf s taken a, diagnostics_branchedIf s taken a⟩

theorem noFinding_iterated (s : State) (n : Node) : NoFinding s (s.iterated n) :=
  ⟨dead_iterated s n, diagnostics_iterated s n⟩

theorem Placed.noFinding (h : Placed T n s s') : NoFinding s s' := ⟨h.dead_eq, h.diagnostics_eq⟩

theorem PlacedOption.noFinding {o : Option Node} (h : PlacedOption T o s s') : NoFinding s s' :=
  ⟨PlacedOption.dead_eq h, PlacedOption.diagnostics_eq h⟩

theorem Prepared.noFinding {cs : List CatchClause} {hs : List (ErrorType × BlockId)}
    (h : Prepared facts cs s hs s') : NoFinding s s' :=
  ⟨h.dead_eq, h.diagnostics_eq⟩

theorem Departed.noFinding {c : Option BlockId} (h : Departed c T s s') : NoFinding s s' :=
  ⟨h.dead, h.diagnostics⟩

namespace Touches

theorem nothing (h : NoFinding s s') : Touches w s s' :=
  ⟨fun _ hi => .inl (h.dead ▸ hi), .of_eq h.diagnostics⟩

theorem mono (h : Touches w s s') (hw : w ⊆ w') : Touches w' s s' :=
  ⟨fun i hi => (h.dead i hi).imp id fun hi => List.map_subset _ hw hi, h.reports.mono hw⟩

theorem trans (h : Touches w s s₁) (h' : Touches w s₁ s') : Touches w s s' :=
  ⟨fun i hi => (h'.dead i hi).elim (h.dead i) .inr, h.reports.trans h'.reports⟩

theorem append (h : Touches w s s₁) (h' : Touches w' s₁ s') : Touches (w ++ w') s s' :=
  (h.mono (List.subset_append_left _ _)).trans (h'.mono (List.subset_append_right _ _))

theorem before (h : Touches w s₁ s') (hnone : NoFinding s s₁) : Touches w s s' :=
  (nothing hnone).trans h

theorem after (h : Touches w s s₁) (hnone : NoFinding s₁ s') : Touches w s s' :=
  h.trans (nothing hnone)

end Touches

theorem Course.touches (h : Course facts T p s made s') : Touches p.walk s s' :=
  ⟨fun _ hi => h.marks.only hi, h.reports⟩

/-- A jump that is refused in a part is refused in every part above it that construction has
descended from. -/
theorem Descends.refused (h : Descends T p s T' q s₁) (hy : Refused T' q s₁ y s') :
    Refused T p s y s' := by
  obtain ⟨w, hw, hsub⟩ := h.beside
  obtain ⟨s₂, w', hgrown, hw', hsub', hs'⟩ := hy.ends
  refine ⟨h.offends y hy.offends, s₂, w ++ w', h.grown.trans hgrown, hw.append hw', ?_, hs'⟩
  rw [List.append_assoc]
  exact ((List.subperm_append_left w).mpr hsub').trans hsub

/-- Nothing has been found on the way. -/
theorem Descends.directly (hgrown : Grown s s') (hnone : NoFinding s s')
    (hwalk : q.walk.Sublist p.walk) (hoffends : ∀ y, Offends T' q y → Offends T p y) :
    Descends T p s T' q s' :=
  ⟨hgrown, ⟨[], .nothing hnone, hwalk.subperm⟩, hoffends⟩

/-! ### One step of the way -/

section

variable {m : Mark} {test : Expr} {yes : Block} {no : Option Stmt}

theorem descends_braces {b : Block} : Descends T (.stmt (.block b)) s T (.block b) s :=
  .directly (.refl s) (.refl s) (.refl _) fun _ => offends_braces.mpr

theorem descends_yes (htest : Placed T n s s₁) (taken : Bool) :
    Descends T (.stmt (.cond m test yes no)) s T (.block yes) (s₁.branchedIf taken s₁.cursor) := by
  have hgrown := (adds_branchedIf (N := NoNode) s₁ taken s₁.cursor).toGrown
  refine .directly (htest.adds.toGrown.trans hgrown)
    (htest.noFinding.trans (noFinding_branchedIf s₁ _ _)) ?_ fun _ h => offends_cond.mpr (.inl h)
  exact .cons _ ((List.sublist_append_right _ _).trans (List.sublist_append_left _ _))

theorem descends_no {s₂ : State} {a : Option BlockId} {taken taken' : Bool} (htest : Placed T n s s₁)
    (hyes : Course facts T (.block yes) (s₁.branchedIf taken s₁.cursor) made s₂) :
    Descends T (.stmt (.cond m test yes no)) s T (.stmts no.toList) (s₂.branchedIf taken' a) where
  grown := (htest.adds.toGrown.trans (adds_branchedIf (N := NoNode) s₁ taken s₁.cursor).toGrown).trans
    (hyes.grown.trans (adds_branchedIf (N := NoNode) s₂ taken' a).toGrown)
  beside := by
    refine ⟨yes.walk everywhere, ?_, List.Sublist.subperm (.cons _ ?_)⟩
    · exact (hyes.touches.before (htest.noFinding.trans (noFinding_branchedIf s₁ _ _))).after
        (noFinding_branchedIf s₂ _ _)
    · rw [Part.walk, walkList_toList]
      exact (List.sublist_append_right _ _).append_right _
  offends _ h := offends_cond.mpr (.inr h)

theorem descends_loop {init post : Option Simple} {body : Block} {test : Option Expr}
    {value : Option Bool} {tested : Bool} {s₂ : State} (q : Option (Simple × BlockId))
    (hinit : PlacedOption T (init.map fun x => .stmt (.simple x)) s s₁)
    (htest : PlacedOption T (test.map .expr) (s₁.branched .loop s₁.cursor) s₂) :
    Descends T (.stmt (.loop m init test post body)) s
      (loopTargets s₁.graph.blocks.size s₂.graph.blocks.size q T) (.block body)
      ((s₂.laidOut post).opened value tested s₂.graph.blocks.size) := by
  have hheader := (adds_branched (N := NoNode) s₁ .loop (by decide) s₁.cursor).toGrown
  have hopen := (adds_laidOut (N := NoNode) s₂ post).toGrown.trans
    (adds_opened (N := NoNode) (s₂.laidOut post) value tested s₂.graph.blocks.size).toGrown
  have hnone : NoFinding s₂ ((s₂.laidOut post).opened value tested s₂.graph.blocks.size) :=
    ⟨by rw [dead_opened, dead_laidOut], by rw [diagnostics_opened, diagnostics_laidOut]⟩
  refine .directly ?_ ?_ (.cons _ (List.sublist_append_right _ _)) fun _ h => offends_loop.mpr h
  · exact (hinit.adds.toGrown.trans hheader).trans (htest.adds.toGrown.trans hopen)
  · exact (hinit.noFinding.trans (noFinding_branched s₁ _ _)).trans
      ((PlacedOption.noFinding htest).trans hnone)

theorem descends_foreach {v : Ident} {operand : Expr} {body : Block} {x : Node}
    (hoperand : Placed T n s s₁) :
    Descends T (.stmt (.foreach m v operand body)) s
      (loopTargets s₁.graph.blocks.size (s₁.withBlock .loop).graph.blocks.size none T) (.block body)
      (s₁.iterated x) := by
  refine .directly (hoperand.adds.toGrown.trans (adds_iterated s₁ x).toGrown)
    (hoperand.noFinding.trans (noFinding_iterated s₁ x)) ?_ fun _ h => offends_foreach.mpr h
  exact .cons _ (List.sublist_append_right _ _)

theorem descends_switch {tag : Expr} {sections : List CaseClause} {close : Pos}
    {tagEnd : Option BlockId} {after : BlockId} (htag : Placed T' n (s.withBlock .join) s₁) :
    Descends T (.stmt (.switch m tag sections close)) s (.landing .loopEnd after :: T)
      (.sections tagEnd after sections) s₁ := by
  refine .directly ((grown_withBlock s .join).trans htag.adds.toGrown)
    ⟨htag.dead_eq, htag.diagnostics_eq⟩ ?_ fun _ h => offends_switch.mpr h
  exact .cons _ (List.sublist_append_right _ _)

section

variable {body : Block} {clauses : List CatchClause} {cleanup : Option Block} {cl : Option Target}
  {hs : List (ErrorType × BlockId)} {s₂ s₃ s₄ : State} {made' : List (Stmt × BlockId)}

theorem descends_cleanup :
    Descends T (.stmt (.attempt m body clauses cleanup)) s T (.cleanup cleanup none)
      (s.withBlock .join) := by
  refine .directly (grown_withBlock s .join) ⟨rfl, rfl⟩ ?_ fun _ h =>
    (offends_attempt 0 [] fun _ => Iff.rfl).mpr (.inl h)
  exact .cons _ (List.sublist_append_right _ _)

theorem grown_readied (c : Option BlockId)
    (hcleanup : Course facts T (.cleanup cleanup cl) (s.withBlock .join) made s₁)
    (hready : Prepared facts clauses s₁ hs s₂) : Grown s (s₂.movedTo c) :=
  ((grown_withBlock s .join).trans hcleanup.grown).trans
    ((hready.adds (E := NoEdge) (N := NoNode)).toGrown.trans (grown_movedTo s₂ c))

/-- The body of a try statement is built when the blocks of its handlers have been made. -/
theorem descends_body (c : Option BlockId)
    (hcleanup : Course facts T (.cleanup cleanup cl) (s.withBlock .join) made s₁)
    (hready : Prepared facts clauses s₁ hs s₂) :
    Descends T (.stmt (.attempt m body clauses cleanup)) s
      (handlerTargets hs ++ (cl.toList ++ T)) (.block body) (s₂.movedTo c) where
  grown := grown_readied c hcleanup hready
  beside := by
    refine ⟨Block.walkOption everywhere cleanup, ?_, ?_⟩
    · exact (hcleanup.touches.before (noFinding_withBlock s .join)).after
        (hready.noFinding.trans (noFinding_movedTo s₂ c))
    · refine List.perm_append_comm.subperm.trans (List.Sublist.subperm (.cons _ ?_))
      exact (List.sublist_append_left _ _).append_right _
  offends _ h :=
    (offends_attempt 0 hs fun _ => hcleanup.barred_cleanup).mpr (.inr (.inl h))

theorem descends_clauses {c : Option BlockId} {after : BlockId}
    (hcleanup : Course facts T (.cleanup cleanup cl) (s.withBlock .join) made s₁)
    (hready : Prepared facts clauses s₁ hs s₂)
    (hbody : Course facts (handlerTargets hs ++ (cl.toList ++ T)) (.block body)
      (s₂.movedTo c) made' s₃) (hleave : Departed s₃.cursor T' s₃ s₄) :
    Descends T (.stmt (.attempt m body clauses cleanup)) s (cl.toList ++ T)
      (.clauses cl after [] hs clauses) s₄ where
  grown := (grown_readied c hcleanup hready).trans (hbody.grown.trans hleave.grown)
  beside := by
    refine ⟨Block.walkOption everywhere cleanup ++ body.walk everywhere, ?_, ?_⟩
    · have hstart := (hcleanup.touches.before (noFinding_withBlock s .join)).after
        (hready.noFinding.trans (noFinding_movedTo s₂ c))
      exact (hstart.append hbody.touches).after hleave.noFinding
    · rw [List.append_assoc]
      exact List.perm_append_comm.subperm.trans (List.Sublist.subperm (.cons _ (.refl _)))
  offends _ h :=
    (offends_attempt after hs fun _ => hcleanup.barred_cleanup).mpr (.inr (.inr h))

end

/-- The `finally` block of a try statement is entered past a barrier. -/
theorem descends_barrier {b : Block} {cl : Option Target} :
    Descends T (.cleanup (some b) cl) s (.barrier :: T) (.block b)
      ((s.withBlock .cleanup).movedTo (some s.graph.blocks.size)) :=
  .directly ((grown_withBlock s .cleanup).trans (grown_movedTo _ _)) ⟨rfl, rfl⟩ (.refl _) fun _ =>
    offends_cleanup.mpr

theorem descends_head {x : Stmt} {xs : List Stmt} :
    Descends T (.stmts (x :: xs)) s T (.stmt x) s :=
  .directly (.refl s) (.refl s) (List.sublist_append_left _ _) fun _ h => offends_cons.mpr (.inl h)

theorem descends_tail {x : Stmt} {xs : List Stmt} (hx : Course facts T (.stmt x) s made s₁) :
    Descends T (.stmts (x :: xs)) s T (.stmts xs) s₁ where
  grown := hx.grown
  beside := ⟨x.walk everywhere, hx.touches, .refl _⟩
  offends _ h := offends_cons.mpr (.inr h)

theorem descends_block {xs : List Stmt} {close : Pos} :
    Descends T (.block (.mk m xs close)) s T (.stmts xs) (s.markedHere m) where
  grown := (adds_markedHere (E := NoEdge) (N := NoNode) s m).toGrown
  beside := by
    refine ⟨[.stmt (.block (.mk m xs close))], ⟨fun i hi => ?_, ?_⟩, .refl _⟩
    · unfold State.markedHere at hi
      split_ifs at hi
      · exact List.mem_append.mp hi
      · exact .inl hi
    · exact .of_eq (diagnostics_markedHere s m)
  offends _ h := offends_block.mpr h

section

variable {tagEnd : Option BlockId} {after : BlockId} {values : List Expr} {isDefault : Bool}
  {body : List Stmt} {cs : List CaseClause} {s₂ : State}

theorem descends_section (hlabels : Placed T n (s.branched .branch tagEnd) s₁) :
    Descends T (.sections tagEnd after (.mk m values isDefault body :: cs)) s T (.stmts body) s₁ := by
  have hgrown := (adds_branched (N := NoNode) s .branch (by decide) tagEnd).toGrown
  refine .directly (hgrown.trans hlabels.adds.toGrown)
    ((noFinding_branched s _ _).trans hlabels.noFinding) ?_ fun _ h => offends_sections.mpr (.inl h)
  exact .trans (.cons _ (List.sublist_append_right _ _)) (List.sublist_append_left _ _)

theorem descends_sections (hlabels : Placed T n (s.branched .branch tagEnd) s₁)
    (hbody : Course facts T (.stmts body) s₁ made s₂) :
    Descends T (.sections tagEnd after (.mk m values isDefault body :: cs)) s T
      (.sections tagEnd after cs) (s₂.fallenThrough m after) where
  grown := ((adds_branched (N := NoNode) s .branch (by decide) tagEnd).toGrown.trans
    hlabels.adds.toGrown).trans
      (hbody.grown.trans (adds_fallenThrough (N := NoNode) s₂ m after).toGrown)
  beside := by
    refine ⟨(CaseClause.mk m values isDefault body).walk everywhere, ?_, .refl _⟩
    have hsection := hbody.touches.before ((noFinding_branched s _ _).trans hlabels.noFinding)
    have hfall : Touches [.caseClause (.mk m values isDefault body)] s₂ (s₂.fallenThrough m after) :=
      ⟨fun _ hi => .inl (dead_fallenThrough s₂ m after ▸ hi), reports_fallenThrough s₂ m _ _ _ _⟩
    refine (hsection.mono ?_).trans (hfall.mono ?_)
    · exact List.subset_cons_of_subset _ (List.subset_append_right _ _)
    · exact (List.singleton_sublist.mpr List.mem_cons_self).subset
  offends _ h := offends_sections.mpr (.inr h)

end

section

variable {cl : Option Target} {after b : BlockId} {before : List ErrorType} {a : ErrorType}
  {hs : List (ErrorType × BlockId)} {c : CatchClause} {cs : List CatchClause} {s₂ : State}

theorem grown_caught (s : State) (before : List ErrorType) (a : ErrorType) (c : CatchClause)
    (b : BlockId) :
    Grown s (((s.compared before a c.mark).movedTo (some b)).withNode b (.catchClause c)) :=
  ((adds_compared (E := NoEdge) (N := NoNode) s before a c.mark).toGrown.trans
    (grown_movedTo _ _)).trans (adds_withNode (E := NoEdge) (N := fun _ _ => True) trivial).toGrown

/-- The errors that a clause catches have been compared with those that are caught before. -/
theorem touches_compared (s : State) (before : List ErrorType) (a : ErrorType) (c : CatchClause) :
    Touches [.catchClause c] s (s.compared before a c.mark) :=
  ⟨fun _ hi => .inl (dead_compared s before a c.mark ▸ hi), reports_compared s before a c⟩

theorem clause_subset_walk (c : CatchClause) : [.catchClause c] ⊆ c.walk everywhere := by
  cases c
  exact (List.singleton_sublist.mpr List.mem_cons_self).subset

theorem descends_clause :
    Descends T (.clauses cl after before ((a, b) :: hs) (c :: cs)) s T (.block c.body)
      (((s.compared before a c.mark).movedTo (some b)).withNode b (.catchClause c)) where
  grown := grown_caught s before a c b
  beside := by
    refine ⟨[.catchClause c], (touches_compared s before a c).after ⟨rfl, rfl⟩, ?_⟩
    obtain ⟨m, param, body⟩ := c
    have hclause : (.catchClause (.mk m param body) :: body.walk everywhere).Sublist
        ((CatchClause.mk m param body).walk everywhere) :=
      .cons_cons _ (List.sublist_append_right _ _)
    exact (hclause.trans (List.sublist_append_left _ _)).subperm
  offends _ h := offends_clauses.mpr (.inl h)

theorem descends_uncaught :
    Descends T (.clauses cl after before ((a, b) :: hs) (c :: cs)) s T
      (.clauses cl after (a :: before) hs cs) ((s.compared before a c.mark).uncaught c) where
  grown := (adds_compared (E := NoEdge) (N := NoNode) s before a c.mark).toGrown.trans
    (adds_uncaught (E := NoEdge) (N := NoNode) _ c).toGrown
  beside := by
    refine ⟨c.walk everywhere, ?_, .refl _⟩
    have hskip : Touches (c.walk everywhere) (s.compared before a c.mark)
        ((s.compared before a c.mark).uncaught c) :=
      ⟨fun _ => List.mem_append.mp, (reports_uncaught _ c).mono (clause_subset_walk c)⟩
    exact ((touches_compared s before a c).mono (clause_subset_walk c)).trans hskip
  offends _ h := offends_clauses.mpr (.inr h)

theorem descends_caught
    (hbody : Course facts T (.block c.body)
      (((s.compared before a c.mark).movedTo (some b)).withNode b (.catchClause c)) made s₁)
    (hleave : Departed s₁.cursor T' s₁ s₂) :
    Descends T (.clauses cl after before ((a, b) :: hs) (c :: cs)) s T
      (.clauses cl after (a :: before) hs cs) s₂ where
  grown := (grown_caught s before a c b).trans (hbody.grown.trans hleave.grown)
  beside := by
    refine ⟨c.walk everywhere, ?_, .refl _⟩
    have hcompared := (touches_compared s before a c).mono (clause_subset_walk c)
    have hentry : NoFinding (s.compared before a c.mark)
        (((s.compared before a c.mark).movedTo (some b)).withNode b (.catchClause c)) := ⟨rfl, rfl⟩
    have hclause := (hbody.touches.before hentry).mono (body_sublist c).subset
    exact (hcompared.trans hclause).after hleave.noFinding
  offends _ h := offends_clauses.mpr (.inr h)

end

end

/-! ### Construction fails at a refused jump -/

/-- Construction begins with parts in this way only. -/
theorem Begins.descends (h : Begins facts T p s T' q s') : Descends T p s T' q s' := by
  cases h with
  | braces => exact descends_braces
  | yes htest => exact descends_yes htest.placed _
  | no htest hyes => exact descends_no htest.placed hyes
  | loop _ hinit htest => exact descends_loop _ hinit.placed htest.placed
  | foreach hoperand => exact descends_foreach hoperand.placed
  | switch htag => exact descends_switch htag.placed
  | cleanup => exact descends_cleanup
  | body _ hcleanup hready => exact descends_body _ hcleanup hready
  | clauses _ hcleanup hready hbody hleave =>
    exact descends_clauses hcleanup hready hbody hleave.departed
  | barrier => exact descends_barrier
  | head => exact descends_head
  | tail hx => exact descends_tail hx
  | block => exact descends_block
  | «section» hlabels => exact descends_section hlabels.placed
  | sections hlabels hbody => exact descends_sections hlabels.placed hbody
  | clause => exact descends_clause
  | uncaught => exact descends_uncaught
  | caught _ hbody hleave => exact descends_caught hbody hleave.departed

theorem refused_single {x : Stmt} (hx : x.Single)
    (h : SingleFailed T x s .jumpOutOfFinally s') : Refused T (.stmt x) s x s' := by
  cases h with
  | @barred k s₁ s₂ hk hplaced hbarred hd =>
    refine ⟨(offends_single hx).mpr ⟨rfl, k, hk, hbarred⟩, s₂, [], ?_, ?_, ?_, rfl⟩
    · exact hplaced.adds.toGrown.trans hd.grown
    · exact .nothing (hplaced.noFinding.trans hd.noFinding)
    · exact List.singleton_subperm_iff.mpr (Node.stmt x).mem_subtree

/-- A part that fails on a refused jump has such a jump in it. -/
theorem Fails.refused (h : Fails facts T p s .jumpOutOfFinally s') :
    ∃ y, Refused T p s y s' := by
  generalize he : Aborted.jumpOutOfFinally = e at h
  induction h with
  | single hx hb h =>
    subst he
    obtain ⟨b, hb⟩ := hb
    exact ⟨_, refused_single hx (singleFailed hx hb h)⟩
  | within hbegin _ ih =>
    obtain ⟨y, hy⟩ := ih he
    exact ⟨y, hbegin.descends.refused hy⟩

end

end Build

namespace Construction

open Build

variable {facts : Facts} {d : FuncDecl}

/-- Construction that is aborted has met a jump that is refused. -/
theorem exists_refused (h : (ofFunc facts d).outcome = .error .jumpOutOfFinally) :
    ∃ y s, Refused bodyTargets (.stmts d.body.stmts) (startState d d.name.text) y s ∧
      (ofFunc facts d).diagnostics = s.diagnostics ∧ (ofFunc facts d).dead = s.dead := by
  obtain ⟨s, hfails, hdiagnostics, hdead⟩ := exists_fails h
  obtain ⟨y, hy⟩ := hfails.refused
  exact ⟨y, s, hy, hdiagnostics, hdead⟩

/-- Construction reports at places of its function only. -/
theorem pos_mem_places (facts : Facts) (d : FuncDecl) {x : Diagnostic}
    (hx : x ∈ (ofFunc facts d).diagnostics) : x.pos ∈ d.places := by
  have hplaces : (Part.stmts d.body.stmts).walk.map Node.pos ⊆ d.places := by
    refine List.Subset.trans (List.map_subset _ fun n hn => ?_) (List.subset_append_left _ _)
    refine List.mem_cons_of_mem _ (List.mem_append_right _ ?_)
    rw [d.walk_body]
    exact List.mem_cons_of_mem _ hn
  have hfound {s : State} (hs : Reports (Part.stmts d.body.stmts).walk (startState d d.name.text) s)
      (hx : x ∈ s.diagnostics) : x.pos ∈ d.places :=
    hplaces ((hs x hx).resolve_left List.not_mem_nil)
  rcases ofFunc_cases facts d with ⟨made, s, hcourse, -, h⟩ | ⟨e, s, hfails, h⟩
  · rw [h] at hx
    rcases mem_diagnostics_concluded hx with hx | ⟨hpos, -⟩
    · exact hfound hcourse.reports hx
    · exact List.mem_append_right _ (List.mem_singleton.mpr hpos)
  · rw [h] at hx
    obtain rfl := hfails.error_eq grounded_bodyTargets
    obtain ⟨y, -, s₁, w, -, hw, hsub, rfl⟩ := hfails.refused
    have hwalk := hsub.subset
    rcases List.mem_append.mp hx with hx | hx
    · exact hfound (hw.reports.mono fun n hn => hwalk (List.mem_append_left _ hn)) hx
    · obtain rfl := List.mem_singleton.mp hx
      exact hplaces (List.mem_map_of_mem (hwalk (List.mem_append_right _ List.mem_cons_self)))

end Construction

end FlowCheck
