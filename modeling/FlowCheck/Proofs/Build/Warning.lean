import FlowCheck.Proofs.Build.Placement
import FlowCheck.Proofs.Tree.Listing

/-!
# Warnings about unreachable code

Where the end of a statement list cannot be reached, its first statement gets a warning, and the
others do not. Whether the run of dead statements has been reported is a single flag of the builder,
which is set only while there is no cursor. Every list is begun with the flag down, and a list within
another one is built only from a cursor, so none of them meets the flag of another.
-/
namespace FlowCheck

/-- The statements of a list that are dead. -/
def deadOf (dead : List Nat) (xs : List Stmt) : List Stmt := xs.filter (·.deadIn dead)

/-- The warning about the dead statements of a list, at the first of them. -/
def unreachable? (dead : List Nat) (xs : List Stmt) : Option Diagnostic :=
  (deadOf dead xs).head?.map fun x =>
    ⟨.flow, .warning, .unreachableCode, x.mark.pos, "unreachable code detected"⟩

section

variable {dead : List Nat} {x : Stmt} {xs ys : List Stmt}

@[simp] theorem deadOf_nil : deadOf dead [] = [] := rfl

theorem deadOf_append : deadOf dead (xs ++ ys) = deadOf dead xs ++ deadOf dead ys :=
  List.filter_append xs ys

theorem deadOf_singleton : deadOf dead [x] = if x.mark.id ∈ dead then [x] else [] := by
  simp [deadOf, Stmt.deadIn, List.filter_cons]

theorem unreachable?_of_nil (h : deadOf dead xs = []) : unreachable? dead xs = none := by
  simp [unreachable?, h]

theorem unreachable?_append : unreachable? dead (xs ++ ys) =
    if deadOf dead xs = [] then unreachable? dead ys else unreachable? dead xs := by
  rw [unreachable?, deadOf_append]
  cases h : deadOf dead xs with
  | nil => rfl
  | cons y zs => simp [unreachable?, h]

/-- If the rest of a list is dead behind a dead statement, its dead statements are at its end. -/
theorem suffix_append (hxs : deadOf dead xs <:+ xs) (hys : deadOf dead ys <:+ ys)
    (hrest : deadOf dead xs ≠ [] → deadOf dead ys = ys) :
    deadOf dead (xs ++ ys) <:+ xs ++ ys := by
  rw [deadOf_append]
  by_cases h : deadOf dead xs = []
  · rw [h, List.nil_append]
    exact hys.trans (List.suffix_append xs ys)
  · rw [hrest h]
    obtain ⟨live, hlive⟩ := hxs
    exact ⟨live, by rw [← List.append_assoc, hlive]⟩

end

namespace Build

/-- The findings about unreachable code. -/
def State.warnings (s : State) : List Diagnostic :=
  s.diagnostics.filter (·.code = .unreachableCode)

/-! ### Steps that find no dead code -/

/-- The step warns of nothing and begins no run of dead statements. -/
structure NoWarning (s s' : State) : Prop where
  warnings : s'.warnings = s.warnings
  warned : s'.warned = true → s.warned = true

namespace NoWarning

variable {s s₁ s' : State}

theorem refl (s : State) : NoWarning s s := ⟨rfl, id⟩

theorem trans (h : NoWarning s s₁) (h' : NoWarning s₁ s') : NoWarning s s' :=
  ⟨h'.warnings.trans h.warnings, h.warned ∘ h'.warned⟩

theorem movedTo (h : NoWarning s s') (c : Option BlockId) : NoWarning s (s'.movedTo c) :=
  ⟨h.warnings, fun hw => (nomatch hw)⟩

theorem fresh (h : NoWarning s s') (hs : s.warned = false) : s'.warned = false := by
  cases hw : s'.warned with
  | false => rfl
  | true => exact hs ▸ (h.warned hw).symm

end NoWarning

section

variable {T : List Target} {s s' : State} {n : Node} {facts : Facts}

theorem noWarning_reported (s : State) {code : Code} (hcode : code ≠ .unreachableCode) (pos : Pos)
    (text : String) : NoWarning s (s.reported code pos text) := by
  refine ⟨?_, id⟩
  simp [State.warnings, State.reported, hcode]

theorem noWarning_withBlock (s : State) (k : BlockKind) : NoWarning s (s.withBlock k) := ⟨rfl, id⟩

theorem noWarning_withEdge (s : State) (a : Option BlockId) (b : BlockId) :
    NoWarning s (s.withEdge a b) := ⟨rfl, id⟩

theorem noWarning_withNode (s : State) (b : BlockId) (n : Node) : NoWarning s (s.withNode b n) :=
  ⟨rfl, id⟩

theorem noWarning_marked (s : State) (ids : List Nat) : NoWarning s (s.marked ids) := ⟨rfl, id⟩

theorem noWarning_branched (s : State) (k : BlockKind) (a : Option BlockId) :
    NoWarning s (s.branched k a) :=
  .movedTo (.trans (noWarning_withBlock s k) (noWarning_withEdge _ a _)) _

theorem noWarning_branchedIf (s : State) (taken : Bool) (a : Option BlockId) :
    NoWarning s (s.branchedIf taken a) := by
  cases taken with
  | true => exact noWarning_branched s .branch a
  | false => exact .movedTo (.refl s) none

theorem noWarning_joined (s : State) (a b : Option BlockId) : NoWarning s (s.joined a b) := by
  unfold State.joined
  split_ifs
  · exact .movedTo (.refl s) none
  · exact (((noWarning_withBlock s .join).trans (noWarning_withEdge _ a _)).trans
      (noWarning_withEdge _ b _)).movedTo _

theorem noWarning_laidOut (s : State) (post : Option Simple) : NoWarning s (s.laidOut post) := by
  cases post with
  | none => exact noWarning_withBlock s _
  | some q => exact (noWarning_withBlock s _).trans (noWarning_withBlock _ _)

theorem noWarning_opened (s : State) (value : Option Bool) (tested : Bool) (after : BlockId) :
    NoWarning s (s.opened value tested after) := by
  have hleave : NoWarning s (if value != some true then s.withEdge s.cursor after else s) := by
    split_ifs
    · exact noWarning_withEdge s _ after
    · exact .refl s
  unfold State.opened
  cases tested with
  | false => exact hleave
  | true => exact hleave.trans (noWarning_branchedIf _ _ _)

theorem noWarning_iterated (s : State) (n : Node) : NoWarning s (s.iterated n) := by
  have hblocks := (noWarning_withBlock s .loop).trans (noWarning_withBlock _ .afterLoop)
  have hheader := (hblocks.trans (noWarning_withEdge _ s.cursor s.graph.blocks.size)).movedTo
    (some s.graph.blocks.size)
  exact ((hheader.trans (noWarning_withNode _ _ n)).trans (noWarning_withEdge _ _ _)).trans
    (noWarning_branched _ .branch _)

theorem noWarning_fallenThrough (s : State) (m : Mark) (after : BlockId) :
    NoWarning s (s.fallenThrough m after) := by
  unfold State.fallenThrough
  split_ifs
  · exact (noWarning_reported s (by decide) m.pos _).trans (noWarning_withEdge _ _ after)
  · exact .refl s

theorem noWarning_defaulted (s : State) (sections : List CaseClause) (tagEnd : Option BlockId)
    (after : BlockId) : NoWarning s (s.defaulted sections tagEnd after) := by
  unfold State.defaulted
  split_ifs
  · exact noWarning_withEdge s tagEnd after
  · exact .refl s

theorem noWarning_compared (s : State) (before : List ErrorType) (a : ErrorType) (m : Mark) :
    NoWarning s (s.compared before a m) := by
  unfold State.compared
  split_ifs
  · exact noWarning_reported s (by decide) m.pos _
  · exact .refl s

theorem noWarning_uncaught (s : State) (c : CatchClause) : NoWarning s (s.uncaught c) :=
  ⟨by simp [State.warnings, State.uncaught], id⟩

theorem noWarning_markedHere (s : State) (m : Mark) : NoWarning s (s.markedHere m) := by
  unfold State.markedHere
  split_ifs
  · exact noWarning_marked s _
  · exact .refl s

theorem Departed.noWarning {c : Option BlockId} (h : Departed c T s s') : NoWarning s s' :=
  ⟨congrArg (List.filter _) h.diagnostics, h.warned⟩

theorem Placed.noWarning (h : Placed T n s s') : NoWarning s s' := by
  cases h with
  | here => exact noWarning_withNode s _ n
  | after _ hd =>
    exact (hd.noWarning.trans (noWarning_branched _ .plain _)).trans (noWarning_withNode _ _ n)

theorem PlacedOption.noWarning {o : Option Node} (h : PlacedOption T o s s') : NoWarning s s' := by
  cases o with
  | none => exact (show s' = s from h) ▸ .refl s
  | some n => exact Placed.noWarning h

theorem Stands.noWarning {x : Stmt} (h : Stands T x s s') : NoWarning s s' := by
  cases h with
  | goesOn _ h => exact h.noWarning
  | leaves _ h hd => exact (h.noWarning.trans hd.noWarning).movedTo none
  | strays h hd =>
    exact (h.noWarning.trans hd.noWarning).trans (noWarning_reported _ (by decide) _ _)

theorem Closes.noWarning {header : BlockId} {q : Option (Simple × BlockId)}
    (h : Closes facts T header q s s') : NoWarning s s' := by
  cases h with
  | straight => exact noWarning_withEdge s _ header
  | @dead q b hb =>
    exact ((noWarning_withEdge s s.cursor b).trans (noWarning_marked _ _)).trans
      (noWarning_withEdge _ _ header)
  | @live q b s s₁ hb h =>
    have hplaced := ((noWarning_withEdge s s.cursor b).movedTo (some b)).trans h.placed.noWarning
    exact hplaced.trans (noWarning_withEdge s₁ _ header)

theorem Prepared.noWarning {cs : List CatchClause} {hs : List (ErrorType × BlockId)}
    (h : Prepared facts cs s hs s') : NoWarning s s' := by
  induction h with
  | nil => exact .refl _
  | cons _ ih => exact ih.trans (noWarning_withBlock _ _)

end

/-! ### Warnings about lists -/

/-- The dead statements of every list are at its end. -/
def DeadLast (dead : List Nat) (lists : List (List Stmt)) : Prop :=
  ∀ xs ∈ lists, deadOf dead xs <:+ xs

theorem DeadLast.append {dead : List Nat} {I J : List (List Stmt)} (h : DeadLast dead I)
    (h' : DeadLast dead J) : DeadLast dead (I ++ J) :=
  List.forall_mem_append.mpr ⟨h, h'⟩

/-- The lists have been built, with a warning for each that has dead statements. -/
structure ListsWarned (dead : List Nat) (lists : List (List Stmt)) (s s' : State) : Prop where
  deadLast : DeadLast dead lists
  warnings : s'.warnings = s.warnings ++ lists.filterMap (unreachable? dead)

/-- The list `xs` has been built so far, and the lists within its statements. -/
structure ListWarned (dead : List Nat) (xs : List Stmt) (lists : List (List Stmt)) (s s' : State) :
    Prop where
  deadLast : DeadLast dead lists
  suffix : deadOf dead xs <:+ xs
  stuck : s.cursor = none → deadOf dead xs = xs ∧ lists = []
  stays : s.cursor = none → s'.cursor = none
  ended : deadOf dead xs ≠ [] → s'.cursor = none
  warned : s'.warned = (s.warned || !(deadOf dead xs).isEmpty)
  warnings : s'.warnings = s.warnings ++ lists.filterMap (unreachable? dead) ++
    if s.warned then [] else (unreachable? dead xs).toList

section

variable {dead : List Nat} {xs ys : List Stmt} {I J : List (List Stmt)} {s s₁ s' : State}

namespace ListsWarned

theorem of_noWarning (h : NoWarning s s') : ListsWarned dead [] s s' :=
  ⟨fun _ hl => absurd hl List.not_mem_nil, by simp [h.warnings]⟩

theorem trans (h : ListsWarned dead I s s₁) (h' : ListsWarned dead J s₁ s') :
    ListsWarned dead (I ++ J) s s' :=
  ⟨h.deadLast.append h'.deadLast, by
    rw [h'.warnings, h.warnings, List.filterMap_append, List.append_assoc]⟩

theorem before (h : ListsWarned dead I s₁ s') (hm : NoWarning s s₁) : ListsWarned dead I s s' :=
  (of_noWarning hm).trans h

theorem after (h : ListsWarned dead I s s₁) (hm : NoWarning s₁ s') : ListsWarned dead I s s' :=
  List.append_nil I ▸ h.trans (of_noWarning hm)

end ListsWarned

/-- A list begun with the flag down is done. -/
theorem ListsWarned.one (h : (s.warned = true → s.cursor = none) → ListWarned dead xs I s s')
    (hs : s.warned = false) : ListsWarned dead (I ++ [xs]) s s' := by
  replace h := h fun hup => absurd (hs.symm.trans hup) Bool.false_ne_true
  refine ⟨h.deadLast.append fun l hl => List.mem_singleton.mp hl ▸ h.suffix, ?_⟩
  rw [h.warnings, hs, List.filterMap_append, List.append_assoc]
  cases hw : unreachable? dead xs <;> simp [hw]

namespace ListWarned

/-- Nothing of the list has been built. -/
theorem nothing (hm : NoWarning s s') (hc : s'.cursor = s.cursor) (hw : s'.warned = s.warned) :
    ListWarned dead [] [] s s' where
  deadLast := (ListsWarned.of_noWarning hm).deadLast
  suffix := List.suffix_rfl
  stuck _ := ⟨rfl, rfl⟩
  stays h := hc.trans h
  ended h := absurd rfl h
  warned := by simp [hw]
  warnings := by simp [hm.warnings, unreachable?]

/-- A statement that control gets to, with the lists within it. -/
theorem live {x : Stmt} {b : BlockId} (h : ListsWarned dead I s s') (hc : s.cursor = some b)
    (hx : x.mark.id ∉ dead) (hs : s.warned = false) (hs' : s'.warned = false) :
    ListWarned dead [x] I s s' where
  deadLast := h.deadLast
  suffix := by simp [deadOf_singleton, hx]
  stuck hnone := by simp [hc] at hnone
  stays hnone := by simp [hc] at hnone
  ended := by simp [deadOf_singleton, hx]
  warned := by simp [hs, hs', deadOf_singleton, hx]
  warnings := by simp [h.warnings, unreachable?, deadOf_singleton, hx]

/-- A statement that is passed over. -/
theorem skipped {x : Stmt} (hc : s.cursor = none) (hx : x.mark.id ∈ dead) :
    ListWarned dead [x] [] s (s.skipped (.stmt x)) where
  deadLast := fun _ hl => absurd hl List.not_mem_nil
  suffix := by simp [deadOf_singleton, hx]
  stuck _ := by simp [deadOf_singleton, hx]
  stays _ := hc
  ended _ := hc
  warned := by simp [State.skipped, deadOf_singleton, hx]
  warnings := by
    cases hw : s.warned <;>
      simp [State.skipped, State.warnings, hw, unreachable?, deadOf_singleton, hx, Node.pos, Node.mark]

/-- One part of a list and the next. -/
theorem append (h : ListWarned dead xs I s s₁) (h' : ListWarned dead ys J s₁ s') :
    ListWarned dead (xs ++ ys) (I ++ J) s s' := by
  have hstays : s.cursor = none → s'.cursor = none := fun hc => h'.stays (h.stays hc)
  by_cases hxs : deadOf dead xs = []
  · -- the run has not begun yet, or `xs` is empty
    have hw : s₁.warned = s.warned := by simp [h.warned, hxs]
    refine ⟨h.deadLast.append h'.deadLast, ?_, fun hc => ?_, hstays, fun hne => ?_, ?_, ?_⟩
    · exact suffix_append h.suffix h'.suffix fun hne => absurd hxs hne
    · obtain ⟨hx, rfl⟩ := h.stuck hc
      obtain ⟨hy, rfl⟩ := h'.stuck (h.stays hc)
      rw [deadOf_append, hx, hy]
      exact ⟨rfl, rfl⟩
    · rw [deadOf_append, hxs] at hne
      exact h'.ended hne
    · rw [h'.warned, hw, deadOf_append, hxs, List.nil_append]
    · rw [h'.warnings, h.warnings, hw, unreachable?_append, if_pos hxs, unreachable?_of_nil hxs]
      simp
  · have hc := h.ended hxs
    obtain ⟨hy, rfl⟩ := h'.stuck hc
    have hw : s₁.warned = true := by simp [h.warned, hxs]
    have hwarnings : s'.warnings = s₁.warnings := by simp [h'.warnings, hw]
    refine ⟨h.deadLast.append h'.deadLast, ?_, fun hc => ?_, hstays, fun _ => h'.stays hc, ?_, ?_⟩
    · exact suffix_append h.suffix h'.suffix fun _ => hy
    · obtain ⟨hx, rfl⟩ := h.stuck hc
      rw [deadOf_append, hx, hy]
      exact ⟨rfl, rfl⟩
    · rw [h'.warned, hw, deadOf_append]
      simp [hxs]
    · rw [hwarnings, h.warnings, unreachable?_append, if_neg hxs, List.append_nil]

end ListWarned

end

/-! ### Dead nodes of a part -/

/-- The numbers of the nodes `w` are apart, none of them is dead before they are built, and just those
in `dead` are afterwards. -/
structure DeadExactly (dead : List Nat) (w : List Node) (s s' : State) : Prop where
  distinct : ∀ i, (w.map Node.id).count i ≤ 1
  fresh : ∀ i ∈ w.map Node.id, i ∉ s.dead
  final : ∀ i ∈ w.map Node.id, i ∈ dead ↔ i ∈ s'.dead

namespace DeadExactly

variable {dead : List Nat} {w v w₀ w₁ : List Node} {s s₁ s₂ s' : State} {n : Node}

theorem count_le_one (h : DeadExactly dead w s s') (hsub : v.Subperm w) (i : Nat) :
    (v.map Node.id).count i ≤ 1 := by
  obtain ⟨l, hperm, hl⟩ := hsub
  rw [← (hperm.map Node.id).count_eq i]
  exact ((hl.map Node.id).count_le i).trans (h.distinct i)

/-- What is marked before and after a part is built is none of its nodes. -/
theorem part (h : DeadExactly dead w s s') (hbefore : Marks w₀ s s₁) (hafter : Marks w₁ s₂ s')
    (hsub : (w₀ ++ (v ++ w₁)).Subperm w) : DeadExactly dead v s₁ s₂ := by
  have hone (i : Nat) : (w₀.map Node.id).count i +
      ((v.map Node.id).count i + (w₁.map Node.id).count i) ≤ 1 := by
    rw [← List.count_append, ← List.count_append, ← List.map_append, ← List.map_append]
    exact h.count_le_one hsub i
  have hmem : v ⊆ w := fun n hn => hsub.subset (List.mem_append_right _ (List.mem_append_left _ hn))
  have hapart : ∀ i ∈ v.map Node.id, i ∈ w.map Node.id ∧ i ∉ w₀.map Node.id ∧ i ∉ w₁.map Node.id := by
    intro i hi
    have hpos := List.count_pos_iff.mpr hi
    have hle := hone i
    refine ⟨List.map_subset _ hmem hi, ?_⟩
    rw [← List.count_eq_zero, ← List.count_eq_zero]
    omega
  refine ⟨fun i => ?_, fun i hi hdead => ?_, fun i hi => ?_⟩
  · have hle := hone i
    omega
  · obtain ⟨hw, hw₀, -⟩ := hapart i hi
    exact (hbefore.only hdead).elim (h.fresh i hw) hw₀
  · obtain ⟨hw, -, hw₁⟩ := hapart i hi
    rw [h.final i hw]
    exact ⟨fun hdead => (hafter.only hdead).resolve_right hw₁, fun hdead => hafter.grows hdead⟩

/-- The first of two parts. -/
theorem first (h : DeadExactly dead w s s') (hdead : s₁.dead = s.dead) (hafter : Marks w₁ s₂ s')
    (hsub : (v ++ w₁).Subperm w) : DeadExactly dead v s₁ s₂ := by
  have hbefore : Marks [] s s₁ := .of_dead_eq hdead
  exact h.part hbefore hafter hsub

/-- The last of two parts. -/
theorem last (h : DeadExactly dead w s s') (hbefore : Marks w₀ s s₁) (hdead : s'.dead = s₂.dead)
    (hsub : (w₀ ++ v).Subperm w) : DeadExactly dead v s₁ s₂ := by
  have hafter : Marks [] s₂ s' := .of_dead_eq hdead
  exact h.part hbefore hafter (by rwa [List.append_nil])

/-- The only part. -/
theorem sole (h : DeadExactly dead w s s') (hdead : s₁.dead = s.dead) (hdead' : s'.dead = s₂.dead)
    (hsub : v.Sublist w) : DeadExactly dead v s₁ s₂ := by
  have hafter : Marks [] s₂ s' := .of_dead_eq hdead'
  exact h.first hdead hafter (by simpa using hsub.subperm)

/-- What stands below a node, which may have been marked itself before. -/
theorem below (h : DeadExactly dead (n :: w) s s') (honly : ∀ i ∈ s₁.dead, i ∈ s.dead ∨ i = n.id) :
    DeadExactly dead w s₁ s' := by
  have hone := h.distinct
  simp only [List.map_cons, List.count_cons] at hone
  refine ⟨fun i => le_trans (Nat.le_add_right _ _) (hone i), fun i hi hdead => ?_, fun i hi =>
    h.final i (List.mem_cons_of_mem _ hi)⟩
  rcases honly i hdead with hold | rfl
  · exact h.fresh i (List.mem_cons_of_mem _ hi) hold
  · have hpos := List.count_pos_iff.mpr hi
    have hle := hone n.id
    simp only [BEq.rfl, if_true] at hle
    omega

/-- A node is not dead if only others are marked. -/
theorem notMem (h : DeadExactly dead w s s') (hmarks : Marks v s s') (hsub : (n :: v).Subperm w) :
    n.id ∉ dead := by
  have hone := h.count_le_one hsub n.id
  have hn : n.id ∈ w.map Node.id := List.mem_map_of_mem (hsub.subset List.mem_cons_self)
  intro hdead
  rcases hmarks.only ((h.final _ hn).mp hdead) with hold | hmarked
  · exact h.fresh _ hn hold
  · have hpos := List.count_pos_iff.mpr hmarked
    rw [List.map_cons, List.count_cons_self] at hone
    omega

/-- A statement that control gets to is not dead. -/
theorem live {facts : Facts} {T : List Target} {x : Stmt} {b : BlockId}
    {made : List (Stmt × BlockId)} (h : DeadExactly dead (x.walk everywhere) s s')
    (hcourse : Course facts T (.stmt x) s made s') (hc : s.cursor = some b) : x.mark.id ∉ dead := by
  obtain ⟨below, hbelow⟩ := (Node.stmt x).subtree_eq
  have hwalk : x.walk everywhere = .stmt x :: below := hbelow
  have hmarks := hcourse.marks_mortal
  rw [mortal_stmt_of_some hc, hwalk] at hmarks
  exact h.notMem (n := .stmt x) hmarks (hwalk ▸ .refl _)

end DeadExactly

/-! ### Any part -/

/-- What construction of a part warns of: the dead statements of each list within it. -/
def Part.Warns (dead : List Nat) (s s' : State) : Part → Prop
  | .stmt x => (s.warned = true → s.cursor = none) → ListWarned dead x.flat (x.inner dead) s s'
  | .stmts xs => (s.warned = true → s.cursor = none) →
    ListWarned dead (Stmt.flatList xs) (Stmt.innerList dead xs) s s'
  | .block b => (s.warned = true → s.cursor = none) → ListWarned dead b.flat (b.inner dead) s s'
  | .sections _ _ cs => ListsWarned dead (CaseClause.inner dead cs) s s'
  | .clauses _ _ _ _ cs => ListsWarned dead (CatchClause.inner dead cs) s s'
  | .cleanup b _ => ListsWarned dead (Block.innerOption dead b) s s'

/-- The same, given which nodes of the part are dead. -/
def Part.WarnsIf (dead : List Nat) (p : Part) (s s' : State) : Prop :=
  DeadExactly dead p.walk s s' → p.Warns dead s s'

section

variable {dead : List Nat} {s s' : State} {x : Stmt}

theorem flat_of_watched (hx : x.Watched) : x.flat = [x] := by
  cases x with
  | empty m => exact hx.elim
  | block b => exact hx.elim
  | _ => rfl

theorem inner_of_dead (hx : x.Watched) (hdead : x.mark.id ∈ dead) : x.inner dead = [] := by
  have hcontains : dead.contains x.mark.id = true := List.contains_iff_mem.mpr hdead
  cases x with
  | empty m => exact hx.elim
  | block b => exact hx.elim
  | simple y => rfl
  | var m d => rfl
  | jump m kind => rfl
  | ret m result => rfl
  | raise m y => rfl
  | cond m test yes no => exact if_pos hcontains
  | loop m init test post body => exact if_pos hcontains
  | foreach m v operand body => exact if_pos hcontains
  | switch m tag sections close => exact if_pos hcontains
  | attempt m body clauses cleanup => exact if_pos hcontains

theorem watched_of_single (hx : x.Single) : x.Watched := by
  cases x with
  | simple | var | jump | ret | raise => trivial
  | _ => exact hx.elim

theorem inner_of_single (hx : x.Single) : x.inner dead = [] := by
  cases x with
  | simple | var | jump | ret | raise => rfl
  | _ => exact hx.elim

@[simp] theorem warned_branchedIf (s : State) (taken : Bool) (a : Option BlockId) :
    (s.branchedIf taken a).warned = false := by
  cases taken <;> rfl

@[simp] theorem warned_joined (s : State) (a b : Option BlockId) :
    (s.joined a b).warned = false := by
  unfold State.joined
  split_ifs <;> rfl

/-- The flag is down where there is a cursor. -/
theorem warned_of_reached (hw : s.warned = true → s.cursor = none) {b : BlockId}
    (hc : s.cursor = some b) : s.warned = false := by
  by_contra h
  simp [hw (by simpa using h)] at hc

/-- The flag is up only where there is no cursor. -/
theorem ListWarned.flag {xs : List Stmt} {I : List (List Stmt)} (h : ListWarned dead xs I s s')
    (hw : s.warned = true → s.cursor = none) : s'.warned = true → s'.cursor = none := by
  intro hs'
  rw [h.warned, Bool.or_eq_true] at hs'
  rcases hs' with hs | hne
  · exact h.stays (hw hs)
  · exact h.ended (by simpa using hne)

theorem listWarned_markedHere (s : State) (m : Mark) :
    ListWarned dead [] [] s (s.markedHere m) := by
  refine .nothing (noWarning_markedHere s m) ?_ ?_
  all_goals
    unfold State.markedHere
    split_ifs <;> rfl

end

/-! ### Parts of a statement or a clause

The nodes of a part that is built later are not dead yet while another one is built, and those of one
that has been built stay as they are. So each part knows which of its nodes are dead. -/

section

variable {dead : List Nat} {facts : Facts} {T T' : List Target} {m : Mark} {n : Node} {body : Block}
  {s s₁ s₂ s₃ s₄ s₅ s' : State} {made made₁ made₂ made₃ : List (Stmt × BlockId)}

theorem warns_cond {test : Expr} {yes : Block} {no : Option Stmt} {taken taken' : Bool}
    (hf : DeadExactly dead (Stmt.walk everywhere (.cond m test yes no)) s
      (s₃.joined s₂.cursor s₃.cursor))
    (htest : Placed T n s s₁)
    (hyes : Course facts T (.block yes) (s₁.branchedIf taken s₁.cursor) made₁ s₂)
    (hno : Course facts T (.stmts no.toList) (s₂.branchedIf taken' s₁.cursor) made₂ s₃)
    (ihyes : (Part.block yes).WarnsIf dead (s₁.branchedIf taken s₁.cursor) s₂)
    (ihno : (Part.stmts no.toList).WarnsIf dead (s₂.branchedIf taken' s₁.cursor) s₃) :
    ListsWarned dead
      ((yes.inner dead ++ [yes.flat]) ++ (Stmt.innerOption dead no ++ [no.elim [] Stmt.flat])) s
      (s₃.joined s₂.cursor s₃.cursor) := by
  have hstart : (s₁.branchedIf taken s₁.cursor).dead = s.dead :=
    (dead_branchedIf _ _ _).trans htest.dead_eq
  have hturn := dead_branchedIf s₂ taken' s₁.cursor
  have hend := dead_joined s₃ s₂.cursor s₃.cursor
  have hparts : (yes.walk everywhere ++ Stmt.walkList everywhere no.toList).Subperm
      (Stmt.walk everywhere (.cond m test yes no)) := by
    rw [walkList_toList, Stmt.walk, Node.above_everywhere, List.append_assoc]
    exact ((List.sublist_append_right _ _).cons _).subperm
  have wyes := ListsWarned.one (ihyes (hf.first hstart ((hno.marks.before hturn).after hend) hparts))
    (warned_branchedIf _ _ _)
  have wno := ListsWarned.one (ihno (hf.last ((hyes.marks.before hstart).after hturn) hend hparts))
    (warned_branchedIf _ _ _)
  rw [Stmt.innerList_toList, Stmt.flatList_toList] at wno
  have hbegin := htest.noWarning.trans (noWarning_branchedIf s₁ taken s₁.cursor)
  exact ((wyes.before hbegin).trans (wno.before (noWarning_branchedIf _ _ _))).after
    (noWarning_joined _ _ _)

theorem warns_loop {init post : Option Simple} {test : Option Expr} {value : Option Bool}
    {tested : Bool} {header after : BlockId} {c : Option BlockId} {q : Option (Simple × BlockId)}
    {x y : Option Node}
    (hf : DeadExactly dead (Stmt.walk everywhere (.loop m init test post body)) s (s₄.movedTo c))
    (hinit : PlacedOption T x s s₁) (htest : PlacedOption T y (s₁.branched .loop s₁.cursor) s₂)
    (hq : q.map Prod.fst = post) (hround : Closes facts T' header q s₃ s₄)
    (ih : (Part.block body).WarnsIf dead ((s₂.laidOut post).opened value tested after) s₃) :
    ListsWarned dead (body.inner dead ++ [body.flat]) s (s₄.movedTo c) := by
  have hstart : ((s₂.laidOut post).opened value tested after).dead = s.dead := by
    rw [dead_opened, dead_laidOut, PlacedOption.dead_eq htest, dead_branched,
      PlacedOption.dead_eq hinit]
  have hpost : q.elim [] (fun p => p.1.walk everywhere) = post.elim [] (·.walk everywhere) := by
    rw [← hq]
    cases q <;> rfl
  have hround' := hpost ▸ hround.marks
  have hopen := (PlacedOption.noWarning htest).trans ((noWarning_laidOut s₂ post).trans
    (noWarning_opened _ value tested after))
  -- the post statement comes before the body, but is built after it
  have hparts : (body.walk everywhere ++ post.elim [] (·.walk everywhere)).Subperm
      (Stmt.walk everywhere (.loop m init test post body)) := by
    rw [Stmt.walk, Node.above_everywhere, List.append_assoc]
    exact List.perm_append_comm.subperm.trans ((List.sublist_append_right _ _).cons _).subperm
  have wbody := ListsWarned.one (ih (hf.first hstart (hround'.after rfl) hparts)) (hopen.fresh rfl)
  have hbegin := (PlacedOption.noWarning hinit).trans (noWarning_branched s₁ .loop s₁.cursor)
  exact (wbody.before (hbegin.trans hopen)).after (hround.noWarning.movedTo _)

theorem warns_attempt {clauses : List CatchClause} {cleanup : Option Block} {cl : Option Target}
    {after : BlockId} {hs : List (ErrorType × BlockId)} {c o : Option BlockId}
    (hf : DeadExactly dead (Stmt.walk everywhere (.attempt m body clauses cleanup)) s
      (s₅.movedTo o))
    (hcleanup : Course facts T (.cleanup cleanup cl) (s.withBlock .join) made₁ s₁)
    (hready : Prepared facts clauses s₁ hs s₂)
    (hbody : Course facts (handlerTargets hs ++ (cl.toList ++ T)) (.block body) (s₂.movedTo c)
      made₂ s₃)
    (hleave : Departed s₃.cursor T' s₃ s₄)
    (hclauses : Course facts (cl.toList ++ T) (.clauses cl after [] hs clauses) s₄ made₃ s₅)
    (ihcleanup : (Part.cleanup cleanup cl).WarnsIf dead (s.withBlock .join) s₁)
    (ihbody : (Part.block body).WarnsIf dead (s₂.movedTo c) s₃)
    (ihclauses : (Part.clauses cl after [] hs clauses).WarnsIf dead s₄ s₅) :
    ListsWarned dead (Block.innerOption dead cleanup ++ (body.inner dead ++ [body.flat]) ++
      CatchClause.inner dead clauses) s (s₅.movedTo o) := by
  have hready' : (s₂.movedTo c).dead = s₁.dead := hready.dead_eq
  have mcleanup : Marks (Block.walkOption everywhere cleanup) s s₁ :=
    hcleanup.marks.before (dead_withBlock s .join)
  have mbody : Marks (body.walk everywhere) s₁ s₃ := hbody.marks.before hready'
  have mclauses : Marks (CatchClause.walkList everywhere clauses) s₃ (s₅.movedTo o) :=
    (hclauses.marks.before hleave.dead).after (dead_movedTo s₅ _)
  -- the `finally` block comes last, but is built first
  have hparts : (Block.walkOption everywhere cleanup ++
      (body.walk everywhere ++ CatchClause.walkList everywhere clauses)).Subperm
        (Stmt.walk everywhere (.attempt m body clauses cleanup)) :=
    List.perm_append_comm.subperm.trans (List.sublist_cons_self _ _).subperm
  have wcleanup : ListsWarned dead (Block.innerOption dead cleanup) (s.withBlock .join) s₁ :=
    ihcleanup (hf.first rfl (mbody.append mclauses) hparts)
  have wbody := ListsWarned.one (ihbody (hf.part (mcleanup.after hready') mclauses hparts)) rfl
  have wclauses : ListsWarned dead (CatchClause.inner dead clauses) s₄ s₅ :=
    ihclauses (hf.last ((mcleanup.append mbody).after hleave.dead) rfl
      (by rwa [List.append_assoc]))
  have hstart := wcleanup.before (noWarning_withBlock s .join)
  have hrest := (wbody.before (hready.noWarning.movedTo _)).trans (wclauses.before hleave.noWarning)
  rw [List.append_assoc]
  exact (hstart.trans hrest).after ((NoWarning.refl s₅).movedTo _)

theorem warns_section {tagEnd : Option BlockId} {after : BlockId} {values : List Expr}
    {isDefault : Bool} {xs : List Stmt} {cs : List CaseClause}
    (hf : DeadExactly dead (CaseClause.walkList everywhere (.mk m values isDefault xs :: cs)) s s')
    (hlabels : Placed T n (s.branched .branch tagEnd) s₁)
    (hbody : Course facts T (.stmts xs) s₁ made₁ s₂)
    (hcs : Course facts T (.sections tagEnd after cs) (s₂.fallenThrough m after) made₂ s')
    (ihbody : (Part.stmts xs).WarnsIf dead s₁ s₂)
    (ihcs : (Part.sections tagEnd after cs).WarnsIf dead (s₂.fallenThrough m after) s') :
    ListsWarned dead (CaseClause.inner dead (.mk m values isDefault xs :: cs)) s s' := by
  have hstart := hlabels.dead_eq.trans (dead_branched s .branch tagEnd)
  have hturn := dead_fallenThrough s₂ m after
  have hbegin := (noWarning_branched s .branch tagEnd).trans hlabels.noWarning
  have hparts : (Stmt.walkList everywhere xs ++ CaseClause.walkList everywhere cs).Subperm
      (CaseClause.walkList everywhere (.mk m values isDefault xs :: cs)) :=
    (((List.sublist_append_right _ _).cons _).append (.refl _)).subperm
  have wbody := ListsWarned.one (ihbody (hf.first hstart (hcs.marks.before hturn) hparts))
    (hlabels.noWarning.fresh rfl)
  have wcs : ListsWarned dead (CaseClause.inner dead cs) (s₂.fallenThrough m after) s' :=
    ihcs (hf.last ((hbody.marks.before hstart).after hturn) rfl hparts)
  exact (wbody.before hbegin).trans (wcs.before (noWarning_fallenThrough s₂ m after))

section

variable {cl : Option Target} {after b : BlockId} {before : List ErrorType} {a : ErrorType}
  {hs : List (ErrorType × BlockId)} {c : CatchClause} {cs : List CatchClause}

theorem warns_uncaught (hf : DeadExactly dead (CatchClause.walkList everywhere (c :: cs)) s s')
    (hcs : Course facts T (.clauses cl after (a :: before) hs cs)
      ((s.compared before a c.mark).uncaught c) made s')
    (ih : (Part.clauses cl after (a :: before) hs cs).WarnsIf dead
      ((s.compared before a c.mark).uncaught c) s') :
    ListsWarned dead (CatchClause.inner dead (c :: cs)) s s' := by
  obtain ⟨m, param, body⟩ := c
  have hmarks : Marks (CatchClause.walk everywhere (.mk m param body)) s
      ((s.compared before a m).uncaught (.mk m param body)) :=
    (Marks.all (whole_clause (.mk m param body)) rfl).before (dead_compared s before a m)
  have wcs : ListsWarned dead (CatchClause.inner dead cs) _ s' := ih (hf.last hmarks rfl (.refl _))
  have hdead : m.id ∈ dead := by
    have hmem : m.id ∈ (CatchClause.walk everywhere (.mk m param body)).map Node.id :=
      List.mem_map_of_mem (f := Node.id) (Node.catchClause (.mk m param body)).mem_subtree
    refine (hf.final m.id ?_).mpr (hcs.grown.dead.subset (List.mem_append_right _ hmem))
    rw [CatchClause.walkList, List.map_append]
    exact List.mem_append_left _ hmem
  rw [CatchClause.inner, if_pos (List.contains_iff_mem.mpr hdead), List.nil_append]
  exact wcs.before ((noWarning_compared s before a m).trans (noWarning_uncaught _ _))

theorem warns_caught (hf : DeadExactly dead (CatchClause.walkList everywhere (c :: cs)) s s')
    (hbody : Course facts T (.block c.body)
      (((s.compared before a c.mark).movedTo (some b)).withNode b (.catchClause c)) made₁ s₁)
    (hleave : Departed s₁.cursor T' s₁ s₂)
    (hcs : Course facts T (.clauses cl after (a :: before) hs cs) s₂ made₂ s')
    (ihbody : (Part.block c.body).WarnsIf dead
      (((s.compared before a c.mark).movedTo (some b)).withNode b (.catchClause c)) s₁)
    (ihcs : (Part.clauses cl after (a :: before) hs cs).WarnsIf dead s₂ s') :
    ListsWarned dead (CatchClause.inner dead (c :: cs)) s s' := by
  obtain ⟨m, param, body⟩ := c
  have hstart := dead_compared s before a m
  have mbody : Marks (body.walk everywhere) s s₂ := (hbody.marks.before hstart).after hleave.dead
  have hwhole : (.catchClause (.mk m param body) ::
      (body.walk everywhere ++ CatchClause.walkList everywhere cs)).Sublist
        (CatchClause.walkList everywhere (.mk m param body :: cs)) :=
    ((List.sublist_append_right _ _).cons_cons _).append (.refl _)
  have hparts := (List.sublist_of_cons_sublist hwhole).subperm
  have hlive : m.id ∉ dead :=
    hf.notMem (n := .catchClause (.mk m param body)) (mbody.append hcs.marks) hwhole.subperm
  have wbody := ListsWarned.one (ihbody (hf.first hstart (hcs.marks.before hleave.dead) hparts)) rfl
  have wcs : ListsWarned dead (CatchClause.inner dead cs) s₂ s' := ihcs (hf.last mbody rfl hparts)
  rw [CatchClause.inner, if_neg (by simpa using hlive)]
  have hbegin := ((noWarning_compared s before a m).movedTo (some b)).trans
    (noWarning_withNode _ b (.catchClause (.mk m param body)))
  exact (wbody.before hbegin).trans (wcs.before hleave.noWarning)

end

theorem warns_block {xs : List Stmt} {close : Pos}
    (hf : DeadExactly dead (Block.walk everywhere (.mk m xs close)) s s')
    (ih : (Part.stmts xs).WarnsIf dead (s.markedHere m) s') :
    (Part.block (.mk m xs close)).Warns dead s s' := by
  intro hw
  have hmark : ListWarned dead [] [] s (s.markedHere m) := listWarned_markedHere s m
  have honly : ∀ i ∈ (s.markedHere m).dead, i ∈ s.dead ∨ i = m.id := by
    unfold State.markedHere
    split_ifs
    · exact fun i hi => (List.mem_append.mp hi).imp id List.mem_singleton.mp
    · exact fun i hi => .inl hi
  exact hmark.append (ih (DeadExactly.below hf honly) (hmark.flag hw))

theorem warns_skipped {x : Stmt} (hf : DeadExactly dead (x.walk everywhere) s (s.skipped (.stmt x)))
    (hx : x.Watched) (hc : s.cursor = none) : (Part.stmt x).Warns dead s (s.skipped (.stmt x)) := by
  intro _
  have hdead : x.mark.id ∈ dead := by
    have hmem : (Node.stmt x).id ∈ (Node.stmt x).subtree.map Node.id :=
      List.mem_map_of_mem (Node.stmt x).mem_subtree
    exact (hf.final _ hmem).mpr (List.mem_append_right _ hmem)
  rw [flat_of_watched hx, inner_of_dead hx hdead]
  exact .skipped hc hdead

/-- A statement that control gets to, from the lists within it. -/
theorem Course.warns_live {x : Stmt} {I : List (List Stmt)} {b : BlockId}
    (h : Course facts T (.stmt x) s made s') (hf : DeadExactly dead (x.walk everywhere) s s')
    (hx : x.Watched) (hc : s.cursor = some b)
    (hinner : dead.contains x.mark.id = false → x.inner dead = I)
    (hlists : s.warned = false → ListsWarned dead I s s')
    (hs' : s.warned = false → s'.warned = false) : (Part.stmt x).Warns dead s s' := by
  intro hw
  have hlive := hf.live h hc
  have hs := warned_of_reached hw hc
  rw [flat_of_watched hx, hinner (by simpa using hlive)]
  exact .live (hlists hs) hc hlive hs (hs' hs)

end

/-! ### Any course -/

section

variable {dead : List Nat} {facts : Facts} {T : List Target} {p : Part} {s s' : State}
  {made : List (Stmt × BlockId)}

/-- Construction warns about every list with dead statements, at the first of them. -/
theorem Course.warns (h : Course facts T p s made s') (hf : DeadExactly dead p.walk s s') :
    p.Warns dead s s' := by
  induction h with
  | skipped hx hc => exact warns_skipped hf hx hc
  | empty => exact fun _ => listWarned_markedHere _ _
  | braces _ ih => exact ih hf
  | @single T x s s' h =>
    obtain ⟨b, hb⟩ := h.reached
    have hquiet := h.stands.noWarning
    exact (Course.single h).warns_live hf (watched_of_single h.single) hb
      (fun _ => inner_of_single h.single) (fun _ => .of_noWarning hquiet) hquiet.fresh
  | cond htest hyes hno ihyes ihno =>
    obtain ⟨b, hb⟩ := htest.reached
    exact Course.warns_live (.cond htest hyes hno) hf trivial hb
      (fun h => if_neg (ne_true_of_eq_false h))
      (fun _ => warns_cond hf htest.placed hyes hno ihyes ihno) fun _ => warned_joined _ _ _
  | @loop T m init post test body c s s₁ s₂ s₃ s₄ q made hc hinit htest hq hbody hround ih =>
    have hpost : q.map Prod.fst = post := by
      rw [hq]
      cases post <;> rfl
    exact Course.warns_live (.loop hc hinit htest hq hbody hround) hf trivial hc
      (fun h => if_neg (ne_true_of_eq_false h))
      (fun _ => warns_loop hf hinit.placed htest.placed hpost hround ih) fun _ => rfl
  | @foreach T m v operand body s s₁ s₂ made hoperand hbody ih =>
    obtain ⟨b, hb⟩ := hoperand.reached
    refine Course.warns_live (.foreach hoperand hbody) hf trivial hb
      (fun h => if_neg (ne_true_of_eq_false h)) (fun _ => ?_) fun _ => rfl
    have hstart := (dead_iterated s₁ (.stmt (.foreach m v operand body))).trans hoperand.placed.dead_eq
    have hbody' := ListsWarned.one
      (ih (hf.sole hstart rfl ((List.sublist_append_right _ _).cons _))) rfl
    exact (hbody'.before (hoperand.placed.noWarning.trans (noWarning_iterated _ _))).after
      ((noWarning_withEdge s₂ _ _).movedTo _)
  | @switch T m tag sections close s s₁ s₂ made htag hsections ih =>
    obtain ⟨b, hb⟩ : ∃ b, s.cursor = some b := htag.reached
    refine Course.warns_live (.switch htag hsections) hf trivial hb
      (fun h => if_neg (ne_true_of_eq_false h)) (fun _ => ?_) fun _ => rfl
    have hsections' := ih (hf.sole htag.placed.dead_eq (dead_defaulted s₂ sections _ _)
      ((List.sublist_append_right _ _).cons _))
    exact (hsections'.before ((noWarning_withBlock s .join).trans htag.placed.noWarning)).after
      ((noWarning_defaulted s₂ sections s₁.cursor s.graph.blocks.size).movedTo _)
  | attempt hc hcleanup hready hbody hleave hclauses ihcleanup ihbody ihclauses =>
    exact Course.warns_live (.attempt hc hcleanup hready hbody hleave hclauses) hf trivial hc
      (fun h => if_neg (ne_true_of_eq_false h))
      (fun _ => warns_attempt hf hcleanup hready hbody hleave.departed hclauses ihcleanup ihbody
        ihclauses) fun _ => rfl
  | nil => exact fun _ => .nothing (.refl _) rfl rfl
  | cons hx hxs ihx ihxs =>
    intro hw
    have hx' := ihx (hf.first rfl hxs.marks (.refl _)) hw
    exact hx'.append (ihxs (hf.last hx.marks rfl (.refl _)) (hx'.flag hw))
  | block _ ih => exact warns_block hf ih
  | noSections => exact .of_noWarning (.refl _)
  | sections hlabels hbody hcs ihbody ihcs =>
    exact warns_section hf hlabels.placed hbody hcs ihbody ihcs
  | noClauses => exact .of_noWarning (.refl _)
  | uncaught _ hcs ih => exact warns_uncaught hf hcs ih
  | caught _ hbody hleave hcs ihbody ihcs =>
    exact warns_caught hf hbody hleave.departed hcs ihbody ihcs
  | noCleanup => exact .of_noWarning (.refl _)
  | @cleanup T b s s' made h ih =>
    have hbody := ListsWarned.one (ih (hf.sole rfl rfl (List.Sublist.refl _))) rfl
    exact hbody.before ((noWarning_withBlock s .cleanup).movedTo _)

end

end Build

end FlowCheck
