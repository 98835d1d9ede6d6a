import Mathlib
import FlowCheck.Proofs.Resolve.Facts
import FlowCheck.Proofs.Tree.Subtree

/-!
# What calls raise

A call that names its function raises every error that the function declares, and the errors that
are raised by the expressions of a node are recorded for the node. The name of the callee has to
stand in the call as it is: in parentheses it is an expression like any other, and the call raises
nothing.
-/
namespace FlowCheck

/-- The errors that an entity declares, if it is a function. -/
def Entity.declared (e : Entity) : List ErrorType :=
  match e.kind with
  | .func => e.type.elim [] Typ.throws
  | _ => []

/-- The expressions whose effects a node of the flow graph has. -/
def Node.operands : Node → List Expr
  | .expr x => [x]
  | .stmt (.simple (.expr _ x)) => [x]
  | .stmt (.simple (.assign _ _ target value)) => [target, value]
  | .stmt (.var _ d) => d.value.toList
  | .stmt (.ret _ x) => x.toList
  | .stmt (.raise _ x) => [x]
  | .caseClause (.mk _ values _ _) => values
  | _ => []

/-- The name that a call calls. -/
def Node.callee? : Node → Option Ident
  | .expr (.call _ (.ident name) _) => some name
  | _ => none

def callees (ns : List Node) : List Ident := ns.filterMap Node.callee?

@[simp] theorem callees_nil : callees [] = [] := rfl

@[simp] theorem callees_append (ns ms : List Node) :
    callees (ns ++ ms) = callees ns ++ callees ms :=
  List.filterMap_append

theorem callees_cons (n : Node) (ns : List Node) :
    callees (n :: ns) = n.callee?.toList ++ callees ns := by
  rw [callees, List.filterMap_cons]
  cases n.callee? <;> rfl

/-- The names that are called in the expressions of a node. -/
def Node.callees (n : Node) : List Ident := FlowCheck.callees (Expr.walkList everywhere n.operands)

namespace Resolve

variable {s t u : State}

/-- `t` is further on than `s`: nothing that was found out is given up, and no function declares
anything else than before. -/
structure Further (s t : State) : Prop where
  uses : s.uses ⊆ t.uses
  facts : s.facts ⊆ t.facts
  clean : t.reports = [] → s.reports = []
  declared : ∀ e : EntityId, (t.tree.entity e).declared = (s.tree.entity e).declared

theorem Further.refl (s : State) : Further s s :=
  ⟨List.Subset.refl _, List.Subset.refl _, id, fun _ => rfl⟩

theorem Further.trans (h : Further s t) (h' : Further t u) : Further s u :=
  ⟨List.Subset.trans h.uses h'.uses, List.Subset.trans h.facts h'.facts,
    fun hc => h.clean (h'.clean hc), fun e => (h'.declared e).trans (h.declared e)⟩

/-! ### The steps of resolution -/

theorem further_report (s : State) (p : Pos) (f : ResolveFault) :
    Further s (s.after (report p f)) :=
  ⟨List.Subset.refl _, List.Subset.refl _, fun h => absurd h (List.cons_ne_nil _ _), fun _ => rfl⟩

theorem further_addFact (s : State) (m : Mark) (f : Fact) : Further s (s.after (addFact m f)) :=
  ⟨List.Subset.refl _, List.subset_cons_self _ _, id, fun _ => rfl⟩

theorem further_bindUse (s : State) (name : Ident) (e : EntityId) :
    Further s (s.after (bindUse name e)) :=
  ⟨List.subset_cons_self _ _, List.Subset.refl _, id, fun _ => rfl⟩

theorem further_newEntity (s : State) {x : Entity} (hx : x.kind ≠ .func) :
    Further s (s.after (newEntity x)) := by
  refine ⟨List.Subset.refl _, List.Subset.refl _, id, fun e => ?_⟩
  refine (congrArg Entity.declared (ScopeTree.entity_addEntity s.tree x e)).trans ?_
  split
  · rename_i he
    have hnone : x.declared = [] := by
      unfold Entity.declared
      split
      · exact absurd ‹_› hx
      · rfl
    rw [hnone]
    simp [he, ScopeTree.entity, Entity.declared]
  · rfl

theorem further_declare (s : State) (name : Ident) (e : EntityId) :
    Further s (s.after (declare name e)) := by
  change Resolves (declare name e) s fun _ t => Further s t
  unfold declare
  refine .get ?_
  cases h : (s.tree.scope s.here).find? (s.tree.entity e).name with
  | some x =>
    rw [ScopeTree.insert_taken h]
    exact further_report s _ _
  | none =>
    have hentity := ScopeTree.entity_insert h
    rw [ScopeTree.insert_eq h] at hentity ⊢
    refine ⟨List.Subset.refl _, List.Subset.refl _, id, fun i => ?_⟩
    refine (congrArg Entity.declared (hentity i)).trans ?_
    split <;> rfl

theorem further_openScope (s : State) (m : Mark) (stop : Pos) (kind : ScopeKind) (name : String) :
    Further s (s.after (openScope m stop kind name)) :=
  ⟨List.Subset.refl _, List.Subset.refl _, id, fun _ => rfl⟩

theorem further_closeScope (s : State) : Further s (s.after closeScope) :=
  ⟨List.Subset.refl _, List.Subset.refl _, id, fun _ => rfl⟩

theorem further_shareScope (s : State) (m : Mark) : Further s (s.after (shareScope m)) :=
  ⟨List.Subset.refl _, List.Subset.refl _, id, fun _ => rfl⟩

theorem further_assigns (s : State) (m : Mark) (e : EntityId) :
    Further s (s.after (assigns m e)) := by
  change Resolves (assigns m e) s fun _ t => Further s t
  unfold assigns
  refine .followed ?_
  split
  · exact further_addFact s m _
  · exact .pure (.refl s)

/-- A new variable of the open scope. -/
theorem further_introduce (s : State) (m : Mark) (name : Ident) (type : Option Typ)
    (assigned : Bool) : Further s (s.after (introduce m name type assigned)) := by
  let x : Entity := { kind := .var .local, name := name.text, type, pos := name.mark.pos }
  have ht := further_newEntity s (x := x) (by simp [x])
  have hu := ht.trans (further_declare _ name s.tree.entities.size)
  cases assigned with
  | false => exact hu
  | true => exact hu.trans (further_assigns _ m _)

theorem LookupRun.further {name : Ident} {o : Option EntityId} (h : LookupRun name s o t) :
    Further s t := by
  cases h with
  | found => exact further_bindUse s name _
  | undefined => exact further_report s _ _

theorem LookupRun.mem_uses {name : Ident} {e : EntityId} (h : LookupRun name s (some e) t) :
    (name.mark.id, e) ∈ t.uses := by
  cases h
  exact List.mem_cons_self

theorem CodeRun.further {x : Expr} {sel : Ident} {o : Option EntityId} (h : CodeRun x sel s o t) :
    Further s t := by
  cases h with
  | code => exact (further_bindUse s _ _).trans (further_bindUse _ _ _)
  | unknown => exact (further_bindUse s _ _).trans (further_report _ _ _)
  | noDomain => exact .refl s

/-- A code is selected from a name. -/
theorem CodeRun.callees_eq_nil {x : Expr} {sel : Ident} {e : EntityId}
    (h : CodeRun x sel s (some e) t) : callees (x.walk everywhere) = [] := by
  cases h with
  | code hx =>
    subst hx
    rfl

/-! ### Expressions -/

/-- Whatever the functions with the names declare is raised. -/
def Raised (t : State) (names : List Ident) (raised : ErrorType → Prop) : Prop :=
  ∀ name ∈ names, ∃ e, (name.mark.id, e) ∈ t.uses ∧ ∀ r ∈ (t.tree.entity e).declared, raised r

theorem Raised.later {names : List Ident} {P Q : ErrorType → Prop} (h : Raised s names P)
    (hst : Further s t) (k : ∀ r, P r → Q r) : Raised t names Q := by
  intro name hn
  obtain ⟨e, he, hr⟩ := h name hn
  exact ⟨e, hst.uses he, fun r hr' => k r (hr r (hst.declared e ▸ hr'))⟩

theorem Raised.append {names names' : List Ident} {P : ErrorType → Prop} (h : Raised t names P)
    (h' : Raised t names' P) : Raised t (names ++ names') P :=
  fun name hn => (List.mem_append.1 hn).elim (h name) (h' name)

/-- What an expression owes: the errors of the functions that it calls are among the effects `b`,
as are those that were there before. -/
structure Gathers (s : State) (names : List Ident) (a b : Effects) (t : State) : Prop
    extends Further s t where
  kept : a.raised ⊆ b.raised
  raised : t.reports = [] → Raised t names (· ∈ b.raised)

variable {names names' : List Ident} {a b c : Effects}

theorem Further.gathers (h : Further s t) (hk : a.raised ⊆ b.raised) : Gathers s [] a b t :=
  ⟨h, hk, fun _ _ hn => nomatch hn⟩

theorem Further.gathers_reported (h : Further s t) (hr : t.reports ≠ []) (names : List Ident)
    (a : Effects) : Gathers s names a a t :=
  ⟨h, List.Subset.refl _, fun hc => absurd hc hr⟩

theorem Gathers.trans (h : Gathers s names a b t) (h' : Gathers t names' b c u) :
    Gathers s (names ++ names') a c u := by
  refine ⟨h.toFurther.trans h'.toFurther, List.Subset.trans h.kept h'.kept, fun hc => ?_⟩
  have hfirst := (h.raised (h'.clean hc)).later h'.toFurther fun r hr => h'.kept hr
  exact hfirst.append (h'.raised hc)

theorem Gathers.mono (h : Gathers s names a b t) (hn : names' ⊆ names) : Gathers s names' a b t :=
  ⟨h.toFurther, h.kept, fun hc name hm => h.raised hc name (hn hm)⟩

theorem raised_raise (a : Effects) (r : ErrorType) : r :: a.raised ⊆ (a.raise r).raised := by
  unfold Effects.raise
  split
  · rename_i hr
    simpa using hr
  · simp

theorem raised_foldl_raise (rs : List ErrorType) (a : Effects) :
    a.raised ⊆ (rs.foldl Effects.raise a).raised ∧ rs ⊆ (rs.foldl Effects.raise a).raised := by
  induction rs generalizing a with
  | nil => simp
  | cons r rs ih =>
    obtain ⟨hkept, hrs⟩ := ih (a.raise r)
    obtain ⟨hr, ha⟩ := List.cons_subset.1 (raised_raise a r)
    exact ⟨List.Subset.trans ha hkept, List.cons_subset.2 ⟨hkept hr, hrs⟩⟩

theorem Gathers.raise (h : Gathers s names a b t) (r : ErrorType) :
    Gathers s names a (b.raise r) t := by
  have hb := (List.cons_subset.1 (raised_raise b r)).2
  refine ⟨h.toFurther, List.Subset.trans h.kept hb, fun hc => ?_⟩
  exact (h.raised hc).later (.refl t) fun _ hr => hb hr

@[simp] theorem raised_reading (a : Effects) (t : ScopeTree) (e : EntityId) (p : Pos) :
    (a.reading t e p).raised = a.raised := by
  unfold Effects.reading
  cases t.ownVar? e <;> rfl

theorem NameRun.gathers {name : Ident} (h : NameRun name a s b t) : Gathers s [] a b t := by
  cases h with
  | undefined h => exact h.further.gathers (List.Subset.refl _)
  | constant h => exact (h.further.trans (further_addFact _ _ _)).gathers (by simp)
  | value h => exact h.further.gathers (by simp)

/-- A function that is called by its name raises all that it declares. -/
theorem CalleeRun.gathers {name : Ident} (h : CalleeRun name a s b t) :
    Gathers s [name] a b t := by
  have hraised {e : EntityId} (h : LookupRun name s (some e) t)
      (hb : (t.tree.entity e).declared ⊆ b.raised) : Raised t [name] (· ∈ b.raised) := by
    intro name' hn
    rw [List.mem_singleton.1 hn]
    exact ⟨e, h.mem_uses, fun r hr => hb hr⟩
  cases h with
  | undefined h => exact h.further.gathers_reported h.reported.2 _ a
  | @function e _ h hk =>
    obtain ⟨hkept, hall⟩ := raised_foldl_raise ((t.tree.entity e).type.elim [] Typ.throws) a
    exact ⟨h.further, hkept, fun _ => hraised h (by rwa [Entity.declared, hk])⟩
  | value h hk =>
    refine ⟨h.further, by simp, fun _ => hraised h ?_⟩
    unfold Entity.declared
    split
    · exact absurd ‹_› hk
    · exact List.nil_subset _

/-- A node that is no call of a name adds no callee. -/
theorem Gathers.above {w v : List Node} {n : Node} (h : Gathers s (callees w ++ callees v) a b t)
    (hn : n.callee? = none) : Gathers s (callees (n :: (w ++ v))) a b t := by
  rw [callees_cons, hn, callees_append]
  exact h

theorem callee?_call {m : Mark} {callee : Expr} {args : List Expr}
    (h : ∀ name, callee ≠ .ident name) : (Node.expr (.call m callee args)).callee? = none := by
  unfold Node.callee?
  split
  · rename_i he
    cases he
    exact absurd rfl (h _)
  · rfl

theorem callees_select (m : Mark) (x : Expr) (sel : Ident) :
    callees ((Expr.select m x sel).walk everywhere) = callees (x.walk everywhere) := by
  have hsel : callees sel.walk = [] := rfl
  change callees (_ :: (x.walk everywhere ++ sel.walk)) = _
  rw [callees_cons, callees_append, hsel, List.append_nil]
  rfl

theorem ExprRun.gathers {xs : List Expr} (h : ExprRun xs a s b t) :
    Gathers s (callees (Expr.walkList everywhere xs)) a b t := by
  induction h with
  | @nil _ s => exact (Further.refl s).gathers (List.Subset.refl _)
  | cons _ _ ih ih' =>
    rw [Expr.walkList_singleton] at ih
    simpa [Expr.walkList] using ih.trans ih'
  | name h =>
    rw [Expr.walkList_singleton]
    exact h.gathers
  | @literal _ _ _ _ s => exact (Further.refl s).gathers (List.Subset.refl _)
  | unary _ ih | paren _ ih =>
    rw [Expr.walkList_singleton] at ih ⊢
    exact ih
  | binary _ _ ih ih' | index _ _ ih ih' =>
    rw [Expr.walkList_singleton] at ih ih' ⊢
    exact (ih.trans ih').above rfl
  | called h _ ih =>
    rw [Expr.walkList_singleton]
    exact h.gathers.trans ih
  | call hn _ _ ih ih' =>
    rw [Expr.walkList_singleton] at ih ⊢
    exact (ih.trans ih').above (callee?_call hn)
  | code h =>
    rw [Expr.walkList_singleton, callees_select, h.callees_eq_nil]
    exact h.further.gathers (List.Subset.refl _)
  | @select _ _ _ a _ _ _ _ h _ ih =>
    rw [Expr.walkList_singleton] at ih ⊢
    rw [callees_select]
    exact (h.further.gathers (List.Subset.refl a.raised)).trans ih
  | sliceType => exact (further_report _ _ _).gathers_reported (List.cons_ne_nil _ _) _ _

/-! ### Types -/

theorem TypeNameRun.further {name : Ident} {fault : ResolveFault} (h : TypeNameRun name fault s t) :
    Further s t := by
  cases h with
  | undefined h | type h => exact h.further
  | other h => exact h.further.trans (further_report _ _ _)

theorem ErrorTypeRun.further {x : Expr} (h : ErrorTypeRun x s t) : Further s t := by
  cases h with
  | name h => exact h.further
  | select h => exact h.further
  | misplaced => exact further_report s _ _

theorem TypeRun.further {x : Expr} (h : TypeRun x s t) : Further s t := by
  induction h with
  | name h => exact h.further
  | select h => exact h.further
  | slice _ ih => exact ih
  | misplaced => exact further_report _ _ _

theorem further_type {x : Option Expr} (h : OptionRun TypeRun x s t) : Further s t := by
  cases h with
  | none => exact .refl s
  | some h => exact h.further

/-! ### Statements -/

/-- The errors of the functions that a node calls are recorded for it. -/
def Charged (t : State) (n : Node) : Prop :=
  Raised t n.callees fun r => (n.id, .raises r) ∈ t.facts

/-- What a part of a function owes with the nodes `ns` that control flow visits in it. -/
structure Charges (s t : State) (ns : List Node) : Prop extends Further s t where
  charged : t.reports = [] → ∀ n ∈ ns, Charged t n

variable {n : Node} {ns ms : List Node}

theorem Charges.trans (h : Charges s t ns) (h' : Charges t u ms) : Charges s u (ns ++ ms) := by
  refine ⟨h.toFurther.trans h'.toFurther, fun hc n hn => ?_⟩
  rcases List.mem_append.1 hn with hn | hn
  · exact (h.charged (h'.clean hc) n hn).later h'.toFurther fun _ hr => h'.facts hr
  · exact h'.charged hc n hn

/-- Nodes without operands have no calls. -/
theorem Further.charges (h : Further s t) (hn : ∀ n ∈ ns, n.operands = []) : Charges s t ns := by
  refine ⟨h, fun _ n hm name hname => ?_⟩
  rw [Node.callees, hn n hm] at hname
  cases hname

theorem Further.charges_reported (h : Further s t) (hr : t.reports ≠ []) (ns : List Node) :
    Charges s t ns :=
  ⟨h, fun hc => absurd hc hr⟩

theorem Charges.refl (s : State) : Charges s s [] := (Further.refl s).charges (by simp)

theorem Charges.after (h : Charges t u ns) (hst : Further s t) : Charges s u ns :=
  ⟨hst.trans h.toFurther, h.charged⟩

theorem Charges.andThen (h : Charges s t ns) (htu : Further t u) : Charges s u ns := by
  have hnone : Charges t u [] := htu.charges (by simp)
  simpa using h.trans hnone

/-- A list of facts about one node. -/
theorem further_addFacts {α : Type} (s : State) (m : Mark) (f : α → Fact) (xs : List α) :
    Resolves (xs.forM fun x => addFact m (f x)) s fun _ t =>
      Further s t ∧ ∀ x ∈ xs, (m.id, f x) ∈ t.facts := by
  induction xs generalizing s with
  | nil => exact .pure ⟨.refl s, by simp⟩
  | cons x xs ih =>
    refine .step ((ih (s.after (addFact m (f x)))).mono fun _ u hu => ?_)
    refine ⟨(further_addFact s m (f x)).trans hu.1, List.forall_mem_cons.2 ⟨?_, hu.2⟩⟩
    exact hu.1.facts List.mem_cons_self

theorem further_record (s : State) (m : Mark) (a : Effects) :
    Further s (s.after (record m a)) ∧
      ∀ r ∈ a.raised, (m.id, .raises r) ∈ (s.after (record m a)).facts := by
  change Resolves (record m a) s fun _ t =>
    Further s t ∧ ∀ r ∈ a.raised, (m.id, .raises r) ∈ t.facts
  refine (further_addFacts s m Fact.reads a.reads).bind fun _ t ht => ?_
  exact (further_addFacts t m Fact.raises a.raised).mono fun _ u hu => ⟨ht.1.trans hu.1, hu.2⟩

/-- Effects that are attached to the node whose calls they come from. -/
theorem Gathers.charges (h : Gathers s names {} a t) (hn : n.callees ⊆ names) :
    Charges s (t.after (record n.mark a)) [n] := by
  obtain ⟨hfurther, hraises⟩ := further_record t n.mark a
  refine ⟨h.toFurther.trans hfurther, fun hc m hm => ?_⟩
  rw [List.mem_singleton.1 hm]
  intro name hname
  exact (h.raised (hfurther.clean hc)).later hfurther (fun r hr => hraises r hr) name (hn hname)

/-- Expressions whose effects are attached to the node that they are the operands of. -/
theorem ExprRun.charges {xs : List Expr} (h : ExprRun xs {} s a t) (hn : n.operands = xs) :
    Charges s (t.after (record n.mark a)) [n] :=
  h.gathers.charges (by rw [Node.callees, hn]; exact List.Subset.refl _)

theorem CondRun.charges {x : Expr} (h : CondRun x s t) : Charges s t [.expr x] := by
  cases h with
  | mk h => exact h.charges (n := .expr x) rfl

/-- The operands of an assignment are its two sides. -/
theorem callees_assign (m : Mark) (op : AssignOp) (target value : Expr) :
    (Node.stmt (.simple (.assign m op target value))).callees =
      callees (target.walk everywhere) ++ callees (value.walk everywhere) := by
  simp [Node.callees, Node.operands, Expr.walkList]

/-- A name that is assigned to has no calls. -/
theorem callees_assign_ident (m : Mark) (op : AssignOp) (name : Ident) (value : Expr) :
    (Node.stmt (.simple (.assign m op (.ident name) value))).callees =
      callees (Expr.walkList everywhere [value]) := by
  rw [callees_assign, Expr.walkList_singleton]
  rfl

theorem SimpleRun.charges {x : Simple} (h : SimpleRun x s t) : Charges s t [.stmt (.simple x)] := by
  have hname {m : Mark} {op : AssignOp} {name : Ident} {value : Expr} {a : Effects} {t u : State}
      (h : ExprRun [value] {} s a t) (hu : Further t u) :
      Charges s (u.after (record m a)) [.stmt (.simple (.assign m op (.ident name) value))] := by
    let n : Node := .stmt (.simple (.assign m op (.ident name) value))
    refine (h.gathers.trans (hu.gathers (List.Subset.refl _))).charges (n := n) ?_
    rw [callees_assign_ident, List.append_nil]
    exact List.Subset.refl _
  cases h with
  | @expr m y _ _ _ h => exact h.charges (n := .stmt (.simple (.expr m y))) rfl
  | define h => exact (hname h (.refl _)).andThen (further_introduce _ _ _ _ _)
  | @undefinable m target _ a _ t _ h =>
    have hall := h.gathers.toFurther.trans (further_record t m a).1
    exact (hall.trans (further_report _ target.pos (.nonNameDefined target.render))).charges_reported
      (List.cons_ne_nil _ _) _
  | set h hn => exact hname h (hn.further.trans (further_assigns _ _ _))
  | setUndefined h hn => exact hname h hn.further
  | setOther h hn => exact hname h (hn.further.trans (further_report _ _ _))
  | @element m k x i value _ _ _ _ _ h hi =>
    let n : Node := .stmt (.simple (.assign m .set (.index k x i) value))
    refine (h.gathers.trans hi.gathers).charges (n := n) ?_
    rw [callees_assign, Expr.walkList_singleton, Expr.walkList_singleton]
    exact List.perm_append_comm.subset
  | @unassignable m target _ a _ t _ _ h =>
    have hrec := (further_record (t.after (report target.pos (.notAssignable target.render))) m a).1
    refine (h.gathers.toFurther.trans ((further_report t _ _).trans hrec)).charges_reported ?_ _
    exact fun hc => List.cons_ne_nil _ _ (hrec.clean hc)

theorem PostRun.charges {x : Simple} (h : PostRun x s t) : Charges s t [.stmt (.simple x)] := by
  cases h with
  | plain _ h => exact h.charges
  | define h => exact h.charges.after (further_report s _ _)

/-- What may be missing is charged if it is there. -/
theorem OptionRun.charges {α : Type} {R : α → State → State → Prop} {node : α → Node}
    {x : Option α} (h : OptionRun R x s t)
    (hR : ∀ {y : α} {t : State}, R y s t → Charges s t [node y]) :
    Charges s t (x.toList.map node) := by
  cases h with
  | none => exact .refl s
  | some h => exact hR h

theorem Run.charges {p : Part} (h : Run p s t) : Charges s t (p.groups.map Prod.fst) := by
  induction h with
  | empty | noStmt | nil | noBlock | noSections | noHandlers => exact .refl _
  | @jump _ _ s => exact (Further.refl s).charges (by simp [Part.groups, Stmt.groups, Node.alone, Node.operands])
  | simple h => exact h.charges
  | @var m d _ a _ _ _ hvalue htype =>
    have hx := hvalue.charges (n := .stmt (.var m d)) rfl
    exact hx.andThen ((further_type htype).trans (further_introduce _ _ _ _ _))
  | braces _ ih | someStmt _ ih | someBlock _ ih => exact ih
  | cond htest _ _ ihyes ihno =>
    simpa [Part.groups, Stmt.groups, Node.alone] using (htest.charges.trans ihyes).trans ihno
  | loop hinit htest hpost _ ih =>
    have hheader := ((hinit.charges SimpleRun.charges).trans (htest.charges CondRun.charges)).trans
      (hpost.charges PostRun.charges)
    have hall := ((hheader.trans ih).after (further_openScope _ _ _ _ _)).andThen
      (further_closeScope _)
    simpa [Part.groups, Stmt.groups, Node.alone, Function.comp_def] using hall
  | @foreach m name operand body s _ _ hoperand _ ih =>
    have hheader : Charges s s [.stmt (.foreach m name operand body)] :=
      (Further.refl s).charges (by simp [Node.operands])
    have hbody := (ih.after (further_introduce _ _ _ _ _)).after (further_openScope _ _ _ _ _)
    exact hheader.trans (hoperand.charges.trans (hbody.andThen (further_closeScope _)))
  | switch htag _ ih => exact htag.charges.trans ih
  | @ret m x _ _ _ h => exact h.charges (n := .stmt (.ret m x)) rfl
  | @raise m x a e _ _ h =>
    refine (h.gathers.raise e).charges (n := .stmt (.raise m x)) ?_
    exact List.Subset.refl _
  | attempt _ _ _ ihbody ihhandlers ihcleanup =>
    simpa [Part.groups, Stmt.groups] using (ihbody.trans ihhandlers).trans ihcleanup
  | cons _ _ ih ih' => simpa [Part.groups, Stmt.groupsList] using ih.trans ih'
  | block _ ih => exact (ih.after (further_openScope _ _ _ _ _)).andThen (further_closeScope _)
  | @sections close m values isDefault body _ _ _ _ _ _ hvalues _ _ ihbody ihcs =>
    have hheader := hvalues.charges (n := .caseClause (.mk m values isDefault body)) rfl
    have hbody := (ihbody.after (further_openScope _ _ _ _ _)).andThen (further_closeScope _)
    simpa [Part.groups, CaseClause.groupsList] using (hheader.trans hbody).trans ihcs
  | @bareHandler m bodyMark body close cs s _ _ _ _ ihbody ihcs =>
    have hheader : Charges s _ [.catchClause (.mk m none (.mk bodyMark body close))] :=
      (further_addFact s m (.catches .any)).charges (by simp [Node.operands])
    have hbody := (ihbody.after (further_openScope _ _ _ _ _)).andThen
      ((further_shareScope _ bodyMark).trans (further_closeScope _))
    simpa [Part.groups, CatchClause.groupsList, Block.groups] using
      (hheader.trans hbody).trans ihcs
  | @namedHandler m bodyMark name type accepted body close cs _ t _ _ htype _ _ ihbody ihcs =>
    have hheader : Charges _ _ [.catchClause (.mk m (some (name, type)) (.mk bodyMark body close))] :=
      (htype.further.trans (further_addFact t m (.catches accepted))).charges
        (by simp [Node.operands])
    have hbody := ((ihbody.after (further_introduce _ _ _ _ _)).after
      (further_openScope _ _ _ _ _)).andThen
        ((further_shareScope _ bodyMark).trans (further_closeScope _))
    simpa [Part.groups, CatchClause.groupsList, Block.groups] using
      (hheader.trans hbody).trans ihcs

/-! ### Functions and files -/

theorem BodyParamRun.further {d : FuncDecl} {name : Ident} {e : EntityId}
    (h : BodyParamRun d name e s t) : Further s t := by
  have hdecl := further_declare s name e
  cases h with
  | other => exact hdecl
  | out | assigned => exact hdecl.trans (further_addFact _ _ _)

theorem further_params {d : FuncDecl} {ps : List (Param × EntityId)}
    (h : ListRun (fun q => BodyParamRun d q.1.name q.2) ps s t) : Further s t := by
  induction h with
  | nil => exact .refl _
  | cons hp _ ih => exact hp.further.trans ih

theorem BodyRun.charges {d : FuncDecl} (h : BodyRun d s t) : Charges s t d.carriers := by
  cases h with
  | @mk u v hparams hbody =>
    have hopened := further_openScope s d.mark d.body.close .function d.name.text
    have hinner := (hopened.trans (further_params hparams)).trans (further_shareScope u d.body.mark)
    have hhead : Charges s _ [.func d] := hinner.charges (by simp [Node.operands])
    have hall := hhead.trans (hbody.charges.andThen (further_closeScope v))
    cases hb : d.body
    simpa [FuncDecl.carriers, FuncDecl.groups, Part.groups, Block.groups, hb, Block.stmts] using hall

theorem charges_funcs {ds : List FuncDecl} (h : ListRun BodyRun ds s t) :
    Charges s t (ds.flatMap FuncDecl.carriers) := by
  induction h with
  | nil => exact .refl _
  | cons hd _ ih => simpa using hd.charges.trans ih

end Resolve

/-- The operands of a node stand below it. -/
theorem Node.walk_operands_subset (n : Node) :
    Expr.walkList everywhere n.operands ⊆ n.subtree := by
  have hoption (x : Option Expr) :
      Expr.walkList everywhere x.toList = Expr.walkOption everywhere x := by
    cases x <;> simp [Expr.walkList, Expr.walkOption]
  intro m hm
  unfold Node.operands at hm
  split at hm <;> simp [Expr.walkList, hoption, Node.subtree, Node.walk, Stmt.walk, Simple.walk,
    VarDecl.walk, CaseClause.walk, Node.above] at hm ⊢ <;> simp [hm]

/-- The operands of what control flow visits stand in the body. -/
theorem FuncDecl.operands_subset (d : FuncDecl) {n : Node} (hn : n ∈ d.carriers) :
    Expr.walkList everywhere n.operands ⊆ d.body.walk everywhere := by
  rcases List.mem_cons.1 hn with rfl | hn
  · exact List.nil_subset _
  · have hmem := (marshalled_block d.body).subset hn
    exact List.Subset.trans n.walk_operands_subset (whole_block d.body n hmem)

/-- A name that is called stands where the call stands. -/
theorem mem_idents_of_callees {w : List Node} (hw : Whole w) {name : Ident}
    (h : name ∈ callees w) : name ∈ idents w := by
  obtain ⟨n, hn, hname⟩ := List.mem_filterMap.1 h
  unfold Node.callee? at hname
  split at hname
  · cases hname
    refine mem_idents.2 (hw _ hn ?_)
    simp [Node.subtree, Node.walk, Expr.walk, Node.above]
  · cases hname

namespace Resolution

theorem raises_of_found {r : Resolution} {n : Node} {e : ErrorType}
    (h : (n.id, .raises e) ∈ r.found) : e ∈ r.facts.raises n := by
  refine List.mem_filterMap.2 ⟨.raises e, ?_, rfl⟩
  exact List.mem_map.2 ⟨_, List.mem_filter.2 ⟨h, beq_self_eq_true _⟩, rfl⟩

theorem charged_of_clean {f : File} (hc : (ofFile f).reports = []) {d : FuncDecl} (hd : d ∈ f.funcs)
    {n : Node} (hn : n ∈ d.carriers) {name : Ident}
    (hname : name ∈ n.callees) : ∃ e, (name.mark.id, e) ∈ (ofFile f).uses ∧
    ∀ r ∈ ((ofFile f).tree.entity e).declared, r ∈ (ofFile f).facts.raises n := by
  obtain ⟨-, hbodies⟩ := Resolve.run_file f {}
  have hcharges := Resolve.charges_funcs hbodies
  have hclean : (Resolve.file f {}).2.reports = [] := List.reverse_eq_nil_iff.1 hc
  obtain ⟨e, he, hr⟩ := hcharges.charged hclean n (List.mem_flatMap.2 ⟨d, hd, hn⟩) name hname
  exact ⟨e, List.mem_reverse.2 he, fun r hm => raises_of_found (List.mem_reverse.2 (hr r hm))⟩

/-- A function that is called by its name raises, at the node that the call belongs to, every error
that it declares. -/
theorem raises_of_call {source : Source}
    (hc : (ofFile (Parsed.ofSource source).file).reports = []) {d : FuncDecl}
    (hd : d ∈ (Parsed.ofSource source).file.funcs) {n : Node} (hn : n ∈ d.carriers) {name : Ident}
    (hname : name ∈ n.callees) {e : EntityId}
    (he : (name.mark.id, e) ∈ (ofFile (Parsed.ofSource source).file).uses)
    (hkind : ((ofFile (Parsed.ofSource source).file).tree.entity e).kind = .func)
    {params : List (VarKind × Typ)} {result : Option Typ} {throws : List ErrorType}
    (htype : ((ofFile (Parsed.ofSource source).file).tree.entity e).type =
      some (.func params result throws)) :
    ∀ r ∈ throws, r ∈ (ofFile (Parsed.ofSource source).file).facts.raises n := by
  have hf := Parsed.file_numbered source
  obtain ⟨e', he', hraises⟩ := charged_of_clean hc hd hn hname
  have hbody : name ∈ idents (d.body.walk everywhere) := by
    refine mem_idents_of_callees (whole_block d.body) ?_
    exact List.filterMap_subset _ (d.operands_subset hn) hname
  obtain ⟨bodies, hlogs⟩ := exists_logs hf.nodup_funcs hc
  obtain ⟨b, hb, -, hbn, rfl⟩ := hlogs.exists_use hf hd hbody he
  obtain ⟨b', hb', -, hbn', rfl⟩ := hlogs.exists_use hf hd hbody he'
  obtain rfl := hlogs.eq_of_id hf hb hb' (by rw [hbn, hbn'])
  intro r hr
  refine hraises r ?_
  rw [Entity.declared, hkind, htype]
  exact hr

/-- The kind and type of what a name denotes. -/
def denoted? (r : Resolution) (name : Ident) : Option (EntityKind × Option Typ) :=
  (r.uses.lookup name.mark.id).map fun e => ((r.tree.entity e).kind, (r.tree.entity e).type)

end Resolution

/-- A function that calls itself, and may throw anything. -/
def callSource : Source := .ofText "" "package p\nfunc f() throws Error \x7b f() \x7d".toList

theorem callSource_calls :
    (Resolution.ofFile (Parsed.ofSource callSource).file).reports = [] ∧
    ((Parsed.ofSource callSource).file.funcs.map fun d => d.carriers.map fun n =>
      n.callees.map (Resolution.ofFile (Parsed.ofSource callSource).file).denoted?) =
        [[[], [some (.func, some (.func [] none [.any]))]]] := by
  cbv

theorem Resolution.raises_callSource : ∃ d ∈ (Parsed.ofSource callSource).file.funcs,
    ∃ n ∈ d.carriers, .any ∈ (ofFile (Parsed.ofSource callSource).file).facts.raises n := by
  obtain ⟨hc, hcalls⟩ := callSource_calls
  obtain ⟨d, hd, hcarriers⟩ := List.map_eq_singleton_iff.1 hcalls
  obtain ⟨n₀, ns, hns, -, hns'⟩ := List.map_eq_cons_iff.1 hcarriers
  obtain ⟨n, rfl, hcallees⟩ := List.map_eq_singleton_iff.1 hns'
  obtain ⟨name, hname, hdenoted⟩ := List.map_eq_singleton_iff.1 hcallees
  obtain ⟨e, he, hentity⟩ := Option.map_eq_some_iff.1 hdenoted
  obtain ⟨hkind, htype⟩ := Prod.mk.inj hentity
  have hmem : n ∈ d.carriers := by simp [hns]
  exact ⟨d, by simp [hd], n, hmem, raises_of_call hc (by simp [hd]) hmem (by simp [hname])
    (mem_of_lookup he) hkind htype .any (by simp)⟩

/-- The same call with its callee in parentheses. -/
def parenSource : Source := .ofText "" "package p\nfunc f() throws Error \x7b (f)() \x7d".toList

/-- The name of a callee, parentheses aside. -/
def Expr.strippedName? : Expr → Option Ident
  | .ident name => some name
  | .paren _ x => x.strippedName?
  | _ => none

/-- Nothing is raised by a call of a function that may throw anything, its name being put in
parentheses. -/
theorem Resolution.unraised_parenSource :
    (Parsed.ofSource parenSource).reports = [] ∧
    (ofFile (Parsed.ofSource parenSource).file).reports = [] ∧
    ((Parsed.ofSource parenSource).file.funcs.map fun d => d.carriers.filterMap fun
      | .stmt (.simple (.expr m (.call k callee args))) => some
        (callee.strippedName?.bind (ofFile (Parsed.ofSource parenSource).file).denoted?,
          (ofFile (Parsed.ofSource parenSource).file).facts.raises
            (.stmt (.simple (.expr m (.call k callee args)))))
      | _ => none) = [[(some (.func, some (.func [] none [.any])), [])]] := by
  cbv

end FlowCheck
