import FlowCheck.Proofs.Parse.Position
import FlowCheck.Proofs.Resolve.Declaration
import FlowCheck.Proofs.Resolve.Log

/-!
# What resolution reports

The messages of name resolution quote the program. Every step of resolution reports only errors whose
names and expressions are taken from the tree that it resolves, so a whole run reports no others.
-/
namespace FlowCheck

/-- What a message quotes is written out from nodes of the list. The domain of an unknown code goes
by the name of the entity found, whatever node denotes it. -/
inductive ResolveFault.Quotes (ns : List Node) : ResolveFault → Prop
  | undefined {name : Ident} (h : name.walk ⊆ ns) : Quotes ns (.undefined name.text)
  | unknownCode {code : Ident} (domain : String) (h : code.walk ⊆ ns) :
      Quotes ns (.unknownCode domain code.text)
  | redeclared {name : Ident} (h : name.walk ⊆ ns) : Quotes ns (.redeclared name.text)
  | redeclaredCode {code domain : Ident} (h : code.walk ⊆ ns) (h' : domain.walk ⊆ ns) :
      Quotes ns (.redeclaredCode code.text domain.text)
  | notAType {x : Expr} (h : x.walk everywhere ⊆ ns) : Quotes ns (.notAType x.render)
  | notAnErrorType {x : Expr} (h : x.walk everywhere ⊆ ns) : Quotes ns (.notAnErrorType x.render)
  | notAnExpr {x : Expr} (h : x.walk everywhere ⊆ ns) : Quotes ns (.notAnExpr x.render)
  | notAssignable {x : Expr} (h : x.walk everywhere ⊆ ns) : Quotes ns (.notAssignable x.render)
  | nonNameDefined {x : Expr} (h : x.walk everywhere ⊆ ns) : Quotes ns (.nonNameDefined x.render)
  | defineInPost : Quotes ns .defineInPost

theorem Expr.walkList_eq_flatMap (xs : List Expr) :
    Expr.walkList everywhere xs = xs.flatMap (·.walk everywhere) := by
  induction xs with
  | nil => rfl
  | cons x xs ih => rw [Expr.walkList, ih, List.flatMap_cons]

namespace Resolve

variable {ns : List Node} {s t u : State}

/-- The errors that are reported between two states quote nodes of the list. -/
def Quoted (ns : List Node) (s t : State) : Prop :=
  ∀ r ∈ t.reports, r ∈ s.reports ∨ r.fault.Quotes ns

namespace Quoted

theorem refl (s : State) : Quoted ns s s := fun _ hr => .inl hr

theorem trans (h : Quoted ns s t) (h' : Quoted ns t u) : Quoted ns s u :=
  fun r hr => (h' r hr).elim (h r) .inr

/-- A step that reports nothing. -/
theorem silent (h : Quoted ns s t) (hr : u.reports = t.reports) : Quoted ns s u :=
  fun r hm => h r (hr ▸ hm)

theorem report (h : Quoted ns s t) {fault : ResolveFault} (hf : fault.Quotes ns) (pos : Pos) :
    Quoted ns s (t.after (report pos fault)) := by
  intro r hr
  rcases List.mem_cons.1 hr with rfl | hr
  · exact .inr hf
  · exact h r hr

theorem record (h : Quoted ns s t) (m : Mark) (a : Effects) :
    Quoted ns s (t.after (record m a)) := h.silent (records_record t m a).reports

theorem assigns (h : Quoted ns s t) (m : Mark) (e : EntityId) :
    Quoted ns s (t.after (assigns m e)) := h.silent (records_assigns t m e).reports

theorem declare (h : Quoted ns s t) {name : Ident} (hn : name.walk ⊆ ns) (e : EntityId) :
    Quoted ns s (t.after (declare name e)) := by
  change Resolves (Resolve.declare name e) t fun _ u => Quoted ns s u
  unfold Resolve.declare
  refine .get ?_
  split
  · exact h.report (.redeclared hn) _
  · exact h

theorem introduce (h : Quoted ns s t) {name : Ident} (hn : name.walk ⊆ ns) (m : Mark)
    (type : Option Typ) (assigned : Bool) :
    Quoted ns s (t.after (introduce m name type assigned)) := by
  let x : Entity := { kind := .var .local, name := name.text, type, pos := name.mark.pos }
  have hnew : Quoted ns s (t.after (newEntity x)) := h
  have hdecl := hnew.declare hn t.tree.entities.size
  cases assigned with
  | false => exact hdecl
  | true => exact hdecl.assigns m _

end Quoted

/-! ### Expressions and types -/

theorem LookupRun.quoted {name : Ident} {o : Option EntityId} (h : LookupRun name s o t)
    (hn : name.walk ⊆ ns) : Quoted ns s t := by
  cases h with
  | found => exact (Quoted.refl s).silent rfl
  | undefined => exact (Quoted.refl s).report (.undefined hn) _

theorem NameRun.quoted {name : Ident} {a b : Effects} (h : NameRun name a s b t)
    (hn : name.walk ⊆ ns) : Quoted ns s t := by
  cases h with
  | undefined h | value h => exact h.quoted hn
  | constant h => exact (h.quoted hn).silent rfl

theorem CalleeRun.quoted {name : Ident} {a b : Effects} (h : CalleeRun name a s b t)
    (hn : name.walk ⊆ ns) : Quoted ns s t := by
  cases h with
  | undefined h | function h | value h => exact h.quoted hn

theorem CodeRun.quoted {x : Expr} {sel : Ident} {o : Option EntityId} (h : CodeRun x sel s o t)
    (hn : sel.walk ⊆ ns) : Quoted ns s t := by
  cases h with
  | @code name d =>
    have hbound : Quoted ns s (s.after (bindUse name d)) := (Quoted.refl s).silent rfl
    exact hbound.silent rfl
  | @unknown name d =>
    have hbound : Quoted ns s (s.after (bindUse name d)) := (Quoted.refl s).silent rfl
    exact hbound.report (.unknownCode _ hn) _
  | noDomain => exact .refl s

theorem ExprRun.quoted {xs : List Expr} {a b : Effects} (h : ExprRun xs a s b t)
    (hw : Expr.walkList everywhere xs ⊆ ns) : Quoted ns s t := by
  induction h with
  | nil => exact .refl _
  | cons _ _ ih ih' =>
    obtain ⟨hx, hxs⟩ := List.append_subset.1 hw
    rw [Expr.walkList_singleton] at ih
    exact (ih hx).trans (ih' hxs)
  | name h =>
    rw [Expr.walkList_singleton] at hw
    exact h.quoted hw
  | literal => exact .refl _
  | unary _ ih | paren _ ih =>
    rw [Expr.walkList_singleton] at hw ih
    exact ih (List.cons_subset.1 hw).2
  | binary _ _ ih ih' | index _ _ ih ih' =>
    rw [Expr.walkList_singleton] at hw ih ih'
    obtain ⟨hx, hy⟩ := List.append_subset.1 (List.cons_subset.1 hw).2
    exact (ih hx).trans (ih' hy)
  | called h _ ih =>
    rw [Expr.walkList_singleton] at hw
    obtain ⟨hname, hargs⟩ := List.append_subset.1 (List.cons_subset.1 hw).2
    exact (h.quoted hname).trans (ih hargs)
  | call _ _ _ ih ih' =>
    rw [Expr.walkList_singleton] at hw ih
    obtain ⟨hcallee, hargs⟩ := List.append_subset.1 (List.cons_subset.1 hw).2
    exact (ih hcallee).trans (ih' hargs)
  | code h =>
    rw [Expr.walkList_singleton] at hw
    exact h.quoted (List.append_subset.1 (List.cons_subset.1 hw).2).2
  | select h _ ih =>
    rw [Expr.walkList_singleton] at hw ih
    obtain ⟨hx, hsel⟩ := List.append_subset.1 (List.cons_subset.1 hw).2
    exact (h.quoted hsel).trans (ih hx)
  | sliceType =>
    rw [Expr.walkList_singleton] at hw
    exact (Quoted.refl _).report (.notAnExpr hw) _

theorem TypeNameRun.quoted {name : Ident} {fault : ResolveFault} (h : TypeNameRun name fault s t)
    (hn : name.walk ⊆ ns) (hf : fault.Quotes ns) : Quoted ns s t := by
  cases h with
  | undefined h | type h => exact h.quoted hn
  | other h => exact (h.quoted hn).report hf _

theorem ErrorTypeRun.quoted {x : Expr} (h : ErrorTypeRun x s t) (hw : x.walk everywhere ⊆ ns) :
    Quoted ns s t := by
  cases h with
  | name h => exact h.quoted hw (.notAnErrorType hw)
  | select h => exact h.quoted (List.append_subset.1 (List.cons_subset.1 hw).2).2
  | misplaced => exact (Quoted.refl s).report (.notAnErrorType hw) _

theorem TypeRun.quoted {x : Expr} (h : TypeRun x s t) (hw : x.walk everywhere ⊆ ns) :
    Quoted ns s t := by
  induction h with
  | name h => exact h.quoted hw (.notAType hw)
  | select h => exact h.quoted hw
  | slice _ ih => exact ih (List.cons_subset.1 hw).2
  | misplaced => exact (Quoted.refl _).report (.notAType hw) _

/-- What may be missing is quoted only if it is there. -/
theorem OptionRun.quoted {α : Type} {R : α → State → State → Prop} {x : Option α}
    (h : OptionRun R x s t) (hR : ∀ y ∈ x, R y s t → Quoted ns s t) : Quoted ns s t := by
  cases h with
  | none => exact .refl s
  | some h => exact hR _ rfl h

theorem quoted_type {type : Option Expr} (h : OptionRun TypeRun type s t)
    (hw : Expr.walkOption everywhere type ⊆ ns) : Quoted ns s t :=
  h.quoted fun x hx hrun => hrun.quoted (by
    rw [Option.mem_def.1 hx] at hw
    exact hw)

/-! ### Statements -/

theorem CondRun.quoted {x : Expr} (h : CondRun x s t) (hw : x.walk everywhere ⊆ ns) :
    Quoted ns s t := by
  cases h with
  | mk h => exact (h.quoted (by rwa [Expr.walkList_singleton])).record _ _

theorem SimpleRun.quoted {x : Simple} (h : SimpleRun x s t) (hw : x.walk everywhere ⊆ ns) :
    Quoted ns s t := by
  have hvalue {y : Expr} {a b : Effects} {s t : State} (h : ExprRun [y] a s b t)
      (hw : y.walk everywhere ⊆ ns) : Quoted ns s t :=
    h.quoted (by rwa [Expr.walkList_singleton])
  match x with
  | .expr m y =>
    cases h with
    | expr h => exact (hvalue h (List.cons_subset.1 hw).2).record _ _
  | .assign m op target value =>
    obtain ⟨ht, hv⟩ := List.append_subset.1 (List.cons_subset.1 hw).2
    cases h with
    | define h => exact ((hvalue h hv).record _ _).introduce ht _ _ _
    | undefinable _ h => exact ((hvalue h hv).record _ _).report (.nonNameDefined ht) _
    | set h hn => exact (((hvalue h hv).trans (hn.quoted ht)).assigns _ _).record _ _
    | setUndefined h hn => exact ((hvalue h hv).trans (hn.quoted ht)).record _ _
    | setOther h hn =>
      exact (((hvalue h hv).trans (hn.quoted ht)).report (.notAssignable ht) _).record _ _
    | element h hi => exact ((hvalue h hv).trans (hvalue hi ht)).record _ _
    | unassignable _ _ h => exact ((hvalue h hv).report (.notAssignable ht) _).record _ _

theorem PostRun.quoted {x : Simple} (h : PostRun x s t) (hw : x.walk everywhere ⊆ ns) :
    Quoted ns s t := by
  cases h with
  | plain _ h => exact h.quoted hw
  | define h => exact ((Quoted.refl s).report .defineInPost _).trans (h.quoted hw)

/-- All nodes of a part. -/
def Part.walk : Part → List Node
  | .stmt x => x.walk everywhere
  | .stmtOption x => Stmt.walkOption everywhere x
  | .stmts xs => Stmt.walkList everywhere xs
  | .block b => b.walk everywhere
  | .blockOption b => Block.walkOption everywhere b
  | .sections _ cs => CaseClause.walkList everywhere cs
  | .handlers cs => CatchClause.walkList everywhere cs

theorem Run.quoted {p : Part} (h : Run p s t) (hw : p.walk ⊆ ns) : Quoted ns s t := by
  induction h with
  | empty | jump | noStmt | nil | noBlock | noSections | noHandlers => exact .refl _
  | simple h => exact h.quoted hw
  | @var m _ _ a _ _ _ hvalue htype =>
    obtain ⟨hparts, hx⟩ := List.append_subset.1 (List.cons_subset.1 (List.cons_subset.1 hw).2).2
    obtain ⟨hname, hty⟩ := List.append_subset.1 hparts
    have hexpr := (hvalue.quoted (by rwa [Expr.walkList_toList])).record m a
    exact (hexpr.trans (quoted_type htype hty)).introduce hname _ _ _
  | braces _ ih | someStmt _ ih | someBlock _ ih => exact ih hw
  | cond htest _ _ ihyes ihno =>
    obtain ⟨hparts, hno⟩ := List.append_subset.1 (List.cons_subset.1 hw).2
    obtain ⟨ht, hyes⟩ := List.append_subset.1 hparts
    exact ((htest.quoted ht).trans (ihyes hyes)).trans (ihno hno)
  | @loop m init post test body s _ _ _ _ hinit htest hpost _ ih =>
    obtain ⟨hparts, hbody⟩ := List.append_subset.1 (List.cons_subset.1 hw).2
    obtain ⟨hparts, hp⟩ := List.append_subset.1 hparts
    obtain ⟨hi, ht⟩ := List.append_subset.1 hparts
    have hopen : Quoted ns s (s.after (openScope m body.close .loop)) := .refl s
    have hinit : Quoted ns _ _ := hinit.quoted fun y hy h => h.quoted (by cases hy; exact hi)
    have htest : Quoted ns _ _ := htest.quoted fun y hy h => h.quoted (by cases hy; exact ht)
    have hpost : Quoted ns _ _ := hpost.quoted fun y hy h => h.quoted (by cases hy; exact hp)
    have hheader := ((hopen.trans hinit).trans htest).trans hpost
    exact (hheader.trans (ih hbody)).silent rfl
  | @foreach m name operand body _ t _ hoperand _ ih =>
    obtain ⟨hparts, hbody⟩ := List.append_subset.1 (List.cons_subset.1 hw).2
    obtain ⟨hname, hx⟩ := List.append_subset.1 hparts
    have hopen : Quoted ns _ (t.after (openScope m body.close .foreach)) := hoperand.quoted hx
    exact ((hopen.introduce hname m none true).trans (ih hbody)).silent rfl
  | switch htag _ ih =>
    obtain ⟨ht, hsections⟩ := List.append_subset.1 (List.cons_subset.1 hw).2
    exact (htag.quoted ht).trans (ih hsections)
  | @ret m x a _ _ h =>
    refine (h.quoted ?_).record m a
    rw [Expr.walkList_toList]
    exact (List.cons_subset.1 hw).2
  | @raise m x a e _ _ h =>
    refine (h.quoted ?_).record m (a.raise e)
    rw [Expr.walkList_singleton]
    exact (List.cons_subset.1 hw).2
  | attempt _ _ _ ihbody ihhandlers ihcleanup =>
    obtain ⟨hparts, hcleanup⟩ := List.append_subset.1 (List.cons_subset.1 hw).2
    obtain ⟨hbody, hhandlers⟩ := List.append_subset.1 hparts
    exact ((ihbody hbody).trans (ihhandlers hhandlers)).trans (ihcleanup hcleanup)
  | cons _ _ ih ih' =>
    obtain ⟨hx, hxs⟩ := List.append_subset.1 hw
    exact (ih hx).trans (ih' hxs)
  | block _ ih => exact (ih (List.cons_subset.1 hw).2).silent rfl
  | @sections close m values isDefault body cs a _ t _ _ hvalues _ _ ihbody ihcs =>
    obtain ⟨hclause, hcs⟩ := List.append_subset.1 hw
    obtain ⟨hv, hbody⟩ := List.append_subset.1 (List.cons_subset.1 hclause).2
    have hopen : Quoted ns _ ((t.after (record m a)).after (openScope m close .case)) :=
      (hvalues.quoted hv).record m a
    exact ((hopen.trans (ihbody hbody)).silent rfl).trans (ihcs hcs)
  | bareHandler _ _ ihbody ihcs =>
    obtain ⟨hclause, hcs⟩ := List.append_subset.1 hw
    have hbody := (List.cons_subset.1 (List.cons_subset.1 hclause).2).2
    exact ((ihbody hbody).silent rfl).trans (ihcs hcs)
  | @namedHandler m _ name type accepted _ close _ _ t _ _ htype _ _ ihbody ihcs =>
    obtain ⟨hclause, hcs⟩ := List.append_subset.1 hw
    obtain ⟨hparam, hblock⟩ := List.append_subset.1 (List.cons_subset.1 hclause).2
    obtain ⟨hname, ht⟩ := List.append_subset.1 hparam
    have hopen : Quoted ns _ ((t.after (addFact m (.catches accepted))).after
        (openScope m close .handler)) := htype.quoted ht
    have hvar := hopen.introduce hname m (some (.error accepted)) true
    exact ((hvar.trans (ihbody (List.cons_subset.1 hblock).2)).silent rfl).trans (ihcs hcs)

/-! ### Declarations -/

/-- Each member of a list quotes what it is allowed to. -/
theorem ListRun.quoted {α : Type} {R : α → State → State → Prop} {xs : List α}
    (h : ListRun R xs s t) (hR : ∀ x ∈ xs, ∀ {s t : State}, R x s t → Quoted ns s t) :
    Quoted ns s t := by
  induction h with
  | nil => exact .refl _
  | cons hx _ ih =>
    exact (hR _ List.mem_cons_self hx).trans (ih fun y hy => hR y (List.mem_cons_of_mem _ hy))

theorem CodeDeclRun.quoted {domain : EntityId} {owner c : Ident}
    (h : CodeDeclRun domain owner.text c s t) (ho : owner.walk ⊆ ns) (hc : c.walk ⊆ ns) :
    Quoted ns s t := by
  cases h with
  | added => exact .refl s
  | taken => exact (Quoted.refl s).report (.redeclaredCode hc ho) _

theorem ErrorDomainRun.quoted {d : ErrorDomainDecl} (h : ErrorDomainRun d s t)
    (hw : d.walk everywhere ⊆ ns) : Quoted ns s t := by
  obtain ⟨hname, hcodes⟩ := List.append_subset.1 (List.cons_subset.1 hw).2
  cases h with
  | mk h =>
    have hnew : Quoted ns s (s.after (newEntity (d.entity s.tree.entities.size))) := .refl s
    refine (hnew.declare hname _).trans (h.quoted fun c hc {_ _} hrun => ?_)
    exact hrun.quoted hname fun n hn => hcodes (List.mem_flatMap.2 ⟨c, hc, hn⟩)

theorem GlobalRun.quoted {d : VarDecl} (h : GlobalRun d s t) (hw : d.walk everywhere ⊆ ns) :
    Quoted ns s t := by
  obtain ⟨hparts, hx⟩ := List.append_subset.1 (List.cons_subset.1 hw).2
  obtain ⟨hname, hty⟩ := List.append_subset.1 hparts
  cases h with
  | mk hvalue htype =>
    have hexpr := hvalue.quoted (by rwa [Expr.walkList_toList])
    exact (hexpr.trans (quoted_type htype hty)).introduce hname _ _ _

theorem quoted_params {ps : List Param} {rs : List (EntityId × VarKind × Typ)}
    (h : ParamsRun ps s rs t) (hw : ps.flatMap (·.walk everywhere) ⊆ ns) : Quoted ns s t := by
  induction h with
  | nil => exact .refl _
  | cons hp _ ih =>
    obtain ⟨hfirst, hrest⟩ := List.append_subset.1 hw
    cases hp with
    | mk htype =>
      have ht := htype.quoted (List.append_subset.1 (List.cons_subset.1 hfirst).2).2
      exact (ht.silent rfl).trans (ih hrest)

theorem FuncRun.quoted {d : FuncDecl} (h : FuncRun d s t) (hw : d.walk everywhere ⊆ ns) :
    Quoted ns s t := by
  obtain ⟨hparts, -⟩ := List.append_subset.1 (List.cons_subset.1 hw).2
  obtain ⟨hparts, hthrows⟩ := List.append_subset.1 hparts
  obtain ⟨hparts, hresult⟩ := List.append_subset.1 hparts
  obtain ⟨hname, hparams⟩ := List.append_subset.1 hparts
  cases h with
  | mk hps hres hths =>
    have hnew : Quoted ns s (s.after (newEntity d.entity)) := .refl s
    have hdecl := (hnew.declare hname _).trans (quoted_params hps hparams)
    have hall := (hdecl.trans (quoted_type hres hresult)).trans (hths.quoted fun x hx {_ _} hrun =>
      hrun.quoted fun n hn => hthrows ?_)
    · exact hall.silent rfl
    · rw [Expr.walkList_eq_flatMap]
      exact List.mem_flatMap.2 ⟨x, hx, hn⟩

theorem BodyParamRun.quoted {d : FuncDecl} {name : Ident} {e : EntityId}
    (h : BodyParamRun d name e s t) (hn : name.walk ⊆ ns) : Quoted ns s t := by
  have hdecl := (Quoted.refl s).declare hn e
  cases h with
  | other => exact hdecl
  | out | assigned => exact hdecl.silent rfl

theorem BodyRun.quoted {d : FuncDecl} (h : BodyRun d s t) (hw : d.walk everywhere ⊆ ns) :
    Quoted ns s t := by
  obtain ⟨hparts, hbody⟩ := List.append_subset.1 (List.cons_subset.1 hw).2
  obtain ⟨hparts, -⟩ := List.append_subset.1 hparts
  obtain ⟨hparts, -⟩ := List.append_subset.1 hparts
  have hparams := (List.append_subset.1 hparts).2
  cases h with
  | @mk u _ hps hrun =>
    have hopen : Quoted ns s (s.after (openScope d.mark d.body.close .function d.name.text)) :=
      .refl s
    have hinner : Quoted ns _ (u.after (shareScope d.body.mark)) := hps.quoted fun q hq {_ _} hp =>
      hp.quoted fun n hn => hparams (List.mem_flatMap.2 ⟨q.1, (List.of_mem_zip hq).1,
        List.mem_cons_of_mem _ (List.mem_append_left _ hn)⟩)
    have hstmts : Stmt.walkList everywhere d.body.stmts ⊆ ns := by
      cases hb : d.body
      rw [hb] at hbody
      exact (List.cons_subset.1 hbody).2
    exact ((hopen.trans hinner).trans (hrun.quoted hstmts)).silent rfl

theorem FileRun.quoted {f : File} (h : FileRun f s t) : Quoted f.nodes s t := by
  have hdecl {d : Decl} (hd : d ∈ f.decls) : d.walk everywhere ⊆ f.nodes := fun n hn =>
    List.mem_cons_of_mem _ (List.mem_append_right _ (List.mem_flatMap.2 ⟨d, hd, hn⟩))
  obtain ⟨⟨hdomains, hmembers⟩, hbodies⟩ := h
  have hopen : Quoted f.nodes s (s.after (openScope f.mark Pos.none .package f.package.text)) :=
    .refl s
  refine ((hopen.trans (hdomains.quoted fun d hd {_ _} hrun => ?_)).trans
    (hmembers.quoted fun d hd {_ _} hrun => ?_)).trans (hbodies.quoted fun d hd {_ _} hrun => ?_)
  · cases hrun with
    | errorDomain hrun => exact hrun.quoted (hdecl hd)
    | var | func => exact .refl _
  · cases hrun with
    | errorDomain => exact .refl _
    | var hrun => exact hrun.quoted (hdecl hd)
    | func hrun => exact hrun.quoted (hdecl hd)
  · exact hrun.quoted (hdecl (File.mem_funcs.1 hd))

end Resolve

/-- All that is reported on a file quotes the file. -/
theorem Resolution.quotes_of_mem_reports {f : File} {r : ResolveReport}
    (h : r ∈ (Resolution.ofFile f).reports) : r.fault.Quotes f.nodes :=
  ((Resolve.run_file f {}).quoted r (List.mem_reverse.1 h)).resolve_left List.not_mem_nil

end FlowCheck
