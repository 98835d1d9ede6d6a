import FlowCheck.Proofs.Resolve.Run

/-!
# Runs of declarations

The declarations of a file are run through three times: for its error domains, for its package
variables and the signatures of its functions, and for the bodies of functions. Each time is a run
of its own for every declaration.
-/
namespace FlowCheck

/-- The entity of an error domain with the number `e`. -/
def ErrorDomainDecl.entity (d : ErrorDomainDecl) (e : EntityId) : Entity :=
  { kind := .errorDomain [], name := d.name.text, pos := d.name.mark.pos
    type := some (.error (.domain ⟨e, d.name.text⟩)) }

def Param.kind (p : Param) : VarKind := if p.out then .outParam else .param

/-- The entity of a function whose type is not known yet. -/
def FuncDecl.entity (d : FuncDecl) : Entity :=
  { kind := .func, name := d.name.text, pos := d.name.mark.pos }

namespace Resolve

/-- The members of a list run one after another. -/
inductive ListRun {α : Type} (R : α → State → State → Prop) : List α → State → State → Prop
  | nil {s : State} : ListRun R [] s s
  | cons {x : α} {xs : List α} {s t u : State} (hx : R x s t) (hxs : ListRun R xs t u) :
    ListRun R (x :: xs) s u

/-! ### Error domains and package variables -/

/-- A code of a domain, which may have a code of that name already. -/
inductive CodeDeclRun (domain : EntityId) (owner : String) (c : Ident) (s : State) : State → Prop
  | added {code : EntityId} {tree : ScopeTree}
    (h : s.tree.addCode domain c.mark.pos c.text = (code, true, tree)) :
    CodeDeclRun domain owner c s { s with tree, defs := (c.mark.id, code) :: s.defs }
  | taken {code : EntityId} {tree : ScopeTree}
    (h : s.tree.addCode domain c.mark.pos c.text = (code, false, tree)) :
    CodeDeclRun domain owner c s (s.after (report c.mark.pos (.redeclaredCode c.text owner)))

inductive ErrorDomainRun (d : ErrorDomainDecl) (s : State) : State → Prop
  | mk {t : State} (hcodes : ListRun (CodeDeclRun s.tree.entities.size d.name.text) d.codes
      ((s.after (newEntity (d.entity s.tree.entities.size))).after
        (declare d.name s.tree.entities.size)) t) : ErrorDomainRun d s t

/-- A package variable is introduced after its value and its type. -/
inductive GlobalRun (d : VarDecl) (s : State) : State → Prop
  | mk {type : Option Typ} {a : Effects} {t u : State} (hvalue : ExprRun d.value.toList {} s a t)
    (htype : OptionRun TypeRun d.type t u) :
    GlobalRun d s (u.after (introduce d.mark d.name type false))

/-! ### Signatures -/

/-- A parameter is made after its type, and put into no scope. -/
inductive ParamRun (p : Param) (s : State) : EntityId × VarKind × Typ → State → Prop
  | mk {type : Typ} {t : State} (htype : TypeRun p.type s t) :
    ParamRun p s (t.tree.entities.size, p.kind, type)
      (t.after (newVar p.name p.kind (some type)))

inductive ParamsRun : List Param → State → List (EntityId × VarKind × Typ) → State → Prop
  | nil {s : State} : ParamsRun [] s [] s
  | cons {p : Param} {ps : List Param} {r : EntityId × VarKind × Typ}
    {rs : List (EntityId × VarKind × Typ)} {s t u : State} (hp : ParamRun p s r t)
    (hps : ParamsRun ps t rs u) : ParamsRun (p :: ps) s (r :: rs) u

/-- The state once the type of a function is known. -/
def State.typed (s : State) (d : FuncDecl) (fn : EntityId) (type : Typ) (entry : FuncEntry) : State :=
  { s with
    tree := s.tree.setEntity fn fun e => { e with type := some type }
    funcs := (d.mark.id, entry) :: s.funcs }

/-- A function is declared before its signature is resolved. -/
inductive FuncRun (d : FuncDecl) (s : State) : State → Prop
  | mk {params : List (EntityId × VarKind × Typ)} {result : Option Typ} {throws : List ErrorType}
    {t u v : State}
    (hparams : ParamsRun d.params
      ((s.after (newEntity d.entity)).after (declare d.name s.tree.entities.size))
      params t)
    (hresult : OptionRun TypeRun d.result t u) (hthrows : ListRun ErrorTypeRun d.throws u v) :
    FuncRun d s (v.typed d s.tree.entities.size (.func (params.map Prod.snd) result throws)
      ⟨s.tree.entities.size, params.map Prod.fst, result⟩)

/-! ### Bodies and files -/

/-- A parameter is put into the scope of its function. It is assigned on entry, or read where the
body ends. -/
inductive BodyParamRun (d : FuncDecl) (name : Ident) (e : EntityId) (s : State) : State → Prop
  | other (hv : asVar e ((s.after (declare name e)).tree.entity e) = none) :
    BodyParamRun d name e s (s.after (declare name e))
  | out {v : Var} (hv : asVar e ((s.after (declare name e)).tree.entity e) = some v)
    (hk : v.kind = .outParam) :
    BodyParamRun d name e s
      ((s.after (declare name e)).after (addFact d.body.mark (.reads ⟨v, d.body.close⟩)))
  | assigned {v : Var} (hv : asVar e ((s.after (declare name e)).tree.entity e) = some v)
    (hk : v.kind ≠ .outParam) :
    BodyParamRun d name e s ((s.after (declare name e)).after (addFact d.mark (.assigns v)))

/-- The parameters that the table of functions has for a function. -/
def idsOf (funcs : List (Nat × FuncEntry)) (d : FuncDecl) : List EntityId :=
  (funcs.lookup d.mark.id).elim [] FuncEntry.params

/-- A body shares the scope of the parameters. -/
inductive BodyRun (d : FuncDecl) (s : State) : State → Prop
  | mk {t u : State}
    (hparams : ListRun (fun q => BodyParamRun d q.1.name q.2) (d.params.zip (idsOf s.funcs d))
      (s.after (openScope d.mark d.body.close .function d.name.text)) t)
    (hbody : Run (.stmts d.body.stmts) (t.after (shareScope d.body.mark)) u) :
    BodyRun d s (u.after closeScope)

/-- The first time, error domains are declared. -/
inductive DomainsRun : Decl → State → State → Prop
  | errorDomain {d : ErrorDomainDecl} {s t : State} (h : ErrorDomainRun d s t) :
    DomainsRun (.errorDomain d) s t
  | var {d : VarDecl} {s : State} : DomainsRun (.var d) s s
  | func {d : FuncDecl} {s : State} : DomainsRun (.func d) s s

/-- The second time, all the others are. -/
inductive MembersRun : Decl → State → State → Prop
  | errorDomain {d : ErrorDomainDecl} {s : State} : MembersRun (.errorDomain d) s s
  | var {d : VarDecl} {s t : State} (h : GlobalRun d s t) : MembersRun (.var d) s t
  | func {d : FuncDecl} {s t : State} (h : FuncRun d s t) : MembersRun (.func d) s t

/-- Everything before the function bodies. -/
inductive HeadsRun (f : File) (s : State) : State → Prop
  | mk {t u : State}
    (hdomains : ListRun DomainsRun f.decls
      (s.after (openScope f.mark Pos.none .package f.package.text)) t)
    (hmembers : ListRun MembersRun f.decls t u) : HeadsRun f s u

inductive FileRun (f : File) (s : State) : State → Prop
  | mk {t u : State} (hheads : HeadsRun f s t) (hbodies : ListRun BodyRun f.funcs t u) :
    FileRun f s u

/-! ### Every resolution is a run -/

section

variable {α β : Type} {R : α → State → State → Prop}

theorem run_forM {f : α → Resolver Unit} (h : ∀ x s, Resolves (f x) s fun _ t => R x s t)
    (xs : List α) (s : State) : Resolves (xs.forM f) s fun _ t => ListRun R xs s t := by
  induction xs generalizing s with
  | nil => exact .pure .nil
  | cons x xs ih => exact (h x s).bind fun _ t hx => (ih t).mono fun _ u hxs => .cons hx hxs

theorem run_mapM {f : α → Resolver β} (h : ∀ x s, Resolves (f x) s fun _ t => R x s t)
    (xs : List α) (s : State) : Resolves (xs.mapM f) s fun _ t => ListRun R xs s t := by
  induction xs generalizing s with
  | nil => exact .pure .nil
  | cons x xs ih =>
    rw [List.mapM_cons]
    exact (h x s).bind fun _ t hx => (ih t).bind fun _ u hxs => .pure (.cons hx hxs)

end

theorem run_errorDomainDecl (d : ErrorDomainDecl) (s : State) :
    Resolves (errorDomainDecl d) s fun _ t => ErrorDomainRun d s t := by
  refine .step (.step ?_)
  refine (run_forM (R := CodeDeclRun s.tree.entities.size d.name.text) (fun c t => ?_) d.codes
    _).mono fun _ t h => .mk h
  refine .get ?_
  split
  · rename_i h
    exact .taken h
  · rename_i h
    exact .added h

theorem run_globalVar (d : VarDecl) (s : State) :
    Resolves (globalVar d) s fun _ t => GlobalRun d s t := by
  have hrest {a : Effects} {t : State} (h : ExprRun d.value.toList {} s a t) : Resolves (do
      let v ← newVar d.name .local (← varType d.type d.value)
      declare d.name v) t fun _ u => GlobalRun d s u :=
    (run_varType d.type d.value t).bind fun type u ht => .mk h ht
  unfold globalVar
  cases hvalue : d.value with
  | none =>
    rw [hvalue] at hrest
    exact hrest .nil
  | some x =>
    rw [hvalue] at hrest
    have hx : ExprRun [x] {} s (expr x {} s).1 (s.after (expr x {})) := run_expr x {} s
    exact .discard (hrest hx)

theorem run_param (p : Param) (s : State) : Resolves (param p) s fun r t => ParamRun p s r t :=
  (run_typ p.type s).bind fun _ _ h => .mk h

theorem run_params (ps : List Param) (s : State) :
    Resolves (ps.mapM param) s fun rs t => ParamsRun ps s rs t := by
  induction ps generalizing s with
  | nil => exact .pure .nil
  | cons p ps ih =>
    rw [List.mapM_cons]
    exact (run_param p s).bind fun r t hp => (ih t).bind fun rs u hps => .pure (.cons hp hps)

theorem run_result (x : Option Expr) (s : State) :
    Resolves (x.mapM typ) s fun _ t => OptionRun TypeRun x s t := by
  cases x with
  | none => exact .pure .none
  | some x => exact (run_typ x s).bind fun _ t h => .pure (.some h)

theorem run_funcDecl (d : FuncDecl) (s : State) :
    Resolves (funcDecl d) s fun _ t => FuncRun d s t := by
  refine .step (.step ?_)
  refine (run_params d.params _).bind fun params t hparams => ?_
  refine (run_result d.result t).bind fun result u hresult => ?_
  refine (run_mapM run_errorType d.throws u).bind fun throws v hthrows => ?_
  exact .mk hparams hresult hthrows

theorem run_bodyParam (d : FuncDecl) (name : Ident) (e : EntityId) (s : State) :
    Resolves (bodyParam d name e) s fun _ t => BodyParamRun d name e s t := by
  refine .step (.entity ?_)
  split
  · rename_i hv
    exact .other hv
  · rename_i hv
    split
    · exact .out hv ‹_›
    · exact .assigned hv ‹_›

theorem run_funcBody (d : FuncDecl) (s : State) :
    Resolves (funcBody d) s fun _ t => BodyRun d s t := by
  unfold funcBody
  refine .get (.step ?_)
  refine (run_forM (R := fun q t u => BodyParamRun d q.1.name q.2 t u) ?_
    (d.params.zip (idsOf s.funcs d)) _).bind fun _ t hparams => .step ?_
  · rintro ⟨p, e⟩ t
    exact run_bodyParam d p.name e t
  · exact (run_stmts d.body.stmts _).bind fun _ u hbody => .mk hparams hbody

theorem run_heads (f : File) (s : State) :
    Resolves (do
      openScope f.mark Pos.none .package f.package.text
      f.decls.forM fun
        | .errorDomain d => errorDomainDecl d
        | _ => return
      f.decls.forM fun
        | .func d => funcDecl d
        | .var d => globalVar d
        | _ => return) s fun _ t => HeadsRun f s t := by
  refine .step ((run_forM (R := DomainsRun) (fun d t => ?_) f.decls _).bind fun _ t hdomains => ?_)
  · cases d with
    | errorDomain d => exact (run_errorDomainDecl d t).mono fun _ u h => .errorDomain h
    | var d => exact .var
    | func d => exact .func
  · refine (run_forM (R := MembersRun) (fun d u => ?_) f.decls t).mono fun _ u hmembers =>
      .mk hdomains hmembers
    cases d with
    | errorDomain d => exact .errorDomain
    | var d => exact (run_globalVar d u).mono fun _ v h => .var h
    | func d => exact (run_funcDecl d u).mono fun _ v h => .func h

theorem run_file (f : File) (s : State) : FileRun f s (s.after (file f)) := by
  change Resolves (file f) s fun _ t => FileRun f s t
  exact (run_heads f s).bind fun _ t hheads =>
    (run_forM run_funcBody f.funcs t).mono fun _ u hbodies => .mk hheads hbodies

end Resolve

end FlowCheck
