import FlowCheck.Proofs.Scope.Growth
import FlowCheck.Resolve.File

/-!
# Runs of resolution

A run relates the states before and after a part of a program is resolved, with one rule for every
way in which that can go. Whatever is resolved has such a run, so what every rule preserves holds of
all resolutions: an induction over runs replaces one over the resolver.
-/
namespace FlowCheck

namespace Resolve

/-- Running `p` in `s` gives a result and a state that satisfy `Q`. -/
def Resolves {α : Type} (p : Resolver α) (s : State) (Q : α → State → Prop) : Prop :=
  Q (p s).1 (p s).2

/-- The state that a step leads to. -/
abbrev State.after {α : Type} (s : State) (p : Resolver α) : State := (p s).2

namespace Resolves

variable {α β : Type} {s : State} {Q : α → State → Prop} {R : β → State → Prop}

theorem pure {a : α} (h : Q a s) : Resolves (Pure.pure a) s Q := h

theorem bind {p : Resolver α} {f : α → Resolver β} (h : Resolves p s Q)
    (k : ∀ a t, Q a t → Resolves (f a) t R) : Resolves (p >>= f) s R := k _ _ h

theorem mono {p : Resolver α} {Q' : α → State → Prop} (h : Resolves p s Q)
    (k : ∀ a t, Q a t → Q' a t) : Resolves p s Q' := k _ _ h

theorem and {p : Resolver α} {Q' : α → State → Prop} (h : Resolves p s Q) (h' : Resolves p s Q') :
    Resolves p s fun a t => Q a t ∧ Q' a t := ⟨h, h'⟩

/-- A step of which nothing is known but that it is taken. -/
theorem step {p : Resolver α} {f : α → Resolver β} (h : Resolves (f (p s).1) (s.after p) R) :
    Resolves (p >>= f) s R := h

theorem discard {p : Resolver α} {f : Unit → Resolver β} (h : Resolves (f ()) (s.after p) R) :
    Resolves (discard p >>= f) s R := h

theorem get {f : State → Resolver β} (h : Resolves (f s) s R) :
    Resolves (MonadState.get >>= f) s R := h

theorem entity {f : Entity → Resolver β} {e : EntityId} (h : Resolves (f (s.tree.entity e)) s R) :
    Resolves (Resolve.entity e >>= f) s R := h

theorem find {f : Option EntityId → Resolver β} {name : String}
    (h : Resolves (f ((s.tree.resolve? (some s.here) name).map Prod.fst)) s R) :
    Resolves (Resolve.find name >>= f) s R := h

theorem followed {f : Option Var → Resolver β} {e : EntityId}
    (h : Resolves (f (s.tree.ownVar? e)) s R) : Resolves (Resolve.followed e >>= f) s R := h

end Resolves

/-! ### Names -/

/-- A name is bound to what it denotes, or reported. -/
inductive LookupRun (name : Ident) (s : State) : Option EntityId → State → Prop
  | found {e : EntityId} {i : ScopeId}
    (h : s.tree.resolve? (some s.here) name.text = some (e, i)) :
    LookupRun name s (some e) (s.after (bindUse name e))
  | undefined (h : s.tree.resolve? (some s.here) name.text = none) :
    LookupRun name s none (s.after (report name.mark.pos (.undefined name.text)))

/-- The effects with a read of an entity, if it is a variable to be followed. -/
def Effects.reading (a : Effects) (t : ScopeTree) (e : EntityId) (pos : Pos) : Effects :=
  (t.ownVar? e).elim a (a.read · pos)

/-- A name in an expression. -/
inductive NameRun (name : Ident) (a : Effects) (s : State) : Effects → State → Prop
  | undefined {t : State} (h : LookupRun name s none t) : NameRun name a s a t
  | constant {e : EntityId} {value : Bool} {t : State} (h : LookupRun name s (some e) t)
    (hk : (t.tree.entity e).kind = .const value) :
    NameRun name a s (a.reading t.tree e name.mark.pos)
      (t.after (addFact name.mark (.constant value)))
  | value {e : EntityId} {t : State} (h : LookupRun name s (some e) t)
    (hk : ∀ value, (t.tree.entity e).kind ≠ .const value) :
    NameRun name a s (a.reading t.tree e name.mark.pos) t

/-- A name that is called. -/
inductive CalleeRun (name : Ident) (a : Effects) (s : State) : Effects → State → Prop
  | undefined {t : State} (h : LookupRun name s none t) : CalleeRun name a s a t
  | function {e : EntityId} {t : State} (h : LookupRun name s (some e) t)
    (hk : (t.tree.entity e).kind = .func) :
    CalleeRun name a s (((t.tree.entity e).type.elim [] Typ.throws).foldl Effects.raise a) t
  | value {e : EntityId} {t : State} (h : LookupRun name s (some e) t)
    (hk : (t.tree.entity e).kind ≠ .func) :
    CalleeRun name a s (a.reading t.tree e name.mark.pos) t

/-- A name is selected from what may be an error domain. -/
inductive CodeRun (x : Expr) (sel : Ident) (s : State) : Option EntityId → State → Prop
  | code {name : Ident} {d code : EntityId} {i : ScopeId} (hx : x = .ident name)
    (h : s.tree.resolve? (some s.here) name.text = some (d, i)) (hd : (s.tree.entity d).IsDomain)
    (hc : s.tree.code? d sel.text = some code) :
    CodeRun x sel s (some code) ((s.after (bindUse name d)).after (bindUse sel code))
  | unknown {name : Ident} {d : EntityId} {i : ScopeId} (hx : x = .ident name)
    (h : s.tree.resolve? (some s.here) name.text = some (d, i)) (hd : (s.tree.entity d).IsDomain)
    (hc : s.tree.code? d sel.text = none) :
    CodeRun x sel s none ((s.after (bindUse name d)).after
      (report sel.mark.pos (.unknownCode (s.tree.entity d).name sel.text)))
  | noDomain (h : ∀ name d i, x = .ident name →
      s.tree.resolve? (some s.here) name.text = some (d, i) → ¬(s.tree.entity d).IsDomain) :
    CodeRun x sel s none s

/-! ### Expressions and types -/

/-- Expressions are evaluated one after another. -/
inductive ExprRun : List Expr → Effects → State → Effects → State → Prop
  | nil {a : Effects} {s : State} : ExprRun [] a s a s
  | cons {x : Expr} {xs : List Expr} {a b c : Effects} {s t u : State} (hx : ExprRun [x] a s b t)
    (hxs : ExprRun xs b t c u) : ExprRun (x :: xs) a s c u
  | name {name : Ident} {a b : Effects} {s t : State} (h : NameRun name a s b t) :
    ExprRun [.ident name] a s b t
  | literal {m : Mark} {k : LitKind} {text : String} {a : Effects} {s : State} :
    ExprRun [.literal m k text] a s a s
  | unary {m : Mark} {op : UnaryOp} {x : Expr} {a b : Effects} {s t : State}
    (h : ExprRun [x] a s b t) : ExprRun [.unary m op x] a s b t
  | binary {m : Mark} {op : BinaryOp} {x y : Expr} {a b c : Effects} {s t u : State}
    (hx : ExprRun [x] a s b t) (hy : ExprRun [y] b t c u) : ExprRun [.binary m op x y] a s c u
  | called {m : Mark} {name : Ident} {args : List Expr} {a b c : Effects} {s t u : State}
    (h : CalleeRun name a s b t) (hargs : ExprRun args b t c u) :
    ExprRun [.call m (.ident name) args] a s c u
  | call {m : Mark} {callee : Expr} {args : List Expr} {a b c : Effects} {s t u : State}
    (hn : ∀ name, callee ≠ .ident name) (h : ExprRun [callee] a s b t)
    (hargs : ExprRun args b t c u) : ExprRun [.call m callee args] a s c u
  | index {m : Mark} {x i : Expr} {a b c : Effects} {s t u : State} (hx : ExprRun [x] a s b t)
    (hi : ExprRun [i] b t c u) : ExprRun [.index m x i] a s c u
  | code {m : Mark} {x : Expr} {sel : Ident} {e : EntityId} {a : Effects} {s t : State}
    (h : CodeRun x sel s (some e) t) : ExprRun [.select m x sel] a s a t
  | select {m : Mark} {x : Expr} {sel : Ident} {a b : Effects} {s t u : State}
    (h : CodeRun x sel s none t) (hx : ExprRun [x] a t b u) : ExprRun [.select m x sel] a s b u
  | paren {m : Mark} {x : Expr} {a b : Effects} {s t : State} (h : ExprRun [x] a s b t) :
    ExprRun [.paren m x] a s b t
  | sliceType {m : Mark} {x : Expr} {a : Effects} {s : State} :
    ExprRun [.sliceType m x] a s a
      (s.after (report m.pos (.notAnExpr (Expr.sliceType m x).render)))

/-- A name that stands for a type; it is reported if it denotes something else. -/
inductive TypeNameRun (name : Ident) (fault : ResolveFault) (s : State) : State → Prop
  | undefined {t : State} (h : LookupRun name s none t) : TypeNameRun name fault s t
  | type {e : EntityId} {t : State} (h : LookupRun name s (some e) t)
    (hv : asVar e (t.tree.entity e) = none) : TypeNameRun name fault s t
  | other {e : EntityId} {t : State} (h : LookupRun name s (some e) t) :
    TypeNameRun name fault s (t.after (report name.mark.pos fault))

inductive ErrorTypeRun : Expr → State → State → Prop
  | name {name : Ident} {s t : State}
    (h : TypeNameRun name (.notAnErrorType (Expr.ident name).render) s t) :
    ErrorTypeRun (.ident name) s t
  | select {m : Mark} {x : Expr} {sel : Ident} {o : Option EntityId} {s t : State}
    (h : CodeRun x sel s o t) : ErrorTypeRun (.select m x sel) s t
  | misplaced {x : Expr} {s : State} (hi : ∀ name, x ≠ .ident name)
    (hs : ∀ m y sel, x ≠ .select m y sel) :
    ErrorTypeRun x s (s.after (report x.pos (.notAnErrorType x.render)))

inductive TypeRun : Expr → State → State → Prop
  | name {name : Ident} {s t : State} (h : TypeNameRun name (.notAType name.text) s t) :
    TypeRun (.ident name) s t
  | select {m : Mark} {x : Expr} {sel : Ident} {s t : State}
    (h : ErrorTypeRun (.select m x sel) s t) : TypeRun (.select m x sel) s t
  | slice {m : Mark} {x : Expr} {s t : State} (h : TypeRun x s t) : TypeRun (.sliceType m x) s t
  | misplaced {x : Expr} {s : State} (hi : ∀ name, x ≠ .ident name)
    (hs : ∀ m y sel, x ≠ .select m y sel) (ht : ∀ m y, x ≠ .sliceType m y) :
    TypeRun x s (s.after (report x.pos (.notAType x.render)))

/-! ### Simple statements -/

/-- What may be missing runs if it is there. -/
inductive OptionRun {α : Type} (R : α → State → State → Prop) : Option α → State → State → Prop
  | none {s : State} : OptionRun R none s s
  | some {x : α} {s t : State} (h : R x s t) : OptionRun R (some x) s t

/-- Declares a new variable in the open scope, which may be assigned at once. -/
def introduce (m : Mark) (name : Ident) (type : Option Typ) (assigned : Bool) : Resolver Unit := do
  let v ← newVar name .local type
  declare name v
  if assigned then assigns m v

/-- An expression that is a node of the flow graph by itself. -/
inductive CondRun (x : Expr) (s : State) : State → Prop
  | mk {a : Effects} {t : State} (h : ExprRun [x] {} s a t) : CondRun x s (t.after (record x.mark a))

inductive SimpleRun : Simple → State → State → Prop
  | expr {m : Mark} {x : Expr} {a : Effects} {s t : State} (h : ExprRun [x] {} s a t) :
    SimpleRun (.expr m x) s (t.after (record m a))
  | define {m : Mark} {name : Ident} {value : Expr} {a : Effects} {s t : State}
    (h : ExprRun [value] {} s a t) :
    SimpleRun (.assign m .define (.ident name) value) s
      ((t.after (record m a)).after (introduce m name (literalType? value) true))
  | undefinable {m : Mark} {target value : Expr} {a : Effects} {s t : State}
    (hn : ∀ name, target ≠ .ident name) (h : ExprRun [value] {} s a t) :
    SimpleRun (.assign m .define target value) s
      ((t.after (record m a)).after (report target.pos (.nonNameDefined target.render)))
  | set {m : Mark} {name : Ident} {value : Expr} {e : EntityId} {a : Effects} {s t u : State}
    (h : ExprRun [value] {} s a t) (hn : LookupRun name t (some e) u)
    (hv : (u.tree.entity e).varKind?.isSome) :
    SimpleRun (.assign m .set (.ident name) value) s
      ((u.after (assigns m e)).after (record m a))
  | setUndefined {m : Mark} {name : Ident} {value : Expr} {a : Effects} {s t u : State}
    (h : ExprRun [value] {} s a t) (hn : LookupRun name t none u) :
    SimpleRun (.assign m .set (.ident name) value) s (u.after (record m a))
  | setOther {m : Mark} {name : Ident} {value : Expr} {e : EntityId} {a : Effects} {s t u : State}
    (h : ExprRun [value] {} s a t) (hn : LookupRun name t (some e) u)
    (hv : (u.tree.entity e).varKind? = none) :
    SimpleRun (.assign m .set (.ident name) value) s
      ((u.after (report name.mark.pos (.notAssignable name.text))).after (record m a))
  | element {m k : Mark} {x i value : Expr} {a b : Effects} {s t u : State}
    (h : ExprRun [value] {} s a t) (hi : ExprRun [.index k x i] a t b u) :
    SimpleRun (.assign m .set (.index k x i) value) s (u.after (record m b))
  | unassignable {m : Mark} {target value : Expr} {a : Effects} {s t : State}
    (hn : ∀ name, target ≠ .ident name) (hi : ∀ k x i, target ≠ .index k x i)
    (h : ExprRun [value] {} s a t) :
    SimpleRun (.assign m .set target value) s
      ((t.after (report target.pos (.notAssignable target.render))).after (record m a))

/-- The statement after each round of a loop. -/
inductive PostRun : Simple → State → State → Prop
  | plain {x : Simple} {s t : State} (hx : ∀ m y z, x ≠ .assign m .define y z)
    (h : SimpleRun x s t) : PostRun x s t
  | define {m : Mark} {target value : Expr} {s t : State}
    (h : SimpleRun (.assign m .define target value) (s.after (report m.pos .defineInPost)) t) :
    PostRun (.assign m .define target value) s t

/-! ### Statements -/

/-- What is resolved at one go. -/
inductive Part where
  | stmt (x : Stmt)
  | stmtOption (x : Option Stmt)
  | stmts (xs : List Stmt)
  | block (b : Block)
  | blockOption (b : Option Block)
  | sections (close : Pos) (cs : List CaseClause)
  | handlers (cs : List CatchClause)

/-- What becomes of a state while a part of a function body is resolved. -/
inductive Run : Part → State → State → Prop
  | empty {m : Mark} {s : State} : Run (.stmt (.empty m)) s s
  | jump {m : Mark} {kind : Jump} {s : State} : Run (.stmt (.jump m kind)) s s
  | simple {x : Simple} {s t : State} (h : SimpleRun x s t) : Run (.stmt (.simple x)) s t
  | var {m : Mark} {d : VarDecl} {type : Option Typ} {a : Effects} {s t u : State}
    (hvalue : ExprRun d.value.toList {} s a t)
    (htype : OptionRun TypeRun d.type (t.after (record m a)) u) :
    Run (.stmt (.var m d)) s (u.after (introduce m d.name type d.value.isSome))
  | braces {b : Block} {s t : State} (h : Run (.block b) s t) : Run (.stmt (.block b)) s t
  | cond {m : Mark} {test : Expr} {yes : Block} {no : Option Stmt} {s t u v : State}
    (htest : CondRun test s t) (hyes : Run (.block yes) t u) (hno : Run (.stmtOption no) u v) :
    Run (.stmt (.cond m test yes no)) s v
  | loop {m : Mark} {init post : Option Simple} {test : Option Expr} {body : Block}
    {s t u v w : State} (hinit : OptionRun SimpleRun init (s.after (openScope m body.close .loop)) t)
    (htest : OptionRun CondRun test t u) (hpost : OptionRun PostRun post u v)
    (hbody : Run (.block body) v w) :
    Run (.stmt (.loop m init test post body)) s (w.after closeScope)
  | foreach {m : Mark} {name : Ident} {operand : Expr} {body : Block} {s t u : State}
    (hoperand : CondRun operand s t)
    (hbody : Run (.block body)
      ((t.after (openScope m body.close .foreach)).after (introduce m name none true)) u) :
    Run (.stmt (.foreach m name operand body)) s (u.after closeScope)
  | switch {m : Mark} {tag : Expr} {sections : List CaseClause} {close : Pos} {s t u : State}
    (htag : CondRun tag s t) (hsections : Run (.sections close sections) t u) :
    Run (.stmt (.switch m tag sections close)) s u
  | ret {m : Mark} {x : Option Expr} {a : Effects} {s t : State}
    (h : ExprRun x.toList {} s a t) : Run (.stmt (.ret m x)) s (t.after (record m a))
  | raise {m : Mark} {x : Expr} {a : Effects} {e : ErrorType} {s t : State}
    (h : ExprRun [x] {} s a t) : Run (.stmt (.raise m x)) s (t.after (record m (a.raise e)))
  | attempt {m : Mark} {body : Block} {handlers : List CatchClause} {cleanup : Option Block}
    {s t u v : State} (hbody : Run (.block body) s t) (hhandlers : Run (.handlers handlers) t u)
    (hcleanup : Run (.blockOption cleanup) u v) :
    Run (.stmt (.attempt m body handlers cleanup)) s v
  | noStmt {s : State} : Run (.stmtOption none) s s
  | someStmt {x : Stmt} {s t : State} (h : Run (.stmt x) s t) : Run (.stmtOption (some x)) s t
  | nil {s : State} : Run (.stmts []) s s
  | cons {x : Stmt} {xs : List Stmt} {s t u : State} (hx : Run (.stmt x) s t)
    (hxs : Run (.stmts xs) t u) : Run (.stmts (x :: xs)) s u
  | block {m : Mark} {body : List Stmt} {close : Pos} {s t : State}
    (h : Run (.stmts body) (s.after (openScope m close .block)) t) :
    Run (.block (.mk m body close)) s (t.after closeScope)
  | noBlock {s : State} : Run (.blockOption none) s s
  | someBlock {b : Block} {s t : State} (h : Run (.block b) s t) : Run (.blockOption (some b)) s t
  | noSections {close : Pos} {s : State} : Run (.sections close []) s s
  | sections {close : Pos} {m : Mark} {values : List Expr} {isDefault : Bool} {body : List Stmt}
    {cs : List CaseClause} {a : Effects} {s t u v : State} (hvalues : ExprRun values {} s a t)
    (hbody : Run (.stmts body) ((t.after (record m a)).after (openScope m close .case)) u)
    (hcs : Run (.sections close cs) (u.after closeScope) v) :
    Run (.sections close (.mk m values isDefault body :: cs)) s v
  | noHandlers {s : State} : Run (.handlers []) s s
  | bareHandler {m bodyMark : Mark} {body : List Stmt} {close : Pos} {cs : List CatchClause}
    {s t u : State}
    (hbody : Run (.stmts body)
      ((s.after (addFact m (.catches .any))).after (openScope m close .handler)) t)
    (hcs : Run (.handlers cs) ((t.after (shareScope bodyMark)).after closeScope) u) :
    Run (.handlers (.mk m none (.mk bodyMark body close) :: cs)) s u
  | namedHandler {m bodyMark : Mark} {name : Ident} {type : Expr} {accepted : ErrorType}
    {body : List Stmt} {close : Pos} {cs : List CatchClause} {s t u v : State}
    (htype : ErrorTypeRun type s t)
    (hbody : Run (.stmts body)
      (((t.after (addFact m (.catches accepted))).after (openScope m close .handler)).after
        (introduce m name (some (.error accepted)) true)) u)
    (hcs : Run (.handlers cs) ((u.after (shareScope bodyMark)).after closeScope) v) :
    Run (.handlers (.mk m (some (name, type)) (.mk bodyMark body close) :: cs)) s v

/-! ### Every resolution is a run -/

theorem run_lookup (name : Ident) (s : State) :
    Resolves (lookup name) s fun o t => LookupRun name s o t := by
  unfold lookup
  refine .find ?_
  cases h : s.tree.resolve? (some s.here) name.text with
  | none => exact .undefined h
  | some p => exact .found h

theorem readEntity_eq (a : Effects) (e : EntityId) (pos : Pos) (s : State) :
    readEntity a e pos s = (a.reading s.tree e pos, s) := by
  change Resolves (readEntity a e pos) s fun b t => (b, t) = _
  unfold readEntity Effects.reading
  refine .followed ?_
  cases s.tree.ownVar? e <;> exact .pure rfl

theorem run_nameExpr (name : Ident) (a : Effects) (s : State) :
    Resolves (nameExpr name a) s fun b t => NameRun name a s b t := by
  unfold nameExpr
  refine (run_lookup name s).bind fun o t ht => ?_
  cases o with
  | none => exact .pure (.undefined ht)
  | some e =>
    refine .entity ?_
    dsimp only
    split
    · rename_i value hk
      refine .step ?_
      rw [Resolves, readEntity_eq]
      exact .constant ht hk
    · rename_i hk
      rw [Resolves, readEntity_eq]
      exact .value ht hk

theorem run_calledName (name : Ident) (a : Effects) (s : State) :
    Resolves (calledName name a) s fun b t => CalleeRun name a s b t := by
  unfold calledName
  refine (run_lookup name s).bind fun o t ht => ?_
  cases o with
  | none => exact .pure (.undefined ht)
  | some e =>
    refine .entity ?_
    split
    · rename_i hk
      exact .pure (.function ht hk)
    · rename_i hk
      rw [Resolves, readEntity_eq]
      exact .value ht hk

theorem run_errorCode (x : Expr) (sel : Ident) (s : State) :
    Resolves (errorCode x sel) s fun o t => CodeRun x sel s o t := by
  unfold errorCode
  split
  · rename_i name
    refine .find ?_
    cases h : s.tree.resolve? (some s.here) name.text with
    | none =>
      refine .pure (.noDomain fun name' d i hx hr => ?_)
      cases hx
      rw [h] at hr
      cases hr
    | some p =>
      obtain ⟨d, i⟩ := p
      refine .entity ?_
      split
      · rename_i codes hk
        refine .step (.get ?_)
        split
        · rename_i code hc
          exact .code rfl h ⟨codes, hk⟩ hc
        · rename_i hc
          exact .unknown rfl h ⟨codes, hk⟩ hc
      · rename_i hk
        refine .pure (.noDomain fun name' d' i' hx hr => ?_)
        cases hx
        rw [h] at hr
        cases hr
        rintro ⟨codes, hd⟩
        exact hk codes hd
  · rename_i hx
    exact .pure (.noDomain fun name _ _ h => absurd h (hx name))

mutual

theorem run_expr (x : Expr) (a : Effects) (s : State) :
    Resolves (expr x a) s fun b t => ExprRun [x] a s b t := by
  match x with
  | .ident name => exact (run_nameExpr name a s).mono fun _ _ h => .name h
  | .literal .. => exact .pure .literal
  | .unary _ _ y => exact (run_expr y a s).mono fun _ _ h => .unary h
  | .binary _ _ y z =>
    refine (run_expr y a s).bind fun b t hy => ?_
    exact (run_expr z b t).mono fun _ _ hz => .binary hy hz
  | .call _ callee args =>
    unfold expr
    split
    · rename_i name
      refine (run_calledName name a s).bind fun b t h => ?_
      exact (run_exprs args b t).mono fun _ _ hargs => .called h hargs
    · rename_i hn
      refine (run_expr callee a s).bind fun b t h => ?_
      exact (run_exprs args b t).mono fun _ _ hargs => .call hn h hargs
  | .index _ y i =>
    refine (run_expr y a s).bind fun b t hy => ?_
    exact (run_expr i b t).mono fun _ _ hi => .index hy hi
  | .select _ y sel =>
    refine (run_errorCode y sel s).bind fun o t h => ?_
    cases o with
    | some code => exact .pure (.code h)
    | none => exact (run_expr y a t).mono fun _ _ hy => .select h hy
  | .paren _ y => exact (run_expr y a s).mono fun _ _ h => .paren h
  | .sliceType .. => exact .sliceType

theorem run_exprs (xs : List Expr) (a : Effects) (s : State) :
    Resolves (exprs xs a) s fun b t => ExprRun xs a s b t := by
  match xs with
  | [] => exact .pure .nil
  | x :: xs =>
    refine (run_expr x a s).bind fun b t h => ?_
    exact (run_exprs xs b t).mono fun _ _ hxs => .cons h hxs

end

theorem run_errorType (x : Expr) (s : State) :
    Resolves (errorType x) s fun _ t => ErrorTypeRun x s t := by
  unfold errorType
  split
  · rename_i name
    refine (run_lookup name s).bind fun o t h => ?_
    cases o with
    | none => exact .pure (.name (.undefined h))
    | some e =>
      refine .entity ?_
      cases herror : errorTypeOf? (t.tree.entity e) with
      | none => exact .step (.pure (.name (.other h)))
      | some c =>
        refine .pure (.name (.type h ?_))
        unfold errorTypeOf? at herror
        split at herror
        · cases herror
        · rename_i hv
          rw [asVar, Option.not_isSome_iff_eq_none.1 hv, Option.map_none]
  · rename_i m y sel
    refine (run_errorCode y sel s).bind fun o t h => ?_
    cases o with
    | none => exact .pure (.select h)
    | some code => exact .entity (.pure (.select h))
  · rename_i hi hs
    exact .step (.pure (.misplaced hi hs))

theorem asVar_eq_none {e : EntityId} {x : Entity} (h : ∀ k, x.kind ≠ .var k) : asVar e x = none := by
  unfold asVar Entity.varKind?
  split
  · rename_i k hk
    exact absurd hk (h k)
  · rfl

theorem run_typ (x : Expr) (s : State) : Resolves (typ x) s fun _ t => TypeRun x s t := by
  induction x using typ.induct with
  | case1 name =>
    rw [typ]
    refine (run_lookup name s).bind fun o t h => ?_
    cases o with
    | none => exact .pure (.name (.undefined h))
    | some e =>
      refine .entity ?_
      split
      · rename_i hk
        exact .pure (.name (.type h (asVar_eq_none (by simp [hk]))))
      · rename_i hk
        exact .pure (.name (.type h (asVar_eq_none (by simp [hk]))))
      · exact .step (.pure (.name (.other h)))
  | case2 m y sel => exact (run_errorType _ s).bind fun _ t h => .pure (.select h)
  | case3 m elem ih => exact ih.bind fun _ t h => .pure (.slice h)
  | case4 x hi hs ht =>
    unfold typ
    split
    · exact absurd rfl (hi _)
    · exact absurd rfl (hs _ _ _)
    · exact absurd rfl (ht _ _)
    · exact .step (.pure (.misplaced hi hs ht))

theorem run_varType (type value : Option Expr) (s : State) :
    Resolves (varType type value) s fun _ t => OptionRun TypeRun type s t := by
  cases type with
  | none => exact .pure .none
  | some x => exact (run_typ x s).bind fun _ t h => .pure (.some h)

/-- What each of its values does, an option does. -/
theorem run_option {α : Type} {R : α → State → State → Prop} {f : α → Resolver Unit}
    (h : ∀ x s, Resolves (f x) s fun _ t => R x s t) (o : Option α) (s : State) :
    Resolves (o.forM f) s fun _ t => OptionRun R o s t := by
  cases o with
  | none => exact .none
  | some x => exact .some (h x s)

theorem run_cond (x : Expr) (s : State) : Resolves (cond x) s fun _ t => CondRun x s t :=
  (run_expr x {} s).bind fun _ _ h => .mk h

theorem run_define (m : Mark) (target value : Expr) (s : State) :
    Resolves (define m target value) s fun _ t => SimpleRun (.assign m .define target value) s t := by
  refine (run_expr value {} s).bind fun a t h => .step ?_
  split
  · exact .define h
  · rename_i hn
    exact .undefinable hn h

theorem run_assign (m : Mark) (target value : Expr) (s : State) :
    Resolves (assign m target value) s fun _ t => SimpleRun (.assign m .set target value) s t := by
  refine (run_expr value {} s).bind fun a t h => ?_
  split
  · rename_i name
    refine (run_lookup name t).bind fun o u hn => ?_
    cases o with
    | none => exact .setUndefined h hn
    | some e =>
      refine .entity ?_
      dsimp only
      split
      · rename_i k hk
        exact .step (.set h hn (by rw [hk, Option.isSome_some]))
      · rename_i hk
        exact .step (.setOther h hn hk)
  · rename_i k x i
    exact (run_expr (.index k x i) a t).bind fun b u hi => .element h hi
  · rename_i hn hi
    exact .step (.unassignable hn hi h)

theorem run_simple (x : Simple) (s : State) :
    Resolves (simple x) s fun _ t => SimpleRun x s t := by
  match x with
  | .expr m y => exact (run_expr y {} s).bind fun _ _ h => .expr h
  | .assign m .define target value => exact run_define m target value s
  | .assign m .set target value => exact run_assign m target value s

theorem run_postStmt (x : Option Simple) (s : State) :
    Resolves (postStmt x) s fun _ t => OptionRun PostRun x s t := by
  match x with
  | none => exact .none
  | some (.assign m .define target value) =>
    exact .step ((run_define m target value _).mono fun _ t h => .some (.define h))
  | some (.assign m .set target value) =>
    exact (run_assign m target value s).mono fun _ t h => .some (.plain (by simp) h)
  | some (.expr m y) =>
    exact (run_simple (.expr m y) s).mono fun _ t h => .some (.plain (by simp) h)

theorem run_localVar (m : Mark) (d : VarDecl) (s : State) :
    Resolves (localVar m d) s fun _ t => Run (.stmt (.var m d)) s t := by
  have hrest {a : Effects} {t u : State} (h : ExprRun d.value.toList {} s a t)
      (hu : u = t.after (record m a)) : Resolves (do
        let v ← newVar d.name .local (← varType d.type d.value)
        declare d.name v
        if d.value.isSome then assigns m v) u fun _ v => Run (.stmt (.var m d)) s v := by
    subst hu
    exact (run_varType d.type d.value _).bind fun type v ht => .var h ht
  unfold localVar
  cases hvalue : d.value with
  | none =>
    rw [hvalue] at hrest
    exact hrest .nil rfl
  | some x =>
    rw [hvalue] at hrest
    exact (run_expr x {} s).bind fun a t h => .step (hrest (.cons h .nil) rfl)

mutual

theorem run_stmt (x : Stmt) (s : State) : Resolves (stmt x) s fun _ t => Run (.stmt x) s t := by
  match x with
  | .empty _ => exact .pure .empty
  | .jump .. => exact .pure .jump
  | .simple y => exact (run_simple y s).mono fun _ _ h => .simple h
  | .var m d => exact run_localVar m d s
  | .block b => exact (run_block b s).mono fun _ _ h => .braces h
  | .cond _ test yes no =>
    refine (run_cond test s).bind fun _ t htest => ?_
    refine (run_block yes t).bind fun _ u hyes => ?_
    exact (run_stmtOption no u).mono fun _ v hno => .cond htest hyes hno
  | .loop m init test post body =>
    refine .step ((run_option run_simple init _).bind fun _ t hinit => ?_)
    refine (run_option run_cond test t).bind fun _ u htest => ?_
    refine (run_postStmt post u).bind fun _ v hpost => ?_
    exact (run_block body v).bind fun _ w hbody => .loop hinit htest hpost hbody
  | .foreach m name operand body =>
    refine (run_cond operand s).bind fun _ t hoperand => .step (.step ?_)
    exact (run_block body _).bind fun _ u hbody => .foreach hoperand hbody
  | .switch _ tag sections close =>
    refine (run_cond tag s).bind fun _ t htag => ?_
    exact (run_sections close sections t).mono fun _ u hsections => .switch htag hsections
  | .ret m none => exact .pure (.ret (x := none) .nil)
  | .ret m (some y) => exact (run_expr y {} s).bind fun _ _ h => .ret (x := some y) h
  | .raise m y => exact (run_expr y {} s).bind fun _ t h => .step (.raise h)
  | .attempt _ body handlers cleanup =>
    refine (run_block body s).bind fun _ t hbody => ?_
    refine (run_handlers handlers t).bind fun _ u hhandlers => ?_
    exact (run_blockOption cleanup u).mono fun _ v hcleanup => .attempt hbody hhandlers hcleanup

theorem run_stmtOption (x : Option Stmt) (s : State) :
    Resolves (stmtOption x) s fun _ t => Run (.stmtOption x) s t := by
  match x with
  | none => exact .pure .noStmt
  | some x => exact (run_stmt x s).mono fun _ _ h => .someStmt h

theorem run_stmts (xs : List Stmt) (s : State) :
    Resolves (stmts xs) s fun _ t => Run (.stmts xs) s t := by
  match xs with
  | [] => exact .pure .nil
  | x :: xs =>
    refine (run_stmt x s).bind fun _ t hx => ?_
    exact (run_stmts xs t).mono fun _ u hxs => .cons hx hxs

theorem run_block (b : Block) (s : State) :
    Resolves (block b) s fun _ t => Run (.block b) s t := by
  match b with
  | .mk m body close => exact .step ((run_stmts body _).bind fun _ t h => .block h)

theorem run_blockOption (b : Option Block) (s : State) :
    Resolves (blockOption b) s fun _ t => Run (.blockOption b) s t := by
  match b with
  | none => exact .pure .noBlock
  | some b => exact (run_block b s).mono fun _ _ h => .someBlock h

theorem run_sections (close : Pos) (cs : List CaseClause) (s : State) :
    Resolves (caseClauses close cs) s fun _ t => Run (.sections close cs) s t := by
  match cs with
  | [] => exact .pure .noSections
  | .mk m values isDefault body :: cs =>
    have hclause : Resolves (caseClause close (.mk m values isDefault body)) s fun _ v =>
        ∃ a t u, ExprRun values {} s a t ∧ v = State.after u closeScope ∧
          Run (.stmts body) ((t.after (record m a)).after (openScope m close .case)) u :=
      (run_exprs values {} s).bind fun a t hvalues => .step (.step ((run_stmts body _).bind
        fun _ u hbody => ⟨a, t, u, hvalues, rfl, hbody⟩))
    refine hclause.bind fun _ v hv => ?_
    obtain ⟨a, t, u, hvalues, rfl, hbody⟩ := hv
    exact (run_sections close cs _).mono fun _ w hcs => .sections hvalues hbody hcs

theorem run_handlers (cs : List CatchClause) (s : State) :
    Resolves (catchClauses cs) s fun _ t => Run (.handlers cs) s t := by
  match cs with
  | [] => exact .pure .noHandlers
  | .mk m none (.mk bodyMark body close) :: cs =>
    have hclause : Resolves (catchClause (.mk m none (.mk bodyMark body close))) s fun _ u =>
        ∃ t, u = (State.after t (shareScope bodyMark)).after closeScope ∧
          Run (.stmts body)
            ((s.after (addFact m (.catches .any))).after (openScope m close .handler)) t := by
      unfold catchClause
      simp only [pure_bind]
      exact .step (.step ((run_stmts body _).bind fun _ t hbody => ⟨t, rfl, hbody⟩))
    refine hclause.bind fun _ u hu => ?_
    obtain ⟨t, rfl, hbody⟩ := hu
    exact (run_handlers cs _).mono fun _ v hcs => .bareHandler hbody hcs
  | .mk m (some (name, type)) (.mk bodyMark body close) :: cs =>
    have hclause : Resolves (catchClause (.mk m (some (name, type)) (.mk bodyMark body close))) s
        fun _ v => ∃ accepted t u, ErrorTypeRun type s t ∧
          v = (State.after u (shareScope bodyMark)).after closeScope ∧
          Run (.stmts body) (((t.after (addFact m (.catches accepted))).after
            (openScope m close .handler)).after
              (introduce m name (some (.error accepted)) true)) u :=
      (run_errorType type s).bind fun accepted t htype => .step (.step (.step
        ((run_stmts body _).bind fun _ u hbody => ⟨accepted, t, u, htype, rfl, hbody⟩)))
    refine hclause.bind fun _ v hv => ?_
    obtain ⟨accepted, t, u, htype, rfl, hbody⟩ := hv
    exact (run_handlers cs _).mono fun _ w hcs => .namedHandler htype hbody hcs

end

end Resolve

end FlowCheck
