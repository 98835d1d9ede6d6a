import FlowCheck.Proofs.Tree.Carrier
import FlowCheck.Scope.Basic

/-!
# Lexical scoping

What a name may refer to, read off the tree alone. At each place of a function there is a list of
frames, one for each scope around it, and a frame has the names declared so far in its scope. A
name refers to the first declaration of its text in the innermost frame that has one. The frame of
the package stands outermost; beyond it there are the predeclared names.
-/
namespace FlowCheck

/-- The names that a scope declares, oldest first. -/
abbrev Frame := List Ident

/-- The scopes around a place, innermost first. -/
abbrev Frames := List Frame

/-- Adds names to the innermost scope. -/
def Frames.declare (fs : Frames) (names : List Ident) : Frames :=
  match fs with
  | [] => []
  | f :: fs => (f ++ names) :: fs

inductive OccurrenceKind where
  /-- An operand, the target of an assignment, or a type written as a name. -/
  | named
  /-- What an error type selects from, written as a name. -/
  | qualifier
  /-- Below what an error type selects from, which is not written as a name. -/
  | beneath
  /-- Selected from an operand or an error domain. -/
  | selected
  | declared
  /-- Below an expression that may not stand where it does. -/
  | misplaced
  deriving DecidableEq, Repr

/-- A name where it stands, with the scopes around it. -/
structure Occurrence where
  name : Ident
  kind : OccurrenceKind
  frames : Frames

/-- The entity that is known under a name without any declaration. -/
def predeclared? (text : String) : Option EntityId :=
  (ScopeTree.initial.scope ScopeTree.root).find? text

namespace Occurrence

/-- The first declaration in the innermost scope that has one. -/
def declaration? (o : Occurrence) : Option Ident :=
  o.frames.findSome? fun frame => frame.find? (·.text == o.name.text)

/-- By the entities that declaring names stand for, the entity is the one referred to. -/
def Denotes (defs : List (Nat × EntityId)) (o : Occurrence) (e : EntityId) : Prop :=
  match o.declaration? with
  | some d => (d.mark.id, e) ∈ defs
  | none => predeclared? o.name.text = some e

/-- There is nothing to refer to. -/
def Undeclared (o : Occurrence) : Prop :=
  o.declaration? = none ∧ predeclared? o.name.text = none

theorem Denotes.mono {defs defs' : List (Nat × EntityId)} {o : Occurrence} {e : EntityId}
    (h : o.Denotes defs e) (hd : defs ⊆ defs') : o.Denotes defs' e := by
  unfold Denotes at h ⊢
  cases hdecl : o.declaration? with
  | some d =>
    rw [hdecl] at h
    exact hd h
  | none =>
    rw [hdecl] at h
    exact h

theorem Undeclared.not_denotes {defs : List (Nat × EntityId)} {o : Occurrence} {e : EntityId}
    (h : o.Undeclared) : ¬ o.Denotes defs e := by
  rw [Denotes, h.1]
  simp [h.2]

end Occurrence

/-! ### The names of a tree -/

/-- All names of an expression, as occurrences of one kind. -/
def Expr.throughout (kind : OccurrenceKind) (fs : Frames) (x : Expr) : List Occurrence :=
  (idents (x.walk everywhere)).map fun name => ⟨name, kind, fs⟩

mutual

def Expr.occurrences (fs : Frames) : Expr → List Occurrence
  | .ident name => [⟨name, .named, fs⟩]
  | .literal .. => []
  | .unary _ _ x => x.occurrences fs
  | .binary _ _ x y => x.occurrences fs ++ y.occurrences fs
  | .call _ callee args => callee.occurrences fs ++ Expr.occurrencesList fs args
  | .index _ x i => x.occurrences fs ++ i.occurrences fs
  | .select _ x sel => x.occurrences fs ++ [⟨sel, .selected, fs⟩]
  | .paren _ x => x.occurrences fs
  | .sliceType _ elem => elem.throughout .misplaced fs

def Expr.occurrencesList (fs : Frames) : List Expr → List Occurrence
  | [] => []
  | x :: rest => x.occurrences fs ++ Expr.occurrencesList fs rest

end

def Expr.occurrencesOption (fs : Frames) (x : Option Expr) : List Occurrence :=
  x.elim [] (·.occurrences fs)

@[simp] theorem Expr.occurrencesList_singleton (fs : Frames) (x : Expr) :
    Expr.occurrencesList fs [x] = x.occurrences fs := List.append_nil _

@[simp] theorem Expr.occurrencesList_toList (fs : Frames) (x : Option Expr) :
    Expr.occurrencesList fs x.toList = Expr.occurrencesOption fs x := by
  cases x with
  | none => rfl
  | some x => exact occurrencesList_singleton fs x

/-- An expression that an error type selects from. -/
def Expr.qualifierOccurrences (fs : Frames) : Expr → List Occurrence
  | .ident name => [⟨name, .qualifier, fs⟩]
  | x => x.throughout .beneath fs

/-- An expression that stands for an error type. -/
def Expr.errorOccurrences (fs : Frames) : Expr → List Occurrence
  | .ident name => [⟨name, .named, fs⟩]
  | .select _ x sel => x.qualifierOccurrences fs ++ [⟨sel, .selected, fs⟩]
  | x => x.throughout .misplaced fs

/-- An expression that stands for a type. -/
def Expr.typeOccurrences (fs : Frames) : Expr → List Occurrence
  | .sliceType _ elem => elem.typeOccurrences fs
  | x => x.errorOccurrences fs

def Expr.typeOccurrencesOption (fs : Frames) (x : Option Expr) : List Occurrence :=
  x.elim [] (·.typeOccurrences fs)

/-- An expression that an assignment changes or introduces. -/
def Expr.targetOccurrences (fs : Frames) : AssignOp → Expr → List Occurrence
  | .set, .ident name => [⟨name, .named, fs⟩]
  | .define, .ident name => [⟨name, .declared, fs⟩]
  | .set, .index m x i => (Expr.index m x i).occurrences fs
  | _, x => x.throughout .misplaced fs

namespace Simple

def declares : Simple → List Ident
  | .assign _ .define (.ident name) _ => [name]
  | _ => []

def occurrences (fs : Frames) : Simple → List Occurrence
  | .expr _ x => x.occurrences fs
  | .assign _ op target value => target.targetOccurrences fs op ++ value.occurrences fs

def declaresOption (s : Option Simple) : List Ident := s.elim [] declares

def occurrencesOption (fs : Frames) (s : Option Simple) : List Occurrence :=
  s.elim [] (occurrences fs)

end Simple

def VarDecl.occurrences (fs : Frames) (d : VarDecl) : List Occurrence :=
  ⟨d.name, .declared, fs⟩ ::
    (Expr.typeOccurrencesOption fs d.type ++ Expr.occurrencesOption fs d.value)

mutual

/-- What a statement declares in the scope where it stands. -/
def Stmt.declares : Stmt → List Ident
  | .simple s => s.declares
  | .var _ d => [d.name]
  | .cond _ _ _ no => Stmt.declaresOption no
  | _ => []

def Stmt.declaresOption : Option Stmt → List Ident
  | none => []
  | some s => s.declares

end

mutual

/-- The names of a statement in source order. A declaration is in the frame of its scope from the
next statement on; a loop, a case section, a handler and a block have scopes of their own. -/
def Stmt.occurrences : Stmt → Frames → List Occurrence
  | .empty _, _ => []
  | .jump .., _ => []
  | .simple s, fs => s.occurrences fs
  | .var _ d, fs => d.occurrences fs
  | .block b, fs => b.occurrences fs
  | .cond _ test yes no, fs =>
    test.occurrences fs ++ yes.occurrences fs ++ Stmt.occurrencesOption no fs
  | .loop _ init test post body, fs =>
    let started := Simple.declaresOption init
    Simple.occurrencesOption ([] :: fs) init ++ Expr.occurrencesOption (started :: fs) test ++
      Simple.occurrencesOption (started :: fs) post ++
      body.occurrences ((started ++ Simple.declaresOption post) :: fs)
  | .foreach _ name operand body, fs =>
    ⟨name, .declared, [] :: fs⟩ :: (operand.occurrences fs ++ body.occurrences ([name] :: fs))
  | .switch _ tag sections _, fs =>
    tag.occurrences fs ++ CaseClause.occurrencesList sections fs
  | .ret _ result, fs => Expr.occurrencesOption fs result
  | .raise _ x, fs => x.occurrences fs
  | .attempt _ body handlers cleanup, fs =>
    body.occurrences fs ++ CatchClause.occurrencesList handlers fs ++
      Block.occurrencesOption cleanup fs

def Stmt.occurrencesOption : Option Stmt → Frames → List Occurrence
  | none, _ => []
  | some s, fs => s.occurrences fs

def Stmt.occurrencesList : List Stmt → Frames → List Occurrence
  | [], _ => []
  | s :: rest, fs => s.occurrences fs ++ Stmt.occurrencesList rest (fs.declare s.declares)

def Block.occurrences : Block → Frames → List Occurrence
  | .mk _ stmts _, fs => Stmt.occurrencesList stmts ([] :: fs)

def Block.occurrencesOption : Option Block → Frames → List Occurrence
  | none, _ => []
  | some b, fs => b.occurrences fs

def CaseClause.occurrencesList : List CaseClause → Frames → List Occurrence
  | [], _ => []
  | .mk _ values _ body :: cs, fs =>
    Expr.occurrencesList fs values ++ Stmt.occurrencesList body ([] :: fs) ++
      CaseClause.occurrencesList cs fs

/-- The variable of a handler is declared where the scope of its body begins. -/
def CatchClause.occurrencesList : List CatchClause → Frames → List Occurrence
  | [], _ => []
  | .mk _ none (.mk _ body _) :: cs, fs =>
    Stmt.occurrencesList body ([] :: fs) ++ CatchClause.occurrencesList cs fs
  | .mk _ (some (name, type)) (.mk _ body _) :: cs, fs =>
    ⟨name, .declared, [] :: fs⟩ :: (type.errorOccurrences fs ++
      Stmt.occurrencesList body ([name] :: fs)) ++ CatchClause.occurrencesList cs fs

end

namespace FuncDecl

/-- The scopes around the body of a function of a package that declares the names `outline`. -/
def frames (d : FuncDecl) (outline : Frame) : Frames := [d.params.map Param.name, outline]

/-- The names of a signature but for those of the parameters. -/
def signatureOccurrences (fs : Frames) (d : FuncDecl) : List Occurrence :=
  ⟨d.name, .declared, fs⟩ :: (d.params.flatMap (·.type.typeOccurrences fs) ++
    Expr.typeOccurrencesOption fs d.result ++ d.throws.flatMap (Expr.errorOccurrences fs))

/-- The names of a body. -/
def bodyOccurrences (outline : Frame) (d : FuncDecl) : List Occurrence :=
  Stmt.occurrencesList d.body.stmts (d.frames outline)

/-- The parameters, which share the scope of the body, and the names of the body. -/
def innerOccurrences (outline : Frame) (d : FuncDecl) : List Occurrence :=
  (d.params.map fun p => ⟨p.name, .declared, [[], outline]⟩) ++ d.bodyOccurrences outline

end FuncDecl

namespace Decl

/-- The error domains of a package are declared before all else. -/
def domains : Decl → List Ident
  | .errorDomain d => [d.name]
  | _ => []

def members : Decl → List Ident
  | .errorDomain _ => []
  | .var d => [d.name]
  | .func d => [d.name]

def domainOccurrences : Decl → List Occurrence
  | .errorDomain d => (d.name :: d.codes).map fun name => ⟨name, .declared, []⟩
  | _ => []

/-- The names of a package variable or signature; a function is in scope in its own signature. -/
def memberOccurrences (fs : Frames) : Decl → List Occurrence
  | .errorDomain _ => []
  | .var d => d.occurrences fs
  | .func d => d.signatureOccurrences (fs.declare [d.name])

def memberOccurrencesList : List Decl → Frames → List Occurrence
  | [], _ => []
  | d :: rest, fs => d.memberOccurrences fs ++ memberOccurrencesList rest (fs.declare d.members)

end Decl

namespace File

/-- What the file declares in the scope of the package. -/
def outline (f : File) : Frame := f.decls.flatMap Decl.domains ++ f.decls.flatMap Decl.members

def headOccurrences (f : File) : List Occurrence :=
  f.decls.flatMap Decl.domainOccurrences ++
    Decl.memberOccurrencesList f.decls [f.decls.flatMap Decl.domains]

/-- All names of a file but that of its package. -/
def occurrences (f : File) : List Occurrence :=
  f.headOccurrences ++ f.funcs.flatMap (FuncDecl.innerOccurrences f.outline)

end File

/-! ### Each name once -/

/-- The occurrences are those of the names among the nodes, one for each, and what is marked as
selected is. -/
structure Surveys (walk : List Node) (os : List Occurrence) : Prop where
  names : os.map Occurrence.name = idents walk
  selected : ∀ o ∈ os, o.kind = .selected → ∃ m x, .expr (.select m x o.name) ∈ walk

namespace Surveys

variable {w v : List Node} {os os' : List Occurrence} {n : Node} {k : OccurrenceKind}

theorem nil : Surveys [] [] := ⟨rfl, by simp⟩

theorem append (h : Surveys w os) (h' : Surveys v os') : Surveys (w ++ v) (os ++ os') := by
  refine ⟨by rw [List.map_append, h.names, h'.names, idents_append], fun o ho hk => ?_⟩
  rcases List.mem_append.1 ho with ho | ho
  · obtain ⟨m, x, hx⟩ := h.selected o ho hk
    exact ⟨m, x, List.mem_append_left _ hx⟩
  · obtain ⟨m, x, hx⟩ := h'.selected o ho hk
    exact ⟨m, x, List.mem_append_right _ hx⟩

theorem above (h : Surveys w os) (hn : n.ident? = none) : Surveys (n :: w) os := by
  refine ⟨by rw [idents_cons_of_none hn, h.names], fun o ho hk => ?_⟩
  obtain ⟨m, x, hx⟩ := h.selected o ho hk
  exact ⟨m, x, List.mem_cons_of_mem _ hx⟩

theorem ident (name : Ident) (fs : Frames) (hk : k ≠ .selected) :
    Surveys name.walk [⟨name, k, fs⟩] :=
  ⟨rfl, by simp [hk]⟩

theorem throughout (x : Expr) (fs : Frames) (hk : k ≠ .selected) :
    Surveys (x.walk everywhere) (x.throughout k fs) := by
  refine ⟨by simp [Expr.throughout, Function.comp_def], fun o ho h => ?_⟩
  obtain ⟨name, -, rfl⟩ := List.mem_map.1 ho
  exact absurd h hk

theorem select (h : Surveys w os) (m : Mark) (x : Expr) (sel : Ident) (fs : Frames) :
    Surveys (.expr (.select m x sel) :: (w ++ sel.walk)) (os ++ [⟨sel, .selected, fs⟩]) := by
  refine ⟨?_, fun o ho hk => ?_⟩
  · rw [idents_cons_of_none rfl, idents_append, List.map_append, h.names]
    rfl
  · rcases List.mem_append.1 ho with ho | ho
    · obtain ⟨m', x', hx⟩ := h.selected o ho hk
      exact ⟨m', x', List.mem_cons_of_mem _ (List.mem_append_left _ hx)⟩
    · obtain rfl := List.mem_singleton.1 ho
      exact ⟨m, x, List.mem_cons_self⟩

end Surveys

mutual

theorem surveys_expr (fs : Frames) (x : Expr) :
    Surveys (x.walk everywhere) (x.occurrences fs) := by
  match x with
  | .ident name => exact .ident name fs (by decide)
  | .literal .. => exact Surveys.nil.above rfl
  | .unary _ _ y => exact (surveys_expr fs y).above rfl
  | .binary _ _ y z => exact ((surveys_expr fs y).append (surveys_expr fs z)).above rfl
  | .call _ callee args => exact ((surveys_expr fs callee).append (surveys_exprs fs args)).above rfl
  | .index _ y i => exact ((surveys_expr fs y).append (surveys_expr fs i)).above rfl
  | .select m y sel => exact (surveys_expr fs y).select m y sel fs
  | .paren _ y => exact (surveys_expr fs y).above rfl
  | .sliceType _ y => exact (Surveys.throughout y fs (by decide)).above rfl

theorem surveys_exprs (fs : Frames) (xs : List Expr) :
    Surveys (Expr.walkList everywhere xs) (Expr.occurrencesList fs xs) := by
  match xs with
  | [] => exact .nil
  | x :: xs => exact (surveys_expr fs x).append (surveys_exprs fs xs)

end

theorem surveys_exprOption (fs : Frames) (x : Option Expr) :
    Surveys (Expr.walkOption everywhere x) (Expr.occurrencesOption fs x) := by
  cases x with
  | none => exact .nil
  | some x => exact surveys_expr fs x

theorem surveys_qualifier (fs : Frames) (x : Expr) :
    Surveys (x.walk everywhere) (x.qualifierOccurrences fs) := by
  unfold Expr.qualifierOccurrences
  split
  · exact .ident _ fs (by decide)
  · exact .throughout _ fs (by decide)

theorem surveys_errorType (fs : Frames) (x : Expr) :
    Surveys (x.walk everywhere) (x.errorOccurrences fs) := by
  unfold Expr.errorOccurrences
  split
  · exact .ident _ fs (by decide)
  · exact (surveys_qualifier fs _).select _ _ _ fs
  · exact .throughout _ fs (by decide)

theorem surveys_type (fs : Frames) (x : Expr) :
    Surveys (x.walk everywhere) (x.typeOccurrences fs) := by
  fun_induction Expr.typeOccurrences fs x with
  | case1 m elem ih => exact ih.above rfl
  | case2 x => exact surveys_errorType fs x

theorem surveys_typeOption (fs : Frames) (x : Option Expr) :
    Surveys (Expr.walkOption everywhere x) (Expr.typeOccurrencesOption fs x) := by
  cases x with
  | none => exact .nil
  | some x => exact surveys_type fs x

theorem surveys_target (fs : Frames) (op : AssignOp) (x : Expr) :
    Surveys (x.walk everywhere) (x.targetOccurrences fs op) := by
  unfold Expr.targetOccurrences
  split
  · exact .ident _ fs (by decide)
  · exact .ident _ fs (by decide)
  · exact surveys_expr fs _
  · exact .throughout _ fs (by decide)

theorem surveys_simple (fs : Frames) (s : Simple) :
    Surveys (s.walk everywhere) (s.occurrences fs) := by
  cases s with
  | expr m x => exact (surveys_expr fs x).above rfl
  | assign m op target value =>
    exact ((surveys_target fs op target).append (surveys_expr fs value)).above rfl

theorem surveys_simpleOption (fs : Frames) (s : Option Simple) :
    Surveys (s.elim [] (·.walk everywhere)) (Simple.occurrencesOption fs s) := by
  cases s with
  | none => exact .nil
  | some s => exact surveys_simple fs s

theorem surveys_varDecl (fs : Frames) (d : VarDecl) :
    Surveys (d.walk everywhere) (d.occurrences fs) := by
  have hparts := (surveys_typeOption fs d.type).append (surveys_exprOption fs d.value)
  refine Surveys.above ?_ rfl
  rw [List.append_assoc]
  exact (Surveys.ident d.name fs (k := .declared) (by decide)).append hparts

mutual

theorem surveys_stmt (x : Stmt) (fs : Frames) :
    Surveys (x.walk everywhere) (x.occurrences fs) := by
  match x with
  | .empty _ => exact Surveys.nil.above rfl
  | .jump .. => exact Surveys.nil.above rfl
  | .simple s => exact surveys_simple fs s
  | .var _ d => exact (surveys_varDecl fs d).above rfl
  | .block b => exact surveys_block b fs
  | .cond _ test yes no =>
    have hparts := (surveys_expr fs test).append (surveys_block yes fs)
    exact (hparts.append (surveys_stmtOption no fs)).above rfl
  | .loop _ init test post body =>
    let started := Simple.declaresOption init
    have hheader := ((surveys_simpleOption ([] :: fs) init).append
      (surveys_exprOption (started :: fs) test)).append (surveys_simpleOption (started :: fs) post)
    exact (hheader.append (surveys_block body _)).above rfl
  | .foreach _ name operand body =>
    have hparts := (surveys_expr fs operand).append (surveys_block body ([name] :: fs))
    refine Surveys.above ?_ rfl
    rw [List.append_assoc]
    exact (Surveys.ident name ([] :: fs) (k := .declared) (by decide)).append hparts
  | .switch _ tag sections _ =>
    exact ((surveys_expr fs tag).append (surveys_sections sections fs)).above rfl
  | .ret _ result => exact (surveys_exprOption fs result).above rfl
  | .raise _ y => exact (surveys_expr fs y).above rfl
  | .attempt _ body handlers cleanup =>
    have hparts := (surveys_block body fs).append (surveys_handlers handlers fs)
    exact (hparts.append (surveys_blockOption cleanup fs)).above rfl

theorem surveys_stmtOption (x : Option Stmt) (fs : Frames) :
    Surveys (Stmt.walkOption everywhere x) (Stmt.occurrencesOption x fs) := by
  match x with
  | none => exact .nil
  | some x => exact surveys_stmt x fs

theorem surveys_stmts (xs : List Stmt) (fs : Frames) :
    Surveys (Stmt.walkList everywhere xs) (Stmt.occurrencesList xs fs) := by
  match xs with
  | [] => exact .nil
  | x :: xs => exact (surveys_stmt x fs).append (surveys_stmts xs _)

theorem surveys_block (b : Block) (fs : Frames) :
    Surveys (b.walk everywhere) (b.occurrences fs) := by
  match b with
  | .mk _ stmts _ => exact (surveys_stmts stmts _).above rfl

theorem surveys_blockOption (b : Option Block) (fs : Frames) :
    Surveys (Block.walkOption everywhere b) (Block.occurrencesOption b fs) := by
  match b with
  | none => exact .nil
  | some b => exact surveys_block b fs

theorem surveys_sections (cs : List CaseClause) (fs : Frames) :
    Surveys (CaseClause.walkList everywhere cs) (CaseClause.occurrencesList cs fs) := by
  match cs with
  | [] => exact .nil
  | .mk _ values _ body :: cs =>
    have hclause := (surveys_exprs fs values).append (surveys_stmts body ([] :: fs))
    exact (hclause.above rfl).append (surveys_sections cs fs)

theorem surveys_handlers (cs : List CatchClause) (fs : Frames) :
    Surveys (CatchClause.walkList everywhere cs) (CatchClause.occurrencesList cs fs) := by
  match cs with
  | [] => exact .nil
  | .mk _ none (.mk m body close) :: cs =>
    have hbody := (surveys_stmts body ([] :: fs)).above (n := .stmt (.block (.mk m body close))) rfl
    exact (hbody.above rfl).append (surveys_handlers cs fs)
  | .mk _ (some (name, type)) (.mk m body close) :: cs =>
    have hname := Surveys.ident name ([] :: fs) (k := .declared) (by decide)
    have hbody := (surveys_stmts body ([name] :: fs)).above
      (n := .stmt (.block (.mk m body close))) rfl
    have hclause := (hname.append (surveys_errorType fs type)).append hbody
    rw [List.append_assoc] at hclause
    exact (hclause.above rfl).append (surveys_handlers cs fs)

end

end FlowCheck
