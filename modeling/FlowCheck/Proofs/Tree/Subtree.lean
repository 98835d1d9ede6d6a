import FlowCheck.Proofs.Tree.Carrier

/-!
# What stands below a node

Whatever stands below a node of a tree, everything that stands below it in turn stands there too.
-/
namespace FlowCheck

/-- With a node the list has everything below it. -/
def Whole (w : List Node) : Prop := ∀ n ∈ w, n.subtree ⊆ w

namespace Whole

variable {w v : List Node} {n : Node}

theorem nil : Whole [] := fun _ h => nomatch h

theorem append (h : Whole w) (h' : Whole v) : Whole (w ++ v) := fun n hn =>
  (List.mem_append.1 hn).elim (fun hn => List.Subset.trans (h n hn) (List.subset_append_left w v))
    fun hn => List.Subset.trans (h' n hn) (List.subset_append_right w v)

/-- A node with everything below it. -/
theorem above (h : Whole w) (hn : n.subtree = n :: w) : Whole (n :: w) := by
  intro m hm
  rcases List.mem_cons.1 hm with rfl | hm
  · rw [hn]
    exact List.Subset.refl _
  · exact List.Subset.trans (h m hm) (List.subset_cons_self n w)

theorem leaf (hn : n.subtree = [n]) : Whole [n] := nil.above hn

end Whole

theorem whole_ident (name : Ident) : Whole name.walk := .leaf rfl

mutual

theorem whole_expr (x : Expr) : Whole (x.walk everywhere) := by
  match x with
  | .ident name => exact .leaf rfl
  | .literal m k text => exact .leaf rfl
  | .unary m op y => exact (whole_expr y).above rfl
  | .binary m op y z => exact ((whole_expr y).append (whole_expr z)).above rfl
  | .call m y ys => exact ((whole_expr y).append (whole_exprs ys)).above rfl
  | .index m y z => exact ((whole_expr y).append (whole_expr z)).above rfl
  | .select m y name => exact ((whole_expr y).append (whole_ident name)).above rfl
  | .paren m y => exact (whole_expr y).above rfl
  | .sliceType m y => exact (whole_expr y).above rfl

theorem whole_exprs (xs : List Expr) : Whole (Expr.walkList everywhere xs) := by
  match xs with
  | [] => exact .nil
  | x :: xs => exact (whole_expr x).append (whole_exprs xs)

end

theorem whole_exprOption (x : Option Expr) : Whole (Expr.walkOption everywhere x) := by
  cases x with
  | none => exact .nil
  | some x => exact whole_expr x

theorem whole_simple (s : Simple) : Whole (s.walk everywhere) := by
  cases s with
  | expr m x => exact (whole_expr x).above (n := .stmt (.simple (.expr m x))) rfl
  | assign m op target value =>
    exact ((whole_expr target).append (whole_expr value)).above
      (n := .stmt (.simple (.assign m op target value))) rfl

theorem whole_simpleOption (s : Option Simple) : Whole (s.elim [] (·.walk everywhere)) := by
  cases s with
  | none => exact .nil
  | some s => exact whole_simple s

theorem whole_varDecl (d : VarDecl) : Whole (d.walk everywhere) :=
  (((whole_ident d.name).append (whole_exprOption d.type)).append
    (whole_exprOption d.value)).above rfl

mutual

theorem whole_stmt (x : Stmt) : Whole (x.walk everywhere) := by
  match x with
  | .empty m => exact .leaf rfl
  | .simple s => exact whole_simple s
  | .var m d => exact (whole_varDecl d).above rfl
  | .block b => exact whole_block b
  | .cond m test yes no =>
    exact (((whole_expr test).append (whole_block yes)).append (whole_stmtOption no)).above rfl
  | .loop m init test post body =>
    exact ((((whole_simpleOption init).append (whole_exprOption test)).append
      (whole_simpleOption post)).append (whole_block body)).above rfl
  | .foreach m name operand body =>
    exact (((whole_ident name).append (whole_expr operand)).append (whole_block body)).above rfl
  | .switch m tag sections close =>
    exact ((whole_expr tag).append (whole_sections sections)).above rfl
  | .jump m kind => exact .leaf rfl
  | .ret m result => exact (whole_exprOption result).above rfl
  | .raise m y => exact (whole_expr y).above rfl
  | .attempt m body handlers cleanup =>
    exact (((whole_block body).append (whole_clauses handlers)).append
      (whole_blockOption cleanup)).above rfl

theorem whole_stmtOption (x : Option Stmt) : Whole (Stmt.walkOption everywhere x) := by
  match x with
  | none => exact .nil
  | some x => exact whole_stmt x

theorem whole_stmts (xs : List Stmt) : Whole (Stmt.walkList everywhere xs) := by
  match xs with
  | [] => exact .nil
  | x :: xs => exact (whole_stmt x).append (whole_stmts xs)

theorem whole_block (b : Block) : Whole (b.walk everywhere) := by
  match b with
  | .mk m stmts close => exact (whole_stmts stmts).above rfl

theorem whole_blockOption (b : Option Block) : Whole (Block.walkOption everywhere b) := by
  match b with
  | none => exact .nil
  | some b => exact whole_block b

theorem whole_sections (cs : List CaseClause) : Whole (CaseClause.walkList everywhere cs) := by
  match cs with
  | [] => exact .nil
  | .mk m values isDefault body :: cs =>
    have hclause := ((whole_exprs values).append (whole_stmts body)).above
      (n := .caseClause (.mk m values isDefault body)) rfl
    exact hclause.append (whole_sections cs)

theorem whole_clause (c : CatchClause) : Whole (c.walk everywhere) := by
  match c with
  | .mk m none body => exact (whole_block body).above rfl
  | .mk m (some (name, type)) body =>
    exact (((whole_ident name).append (whole_expr type)).append (whole_block body)).above rfl

theorem whole_clauses (cs : List CatchClause) : Whole (CatchClause.walkList everywhere cs) := by
  match cs with
  | [] => exact .nil
  | c :: cs => exact (whole_clause c).append (whole_clauses cs)

end

end FlowCheck
