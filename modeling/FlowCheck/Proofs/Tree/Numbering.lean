import FlowCheck.Proofs.Parse.Expression
import FlowCheck.Proofs.RoundTrip.Written
import FlowCheck.Tree.Numbering
import Mathlib.Data.List.Forall2

/-!
# What numbering does

Numbering the nodes of a tree changes their numbers and nothing else, and the numbers are those of
the walk: every node of a file has its own.
-/
namespace FlowCheck

/-- What numbering leaves alone: where a node stands, and what it spells if it is a leaf. -/
def Node.view (n : Node) : Pos × Option (Pos × Word) := (n.pos, n.spelled?)

/-- The nodes `new` are the nodes `old` numbered from `n` up to `m`. -/
structure Recounted (old new : List Node) (n m : Nat) : Prop where
  views : new.map Node.view = old.map Node.view
  ids : new.map Node.id = List.range' n new.length
  next : m = n + new.length

namespace Recounted

variable {old new old' new' : List Node} {a b : Node} {n m k : Nat}

theorem nil (n : Nat) : Recounted [] [] n n := ⟨rfl, rfl, rfl⟩

theorem append (h : Recounted old new n m) (h' : Recounted old' new' m k) :
    Recounted (old ++ old') (new ++ new') n k := by
  refine ⟨by simp [h.views, h'.views], ?_, ?_⟩
  · rw [List.map_append, h.ids, h'.ids, h.next, List.range'_append_1, List.length_append]
  · rw [h'.next, h.next, List.length_append, Nat.add_assoc]

theorem above (hv : b.view = a.view) (hb : b.id = n) (h : Recounted old new (n + 1) m) :
    Recounted (a :: old) (b :: new) n m := by
  refine ⟨by simp [hv, h.views], ?_, ?_⟩
  · rw [List.map_cons, hb, h.ids, List.length_cons, List.range'_succ]
  · rw [h.next, List.length_cons]
    omega

theorem leaf (hv : b.view = a.view) (hb : b.id = n) : Recounted [a] [b] n (n + 1) :=
  above hv hb (nil (n + 1))

end Recounted

theorem Covers.recounted {u : List Lexeme} {old new : List Node} {n m : Nat}
    (h : Recounted old new n m) (hc : Covers u old) : Covers u new := by
  have hspelled : new.map Node.spelled? = old.map Node.spelled? := by
    simpa [Node.view, Function.comp_def] using congrArg (List.map Prod.snd) h.views
  have hpos : new.map Node.pos = old.map Node.pos := by
    simpa [Node.view, Function.comp_def] using congrArg (List.map Prod.fst) h.views
  constructor
  · rw [← hc.spelled]
    simpa [List.filterMap_map, Function.comp_def] using congrArg (List.filterMap id) hspelled
  · intro x hx
    have : x.pos ∈ old.map Node.pos := hpos ▸ List.mem_map_of_mem hx
    obtain ⟨y, hy, e⟩ := List.mem_map.1 this
    exact e ▸ hc.placed y hy

/-- Numbering with `p` from `n` on gives a result and a next number that satisfy `Q`. -/
def Numbers {α : Type} (p : Numbering α) (n : Nat) (Q : α → Nat → Prop) : Prop :=
  Q (p n).1 (p n).2

namespace Numbers

variable {α β : Type} {n : Nat} {Q : α → Nat → Prop}

theorem pure {a : α} (h : Q a n) : Numbers (Pure.pure a) n Q := h

theorem bind {p : Numbering α} {f : α → Numbering β} {R : β → Nat → Prop} (h : Numbers p n Q)
    (k : ∀ a m, Q a m → Numbers (f a) m R) : Numbers (p >>= f) n R := k _ _ h

theorem mark {m : Mark} {f : Mark → Numbering β} {R : β → Nat → Prop}
    (k : Numbers (f ⟨m.pos, n⟩) (n + 1) R) : Numbers (m.numbered >>= f) n R := k

theorem mapM {f : α → Numbering β} {walk : α → List Node} {walk' : β → List Node}
    {R : α → β → Prop}
    (h : ∀ x n, Numbers (f x) n fun y m => Recounted (walk x) (walk' y) n m ∧ R x y)
    (xs : List α) (n : Nat) :
    Numbers (xs.mapM f) n fun ys m =>
      Recounted (xs.flatMap walk) (ys.flatMap walk') n m ∧ List.Forall₂ R xs ys := by
  induction xs generalizing n with
  | nil => exact pure ⟨.nil n, .nil⟩
  | cons x xs ih =>
    rw [List.mapM_cons]
    refine (h x n).bind fun y m hy => (ih m).bind fun ys k hys => pure ?_
    exact ⟨by simpa using hy.1.append hys.1, .cons hy.2 hys.2⟩

end Numbers

theorem numbers_ident (name : Ident) (n : Nat) :
    Numbers name.numbered n fun y m => Recounted name.walk y.walk n m ∧ y.bare = name.bare :=
  ⟨.leaf rfl rfl, rfl⟩

mutual

theorem numbers_expr (x : Expr) (n : Nat) :
    Numbers x.numbered n fun y m =>
      Recounted (x.walk everywhere) (y.walk everywhere) n m ∧ y.bare = x.bare := by
  match x with
  | .ident name => exact ⟨.leaf rfl rfl, rfl⟩
  | .literal m k text => exact ⟨.leaf rfl rfl, rfl⟩
  | .unary m op x =>
    refine .mark ?_
    refine (numbers_expr x _).bind fun x' k hx => .pure ⟨.above rfl rfl hx.1, ?_⟩
    simp [Expr.bare, hx.2]
  | .binary m op x y =>
    refine .mark ?_
    refine (numbers_expr x _).bind fun x' k hx => ?_
    refine (numbers_expr y _).bind fun y' k hy => .pure ⟨.above rfl rfl (hx.1.append hy.1), ?_⟩
    simp [Expr.bare, hx.2, hy.2]
  | .call m x args =>
    refine .mark ?_
    refine (numbers_expr x _).bind fun x' k hx => ?_
    refine (numbers_exprs args _).bind fun as k ha => .pure ⟨.above rfl rfl (hx.1.append ha.1), ?_⟩
    simp [Expr.bare, hx.2, ha.2]
  | .index m x i =>
    refine .mark ?_
    refine (numbers_expr x _).bind fun x' k hx => ?_
    refine (numbers_expr i _).bind fun i' k hi => .pure ⟨.above rfl rfl (hx.1.append hi.1), ?_⟩
    simp [Expr.bare, hx.2, hi.2]
  | .select m x sel =>
    refine .mark ?_
    refine (numbers_expr x _).bind fun x' k hx => ?_
    refine (numbers_ident sel _).bind fun s' k hs => .pure ⟨.above rfl rfl (hx.1.append hs.1), ?_⟩
    simp [Expr.bare, hx.2, hs.2]
  | .paren m x =>
    refine .mark ?_
    refine (numbers_expr x _).bind fun x' k hx => .pure ⟨.above rfl rfl hx.1, ?_⟩
    simp [Expr.bare, hx.2]
  | .sliceType m x =>
    refine .mark ?_
    refine (numbers_expr x _).bind fun x' k hx => .pure ⟨.above rfl rfl hx.1, ?_⟩
    simp [Expr.bare, hx.2]

theorem numbers_exprs (xs : List Expr) (n : Nat) :
    Numbers (Expr.numberedList xs) n fun ys m =>
      Recounted (Expr.walkList everywhere xs) (Expr.walkList everywhere ys) n m ∧
        Expr.bareList ys = Expr.bareList xs := by
  match xs with
  | [] => exact ⟨.nil n, rfl⟩
  | x :: xs =>
    refine (numbers_expr x n).bind fun y m hy => ?_
    refine (numbers_exprs xs m).bind fun ys k hys => .pure ⟨hy.1.append hys.1, ?_⟩
    simp [Expr.bareList, hy.2, hys.2]

end

theorem numbers_exprOption (x : Option Expr) (n : Nat) :
    Numbers (Expr.numberedOption x) n fun y m =>
      Recounted (Expr.walkOption everywhere x) (Expr.walkOption everywhere y) n m ∧
        y.map Expr.bare = x.map Expr.bare := by
  cases x with
  | none => exact ⟨.nil n, rfl⟩
  | some x => exact (numbers_expr x n).bind fun y m hy => .pure ⟨hy.1, congrArg some hy.2⟩

theorem numbers_simple (x : Simple) (n : Nat) :
    Numbers x.numbered n fun y m =>
      Recounted (x.walk everywhere) (y.walk everywhere) n m ∧ y.bare = x.bare := by
  cases x with
  | expr m x =>
    refine .mark ?_
    refine (numbers_expr x _).bind fun x' k hx => .pure ⟨.above rfl rfl hx.1, ?_⟩
    simp [Simple.bare, hx.2]
  | assign m op x y =>
    refine .mark ?_
    refine (numbers_expr x _).bind fun x' k hx => ?_
    refine (numbers_expr y _).bind fun y' k hy => .pure ⟨.above rfl rfl (hx.1.append hy.1), ?_⟩
    simp [Simple.bare, hx.2, hy.2]

theorem numbers_simpleOption (x : Option Simple) (n : Nat) :
    Numbers (Simple.numberedOption x) n fun y m =>
      Recounted (x.elim [] (·.walk everywhere)) (y.elim [] (·.walk everywhere)) n m ∧
        y.map Simple.bare = x.map Simple.bare := by
  cases x with
  | none => exact ⟨.nil n, rfl⟩
  | some x => exact (numbers_simple x n).bind fun y m hy => .pure ⟨hy.1, congrArg some hy.2⟩

theorem numbers_varDecl (d : VarDecl) (n : Nat) :
    Numbers d.numbered n fun y m =>
      Recounted (d.walk everywhere) (y.walk everywhere) n m ∧ y.bare = d.bare := by
  refine .mark ?_
  refine (numbers_ident d.name _).bind fun name k hn => ?_
  refine (numbers_exprOption d.type _).bind fun type k ht => ?_
  refine (numbers_exprOption d.value _).bind fun value k hv => .pure ⟨?_, ?_⟩
  · exact .above rfl rfl ((hn.1.append ht.1).append hv.1)
  · simp [VarDecl.bare, hn.2, ht.2, hv.2]

mutual

theorem numbers_stmt (x : Stmt) (n : Nat) :
    Numbers x.numbered n fun y m =>
      Recounted (x.walk everywhere) (y.walk everywhere) n m ∧ y.bare = x.bare := by
  match x with
  | .empty m => exact ⟨.leaf rfl rfl, rfl⟩
  | .simple s =>
    refine (numbers_simple s n).bind fun s' k hs => .pure ⟨hs.1, ?_⟩
    simp [Stmt.bare, hs.2]
  | .var m d =>
    refine .mark ?_
    refine (numbers_varDecl d _).bind fun d' k hd => .pure ⟨.above rfl rfl hd.1, ?_⟩
    simp [Stmt.bare, hd.2]
  | .block b =>
    refine (numbers_block b n).bind fun b' k hb => .pure ⟨hb.1, ?_⟩
    simp [Stmt.bare, hb.2.1]
  | .cond m test yes no =>
    refine .mark ?_
    refine (numbers_expr test _).bind fun test' k ht => ?_
    refine (numbers_block yes _).bind fun yes' k hy => ?_
    refine (numbers_stmtOption no _).bind fun no' k hn => .pure ⟨?_, ?_⟩
    · exact .above rfl rfl ((ht.1.append hy.1).append hn.1)
    · simp [Stmt.bare, ht.2, hy.2.1, hn.2]
  | .loop m init test post body =>
    refine .mark ?_
    refine (numbers_simpleOption init _).bind fun init' k hi => ?_
    refine (numbers_exprOption test _).bind fun test' k ht => ?_
    refine (numbers_simpleOption post _).bind fun post' k hp => ?_
    refine (numbers_block body _).bind fun body' k hb => .pure ⟨?_, ?_⟩
    · exact .above rfl rfl (((hi.1.append ht.1).append hp.1).append hb.1)
    · simp [Stmt.bare, hi.2, ht.2, hp.2, hb.2.1]
  | .foreach m name operand body =>
    refine .mark ?_
    refine (numbers_ident name _).bind fun name' k hn => ?_
    refine (numbers_expr operand _).bind fun operand' k ho => ?_
    refine (numbers_block body _).bind fun body' k hb => .pure ⟨?_, ?_⟩
    · exact .above rfl rfl ((hn.1.append ho.1).append hb.1)
    · simp [Stmt.bare, hn.2, ho.2, hb.2.1]
  | .switch m tag sections close =>
    refine .mark ?_
    refine (numbers_expr tag _).bind fun tag' k ht => ?_
    refine (numbers_sections sections _).bind fun cs k hc => .pure ⟨?_, ?_⟩
    · exact .above rfl rfl (ht.1.append hc.1)
    · simp [Stmt.bare, ht.2, hc.2]
  | .jump m kind => exact ⟨.leaf rfl rfl, rfl⟩
  | .ret m result =>
    refine .mark ?_
    refine (numbers_exprOption result _).bind fun x' k hx => .pure ⟨.above rfl rfl hx.1, ?_⟩
    simp [Stmt.bare, hx.2]
  | .raise m x =>
    refine .mark ?_
    refine (numbers_expr x _).bind fun x' k hx => .pure ⟨.above rfl rfl hx.1, ?_⟩
    simp [Stmt.bare, hx.2]
  | .attempt m body handlers cleanup =>
    refine .mark ?_
    refine (numbers_block body _).bind fun body' k hb => ?_
    refine (numbers_handlers handlers _).bind fun hs k hh => ?_
    refine (numbers_blockOption cleanup _).bind fun cleanup' k hc => .pure ⟨?_, ?_⟩
    · exact .above rfl rfl ((hb.1.append hh.1).append hc.1)
    · simp [Stmt.bare, hb.2.1, hh.2, hc.2]

theorem numbers_stmtOption (x : Option Stmt) (n : Nat) :
    Numbers (Stmt.numberedOption x) n fun y m =>
      Recounted (Stmt.walkOption everywhere x) (Stmt.walkOption everywhere y) n m ∧
        Stmt.bareOption y = Stmt.bareOption x := by
  match x with
  | none => exact ⟨.nil n, rfl⟩
  | some x =>
    refine (numbers_stmt x n).bind fun y m hy => .pure ⟨hy.1, ?_⟩
    simp [Stmt.bareOption, hy.2]

theorem numbers_stmts (xs : List Stmt) (n : Nat) :
    Numbers (Stmt.numberedList xs) n fun ys m =>
      Recounted (Stmt.walkList everywhere xs) (Stmt.walkList everywhere ys) n m ∧
        Stmt.bareList ys = Stmt.bareList xs := by
  match xs with
  | [] => exact ⟨.nil n, rfl⟩
  | x :: xs =>
    refine (numbers_stmt x n).bind fun y m hy => ?_
    refine (numbers_stmts xs m).bind fun ys k hys => .pure ⟨hy.1.append hys.1, ?_⟩
    simp [Stmt.bareList, hy.2, hys.2]

theorem numbers_block (b : Block) (n : Nat) :
    Numbers b.numbered n fun y m =>
      Recounted (b.walk everywhere) (y.walk everywhere) n m ∧ y.bare = b.bare ∧
        y.close = b.close := by
  match b with
  | .mk m stmts close =>
    refine .mark ?_
    refine (numbers_stmts stmts _).bind fun ys k hys => .pure ⟨.above rfl rfl hys.1, ?_, rfl⟩
    simp [Block.bare, hys.2]

theorem numbers_blockOption (x : Option Block) (n : Nat) :
    Numbers (Block.numberedOption x) n fun y m =>
      Recounted (Block.walkOption everywhere x) (Block.walkOption everywhere y) n m ∧
        Block.bareOption y = Block.bareOption x := by
  match x with
  | none => exact ⟨.nil n, rfl⟩
  | some b =>
    refine (numbers_block b n).bind fun y m hy => .pure ⟨hy.1, ?_⟩
    simp [Block.bareOption, hy.2.1]

theorem numbers_caseClause (c : CaseClause) (n : Nat) :
    Numbers c.numbered n fun d m =>
      Recounted (c.walk everywhere) (d.walk everywhere) n m ∧ d.bare = c.bare := by
  match c with
  | .mk m values isDefault body =>
    refine .mark ?_
    refine (numbers_exprs values _).bind fun vs k hv => ?_
    refine (numbers_stmts body _).bind fun ys k hys => .pure ⟨?_, ?_⟩
    · exact .above rfl rfl (hv.1.append hys.1)
    · simp [CaseClause.bare, hv.2, hys.2]

theorem numbers_sections (cs : List CaseClause) (n : Nat) :
    Numbers (CaseClause.numberedList cs) n fun ds m =>
      Recounted (CaseClause.walkList everywhere cs) (CaseClause.walkList everywhere ds) n m ∧
        CaseClause.bareList ds = CaseClause.bareList cs := by
  match cs with
  | [] => exact ⟨.nil n, rfl⟩
  | c :: cs =>
    refine (numbers_caseClause c n).bind fun d m hd => ?_
    refine (numbers_sections cs m).bind fun ds k hds => .pure ⟨hd.1.append hds.1, ?_⟩
    simp [CaseClause.bareList, hd.2, hds.2]

theorem numbers_catchClause (c : CatchClause) (n : Nat) :
    Numbers c.numbered n fun d m =>
      Recounted (c.walk everywhere) (d.walk everywhere) n m ∧ d.bare = c.bare := by
  match c with
  | .mk m none body =>
    refine .mark ?_
    refine (numbers_block body _).bind fun b k hb => .pure ⟨.above rfl rfl hb.1, ?_⟩
    simp [CatchClause.bare, hb.2.1]
  | .mk m (some (name, type)) body =>
    refine .mark ?_
    refine (numbers_ident name _).bind fun name' k hn => ?_
    refine (numbers_expr type _).bind fun type' k ht => ?_
    refine (numbers_block body _).bind fun b k hb => .pure ⟨?_, ?_⟩
    · exact .above rfl rfl ((hn.1.append ht.1).append hb.1)
    · simp [CatchClause.bare, hn.2, ht.2, hb.2.1]

theorem numbers_handlers (cs : List CatchClause) (n : Nat) :
    Numbers (CatchClause.numberedList cs) n fun ds m =>
      Recounted (CatchClause.walkList everywhere cs) (CatchClause.walkList everywhere ds) n m ∧
        CatchClause.bareList ds = CatchClause.bareList cs := by
  match cs with
  | [] => exact ⟨.nil n, rfl⟩
  | c :: cs =>
    refine (numbers_catchClause c n).bind fun d m hd => ?_
    refine (numbers_handlers cs m).bind fun ds k hds => .pure ⟨hd.1.append hds.1, ?_⟩
    simp [CatchClause.bareList, hd.2, hds.2]

end

theorem numbers_param (p : Param) (n : Nat) :
    Numbers p.numbered n fun q m =>
      Recounted (p.walk everywhere) (q.walk everywhere) n m ∧ q.bare = p.bare := by
  refine .mark ?_
  refine (numbers_ident p.name _).bind fun name k hn => ?_
  refine (numbers_expr p.type _).bind fun type k ht => .pure ⟨.above rfl rfl (hn.1.append ht.1), ?_⟩
  simp [Param.bare, hn.2, ht.2]

/-- A list that looks the same part by part. -/
theorem map_eq_of_forall₂ {α β : Type} {f : α → β} {xs ys : List α}
    (h : List.Forall₂ (fun x y => f y = f x) xs ys) : ys.map f = xs.map f := by
  induction h with
  | nil => rfl
  | cons h _ ih => rw [List.map_cons, List.map_cons, h, ih]

theorem exists_left_of_forall₂ {α β : Type} {R : α → β → Prop} {xs : List α} {ys : List β}
    (h : List.Forall₂ R xs ys) : ∀ y ∈ ys, ∃ x ∈ xs, R x y := by
  induction h with
  | nil => simp
  | cons h _ ih =>
    intro y hy
    rcases List.mem_cons.1 hy with rfl | hy
    · exact ⟨_, List.mem_cons_self, h⟩
    · obtain ⟨x, hx, hr⟩ := ih y hy
      exact ⟨x, List.mem_cons_of_mem _ hx, hr⟩

theorem numbers_funcDecl (d : FuncDecl) (n : Nat) :
    Numbers d.numbered n fun e m =>
      Recounted (d.walk everywhere) (e.walk everywhere) n m ∧ e.bare = d.bare ∧
        e.body.close = d.body.close := by
  refine .mark ?_
  refine (numbers_ident d.name _).bind fun name k hn => ?_
  refine (Numbers.mapM numbers_param d.params _).bind fun params k hp => ?_
  refine (numbers_exprOption d.result _).bind fun result k hr => ?_
  refine (numbers_exprs d.throws _).bind fun throws k ht => ?_
  refine (numbers_block d.body _).bind fun body k hb => .pure ⟨?_, ?_, hb.2.2⟩
  · exact .above rfl rfl ((((hn.1.append hp.1).append hr.1).append ht.1).append hb.1)
  · simp [FuncDecl.bare, hn.2, map_eq_of_forall₂ hp.2, hr.2, ht.2, hb.2.1]

theorem numbers_errorDomainDecl (d : ErrorDomainDecl) (n : Nat) :
    Numbers d.numbered n fun e m =>
      Recounted (d.walk everywhere) (e.walk everywhere) n m ∧ e.bare = d.bare := by
  refine .mark ?_
  refine (numbers_ident d.name _).bind fun name k hn => ?_
  refine (Numbers.mapM numbers_ident d.codes _).bind fun codes k hc => .pure ⟨?_, ?_⟩
  · exact .above rfl rfl (hn.1.append hc.1)
  · simp [ErrorDomainDecl.bare, hn.2, map_eq_of_forall₂ hc.2]

/-- Where the body of a function ends. -/
def Decl.close? : Decl → Option Pos
  | .func d => some d.body.close
  | _ => none

/-- What numbering leaves alone in a declaration. -/
structure Decl.Alike (d e : Decl) : Prop where
  views : (e.walk everywhere).map Node.view = (d.walk everywhere).map Node.view
  bare : e.bare = d.bare
  close : e.close? = d.close?

theorem numbers_decl (d : Decl) (n : Nat) :
    Numbers d.numbered n fun e m =>
      Recounted (d.walk everywhere) (e.walk everywhere) n m ∧ d.Alike e := by
  cases d with
  | errorDomain d =>
    refine (numbers_errorDomainDecl d n).bind fun e m he => .pure ⟨he.1, he.1.views, ?_, rfl⟩
    exact congrArg Decl.errorDomain he.2
  | var d =>
    refine (numbers_varDecl d n).bind fun e m he => .pure ⟨he.1, he.1.views, ?_, rfl⟩
    exact congrArg Decl.var he.2
  | func d =>
    refine (numbers_funcDecl d n).bind fun e m he => .pure ⟨he.1, he.1.views, ?_, ?_⟩
    · exact congrArg Decl.func he.2.1
    · exact congrArg some he.2.2

/-- The outcome of numbering a whole file. -/
theorem File.numbered_spec (f : File) :
    ∃ m, Recounted f.nodes f.numbered.nodes 0 m ∧ f.numbered.package.bare = f.package.bare ∧
      List.Forall₂ Decl.Alike f.decls f.numbered.decls := by
  have h : Numbers (do
      let mark ← f.mark.numbered
      let package ← f.package.numbered
      let decls ← f.decls.mapM Decl.numbered
      return (⟨mark, package, decls⟩ : File)) 0 fun g m =>
        Recounted f.nodes g.nodes 0 m ∧ g.package.bare = f.package.bare ∧
          List.Forall₂ Decl.Alike f.decls g.decls := by
    refine .mark ?_
    refine (numbers_ident f.package _).bind fun package k hp => ?_
    refine (Numbers.mapM numbers_decl f.decls _).bind fun decls k hd => .pure ⟨?_, hp.2, hd.2⟩
    exact .above rfl rfl (hp.1.append hd.1)
  exact ⟨_, h⟩

/-- Numbering changes nothing that can be read off the text. -/
theorem File.numbered_bare (f : File) : f.numbered.bare = f.bare := by
  obtain ⟨_, -, hpackage, hdecls⟩ := f.numbered_spec
  have hbare := map_eq_of_forall₂ (hdecls.imp fun _ _ h => h.bare)
  rw [File.bare, File.bare, hpackage, hbare]

/-- Every node of a file has its own number. -/
theorem File.nodup_ids (f : File) : (f.numbered.nodes.map Node.id).Nodup := by
  obtain ⟨_, h, -⟩ := f.numbered_spec
  rw [h.ids]
  exact List.nodup_range'

end FlowCheck
