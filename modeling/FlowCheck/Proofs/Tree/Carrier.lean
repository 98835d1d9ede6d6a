import FlowCheck.Proofs.Tree.Numbering
import Mathlib.Data.List.Nodup

/-!
# The nodes that carry facts

Control flow visits some nodes of a function as a whole: its head, simple statements, conditions,
the tag of a switch, the operand and the header of a foreach loop, the labels of a switch section
and the parameter of a handler. Every name in a body belongs to the innermost of these around it.
-/
namespace FlowCheck

/-- The name that a node is. -/
def Node.ident? : Node → Option Ident
  | .expr (.ident name) => some name
  | _ => none

/-- The names among some nodes. -/
def idents (ns : List Node) : List Ident := ns.filterMap Node.ident?

@[simp] theorem idents_nil : idents [] = [] := rfl

@[simp] theorem idents_append (ns ms : List Node) : idents (ns ++ ms) = idents ns ++ idents ms :=
  List.filterMap_append

theorem idents_cons_of_none {n : Node} (h : n.ident? = none) (ns : List Node) :
    idents (n :: ns) = idents ns :=
  List.filterMap_cons_none h

theorem Node.eq_of_ident? {n : Node} {name : Ident} (h : n.ident? = some name) :
    n = .expr (.ident name) := by
  unfold Node.ident? at h
  split at h
  · cases h
    rfl
  · cases h

theorem mem_idents {name : Ident} {ns : List Node} :
    name ∈ idents ns ↔ Node.expr (.ident name) ∈ ns := by
  rw [idents, List.mem_filterMap]
  constructor
  · rintro ⟨n, hn, h⟩
    exact n.eq_of_ident? h ▸ hn
  · exact fun h => ⟨_, h, rfl⟩

theorem nodup_idents {ns : List Node} (h : ns.Nodup) : (idents ns).Nodup := by
  refine h.filterMap fun n m name hn hm => ?_
  rw [n.eq_of_ident? hn, m.eq_of_ident? hm]

/-- The names that a node assigns. -/
def Node.assigned : Node → List Ident
  | .stmt (.simple (.assign _ _ (.ident name) _)) => [name]
  | .stmt (.var _ d) => if d.value.isSome then [d.name] else []
  | .stmt (.foreach _ name _ _) => [name]
  | .catchClause (.mk _ (some (name, _)) _) => [name]
  | .func d => (d.params.filter fun p => !p.out).map Param.name
  | _ => []

/-- A node that control flow visits, with the names that belong to it. -/
abbrev Group := Node × List Ident

def Node.alone (n : Node) : Group := (n, idents n.subtree)

mutual

def Stmt.groups : Stmt → List Group
  | .empty _ => []
  | .block b => b.groups
  | .cond _ test yes no => (Node.expr test).alone :: (yes.groups ++ Stmt.groupsOption no)
  | .loop _ init test post body =>
    (init.toList.map fun s => (Node.stmt (.simple s)).alone) ++
      (test.toList.map fun x => (Node.expr x).alone) ++
      (post.toList.map fun s => (Node.stmt (.simple s)).alone) ++ body.groups
  | .foreach m name operand body =>
    (.stmt (.foreach m name operand body), [name]) :: (Node.expr operand).alone :: body.groups
  | .switch _ tag sections _ => (Node.expr tag).alone :: CaseClause.groupsList sections
  | .attempt _ body handlers cleanup =>
    body.groups ++ CatchClause.groupsList handlers ++ Block.groupsOption cleanup
  | s => [(Node.stmt s).alone]

def Stmt.groupsOption : Option Stmt → List Group
  | none => []
  | some s => s.groups

def Stmt.groupsList : List Stmt → List Group
  | [] => []
  | s :: ss => s.groups ++ Stmt.groupsList ss

def Block.groups : Block → List Group
  | .mk _ stmts _ => Stmt.groupsList stmts

def Block.groupsOption : Option Block → List Group
  | none => []
  | some b => b.groups

def CaseClause.groupsList : List CaseClause → List Group
  | [] => []
  | .mk m values isDefault body :: cs =>
    (.caseClause (.mk m values isDefault body), idents (Expr.walkList everywhere values)) ::
      (Stmt.groupsList body ++ CaseClause.groupsList cs)

def CatchClause.groupsList : List CatchClause → List Group
  | [] => []
  | .mk m param body :: cs =>
    (.catchClause (.mk m param body),
        idents (param.elim [] fun p => p.1.walk ++ p.2.walk everywhere)) ::
      (body.groups ++ CatchClause.groupsList cs)

end

namespace FuncDecl

/-- The nodes of a function before its body. -/
def headWalk (d : FuncDecl) : List Node :=
  d.name.walk ++ d.params.flatMap (·.walk everywhere) ++ Expr.walkOption everywhere d.result ++
    Expr.walkList everywhere d.throws

def groups (d : FuncDecl) : List Group := (.func d, idents d.headWalk) :: d.body.groups

/-- The nodes that control flow visits in a function. -/
def carriers (d : FuncDecl) : List Node := d.groups.map Prod.fst

/-- The node is the innermost one around the name of those that control flow visits. -/
structure Innermost (d : FuncDecl) (n : Node) (name : Ident) : Prop where
  carrier : n ∈ d.carriers
  encloses : .expr (.ident name) ∈ n.subtree
  innermost : ∀ m ∈ d.carriers, .expr (.ident name) ∈ m.subtree → n ∈ m.subtree

end FuncDecl

/-! ### Groups and the tree -/

theorem Node.subtree_eq (n : Node) : ∃ below, n.subtree = n :: below := by
  cases n with
  | expr x => cases x <;> exact ⟨_, rfl⟩
  | stmt s =>
    cases s with
    | block b => cases b; exact ⟨_, rfl⟩
    | _ => exact ⟨_, rfl⟩
  | caseClause c => cases c; exact ⟨_, rfl⟩
  | catchClause c => cases c; exact ⟨_, rfl⟩
  | _ => exact ⟨_, rfl⟩

theorem Node.mem_subtree (n : Node) : n ∈ n.subtree := by
  obtain ⟨below, h⟩ := n.subtree_eq
  simp [h]

/-- The groups share out the names of a walk, each to the innermost node around it. -/
structure Grouped (walk : List Node) (gs : List Group) : Prop where
  names : gs.flatMap Prod.snd = idents walk
  below : ∀ g ∈ gs, ∀ n ∈ g.1.subtree, n ∈ walk
  encloses : ∀ g ∈ gs, ∀ name ∈ g.2, .expr (.ident name) ∈ g.1.subtree
  innermost : ∀ g ∈ gs, ∀ name ∈ g.2, ∀ h ∈ gs, .expr (.ident name) ∈ h.1.subtree →
    g.1 ∈ h.1.subtree
  assigns : ∀ n ∈ walk, n.assigned ≠ [] → n ∈ gs.map Prod.fst

mutual

/-- An expression assigns nothing. -/
theorem assigned_expr (x : Expr) {n : Node} (hn : n ∈ x.walk everywhere) : n.assigned = [] := by
  match x with
  | .ident _ | .literal .. =>
    obtain rfl := List.mem_singleton.1 hn
    rfl
  | .unary _ _ y | .paren _ y | .sliceType _ y =>
    rcases List.mem_cons.1 hn with rfl | hn
    · rfl
    · exact assigned_expr y hn
  | .binary _ _ y z | .index _ y z =>
    rcases List.mem_cons.1 hn with rfl | hn
    · rfl
    · exact (List.mem_append.1 hn).elim (assigned_expr y) (assigned_expr z)
  | .call _ y ys =>
    rcases List.mem_cons.1 hn with rfl | hn
    · rfl
    · exact (List.mem_append.1 hn).elim (assigned_expr y) (assigned_exprs ys)
  | .select _ y name =>
    rcases List.mem_cons.1 hn with rfl | hn
    · rfl
    · rcases List.mem_append.1 hn with hn | hn
      · exact assigned_expr y hn
      · obtain rfl := List.mem_singleton.1 hn
        rfl

theorem assigned_exprs (xs : List Expr) {n : Node} (hn : n ∈ Expr.walkList everywhere xs) :
    n.assigned = [] := by
  match xs with
  | [] => cases hn
  | x :: xs => exact (List.mem_append.1 hn).elim (assigned_expr x) (assigned_exprs xs)

end

theorem assigned_ident {name : Ident} {n : Node} (hn : n ∈ name.walk) : n.assigned = [] := by
  obtain rfl := List.mem_singleton.1 hn
  rfl

theorem assigned_exprOption {x : Option Expr} {n : Node} (hn : n ∈ Expr.walkOption everywhere x) :
    n.assigned = [] := by
  cases x with
  | none => cases hn
  | some x => exact assigned_expr x hn

namespace Grouped

variable {w v own : List Node} {gs hs : List Group} {n : Node}

theorem nil : Grouped [] [] := ⟨rfl, by simp, by simp, by simp, by simp⟩

theorem skip (h : Grouped w gs) (hn : n.ident? = none) (ha : n.assigned = []) :
    Grouped (n :: w) gs where
  names := by rw [idents_cons_of_none hn, h.names]
  below g hg m hm := List.mem_cons_of_mem _ (h.below g hg m hm)
  encloses := h.encloses
  innermost := h.innermost
  assigns m hm hne := (List.mem_cons.1 hm).elim (fun e => absurd (e ▸ ha) hne) (h.assigns m · hne)

/-- Parts that have no node in common. -/
theorem append (h : Grouped w gs) (h' : Grouped v hs) (hd : (w ++ v).Nodup) :
    Grouped (w ++ v) (gs ++ hs) := by
  have hdisj := List.disjoint_of_nodup_append hd
  refine ⟨by rw [List.flatMap_append, h.names, h'.names, idents_append], fun g hg => ?_,
    fun g hg => ?_, fun g hg name hname k hk hin => ?_, fun m hm hne => ?_⟩
  · rcases List.mem_append.1 hg with hg | hg
    · exact fun n hn => List.mem_append_left _ (h.below g hg n hn)
    · exact fun n hn => List.mem_append_right _ (h'.below g hg n hn)
  · rcases List.mem_append.1 hg with hg | hg
    · exact h.encloses g hg
    · exact h'.encloses g hg
  · -- a name stands below no node of the other part
    rcases List.mem_append.1 hg with hg | hg <;> rcases List.mem_append.1 hk with hk | hk
    · exact h.innermost g hg name hname k hk hin
    · exact absurd (h'.below k hk _ hin) (hdisj (h.below g hg _ (h.encloses g hg name hname)))
    · exact absurd (h'.below g hg _ (h'.encloses g hg name hname)) (hdisj (h.below k hk _ hin))
    · exact h'.innermost g hg name hname k hk hin
  · rw [List.map_append]
    rcases List.mem_append.1 hm with hm | hm
    · exact List.mem_append_left _ (h.assigns m hm hne)
    · exact List.mem_append_right _ (h'.assigns m hm hne)

/-- A node with a part of its own and groups below it. -/
theorem above (h : Grouped w gs) (hs : n.subtree = n :: (own ++ w)) (hn : n.ident? = none)
    (ha : ∀ m ∈ own, m.assigned = []) (hd : (own ++ w).Nodup) : Grouped (n :: (own ++ w)) ((n, idents own) :: gs) := by
  have hdisj := List.disjoint_of_nodup_append hd
  have hown (name : Ident) (hm : name ∈ idents own) : .expr (.ident name) ∈ own := mem_idents.1 hm
  have hall (g : Group) (hg : g ∈ gs) (m : Node) (hm : m ∈ g.1.subtree) : m ∈ n.subtree := by
    rw [hs]
    exact List.mem_cons_of_mem _ (List.mem_append_right _ (h.below g hg m hm))
  refine ⟨?_, fun g hg m hm => ?_, fun g hg name hname => ?_, fun g hg name hname k hk hin => ?_,
    fun m hm hne => ?_⟩
  · rw [idents_cons_of_none hn, List.flatMap_cons, h.names, idents_append]
  · rcases List.mem_cons.1 hg with rfl | hg
    · exact hs ▸ hm
    · exact hs ▸ hall g hg m hm
  · rcases List.mem_cons.1 hg with rfl | hg
    · rw [hs]
      exact List.mem_cons_of_mem _ (List.mem_append_left _ (hown name hname))
    · exact h.encloses g hg name hname
  · rcases List.mem_cons.1 hg with rfl | hg <;> rcases List.mem_cons.1 hk with rfl | hk
    · exact n.mem_subtree
    · exact absurd (h.below k hk _ hin) (hdisj (hown name hname))
    · exact hall g hg _ g.1.mem_subtree
    · exact h.innermost g hg name hname k hk hin
  · rw [List.map_cons]
    rcases List.mem_cons.1 hm with rfl | hm
    · exact List.mem_cons_self
    · rcases List.mem_append.1 hm with hm | hm
      · exact absurd (ha m hm) hne
      · exact List.mem_cons_of_mem _ (h.assigns m hm hne)

/-- A node with nothing below it that control flow visits. -/
theorem alone (n : Node) (hs : n.subtree = n :: w) (ha : ∀ m ∈ w, m.assigned = []) :
    Grouped n.subtree [n.alone] := by
  refine ⟨by simp [Node.alone], ?_, ?_, ?_, fun m hm hne => ?_⟩
  · simp [Node.alone]
  · simpa [Node.alone] using fun name hn => mem_idents.1 hn
  · intro g hg name hname k hk hin
    obtain rfl := List.mem_singleton.1 hg
    obtain rfl := List.mem_singleton.1 hk
    exact n.mem_subtree
  · rw [hs] at hm
    rcases List.mem_cons.1 hm with rfl | hm
    · exact List.mem_cons_self
    · exact absurd (ha m hm) hne

end Grouped

theorem grouped_expr (x : Expr) : Grouped (x.walk everywhere) [(Node.expr x).alone] := by
  obtain ⟨below, h⟩ := (Node.expr x).subtree_eq
  refine Grouped.alone _ h fun m hm => assigned_expr x ?_
  exact (h ▸ List.mem_cons_of_mem _ hm : m ∈ (Node.expr x).subtree)

theorem grouped_simple (s : Simple) :
    Grouped (s.walk everywhere) [(Node.stmt (.simple s)).alone] := by
  cases s with
  | expr m x => exact Grouped.alone (.stmt (.simple (.expr m x))) rfl fun _ hm => assigned_expr x hm
  | assign m op target value =>
    refine Grouped.alone (.stmt (.simple (.assign m op target value))) rfl fun n hn => ?_
    exact (List.mem_append.1 hn).elim (assigned_expr target) (assigned_expr value)

theorem grouped_var (m : Mark) (d : VarDecl) :
    Grouped (Stmt.walk everywhere (.var m d)) [(Node.stmt (.var m d)).alone] := by
  refine Grouped.alone (.stmt (.var m d)) rfl fun n hn => ?_
  rcases List.mem_cons.1 hn with rfl | hn
  · rfl
  · rcases List.mem_append.1 hn with hn | hn
    · exact (List.mem_append.1 hn).elim assigned_ident assigned_exprOption
    · exact assigned_exprOption hn

theorem grouped_simpleOption (s : Option Simple) :
    Grouped (s.elim [] (·.walk everywhere)) (s.toList.map fun s => (Node.stmt (.simple s)).alone) := by
  cases s with
  | none => exact .nil
  | some s => exact grouped_simple s

theorem grouped_exprOption (x : Option Expr) :
    Grouped (Expr.walkOption everywhere x) (x.toList.map fun x => (Node.expr x).alone) := by
  cases x with
  | none => exact .nil
  | some x => exact grouped_expr x

mutual

theorem grouped_stmt (x : Stmt) (h : (x.walk everywhere).Nodup) :
    Grouped (x.walk everywhere) x.groups := by
  match x with
  | .empty m => exact Grouped.nil.skip rfl rfl
  | .simple s => exact grouped_simple s
  | .var m d => exact grouped_var m d
  | .jump m kind => exact Grouped.alone (.stmt (.jump m kind)) rfl (by simp)
  | .ret m result => exact Grouped.alone (.stmt (.ret m result)) rfl fun _ hn => assigned_exprOption hn
  | .raise m y => exact Grouped.alone (.stmt (.raise m y)) rfl fun _ hn => assigned_expr y hn
  | .block b => exact grouped_block b h
  | .cond m test yes no =>
    rw [Stmt.walk, Node.above_everywhere, List.append_assoc] at h ⊢
    have hparts := (List.nodup_cons.1 h).2
    have hrest := hparts.of_append_right
    have hyes := grouped_block yes hrest.of_append_left
    have hno := grouped_stmtOption no hrest.of_append_right
    exact ((grouped_expr test).append (hyes.append hno hrest) hparts).skip rfl rfl
  | .loop m init test post body =>
    rw [Stmt.walk, Node.above_everywhere] at h ⊢
    have hparts := (List.nodup_cons.1 h).2
    have hheader := hparts.of_append_left
    have hinit := (grouped_simpleOption init).append (grouped_exprOption test) hheader.of_append_left
    have hpost := hinit.append (grouped_simpleOption post) hheader
    exact (hpost.append (grouped_block body hparts.of_append_right) hparts).skip rfl rfl
  | .foreach m name operand body =>
    rw [Stmt.walk, Node.above_everywhere, List.append_assoc] at h ⊢
    have hparts := (List.nodup_cons.1 h).2
    have hrest := hparts.of_append_right
    have hbody := grouped_block body hrest.of_append_right
    have hbelow := (grouped_expr operand).append hbody hrest
    exact hbelow.above (by simp [Node.subtree, Node.walk, Stmt.walk, Node.above]) rfl
      (fun _ => assigned_ident) hparts
  | .switch m tag sections close =>
    rw [Stmt.walk, Node.above_everywhere] at h ⊢
    have hparts := (List.nodup_cons.1 h).2
    have hsections := grouped_sections sections hparts.of_append_right
    exact ((grouped_expr tag).append hsections hparts).skip rfl rfl
  | .attempt m body handlers cleanup =>
    rw [Stmt.walk, Node.above_everywhere] at h ⊢
    have hparts := (List.nodup_cons.1 h).2
    have hbody := grouped_block body hparts.of_append_left.of_append_left
    have hhandlers := grouped_handlers handlers hparts.of_append_left.of_append_right
    have hcleanup := grouped_blockOption cleanup hparts.of_append_right
    exact ((hbody.append hhandlers hparts.of_append_left).append hcleanup hparts).skip rfl rfl

theorem grouped_stmtOption (x : Option Stmt) (h : (Stmt.walkOption everywhere x).Nodup) :
    Grouped (Stmt.walkOption everywhere x) (Stmt.groupsOption x) := by
  match x with
  | none => exact .nil
  | some x => exact grouped_stmt x h

theorem grouped_stmts (xs : List Stmt) (h : (Stmt.walkList everywhere xs).Nodup) :
    Grouped (Stmt.walkList everywhere xs) (Stmt.groupsList xs) := by
  match xs with
  | [] => exact .nil
  | x :: xs =>
    rw [Stmt.walkList] at h
    exact (grouped_stmt x h.of_append_left).append (grouped_stmts xs h.of_append_right) h

theorem grouped_block (b : Block) (h : (b.walk everywhere).Nodup) :
    Grouped (b.walk everywhere) b.groups := by
  match b with
  | .mk m stmts close =>
    rw [Block.walk, Node.above_everywhere] at h ⊢
    exact (grouped_stmts stmts (List.nodup_cons.1 h).2).skip rfl rfl

theorem grouped_blockOption (b : Option Block) (h : (Block.walkOption everywhere b).Nodup) :
    Grouped (Block.walkOption everywhere b) (Block.groupsOption b) := by
  match b with
  | none => exact .nil
  | some b => exact grouped_block b h

theorem grouped_sections (cs : List CaseClause) (h : (CaseClause.walkList everywhere cs).Nodup) :
    Grouped (CaseClause.walkList everywhere cs) (CaseClause.groupsList cs) := by
  match cs with
  | [] => exact .nil
  | .mk m values isDefault body :: cs =>
    rw [CaseClause.walkList] at h ⊢
    have hfirst := h.of_append_left
    rw [CaseClause.walk, Node.above_everywhere] at h hfirst ⊢
    have hparts := (List.nodup_cons.1 hfirst).2
    have hbody := grouped_stmts body hparts.of_append_right
    have hclause := hbody.above (n := .caseClause (.mk m values isDefault body)) rfl rfl
      (fun _ => assigned_exprs values) hparts
    exact hclause.append (grouped_sections cs h.of_append_right) h

theorem grouped_handlers (cs : List CatchClause) (h : (CatchClause.walkList everywhere cs).Nodup) :
    Grouped (CatchClause.walkList everywhere cs) (CatchClause.groupsList cs) := by
  match cs with
  | [] => exact .nil
  | .mk m param body :: cs =>
    rw [CatchClause.walkList] at h ⊢
    have hfirst := h.of_append_left
    rw [CatchClause.walk, Node.above_everywhere] at h hfirst ⊢
    have hparts := (List.nodup_cons.1 hfirst).2
    have hbody := grouped_block body hparts.of_append_right
    have hown : ∀ n ∈ param.elim [] fun p => p.1.walk ++ p.2.walk everywhere, n.assigned = [] := by
      intro n hn
      cases param with
      | none => cases hn
      | some p => exact (List.mem_append.1 hn).elim assigned_ident (assigned_expr p.2)
    have hclause := hbody.above (n := .catchClause (.mk m param body)) rfl rfl hown hparts
    exact hclause.append (grouped_handlers cs h.of_append_right) h

end

theorem FuncDecl.assigned_headWalk (d : FuncDecl) {n : Node} (hn : n ∈ d.headWalk) :
    n.assigned = [] := by
  rcases List.mem_append.1 hn with hn | hn
  · rcases List.mem_append.1 hn with hn | hn
    · rcases List.mem_append.1 hn with hn | hn
      · exact assigned_ident hn
      · obtain ⟨p, -, hn⟩ := List.mem_flatMap.1 hn
        rcases List.mem_cons.1 hn with rfl | hn
        · rfl
        · exact (List.mem_append.1 hn).elim assigned_ident (assigned_expr p.type)
    · exact assigned_exprOption hn
  · exact assigned_exprs d.throws hn

theorem grouped_funcDecl (d : FuncDecl) (h : (d.walk everywhere).Nodup) :
    Grouped (d.walk everywhere) d.groups := by
  have hwalk : d.walk everywhere = .func d :: (d.headWalk ++ d.body.walk everywhere) := rfl
  rw [hwalk] at h ⊢
  have hparts := (List.nodup_cons.1 h).2
  exact (grouped_block d.body hparts.of_append_right).above rfl rfl (fun _ => d.assigned_headWalk)
    hparts

/-- Each name of a function belongs to the innermost node around it. -/
theorem FuncDecl.innermost_of_mem {d : FuncDecl} (h : (d.walk everywhere).Nodup) {n : Node}
    {names : List Ident} {name : Ident} (hg : (n, names) ∈ d.groups) (hn : name ∈ names) :
    d.Innermost n name := by
  have hgrouped := grouped_funcDecl d h
  refine ⟨List.mem_map_of_mem hg, hgrouped.encloses _ hg name hn, fun m hm hin => ?_⟩
  obtain ⟨k, hk, rfl⟩ := List.mem_map.1 hm
  exact hgrouped.innermost _ hg name hn k hk hin

/-! ### Carriers in the order of a walk -/

/-- The nodes of some groups stand in the walk in the same order. -/
abbrev Marshalled (walk : List Node) (gs : List Group) : Prop := (gs.map Prod.fst).Sublist walk

theorem marshalled_alone (n : Node) : Marshalled n.subtree [n.alone] :=
  List.singleton_sublist.2 n.mem_subtree

theorem Marshalled.append {w v : List Node} {gs hs : List Group} (h : Marshalled w gs)
    (h' : Marshalled v hs) : Marshalled (w ++ v) (gs ++ hs) := by
  rw [Marshalled, List.map_append]
  exact List.Sublist.append h h'

theorem Marshalled.above {w : List Node} {gs : List Group} (h : Marshalled w gs) (n : Node)
    (own : List Node) (names : List Ident) : Marshalled (n :: (own ++ w)) ((n, names) :: gs) :=
  List.Sublist.cons_cons n (List.Sublist.trans h (List.sublist_append_right own w))

theorem marshalled_simpleOption (s : Option Simple) :
    Marshalled (s.elim [] (·.walk everywhere))
      (s.toList.map fun s => (Node.stmt (.simple s)).alone) := by
  cases s with
  | none => exact .slnil
  | some s => exact marshalled_alone (.stmt (.simple s))

theorem marshalled_exprOption (x : Option Expr) :
    Marshalled (Expr.walkOption everywhere x) (x.toList.map fun x => (Node.expr x).alone) := by
  cases x with
  | none => exact .slnil
  | some x => exact marshalled_alone (.expr x)

mutual

theorem marshalled_stmt (x : Stmt) : Marshalled (x.walk everywhere) x.groups := by
  match x with
  | .empty m => exact List.nil_sublist _
  | .simple s => exact marshalled_alone (.stmt (.simple s))
  | .var m d => exact marshalled_alone (.stmt (.var m d))
  | .jump m kind => exact marshalled_alone (.stmt (.jump m kind))
  | .ret m result => exact marshalled_alone (.stmt (.ret m result))
  | .raise m y => exact marshalled_alone (.stmt (.raise m y))
  | .block b => exact marshalled_block b
  | .cond m test yes no =>
    rw [Stmt.walk, Node.above_everywhere, List.append_assoc]
    have hparts := (marshalled_block yes).append (marshalled_stmtOption no)
    exact ((marshalled_alone (.expr test)).append hparts).cons _
  | .loop m init test post body =>
    rw [Stmt.walk, Node.above_everywhere]
    have hheader := ((marshalled_simpleOption init).append (marshalled_exprOption test)).append
      (marshalled_simpleOption post)
    exact (hheader.append (marshalled_block body)).cons _
  | .foreach m name operand body =>
    rw [Stmt.walk, Node.above_everywhere, List.append_assoc]
    have hparts := (marshalled_alone (.expr operand)).append (marshalled_block body)
    exact hparts.above _ name.walk [name]
  | .switch m tag sections close =>
    rw [Stmt.walk, Node.above_everywhere]
    exact ((marshalled_alone (.expr tag)).append (marshalled_sections sections)).cons _
  | .attempt m body handlers cleanup =>
    rw [Stmt.walk, Node.above_everywhere]
    have hparts := (marshalled_block body).append (marshalled_handlers handlers)
    exact (hparts.append (marshalled_blockOption cleanup)).cons _

theorem marshalled_stmtOption (x : Option Stmt) :
    Marshalled (Stmt.walkOption everywhere x) (Stmt.groupsOption x) := by
  match x with
  | none => exact .slnil
  | some x => exact marshalled_stmt x

theorem marshalled_stmts (xs : List Stmt) :
    Marshalled (Stmt.walkList everywhere xs) (Stmt.groupsList xs) := by
  match xs with
  | [] => exact .slnil
  | x :: xs => exact (marshalled_stmt x).append (marshalled_stmts xs)

theorem marshalled_block (b : Block) : Marshalled (b.walk everywhere) b.groups := by
  match b with
  | .mk m stmts close => exact (marshalled_stmts stmts).cons _

theorem marshalled_blockOption (b : Option Block) :
    Marshalled (Block.walkOption everywhere b) (Block.groupsOption b) := by
  match b with
  | none => exact .slnil
  | some b => exact marshalled_block b

theorem marshalled_sections (cs : List CaseClause) :
    Marshalled (CaseClause.walkList everywhere cs) (CaseClause.groupsList cs) := by
  match cs with
  | [] => exact .slnil
  | .mk m values isDefault body :: cs =>
    have hclause := (marshalled_stmts body).above (.caseClause (.mk m values isDefault body))
      (Expr.walkList everywhere values) (idents (Expr.walkList everywhere values))
    exact hclause.append (marshalled_sections cs)

theorem marshalled_handlers (cs : List CatchClause) :
    Marshalled (CatchClause.walkList everywhere cs) (CatchClause.groupsList cs) := by
  match cs with
  | [] => exact .slnil
  | .mk m param body :: cs =>
    let own := param.elim [] fun p => p.1.walk ++ p.2.walk everywhere
    have hclause := (marshalled_block body).above (.catchClause (.mk m param body)) own (idents own)
    exact hclause.append (marshalled_handlers cs)

end

theorem FuncDecl.carriers_sublist (d : FuncDecl) : d.carriers.Sublist (d.walk everywhere) :=
  (marshalled_block d.body).above (.func d) d.headWalk (idents d.headWalk)

end FlowCheck
