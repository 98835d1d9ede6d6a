import FlowCheck.Proofs.Build.Growth
import FlowCheck.Proofs.Tree.Carrier

/-!
# What construction visits

Building a part puts the nodes that carry facts into blocks or finds them dead, and puts no other
nodes into blocks. What it reports stands in the part. The first rests on the cursor being in a block
of the graph wherever construction goes on.
-/
namespace FlowCheck

namespace Build

/-! ### Blocks that are there -/

/-- The block is there, if it is one. -/
def Within (s : State) (c : Option BlockId) : Prop := ∀ b, c = some b → b < s.graph.blocks.size

/-- The ends of the `finally` blocks among targets are there. -/
def Laid (T : List Target) (s : State) : Prop := ∀ b ∈ lasts T, b < s.graph.blocks.size

section

variable {s s' : State} {T T' : List Target} {c : Option BlockId} {b : BlockId} {n : Node}

theorem Within.none (s : State) : Within s none := fun _ h => nomatch h

theorem Within.some (h : b < s.graph.blocks.size) : Within s (some b) := by
  rintro c ⟨⟩
  exact h

theorem Within.later (h : Within s c) (hg : Grown s s') : Within s' c :=
  fun b hb => (h b hb).trans_le hg.size_le

theorem Laid.later (h : Laid T s) (hg : Grown s s') : Laid T s' :=
  fun b hb => (h b hb).trans_le hg.size_le

theorem Laid.append (h : Laid T s) (h' : Laid T' s) : Laid (T ++ T') s := by
  intro b hb
  rw [lasts_append, List.mem_append] at hb
  exact hb.elim (h b) (h' b)

theorem within_markedHere (hs : Within s s.cursor) (m : Mark) :
    Within (s.markedHere m) (s.markedHere m).cursor := by
  unfold State.markedHere
  split_ifs <;> exact hs

theorem within_branched (s : State) (k : BlockKind) (a : Option BlockId) :
    Within (s.branched k a) (s.branched k a).cursor :=
  .some (by simp)

theorem within_branchedIf (s : State) (taken : Bool) (a : Option BlockId) :
    Within (s.branchedIf taken a) (s.branchedIf taken a).cursor := by
  cases taken with
  | true => exact within_branched s .branch a
  | false => exact .none _

theorem within_joined (s : State) (a b : Option BlockId) :
    Within (s.joined a b) (s.joined a b).cursor := by
  unfold State.joined
  split_ifs
  · exact .none _
  · exact .some (by simp)

theorem within_opened (hs : Within s s.cursor) (value : Option Bool) (tested : Bool)
    (after : BlockId) :
    Within (s.opened value tested after) (s.opened value tested after).cursor := by
  cases tested with
  | true => exact within_branchedIf _ _ _
  | false =>
    refine Within.later ?_ (adds_opened (N := NoNode) s value false after).toGrown
    have hcursor : (s.opened value false after).cursor = s.cursor := by
      unfold State.opened
      cases value != some true <;> rfl
    exact hcursor.symm ▸ hs

theorem within_onward (hb : b < s.graph.blocks.size) :
    Within (s.movedTo (Onward.cursor s.graph b)) (Onward.cursor s.graph b) := by
  unfold Onward.cursor
  split_ifs
  · exact .none _
  · exact .some hb

theorem Placed.within (h : Placed T n s s') (hs : Within s s.cursor) : Within s' s'.cursor := by
  cases h with
  | here => exact hs.later (adds_withNode (E := NoEdge) (N := fun _ _ => True) trivial).toGrown
  | after => exact .some (by simp)

theorem PlacedOption.within {o : Option Node} (h : PlacedOption T o s s') (hs : Within s s.cursor) :
    Within s' s'.cursor := by
  cases o with
  | none => exact (show s' = s from h) ▸ hs
  | some n => exact Placed.within h hs

theorem Departed.within (h : Departed s.cursor T s s') (hs : Within s s.cursor) (hT : Laid T s) :
    Within s' s'.cursor := by
  intro b hb
  rw [h.size_eq]
  exact (h.cursor b hb).elim (hs b) (hT b)

theorem Stands.within {x : Stmt} (h : Stands T x s s') (hs : Within s s.cursor) (hT : Laid T s) :
    Within s' s'.cursor := by
  cases h with
  | goesOn _ h => exact h.within hs
  | leaves => exact .none _
  | strays h hd => exact hd.within (h.within hs) (hT.later h.adds.toGrown)

end

/-! ### Nodes -/

/-- The nodes of a part that carry facts. -/
def Part.carriers : Part → List Node
  | .stmt x => x.groups.map Prod.fst
  | .stmts xs => (Stmt.groupsList xs).map Prod.fst
  | .block b => b.groups.map Prod.fst
  | .sections _ _ cs => (CaseClause.groupsList cs).map Prod.fst
  | .clauses _ _ _ _ cs => (CatchClause.groupsList cs).map Prod.fst
  | .cleanup b _ => (Block.groupsOption b).map Prod.fst

/-- The nodes have been put into blocks or found dead, and no other nodes have got into blocks. -/
structure Accounts (ns : List Node) (s s' : State) : Prop extends Grown s s' where
  only : ∀ b n, n ∈ s'.graph.nodes b → n ∈ s.graph.nodes b ∨ n ∈ ns
  visited : ∀ n ∈ ns, (∃ b, n ∈ s'.graph.nodes b) ∨ n.id ∈ s'.dead

section

variable {E : BlockId → BlockId → Prop} {s s₁ s' : State} {T : List Target} {ns ms : List Node}
  {n : Node} {b : BlockId}

namespace Accounts

theorem congr (h : Accounts ns s s') (hns : ∀ n, n ∈ ms ↔ n ∈ ns) : Accounts ms s s' where
  toGrown := h.toGrown
  only b n hn := (h.only b n hn).imp id (hns n).mpr
  visited n hn := h.visited n ((hns n).mp hn)

theorem trans (h : Accounts ns s s₁) (h' : Accounts ms s₁ s') : Accounts (ns ++ ms) s s' where
  toGrown := h.toGrown.trans h'.toGrown
  only b n hn := by
    rw [List.mem_append]
    rcases h'.only b n hn with hn | hn
    · exact (h.only b n hn).imp id .inl
    · exact .inr (.inr hn)
  visited n hn := by
    rcases List.mem_append.mp hn with hn | hn
    · rcases h.visited n hn with ⟨b, hb⟩ | hdead
      · exact .inl ⟨b, (h'.nodes b).subset hb⟩
      · exact .inr (h'.dead.subset hdead)
    · exact h'.visited n hn

/-- A step that puts no nodes into blocks. -/
theorem of_dead (h : Grown s s') (hnodes : ∀ b, s'.graph.nodes b = s.graph.nodes b)
    (hdead : ∀ n ∈ ns, n.id ∈ s'.dead) : Accounts ns s s' where
  toGrown := h
  only b _ hn := .inl (hnodes b ▸ hn)
  visited n hn := .inr (hdead n hn)

theorem idle (h : Adds E NoNode s s') : Accounts [] s s' :=
  .of_dead h.toGrown (fun b => h.nodes_eq fun _ => id) (by simp)

theorem refl (s : State) : Accounts [] s s := .idle (E := NoEdge) (.refl s)

theorem thenIdle (h : Accounts ns s s₁) (h' : Adds E NoNode s₁ s') : Accounts ns s s' := by
  simpa using h.trans (.idle h')

theorem afterIdle (h : Accounts ns s₁ s') (h' : Adds E NoNode s s₁) : Accounts ns s s' :=
  (idle h').trans h

end Accounts

theorem accounts_withBlock (s : State) (k : BlockKind) : Accounts [] s (s.withBlock k) :=
  .of_dead (grown_withBlock s k) (Graph.nodes_newBlock s.graph k) (by simp)

theorem accounts_withNode (hb : b < s.graph.blocks.size) (n : Node) :
    Accounts [n] s (s.withNode b n) where
  toGrown := (adds_withNode (E := NoEdge) (N := fun _ _ => True) trivial).toGrown
  only c m hm := by
    obtain ⟨ms, hms, honly⟩ := nodes_withNode_cases s b n c
    rw [hms, List.mem_append] at hm
    exact hm.imp id fun hm => List.mem_singleton.mpr (honly m hm).2
  visited m hm := by
    obtain rfl := List.mem_singleton.mp hm
    exact .inl ⟨b, by simp [nodes_withNode hb]⟩

theorem Placed.accounts (h : Placed T n s s') (hs : Within s s.cursor) : Accounts [n] s s' := by
  cases h with
  | here hb => exact accounts_withNode (hs _ hb) n
  | @after b s₁ hb hd =>
    have hlt : s₁.graph.blocks.size < (s₁.branched .plain (some b)).graph.blocks.size := by simp
    have hbranch := adds_branched (N := NoNode) s₁ .plain (by decide) (some b)
    exact ((accounts_withNode hlt n).afterIdle hbranch).afterIdle hd.adds

theorem PlacedOption.accounts {α : Type} {f : α → Node} {x : Option α}
    (h : PlacedOption T (x.map f) s s') (hs : Within s s.cursor) :
    Accounts (x.toList.map f) s s' := by
  cases x with
  | none => exact (show s' = s from h) ▸ .refl s
  | some x => exact Placed.accounts h hs

theorem Stands.accounts {x : Stmt} (h : Stands T x s s') (hs : Within s s.cursor) :
    Accounts [.stmt x] s s' := by
  cases h with
  | goesOn _ h => exact h.accounts hs
  | leaves _ h hd =>
    exact ((h.accounts hs).thenIdle hd.adds).thenIdle (E := NoEdge) (adds_movedTo _ _)
  | strays h hd text =>
    exact ((h.accounts hs).thenIdle hd.adds).thenIdle (E := NoEdge)
      (adds_reported _ (by simp) _ text)

theorem Closes.accounts {facts : Facts} {header : BlockId} {q : Option (Simple × BlockId)}
    (h : Closes facts T header q s s') (hq : ∀ p, q = some p → p.2 < s.graph.blocks.size) :
    Accounts (q.toList.map fun p => .stmt (.simple p.1)) s s' := by
  have hedge (s : State) (b : BlockId) : Adds (fun _ _ => True) NoNode s (s.withEdge s.cursor b) :=
    adds_withEdge fun _ _ => trivial
  cases h with
  | straight => exact .idle (hedge s header)
  | @dead q b hb =>
    have hmark := adds_marked (E := fun _ _ => True) (N := NoNode) (s.withEdge s.cursor b)
      ((Node.stmt (.simple q)).subtree.map Node.id)
    refine .of_dead (((hedge s b).trans hmark).trans (hedge _ header)).toGrown
      (fun c => (((hedge s b).trans hmark).trans (hedge _ header)).nodes_eq fun _ => id) ?_
    intro n hn
    obtain rfl : n = .stmt (.simple q) := by simpa using hn
    exact List.mem_append_right _ (List.mem_map_of_mem (Node.mem_subtree _))
  | @live q b _ s₁ hb h =>
    have hcursor : Within ((s.withEdge s.cursor b).movedTo (some b)) (some b) := by
      refine .some ?_
      simpa using hq _ rfl
    have hadd := (h.placed.accounts hcursor).thenIdle (hedge s₁ header)
    exact (hadd.afterIdle (E := NoEdge) (adds_movedTo _ _)).afterIdle (hedge s b)

/-! ### Parts -/

end

/-- The blocks that a part is built from are there. -/
def Part.InRange (T : List Target) (s : State) : Part → Prop
  | .stmt _ | .stmts _ | .block _ => Within s s.cursor ∧ Laid T s
  | .sections .. | .cleanup .. => Laid T s
  | .clauses _ _ _ hs _ => (∀ b ∈ hs.map Prod.snd, b < s.graph.blocks.size) ∧ Laid T s

/-- The blocks that construction goes on from behind the part are there. -/
def Part.EndsInRange (s : State) : Part → Prop
  | .stmt _ | .stmts _ | .block _ => Within s s.cursor
  | .cleanup _ cl => Laid cl.toList s
  | _ => True

section

variable {facts : Facts} {s s₁ s₂ s₃ s₄ s₅ : State} {T : List Target}

theorem accounts_iterated (s : State) (n : Node) : Accounts [n] s (s.iterated n) := by
  have hedge (s : State) (a : Option BlockId) (b : BlockId) :
      Adds (fun _ _ => True) NoNode s (s.withEdge a b) :=
    adds_withEdge fun _ _ => trivial
  unfold State.iterated
  extract_lets header after s₁
  have hblocks : Adds (fun _ _ => True) NoNode s s₁ :=
    (((adds_withBlock s .loop (by decide)).trans (adds_withBlock _ .afterLoop (by decide))).trans
      (hedge _ _ _)).trans (adds_movedTo _ _)
  have hlt : header < s₁.graph.blocks.size := by
    rw [show s₁.graph.blocks.size = s.graph.blocks.size + 2 from by simp [s₁, State.movedTo]]
    exact Nat.lt_add_of_pos_right two_pos
  have hbranch := adds_branched (N := NoNode) ((s₁.withNode header n).withEdge (some header) after)
    .branch (by decide) (some header)
  exact (((accounts_withNode hlt n).afterIdle hblocks).thenIdle (hedge _ _ _)).thenIdle hbranch

theorem carriers_clauses_cons (cl : Option Target) (after : BlockId) (before : List ErrorType)
    (hs : List (ErrorType × BlockId)) (c : CatchClause) (cs : List CatchClause) :
    (Part.clauses cl after before hs (c :: cs)).carriers =
      (.catchClause c :: c.body.groups.map Prod.fst) ++
        (Part.clauses cl after before hs cs).carriers := by
  cases c
  simp [Part.carriers, CatchClause.groupsList, CatchClause.body]

theorem accounts_uncaught (s : State) (c : CatchClause) :
    Accounts (.catchClause c :: c.body.groups.map Prod.fst) s (s.uncaught c) := by
  have hadds := adds_uncaught (E := NoEdge) (N := NoNode) s c
  refine .of_dead hadds.toGrown (fun b => hadds.nodes_eq fun _ => id) fun n hn => ?_
  refine List.mem_append_right _ (List.mem_map_of_mem ?_)
  rcases List.mem_cons.mp hn with rfl | hn
  · exact Node.mem_subtree _
  · obtain ⟨m, param, body⟩ := c
    have hbody : n ∈ body.walk everywhere := (marshalled_block body).subset hn
    simp [Node.subtree, Node.walk, CatchClause.walk, Node.above, hbody]

theorem lt_size_laidOut (s : State) (post : Option Simple) :
    s.graph.blocks.size < (s.laidOut post).graph.blocks.size := by
  cases post <;> simp [State.laidOut]

/-- A loop accounts for its heading besides its body, and what follows it is there. -/
theorem accounts_loop {init post : Option Simple} {test : Option Expr} {value : Option Bool}
    {q : Option (Simple × BlockId)} {L : List Target} {header : BlockId} {ns : List Node}
    (hs : Within s s.cursor) (hinit : PlacedOption T (init.map fun x => .stmt (.simple x)) s s₁)
    (htest : PlacedOption T (test.map .expr) (s₁.branched .loop s₁.cursor) s₂)
    (hq : q = post.map fun x => (x, (s₂.withBlock .afterLoop).graph.blocks.size))
    (hbody : Within ((s₂.laidOut post).opened value test.isSome s₂.graph.blocks.size)
        ((s₂.laidOut post).opened value test.isSome s₂.graph.blocks.size).cursor →
      Accounts ns ((s₂.laidOut post).opened value test.isSome s₂.graph.blocks.size) s₃)
    (hround : Closes facts L header q s₃ s₄) :
    Accounts (init.toList.map (fun x => .stmt (.simple x)) ++ test.toList.map .expr ++
        (ns ++ post.toList.map fun x => .stmt (.simple x))) s
      (s₄.movedTo (Onward.cursor s₄.graph s₂.graph.blocks.size)) ∧
      s₂.graph.blocks.size < s₄.graph.blocks.size := by
  have hheader := adds_branched (N := NoNode) s₁ .loop (by decide) s₁.cursor
  have hs₂ := PlacedOption.within htest (within_branched _ _ _)
  have hheading := ((PlacedOption.accounts hinit hs).thenIdle hheader).trans
    (PlacedOption.accounts htest (within_branched _ _ _))
  have hlaid := adds_laidOut (N := NoNode) s₂ post
  have hopen := adds_opened (N := NoNode) (s₂.laidOut post) value test.isSome s₂.graph.blocks.size
  have hcursor : Within (s₂.laidOut post) (s₂.laidOut post).cursor := by
    rw [cursor_laidOut]
    exact hs₂.later hlaid.toGrown
  have hturn := (hbody (within_opened hcursor _ _ _)).afterIdle hopen
  have hpost := hround.accounts (by
    rintro p hp
    obtain ⟨x, rfl, rfl⟩ := Option.map_eq_some_iff.mp (hq.symm.trans hp)
    refine lt_of_lt_of_le ?_ hturn.size_le
    simp [State.laidOut])
  have hposts : (q.toList.map fun p => Node.stmt (.simple p.1)) =
      post.toList.map fun x => .stmt (.simple x) := by
    rw [hq]
    cases post <;> rfl
  rw [hposts] at hpost
  refine ⟨(hheading.trans ((hturn.trans hpost).afterIdle hlaid)).thenIdle (E := NoEdge)
    (adds_movedTo _ _), ?_⟩
  exact ((lt_size_laidOut s₂ post).trans_le hturn.size_le).trans_le hpost.size_le

/-- A `try` statement accounts for its parts, and what follows it is there. -/
theorem accounts_attempt {facts : Facts} {clauses : List CatchClause} {cl : Option Target}
    {hs : List (ErrorType × BlockId)} {c : BlockId} {ns ms ks : List Node}
    (hc : c < s.graph.blocks.size) (hT : Laid T s) (hcleanup : Accounts ns (s.withBlock .join) s₁)
    (hcl : Laid cl.toList s₁) (hready : Prepared facts clauses s₁ hs s₂)
    (hbody : Within (s₂.movedTo (some c)) (some c) →
      Laid (handlerTargets hs ++ (cl.toList ++ T)) (s₂.movedTo (some c)) →
      Accounts ms (s₂.movedTo (some c)) s₃)
    (hleave : Left cl s.graph.blocks.size s₃ s₄)
    (hclauses : (∀ b ∈ hs.map Prod.snd, b < s₄.graph.blocks.size) → Laid (cl.toList ++ T) s₄ →
      Accounts ks s₄ s₅) :
    Accounts (ns ++ (ms ++ ks)) s (s₅.movedTo (Onward.cursor s₅.graph s.graph.blocks.size)) ∧
      s.graph.blocks.size < s₅.graph.blocks.size := by
  have hafter : s.graph.blocks.size < s₁.graph.blocks.size :=
    ((Nat.lt_succ_self _).trans_eq (size_withBlock s .join).symm).trans_le hcleanup.size_le
  have hcleanup := (accounts_withBlock s .join).trans hcleanup
  have hready' := hready.adds (E := NoEdge) (N := NoNode)
  have hT₂ : Laid (cl.toList ++ T) s₂ :=
    (hcl.append (hT.later hcleanup.toGrown)).later hready'.toGrown
  have hstart := (hcleanup.thenIdle hready').thenIdle (E := NoEdge) (adds_movedTo _ (some c))
  have hbody := hbody (.some (hc.trans_le hstart.size_le)) (by
    intro b hb
    rw [lasts_handlerTargets] at hb
    exact hT₂ b hb)
  have hleave := hleave.departed.adds (N := NoNode)
  have hbody' := hbody.thenIdle hleave
  have hclauses := hclauses (fun b hb => (hready.fresh.2 b hb).2.trans_le hbody'.size_le)
    (Laid.later (s := s₂.movedTo (some c)) hT₂ hbody'.toGrown)
  refine ⟨(hstart.trans (hbody'.trans hclauses)).thenIdle (E := NoEdge) (adds_movedTo _ _), ?_⟩
  exact (hafter.trans_le hready'.size_le).trans_le (hbody'.toGrown.trans hclauses.toGrown).size_le

/-- Building the part accounts for its nodes that carry facts, and goes on in a block of the graph. -/
def AccountsFor (T : List Target) (p : Part) (s s' : State) : Prop :=
  p.InRange T s → Accounts p.carriers s s' ∧ p.EndsInRange s'

section

variable {m : Mark} {after : BlockId} {a : Option BlockId}

theorem accountsFor_single {facts : Facts} {x : Stmt} (h : SingleBuilt facts T x s s₁) :
    AccountsFor T (.stmt x) s s₁ := by
  rintro ⟨hs, hT⟩
  refine ⟨(h.stands.accounts hs).congr fun n => ?_, h.stands.within hs hT⟩
  have hgroups : x.groups.map Prod.fst = [.stmt x] := by
    have hx := h.single
    cases x <;> first | rfl | cases hx
  rw [Part.carriers, hgroups]

theorem accountsFor_cond {test : Expr} {yes : Block} {no : Option Stmt} {first second : Bool}
    (htest : Placed T (.expr test) s s₁)
    (hyes : AccountsFor T (.block yes) (s₁.branchedIf first s₁.cursor) s₂)
    (hno : AccountsFor T (.stmts no.toList) (s₂.branchedIf second s₁.cursor) s₃) :
    AccountsFor T (.stmt (.cond m test yes no)) s (s₃.joined s₂.cursor s₃.cursor) := by
  rintro ⟨hs, hT⟩
  have hbranch (s : State) (taken : Bool) := adds_branchedIf (N := NoNode) s taken s₁.cursor
  have htest := htest.accounts hs
  have hT₁ := hT.later htest.toGrown
  obtain ⟨hyes, -⟩ := hyes ⟨within_branchedIf _ _ _, hT₁.later (hbranch s₁ first).toGrown⟩
  have hyes := hyes.afterIdle (hbranch s₁ first)
  have hT₂ := hT₁.later hyes.toGrown
  obtain ⟨hno, -⟩ := hno ⟨within_branchedIf _ _ _, hT₂.later (hbranch s₂ second).toGrown⟩
  have hno := (hno.afterIdle (hbranch s₂ second)).thenIdle (adds_joined _ s₂.cursor s₃.cursor)
  refine ⟨((htest.trans hyes).trans hno).congr fun n => ?_, within_joined _ _ _⟩
  cases no <;> simp [Part.carriers, Stmt.groups, Stmt.groupsList, Stmt.groupsOption, Node.alone]

theorem accountsFor_loop {facts : Facts} {init post : Option Simple} {test : Option Expr}
    {body : Block} {value : Option Bool} {q : Option (Simple × BlockId)} {header : BlockId}
    (hinit : PlacedOption T (init.map fun x => .stmt (.simple x)) s s₁)
    (htest : PlacedOption T (test.map .expr) (s₁.branched .loop s₁.cursor) s₂)
    (hq : q = post.map fun x => (x, (s₂.withBlock .afterLoop).graph.blocks.size))
    (hbody : AccountsFor (loopTargets header s₂.graph.blocks.size q T) (.block body)
      ((s₂.laidOut post).opened value test.isSome s₂.graph.blocks.size) s₃)
    (hround : Closes facts (loopTargets header s₂.graph.blocks.size q T) header q s₃ s₄) :
    AccountsFor T (.stmt (.loop m init test post body)) s
      (s₄.movedTo (Onward.cursor s₄.graph s₂.graph.blocks.size)) := by
  rintro ⟨hs, hT⟩
  have hheading := hinit.adds.toGrown.trans <|
    (adds_branched (N := NoNode) s₁ .loop (by decide) s₁.cursor).toGrown.trans htest.adds.toGrown
  have hopen := (adds_laidOut (N := NoNode) s₂ post).toGrown.trans
    (adds_opened (N := NoNode) (s₂.laidOut post) value test.isSome s₂.graph.blocks.size).toGrown
  have hlaid : Laid (loopTargets header s₂.graph.blocks.size q T) _ :=
    hT.later (hheading.trans hopen)
  obtain ⟨hall, hafter⟩ := accounts_loop hs hinit htest hq (fun hb => (hbody ⟨hb, hlaid⟩).1) hround
  refine ⟨hall.congr fun n => ?_, within_onward hafter⟩
  simp [Part.carriers, Stmt.groups, Node.alone, Function.comp_def, or_comm, or_left_comm]

theorem accountsFor_foreach {v : Ident} {operand : Expr} {body : Block}
    (hoperand : Placed T (.expr operand) s s₁)
    (hbody : AccountsFor
      (loopTargets s₁.graph.blocks.size (s₁.withBlock .loop).graph.blocks.size none T)
      (.block body) (s₁.iterated (.stmt (.foreach m v operand body))) s₂) :
    AccountsFor T (.stmt (.foreach m v operand body)) s
      ((s₂.withEdge s₂.cursor s₁.graph.blocks.size).movedTo
        (some (s₁.withBlock .loop).graph.blocks.size)) := by
  rintro ⟨hs, hT⟩
  have hoperand := hoperand.accounts hs
  have hhead := accounts_iterated s₁ (.stmt (.foreach m v operand body))
  have hlaid : Laid
      (loopTargets s₁.graph.blocks.size (s₁.withBlock .loop).graph.blocks.size none T)
      (s₁.iterated (.stmt (.foreach m v operand body))) :=
    (hT.later hoperand.toGrown).later hhead.toGrown
  obtain ⟨hbody, -⟩ := hbody ⟨within_branched _ _ _, hlaid⟩
  have hround := adds_withEdge (E := fun _ _ => True) (N := NoNode) (s := s₂) (a := s₂.cursor)
    (b := s₁.graph.blocks.size) fun _ _ => trivial
  have hall := (hoperand.trans (hhead.trans hbody)).thenIdle hround
  refine ⟨(hall.thenIdle (E := NoEdge) (adds_movedTo _ _)).congr fun n => ?_, .some ?_⟩
  · simp [Part.carriers, Stmt.groups, Node.alone, or_left_comm]
  · refine lt_of_lt_of_le ?_ (hbody.toGrown.trans hround.toGrown).size_le
    simp

theorem accountsFor_switch {tag : Expr} {sections : List CaseClause} {close : Pos}
    (htag : Placed (.landing .loopEnd s.graph.blocks.size :: T) (.expr tag) (s.withBlock .join) s₁)
    (hsections : AccountsFor (.landing .loopEnd s.graph.blocks.size :: T)
      (.sections s₁.cursor s.graph.blocks.size sections) s₁ s₂) :
    AccountsFor T (.stmt (.switch m tag sections close)) s
      ((s₂.defaulted sections s₁.cursor s.graph.blocks.size).movedTo
        (Onward.cursor (s₂.defaulted sections s₁.cursor s.graph.blocks.size).graph
          s.graph.blocks.size)) := by
  rintro ⟨hs, hT⟩
  have hjoin := adds_withBlock (E := NoEdge) (N := NoNode) s .join (by decide)
  have hlater := htag.adds.toGrown
  have htag := (htag.accounts (hs.later hjoin.toGrown)).afterIdle hjoin
  have hlaid : Laid (.landing .loopEnd s.graph.blocks.size :: T) s₁ := hT.later htag.toGrown
  obtain ⟨hsections, -⟩ := hsections hlaid
  have hleave := adds_defaulted (N := NoNode) s₂ sections s₁.cursor s.graph.blocks.size
  have hall := (htag.trans hsections).thenIdle hleave
  refine ⟨(hall.thenIdle (E := NoEdge) (adds_movedTo _ _)).congr fun n => ?_, within_onward ?_⟩
  · simp [Part.carriers, Stmt.groups, Node.alone]
  · refine lt_of_lt_of_le ?_ (hlater.trans (hsections.thenIdle hleave).toGrown).size_le
    simp

theorem accountsFor_attempt {facts : Facts} {body : Block} {clauses : List CatchClause}
    {cleanup : Option Block} {cl : Option Target} {hs : List (ErrorType × BlockId)} {c : BlockId}
    (hc : s.cursor = some c) (hcleanup : AccountsFor T (.cleanup cleanup cl) (s.withBlock .join) s₁)
    (hready : Prepared facts clauses s₁ hs s₂)
    (hbody : AccountsFor (handlerTargets hs ++ (cl.toList ++ T)) (.block body)
      (s₂.movedTo (some c)) s₃)
    (hleave : Left cl s.graph.blocks.size s₃ s₄)
    (hclauses : AccountsFor (cl.toList ++ T) (.clauses cl s.graph.blocks.size [] hs clauses) s₄ s₅) :
    AccountsFor T (.stmt (.attempt m body clauses cleanup)) s
      (s₅.movedTo (Onward.cursor s₅.graph s.graph.blocks.size)) := by
  rintro ⟨hs, hT⟩
  obtain ⟨hcleanup, hcl⟩ := hcleanup (Laid.later hT (grown_withBlock s .join))
  obtain ⟨hall, hlt⟩ := accounts_attempt (hs c hc) hT hcleanup hcl hready
    (fun hb hT => (hbody ⟨hb, hT⟩).1) hleave fun hb hT => (hclauses ⟨hb, hT⟩).1
  refine ⟨hall.congr fun n => ?_, within_onward hlt⟩
  simp [Part.carriers, Stmt.groups, or_comm, or_left_comm]

theorem accountsFor_sections {values : List Expr} {isDefault : Bool} {body : List Stmt}
    {cs : List CaseClause}
    (hlabels : Placed T (.caseClause (.mk m values isDefault body)) (s.branched .branch a) s₁)
    (hbody : AccountsFor T (.stmts body) s₁ s₂)
    (hcs : AccountsFor T (.sections a after cs) (s₂.fallenThrough m after) s₃) :
    AccountsFor T (.sections a after (.mk m values isDefault body :: cs)) s s₃ := by
  intro hT
  have hbranch := adds_branched (N := NoNode) s .branch (by decide) a
  have hlabel := (hlabels.accounts (within_branched _ _ _)).afterIdle hbranch
  have hT₁ := Laid.later hT hlabel.toGrown
  obtain ⟨hbody, -⟩ := hbody ⟨hlabels.within (within_branched _ _ _), hT₁⟩
  have hfall := adds_fallenThrough (N := NoNode) s₂ m after
  obtain ⟨hcs, -⟩ := hcs ((hT₁.later hbody.toGrown).later hfall.toGrown)
  refine ⟨(hlabel.trans (hbody.trans (hcs.afterIdle hfall))).congr fun n => ?_, trivial⟩
  simp [Part.carriers, CaseClause.groupsList]

section

variable {cl : Option Target} {b : BlockId} {before : List ErrorType} {t : ErrorType}
  {hs : List (ErrorType × BlockId)} {c : CatchClause} {cs : List CatchClause}

theorem accountsFor_uncaught
    (hcs : AccountsFor T (.clauses cl after (t :: before) hs cs)
      ((s.compared before t c.mark).uncaught c) s₁) :
    AccountsFor T (.clauses cl after before ((t, b) :: hs) (c :: cs)) s s₁ := by
  rintro ⟨hhandlers, hT⟩
  have hcompared := adds_compared (E := NoEdge) (N := NoNode) s before t c.mark
  have hclause := (accounts_uncaught (s.compared before t c.mark) c).afterIdle hcompared
  obtain ⟨hcs, -⟩ := hcs ⟨fun x hx => (hhandlers x (List.mem_cons_of_mem b hx)).trans_le
    hclause.size_le, hT.later hclause.toGrown⟩
  refine ⟨(hclause.trans hcs).congr fun n => ?_, trivial⟩
  rw [carriers_clauses_cons]
  rfl

theorem accountsFor_caught
    (hbody : AccountsFor T (.block c.body)
      (((s.compared before t c.mark).movedTo (some b)).withNode b (.catchClause c)) s₁)
    (hleave : Left cl after s₁ s₂)
    (hcs : AccountsFor T (.clauses cl after (t :: before) hs cs) s₂ s₃) :
    AccountsFor T (.clauses cl after before ((t, b) :: hs) (c :: cs)) s s₃ := by
  rintro ⟨hhandlers, hT⟩
  have hlt := hhandlers b List.mem_cons_self
  have hcompared := adds_compared (E := NoEdge) (N := NoNode) s before t c.mark
  have hclause := ((accounts_withNode (s := (s.compared before t c.mark).movedTo (some b))
    (hlt.trans_le hcompared.size_le) (.catchClause c)).afterIdle (E := NoEdge)
    (adds_movedTo _ _)).afterIdle hcompared
  obtain ⟨hbody, -⟩ := hbody ⟨.some (hlt.trans_le hclause.size_le), hT.later hclause.toGrown⟩
  have hall := hclause.trans (hbody.thenIdle (hleave.departed.adds (N := NoNode)))
  obtain ⟨hcs, -⟩ := hcs ⟨fun x hx => (hhandlers x (List.mem_cons_of_mem b hx)).trans_le
    hall.size_le, hT.later hall.toGrown⟩
  refine ⟨(hall.trans hcs).congr fun n => ?_, trivial⟩
  rw [carriers_clauses_cons]
  rfl

end

end

end

/-- Every part that is built is accounted for. -/
theorem Course.accountsFor {facts : Facts} {T : List Target} {p : Part} {s s' : State}
    {made : List (Stmt × BlockId)} (h : Course facts T p s made s') : AccountsFor T p s s' := by
  induction h with
  | @skipped T x s _ hc =>
    rintro ⟨hs, -⟩
    refine ⟨.of_dead (adds_skipped (E := NoEdge) (N := NoNode) _ _).toGrown (fun _ => rfl) ?_, hs⟩
    intro n hn
    exact List.mem_append_right _ (List.mem_map_of_mem ((marshalled_stmt x).subset hn))
  | @empty T m s =>
    rintro ⟨hs, -⟩
    exact ⟨.idle (E := NoEdge) (adds_markedHere s m), within_markedHere hs m⟩
  | braces _ ih => exact ih
  | single h => exact accountsFor_single h
  | cond htest _ _ ihyes ihno => exact accountsFor_cond htest.placed ihyes ihno
  | loop _ hinit htest hq _ hround ih => exact accountsFor_loop hinit.placed htest.placed hq ih hround
  | foreach hoperand _ ih => exact accountsFor_foreach hoperand.placed ih
  | switch htag _ ih => exact accountsFor_switch htag.placed ih
  | attempt hc _ hready _ hleave _ ihcleanup ihbody ihclauses =>
    exact accountsFor_attempt hc ihcleanup hready ihbody hleave ihclauses
  | nil => exact fun hp => ⟨.refl _, hp.1⟩
  | @cons T x xs s s₁ s' made₁ made₂ _ _ ihx ihxs =>
    rintro ⟨hs, hT⟩
    obtain ⟨hx, hs₁⟩ := ihx ⟨hs, hT⟩
    obtain ⟨hxs, hs'⟩ := ihxs ⟨hs₁, hT.later hx.toGrown⟩
    refine ⟨(hx.trans hxs).congr fun n => ?_, hs'⟩
    simp [Part.carriers, Stmt.groupsList]
  | @block T m xs close s s' made _ ih =>
    rintro ⟨hs, hT⟩
    have hmark := adds_markedHere (E := NoEdge) (N := NoNode) s m
    obtain ⟨hxs, hs'⟩ := ih ⟨within_markedHere hs m, hT.later hmark.toGrown⟩
    exact ⟨hxs.afterIdle hmark, hs'⟩
  | noSections => exact fun _ => ⟨.refl _, trivial⟩
  | sections hlabels _ _ ihbody ihcs => exact accountsFor_sections hlabels.placed ihbody ihcs
  | noClauses => exact fun _ => ⟨.refl _, trivial⟩
  | uncaught _ _ ih => exact accountsFor_uncaught ih
  | caught _ _ hleave _ ihbody ihcs => exact accountsFor_caught ihbody hleave ihcs
  | noCleanup => exact fun _ => ⟨.refl _, fun _ h => nomatch h⟩
  | @cleanup T b s s' made _ ih =>
    intro hT
    have henter := (accounts_withBlock s .cleanup).thenIdle (E := NoEdge)
      (adds_movedTo _ (some s.graph.blocks.size))
    have hlaid : Laid (.barrier :: T) ((s.withBlock .cleanup).movedTo (some s.graph.blocks.size)) :=
      Laid.later hT henter.toGrown
    obtain ⟨hb, hs'⟩ := ih ⟨.some (by simp), hlaid⟩
    exact ⟨henter.trans hb, fun l hl => hs' l (by simpa [lasts] using hl)⟩

/-! ### Reports -/

/-- What is reported between two states stands at the nodes. -/
def Reports (w : List Node) (s s' : State) : Prop :=
  ∀ x ∈ s'.diagnostics, x ∈ s.diagnostics ∨ x.pos ∈ w.map Node.pos

section

variable {w w' : List Node} {s s₁ s' : State} {T : List Target} {n : Node}

namespace Reports

theorem of_eq (h : s'.diagnostics = s.diagnostics) : Reports w s s' := fun _ hx => .inl (h ▸ hx)

theorem trans (h : Reports w s s₁) (h' : Reports w s₁ s') : Reports w s s' :=
  fun x hx => (h' x hx).elim (h x) .inr

theorem mono (h : Reports w s s') (hw : w ⊆ w') : Reports w' s s' :=
  fun x hx => (h x hx).imp id fun hx => List.map_subset _ hw hx

/-- Below a node stands what stands in a part of what is below it. -/
theorem below (h : Reports w s s') (hw : w.Sublist w') : Reports (n :: w') s s' :=
  h.mono (List.subset_cons_of_subset n hw.subset)

theorem before (h : Reports w s₁ s') (hdiag : s₁.diagnostics = s.diagnostics) : Reports w s s' :=
  (of_eq hdiag).trans h

theorem after (h : Reports w s s₁) (hdiag : s'.diagnostics = s₁.diagnostics) : Reports w s s' :=
  h.trans (of_eq hdiag)

theorem one {x : Diagnostic} (h : s'.diagnostics = s.diagnostics ++ [x]) (hn : n ∈ w)
    (hx : x.pos = n.pos) : Reports w s s' := by
  intro y hy
  rw [h, List.mem_append, List.mem_singleton] at hy
  refine hy.imp id fun hy => ?_
  rw [hy, hx]
  exact List.mem_map_of_mem hn

end Reports

@[simp] theorem diagnostics_withBlock (s : State) (k : BlockKind) :
    (s.withBlock k).diagnostics = s.diagnostics := rfl

@[simp] theorem diagnostics_withEdge (s : State) (a : Option BlockId) (b : BlockId) :
    (s.withEdge a b).diagnostics = s.diagnostics := rfl

@[simp] theorem diagnostics_withNode (s : State) (b : BlockId) (n : Node) :
    (s.withNode b n).diagnostics = s.diagnostics := rfl

@[simp] theorem diagnostics_movedTo (s : State) (c : Option BlockId) :
    (s.movedTo c).diagnostics = s.diagnostics := rfl

@[simp] theorem diagnostics_branched (s : State) (k : BlockKind) (a : Option BlockId) :
    (s.branched k a).diagnostics = s.diagnostics := by
  simp [State.branched]

@[simp] theorem diagnostics_iterated (s : State) (n : Node) :
    (s.iterated n).diagnostics = s.diagnostics := by
  simp [State.iterated]

@[simp] theorem diagnostics_branchedIf (s : State) (taken : Bool) (a : Option BlockId) :
    (s.branchedIf taken a).diagnostics = s.diagnostics := by
  cases taken <;> rfl

@[simp] theorem diagnostics_joined (s : State) (a b : Option BlockId) :
    (s.joined a b).diagnostics = s.diagnostics := by
  unfold State.joined
  split_ifs <;> rfl

@[simp] theorem diagnostics_laidOut (s : State) (post : Option Simple) :
    (s.laidOut post).diagnostics = s.diagnostics := by
  cases post <;> rfl

@[simp] theorem diagnostics_opened (s : State) (value : Option Bool) (tested : Bool)
    (after : BlockId) : (s.opened value tested after).diagnostics = s.diagnostics := by
  unfold State.opened
  cases tested <;> cases value != some true <;> simp

@[simp] theorem diagnostics_defaulted (s : State) (sections : List CaseClause)
    (tagEnd : Option BlockId) (after : BlockId) :
    (s.defaulted sections tagEnd after).diagnostics = s.diagnostics := by
  unfold State.defaulted
  split_ifs <;> rfl

@[simp] theorem diagnostics_markedHere (s : State) (m : Mark) :
    (s.markedHere m).diagnostics = s.diagnostics := by
  unfold State.markedHere
  split_ifs <;> rfl

theorem Placed.diagnostics_eq (h : Placed T n s s') : s'.diagnostics = s.diagnostics := by
  cases h with
  | here => rfl
  | after _ hd => exact hd.diagnostics

theorem PlacedOption.diagnostics_eq {o : Option Node} (h : PlacedOption T o s s') :
    s'.diagnostics = s.diagnostics := by
  cases o with
  | none => rw [show s' = s from h]
  | some n => exact Placed.diagnostics_eq h

theorem Closes.diagnostics_eq {facts : Facts} {header : BlockId} {q : Option (Simple × BlockId)}
    (h : Closes facts T header q s s') : s'.diagnostics = s.diagnostics := by
  cases h with
  | straight => rfl
  | dead => rfl
  | live _ h => exact h.placed.diagnostics_eq

theorem Prepared.diagnostics_eq {facts : Facts} {cs : List CatchClause}
    {hs : List (ErrorType × BlockId)} (h : Prepared facts cs s hs s') :
    s'.diagnostics = s.diagnostics := by
  induction h with
  | nil => rfl
  | cons _ ih => exact ih

theorem Stands.reports {x : Stmt} (h : Stands T x s s') : Reports (x.walk everywhere) s s' := by
  cases h with
  | goesOn _ h => exact .of_eq h.diagnostics_eq
  | leaves _ h hd => exact .of_eq (hd.diagnostics.trans h.diagnostics_eq)
  | strays h hd text =>
    exact (Reports.one rfl (Node.mem_subtree (.stmt (.jump _ _))) rfl).before
      (hd.diagnostics.trans h.diagnostics_eq)

theorem reports_skipped (s : State) (n : Node) : Reports n.subtree s (s.skipped n) := by
  unfold State.skipped
  cases hw : s.warned with
  | true => exact .of_eq (by simp)
  | false => exact .one (by simp; rfl) n.mem_subtree rfl

theorem reports_compared (s : State) (before : List ErrorType) (a : ErrorType) (c : CatchClause) :
    Reports [.catchClause c] s (s.compared before a c.mark) := by
  unfold State.compared
  split_ifs
  · exact .one rfl List.mem_cons_self rfl
  · exact .of_eq rfl

theorem reports_uncaught (s : State) (c : CatchClause) :
    Reports [.catchClause c] s (s.uncaught c) :=
  .one rfl List.mem_cons_self rfl

theorem reports_fallenThrough (s : State) (m : Mark) (values : List Expr) (isDefault : Bool)
    (body : List Stmt) (after : BlockId) :
    Reports [.caseClause (.mk m values isDefault body)] s (s.fallenThrough m after) := by
  unfold State.fallenThrough
  split_ifs
  · exact .one rfl List.mem_cons_self rfl
  · exact .of_eq rfl

end

theorem walkList_toList (x : Option Stmt) :
    Stmt.walkList everywhere x.toList = Stmt.walkOption everywhere x := by
  cases x with
  | none => rfl
  | some x => exact List.append_nil _

theorem body_sublist (c : CatchClause) : (c.body.walk everywhere).Sublist (c.walk everywhere) := by
  obtain ⟨m, param, body⟩ := c
  exact .cons _ (List.sublist_append_right _ _)

theorem clause_subset (c : CatchClause) (cs : List CatchClause) :
    [.catchClause c] ⊆ CatchClause.walkList everywhere (c :: cs) := by
  cases c
  exact (List.singleton_sublist.mpr (List.mem_append_left _ List.mem_cons_self)).subset

/-- What is reported while a part is built stands at its nodes. -/
theorem Course.reports {facts : Facts} {T : List Target} {p : Part} {s s' : State}
    {made : List (Stmt × BlockId)} (h : Course facts T p s made s') : Reports p.walk s s' := by
  induction h with
  | skipped => exact reports_skipped _ _
  | empty => exact .of_eq (diagnostics_markedHere _ _)
  | braces _ ih => exact ih
  | single h => exact h.stands.reports
  | @cond T m test yes no s s₁ s₂ s₃ made₁ made₂ htest _ _ ihyes ihno =>
    have hwalk : (Part.stmts no.toList).walk = Stmt.walkOption everywhere no := walkList_toList no
    rw [hwalk] at ihno
    have hyes : Reports (Part.stmt (.cond m test yes no)).walk s s₂ :=
      (ihyes.below (List.sublist_append_of_sublist_left (List.sublist_append_right _ _))).before
        ((diagnostics_branchedIf s₁ _ _).trans htest.placed.diagnostics_eq)
    have hno : Reports (Part.stmt (.cond m test yes no)).walk s₂ s₃ :=
      (ihno.below (List.sublist_append_right _ _)).before (diagnostics_branchedIf s₂ _ _)
    exact (hyes.trans hno).after (diagnostics_joined s₃ _ _)
  | @loop T m init post test body c s s₁ s₂ s₃ s₄ q made hc hinit htest hq _ hround ih =>
    have hheading : s₂.diagnostics = s.diagnostics :=
      htest.placed.diagnostics_eq.trans hinit.placed.diagnostics_eq
    have hopen := (diagnostics_opened (s₂.laidOut post) (test.elim (some true) facts.constant)
      test.isSome s₂.graph.blocks.size).trans (diagnostics_laidOut s₂ post)
    exact ((ih.below (List.sublist_append_right _ _)).before (hopen.trans hheading)).after
      hround.diagnostics_eq
  | @foreach T m v operand body s s₁ s₂ made hoperand _ ih =>
    have hhead := diagnostics_iterated s₁ (.stmt (.foreach m v operand body))
    exact ((ih.below (List.sublist_append_right _ _)).before
      (hhead.trans hoperand.placed.diagnostics_eq)).after
      (diagnostics_withEdge s₂ s₂.cursor s₁.graph.blocks.size)
  | @switch T m tag sections close s s₁ s₂ made htag _ ih =>
    exact ((ih.below (List.sublist_append_right _ _)).before htag.placed.diagnostics_eq).after
      (diagnostics_defaulted s₂ _ _ _)
  | @attempt T m body clauses cleanup c s s₁ s₂ s₃ s₄ s₅ cl hs made₁ made₂ made₃ _ _ hready _ hleave _
      ihcleanup ihbody ihclauses =>
    have hcleanup : Reports (Part.stmt (.attempt m body clauses cleanup)).walk s s₂ :=
      (ihcleanup.below (List.sublist_append_right _ _)).after hready.diagnostics_eq
    have hbody : Reports (Part.stmt (.attempt m body clauses cleanup)).walk s₂ s₄ :=
      (ihbody.below (List.sublist_append_of_sublist_left (List.sublist_append_left _ _))).after
        hleave.departed.diagnostics
    have hclauses : Reports (Part.stmt (.attempt m body clauses cleanup)).walk s₄ s₅ :=
      ihclauses.below (List.sublist_append_of_sublist_left (List.sublist_append_right _ _))
    exact (hcleanup.trans hbody).trans hclauses
  | nil => exact .of_eq rfl
  | cons _ _ ihx ihxs =>
    exact (ihx.mono (List.subset_append_left _ _)).trans (ihxs.mono (List.subset_append_right _ _))
  | @block T m xs close s s' made _ ih =>
    exact (ih.below (.refl _)).before (diagnostics_markedHere s m)
  | noSections => exact .of_eq rfl
  | @sections T tagEnd after m values isDefault body cs s s₁ s₂ s' made₁ made₂ hlabels _ _ ihbody
      ihcs =>
    have hbody : Reports ((CaseClause.mk m values isDefault body).walk everywhere) s s₂ :=
      (ihbody.below (List.sublist_append_right _ _)).before hlabels.placed.diagnostics_eq
    have hend := reports_fallenThrough s₂ m values isDefault body after
    have hclause := hbody.trans (hend.mono (List.singleton_sublist.mpr List.mem_cons_self).subset)
    exact (hclause.mono (List.subset_append_left _ _)).trans
      (ihcs.mono (List.subset_append_right _ _))
  | noClauses => exact .of_eq rfl
  | @uncaught T cl after b before a hs c cs s s' made hb _ ih =>
    have hclause := (reports_compared s before a c).trans (reports_uncaught _ c)
    exact (hclause.mono (clause_subset c cs)).trans
      (ih.mono (List.subset_append_right _ _))
  | @caught T cl after b before a hs c cs s s₁ s₂ s' made₁ made₂ hb _ hleave _ ihbody ihcs =>
    have hcompared := (reports_compared s before a c).mono
      (clause_subset c cs)
    have hwalk : c.body.walk everywhere ⊆ CatchClause.walkList everywhere (c :: cs) :=
      ((body_sublist c).trans (List.sublist_append_left _ _)).subset
    have hbody := ((ihbody.mono hwalk).before rfl).after hleave.departed.diagnostics
    exact (hcompared.trans hbody).trans (ihcs.mono (List.subset_append_right _ _))
  | noCleanup => exact .of_eq rfl
  | cleanup _ ih => exact ih.before rfl

/-! ### Functions -/

section

variable {d : FuncDecl}

theorem nodes_concluded (s : State) (d : FuncDecl) (b : BlockId) :
    (s.concluded d).graph.nodes b = s.graph.nodes b := by
  unfold State.concluded
  split_ifs
  · rfl
  · exact (adds_withEdge (E := fun _ _ => True) (N := NoNode) (s := s.fallenOff) (a := s.cursor)
      fun _ _ => trivial).nodes_eq fun _ => id
  · rfl

theorem dead_concluded (s : State) (d : FuncDecl) : (s.concluded d).dead = s.dead := by
  unfold State.concluded
  split_ifs <;> rfl

/-- The first blocks of a function hold its body and its head. -/
theorem accounts_startState (d : FuncDecl) (name : String) :
    Accounts [.stmt (.block d.body), .func d]
      { graph := (frameGraph name).addEdge 1 2, cursor := some 1 } (startState d name) := by
  have hframe : 1 < ((frameGraph name).addEdge 1 2).blocks.size := by
    rw [Graph.size_addEdge, size_frameGraph]
    decide
  have hbody := (accounts_withNode
    (s := { graph := (frameGraph name).addEdge 1 2, cursor := some 1 }) hframe
    (.stmt (.block d.body))).thenIdle
      (adds_branched (frameState d name) .plain (by decide) (some 0))
  exact hbody.trans (accounts_withNode (by simp) (.func d))

theorem nodes_frameGraph (name : String) (b : BlockId) :
    ((frameGraph name).addEdge 1 2).nodes b = [] :=
  (Graph.nodes_addEdge _ 1 2 b).trans (bare_frameGraph name b).2.2.1

end

end Build

namespace Construction

open Build

variable {facts : Facts} {d : FuncDecl} {g : Graph}

/-- Building a function accounts for its body and its nodes that carry facts. -/
theorem accounts_ofFunc {made : List (Stmt × BlockId)} {s : State}
    (h : Course facts bodyTargets (.stmts d.body.stmts) (startState d d.name.text) made s) :
    Accounts (.stmt (.block d.body) :: d.carriers)
      { graph := (frameGraph d.name.text).addEdge 1 2, cursor := some 1 } s := by
  have hstart : Within (startState d d.name.text) (startState d d.name.text).cursor :=
    .some (by simp [startState])
  obtain ⟨hbody, -⟩ := h.accountsFor ⟨hstart, fun _ hb => nomatch hb⟩
  refine ((accounts_startState d d.name.text).trans hbody).congr fun n => ?_
  rw [FuncDecl.carriers, FuncDecl.groups, List.map_cons]
  cases d.body
  rfl

/-- The blocks hold the nodes of the function that carry facts, and nothing else. -/
theorem mem_carriers_of_mem_nodes (hg : (ofFunc facts d).outcome = .ok g) {b : BlockId} {n : Node}
    (hn : n ∈ g.nodes b) : n = .stmt (.block d.body) ∨ n ∈ d.carriers := by
  obtain ⟨made, s, hcourse, -, rfl, -⟩ := exists_course hg
  rw [nodes_concluded] at hn
  rcases (accounts_ofFunc hcourse).only b n hn with hold | hn
  · rw [nodes_frameGraph] at hold
    cases hold
  · exact List.mem_cons.mp hn

/-- Every node that carries facts is in some block, or has been found dead. -/
theorem mem_nodes_or_dead (hg : (ofFunc facts d).outcome = .ok g) {n : Node}
    (hn : n ∈ .stmt (.block d.body) :: d.carriers) :
    (∃ b, n ∈ g.nodes b) ∨ n.id ∈ (ofFunc facts d).dead := by
  obtain ⟨made, s, hcourse, -, rfl, -, hdead⟩ := exists_course hg
  rw [hdead, dead_concluded]
  refine ((accounts_ofFunc hcourse).visited n hn).imp_left fun ⟨b, hb⟩ => ⟨b, ?_⟩
  rwa [nodes_concluded]

end Construction

end FlowCheck
