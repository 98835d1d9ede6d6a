import FlowCheck.Proofs.Resolve.Log

/-!
# What resolving a statement records

The log of a statement is shared out among the groups of the statement: every entry belongs to the
innermost node around its name that control flow visits, and a node assigns what it says.
-/
namespace FlowCheck

namespace Resolve

/-- The entries of a log belong to groups, each name to one of them. -/
structure Placed (log : List Binding) (gs : List Group) : Prop where
  names : (log.map Binding.name).Subperm (gs.flatMap Prod.snd)
  carried : ∀ b ∈ log, ∃ g ∈ gs, b.carrier = g.1 ∧ b.name ∈ g.2
  assigned : (log.filter Binding.isAssign).map Binding.place =
    gs.flatMap fun g => g.1.assigned.map (g.1, ·)
  sound : ∀ b ∈ log, b.Sound

namespace Placed

variable {log log' : List Binding} {gs hs : List Group} {g h : Group} {n : Node} {w : List Node}

theorem nil : Placed [] [] := ⟨List.Subperm.refl [], by simp, rfl, by simp⟩

theorem append (h : Placed log gs) (h' : Placed log' hs) : Placed (log ++ log') (gs ++ hs) := by
  refine ⟨?_, fun b hb => ?_, ?_, fun b hb => (List.mem_append.1 hb).elim (h.sound b) (h'.sound b)⟩
  · rw [List.map_append, List.flatMap_append]
    exact h.names.append h'.names
  · rcases List.mem_append.1 hb with hb | hb
    · obtain ⟨g, hg, hp⟩ := h.carried b hb
      exact ⟨g, List.mem_append_left _ hg, hp⟩
    · obtain ⟨g, hg, hp⟩ := h'.carried b hb
      exact ⟨g, List.mem_append_right _ hg, hp⟩
  · rw [List.filter_append, List.map_append, h.assigned, h'.assigned, List.flatMap_append]

/-- Groups may change places if one of them assigns nothing. -/
theorem swap (hp : Placed log (g :: h :: gs)) (hg : g.1.assigned = []) :
    Placed log (h :: g :: gs) := by
  refine ⟨hp.names.trans ?_, fun b hb => ?_, ?_, hp.sound⟩
  · exact ((List.Perm.swap h g gs).flatMap_right _).subperm
  · obtain ⟨k, hk, hb⟩ := hp.carried b hb
    exact ⟨k, (List.Perm.swap h g gs).mem_iff.1 hk, hb⟩
  · rw [hp.assigned]
    simp [hg]

/-- The entries of a single node. -/
theorem single {names : List Ident} (hc : ∀ b ∈ log, b.carrier = n ∧ b.Sound)
    (hn : (log.map Binding.name).Subperm names)
    (ha : (log.filter Binding.isAssign).map Binding.name = n.assigned) :
    Placed log [(n, names)] := by
  refine ⟨by simpa using hn, fun b hb => ?_, ?_, fun b hb => (hc b hb).2⟩
  · exact ⟨_, List.mem_singleton_self _, (hc b hb).1, hn.subset (List.mem_map_of_mem hb)⟩
  · rw [List.flatMap_singleton, ← ha, List.map_map]
    apply List.map_congr_left
    intro b hb
    exact Prod.ext (hc b (List.mem_filter.1 hb).1).1 rfl

end Placed

theorem ReadBy.nil (n : Node) (w : List Node) : ReadBy n w [] :=
  ⟨by simp, (List.nil_sublist _).subperm⟩

theorem ReadBy.carried {n : Node} {w : List Node} {log : List Binding} (h : ReadBy n w log) :
    ∀ b ∈ log, b.carrier = n ∧ b.Sound := by
  intro b hb
  obtain ⟨hrole, hcarrier⟩ := h.reads b hb
  exact ⟨hcarrier, by simp [Binding.Sound, hrole]⟩

theorem ReadBy.filter_isAssign {n : Node} {w : List Node} {log : List Binding}
    (h : ReadBy n w log) : log.filter Binding.isAssign = [] := by
  rw [List.filter_eq_nil_iff]
  intro b hb
  simp [Binding.isAssign, (h.reads b hb).1]

/-- A node that only reads. -/
theorem ReadBy.placed {n : Node} {w : List Node} {log : List Binding} (h : ReadBy n w log)
    (ha : n.assigned = []) : Placed log [(n, idents w)] :=
  .single h.carried h.names (by rw [h.filter_isAssign, ha]; rfl)

/-- A node that reads and then declares or assigns a name. -/
theorem ReadBy.placed_append {n : Node} {w : List Node} {log : List Binding} (h : ReadBy n w log)
    {b : Binding} (hc : b.carrier = n) (hs : b.Sound)
    (ha : n.assigned = if b.isAssign then [b.name] else []) :
    Placed (log ++ [b]) [(n, b.name :: idents w)] := by
  refine .single (fun a hm => ?_) ?_ ?_
  · rcases List.mem_append.1 hm with hm | hm
    · exact h.carried a hm
    · obtain rfl := List.mem_singleton.1 hm
      exact ⟨hc, hs⟩
  · rw [List.map_append]
    exact (h.names.append (.refl _)).trans List.perm_append_comm.subperm
  · rw [List.filter_append, h.filter_isAssign, ha]
    cases hb : b.isAssign <;> simp [hb]

theorem alone_eq {n : Node} {w : List Node} (h : n.subtree = n :: w)
    (hn : n.ident? = none) : n.alone = (n, idents w) := by
  rw [Node.alone, h, idents_cons_of_none hn]

/-- What a statement owes that has the groups `gs`. -/
abbrev Outcome (F : Option ScopeId) (s t : State) (gs : List Group) : Prop :=
  Logs [] F s t (Placed · gs)

variable {F : Option ScopeId} {s t u : State}

theorem Outcome.trans {gs hs : List Group} (h : Outcome F s t gs) (h' : Outcome F t u hs) :
    Outcome F s u (gs ++ hs) :=
  Logs.trans h h' fun _ _ hp hp' => hp.append hp'

theorem Outcome.refl (hs : Inside F s) : Outcome F s s [] := Logs.refl hs.valid .nil

/-! ### Simple statements -/

theorem CondRun.outcome {x : Expr} (h : CondRun x s t) (hs : Inside F s) :
    Outcome F s t [(Node.expr x).alone] := by
  cases h with
  | mk h =>
    have hx := h.evaluates hs
    rw [Expr.walkList_singleton] at hx
    exact (hx.logs_record hs (.expr x)).imp fun log hl => hl.placed rfl

/-- Names that have been looked up, the last of which is set. -/
theorem Looked.logged_set {w : List Node} {n : Node} {bs : List (Ident × EntityId)} {name : Ident}
    {e : EntityId} (h : Looked F s t w (bs ++ [(name, e)])) (hst : Still s t)
    (hr : Records t u ((readsOf s.tree bs).map (n.id, ·))
      ((t.tree.ownVar? e).map (n.id, ·)).toList) :
    Logged F s u (readLog n bs ++ [⟨.set, n, name, e⟩]) := by
  have htree : u.tree = s.tree := hr.tree.trans hst.tree
  have hmem {P : EntityId → Prop} (hp : ∀ p ∈ bs ++ [(name, e)], P p.2) :
      ∀ b ∈ readLog n bs ++ [(⟨.set, n, name, e⟩ : Binding)], P b.entity := by
    rw [List.forall_mem_append] at hp ⊢
    exact ⟨List.forall_mem_map.2 hp.1, by simpa using hp.2⟩
  refine ⟨⟨?_, ?_, ?_, ?_, ?_⟩, ?_⟩
  · rw [hr.uses, h.uses, List.filter_append, (filter_readLog n bs).1]
    simp [readLog, Binding.entry, Binding.isUse, Function.comp_def]
  · rw [hr.defs, hst.defs, List.filter_append, (filter_readLog n bs).2]
    simp [Binding.isUse]
  · rw [hr.reads, hst.reads, List.filterMap_append, read?_readLog, htree]
    simp [Binding.read?, Binding.readPos?]
  · rw [hr.assigns, hst.assigns, List.filterMap_append, assigned?_readLog, hr.tree,
      filterMap_singleton]
    rfl
  · exact hmem (htree ▸ h.settled)
  · exact hmem (P := fun e => u.tree.ownVar? e ≠ none → u.tree.function? (u.tree.entity e).home = F)
      (htree ▸ h.owned)

/-- A change of a variable: its value is read first, and the name is looked up last. -/
theorem Binds.logs_set {m : Mark} {name : Ident} {value : Expr} {e : EntityId} {a : Effects}
    (ht : Evaluates F s (value.walk everywhere) {} a t) (hu : LookupRun name t (some e) u)
    (hs : Inside F s) : Outcome F s ((u.after (assigns m e)).after (record m a))
      [(Node.stmt (.simple (.assign m .set (.ident name) value))).alone] := by
  let n : Node := .stmt (.simple (.assign m .set (.ident name) value))
  have hname := hu.binds (ht.still.inside hs)
  have hst := ht.still.trans hname.still
  have hrec := (records_assigns u m e).trans (records_record (u.after (assigns m e)) m a)
  refine ⟨(hst.step hs.valid).trans (hrec.step (hst.inside hs).valid), fun hc => ?_⟩
  have hclean : u.reports = [] := hrec.reports ▸ hc
  obtain ⟨bs, hb, hreads⟩ := ht.bound (hname.still.clean hclean)
  obtain ⟨_, hn, rfl⟩ := hname.bound hclean
  rw [List.append_nil, List.nil_append, hreads] at hrec
  have hlog := (hb.append ht.still hn).logged_set (n := n) hst hrec
  refine ⟨_, hlog, ?_⟩
  rw [alone_eq rfl rfl]
  exact (readBy_readLog hb.names).placed_append rfl ⟨m, value, rfl⟩ rfl

/-- After a report the reads are still recorded. -/
theorem Still.outcome_record {gs : List Group} (h : Still s t) (hr : t.reports ≠ []) (hs : Inside F s)
    (m : Mark) (a : Effects) : Outcome F s (t.after (record m a)) gs := by
  have hstep := h.step hs.valid
  have hrec := records_record t m a
  exact .reported (hstep.trans (hrec.step hstep.valid)) (hrec.reports ▸ hr)

theorem SimpleRun.outcome {x : Simple} (h : SimpleRun x s t) (hs : Inside F s) :
    Outcome F s t [(Node.stmt (.simple x)).alone] := by
  have hevaluates {y : Expr} {a b : Effects} {s t : State} (h : ExprRun [y] a s b t)
      (hs : Inside F s) : Evaluates F s (y.walk everywhere) a b t := by
    simpa using h.evaluates hs
  cases h with
  | @expr m y a _ t h =>
    have hx := (hevaluates h hs).logs_record hs (.stmt (.simple (.expr m y)))
    rw [alone_eq rfl rfl]
    exact hx.imp fun log hl => hl.placed rfl
  | @define m name value a _ t h =>
    let n : Node := .stmt (.simple (.assign m .define (.ident name) value))
    have hx := (hevaluates h hs).logs_record hs n
    rw [alone_eq rfl rfl]
    refine hx.trans (logs_introduce (hx.step.inside hs) n name (literalType? value) true) ?_
    rintro log _ hl ⟨e, rfl⟩
    exact hl.placed_append rfl trivial rfl
  | @undefinable m target value a _ t _ h =>
    have hx := (hevaluates h hs).logs_record hs (.stmt (.simple (.assign m .define target value)))
    obtain ⟨hstill, hr⟩ := still_report (t.after (record m a)) target.pos
      (.nonNameDefined target.render)
    exact .reported (hx.step.trans (hstill.step hx.step.valid)) hr
  | set h hn => exact (hevaluates h hs).logs_set hn hs
  | setUndefined h hn =>
    have hx := hevaluates h hs
    exact (hx.still.trans hn.reported.1).outcome_record hn.reported.2 hs _ _
  | @setOther m name value e a _ t u h hn =>
    have hx := hevaluates h hs
    have hname := hn.binds (hx.still.inside hs)
    obtain ⟨hstill, hr⟩ := still_report u name.mark.pos (.notAssignable name.text)
    exact ((hx.still.trans hname.still).trans hstill).outcome_record hr hs m a
  | @element m k x i value a b _ t u h hi =>
    have hx := hevaluates h hs
    have hboth := hx.trans (hevaluates hi (hx.still.inside hs))
    have hlogs := hboth.logs_record hs (.stmt (.simple (.assign m .set (.index k x i) value)))
    rw [alone_eq (w := (Expr.index k x i).walk everywhere ++ value.walk everywhere) rfl rfl]
    refine hlogs.imp fun log hl => ReadBy.placed (hl.perm ?_) rfl
    rw [idents_append, idents_append]
    exact List.perm_append_comm
  | @unassignable m target value a _ t _ _ h =>
    obtain ⟨hstill, hr⟩ := still_report t target.pos (.notAssignable target.render)
    exact ((hevaluates h hs).still.trans hstill).outcome_record hr hs m a

theorem PostRun.outcome {x : Simple} (h : PostRun x s t) (hs : Inside F s) :
    Outcome F s t [(Node.stmt (.simple x)).alone] := by
  cases h with
  | plain _ h => exact h.outcome hs
  | @define m target value _ _ h =>
    obtain ⟨hstill, hr⟩ := still_report s m.pos .defineInPost
    have hx := h.outcome (hstill.inside hs)
    exact .reported ((hstill.step hs.valid).trans hx.step) fun hc => hr (hx.step.clean hc)

/-- What may be missing has a group if it is there. -/
theorem OptionRun.outcome {α : Type} {R : α → State → State → Prop} {node : α → Node} {x : Option α}
    (h : OptionRun R x s t) (hs : Inside F s)
    (hR : ∀ {y : α} {t : State}, R y s t → Outcome F s t [(node y).alone]) :
    Outcome F s t (x.toList.map fun y => (node y).alone) := by
  cases h with
  | none => exact .refl hs
  | some h => exact hR h

/-- A variable is declared after its type and its value. -/
theorem outcome_var {m : Mark} {d : VarDecl} {type : Option Typ} {a : Effects}
    (hvalue : ExprRun d.value.toList {} s a t)
    (htype : OptionRun TypeRun d.type (t.after (record m a)) u) (hs : Inside F s) :
    Outcome F s (u.after (introduce m d.name type d.value.isSome))
      [(Node.stmt (.var m d)).alone] := by
  let n : Node := .stmt (.var m d)
  have hx := hvalue.evaluates hs
  rw [Expr.walkList_toList] at hx
  have hrecord := hx.logs_record hs n
  have hboth := hrecord.trans ((htype.denotes (hrecord.step.inside hs)).logs
    (hrecord.step.inside hs) n) fun _ _ h h' => h.append h'
  refine hboth.trans (logs_introduce (hboth.step.inside hs) n d.name type d.value.isSome) ?_
  rintro log _ hl ⟨e, rfl⟩
  have hnode : idents n.subtree =
      d.name :: idents (Expr.walkOption everywhere d.type ++ Expr.walkOption everywhere d.value) :=
    rfl
  rw [Node.alone, hnode]
  refine ReadBy.placed_append (hl.perm ?_) rfl ?_ ?_
  · rw [idents_append, idents_append]
    exact List.perm_append_comm
  · cases d.value <;> trivial
  · cases h : d.value <;> simp [n, Node.assigned, h, Binding.isAssign]

/-! ### Compound statements -/

/-- The nodes that control flow visits in a part, with their names. -/
def Part.groups : Part → List Group
  | .stmt x => x.groups
  | .stmtOption x => Stmt.groupsOption x
  | .stmts xs => Stmt.groupsList xs
  | .block b => b.groups
  | .blockOption b => Block.groupsOption b
  | .sections _ cs => CaseClause.groupsList cs
  | .handlers cs => CatchClause.groupsList cs

theorem Run.outcome {p : Part} (h : Run p s t) (hs : Inside F s) : Outcome F s t p.groups := by
  induction h with
  | empty | noStmt | nil | noBlock | noSections | noHandlers => exact .refl hs
  | jump => exact Logs.refl hs.valid (.single (by simp) (List.Subperm.refl _) rfl)
  | simple h => exact h.outcome hs
  | var hvalue htype => exact outcome_var hvalue htype hs
  | braces _ ih | someStmt _ ih | someBlock _ ih => exact ih hs
  | cond htest _ _ ihyes ihno =>
    have ht := htest.outcome hs
    have hboth := ht.trans (ihyes (ht.step.inside hs))
    simpa [Part.groups, Stmt.groups] using hboth.trans (ihno (hboth.step.inside hs))
  | @loop m init post test body s _ _ _ _ hinit htest hpost _ ih =>
    have ho := opened_inner hs m body.close .loop (by decide)
    have hi := hinit.outcome ho.inside fun h => h.outcome ho.inside
    have hin := hi.step.inside ho.inside
    have ht := hi.trans (htest.outcome hin fun h => h.outcome hin)
    have hin := ht.step.inside ho.inside
    have hp := ht.trans (hpost.outcome hin fun h => h.outcome hin)
    exact ho.close (hp.trans (ih (hp.step.inside ho.inside)))
  | @foreach m name operand body s t u hoperand _ ih =>
    have hx := hoperand.outcome hs
    have ho := opened_inner (hx.step.inside hs) m body.close .foreach (by decide)
    have hv := logs_introduce ho.inside (.stmt (.foreach m name operand body)) name none true
    have hheader : Outcome F _ _ [(.stmt (.foreach m name operand body), [name])] :=
      hv.imp fun log hl => by
        obtain ⟨e, rfl⟩ := hl
        exact (ReadBy.nil _ []).placed_append rfl trivial rfl
    have hbody := ho.close (hheader.trans (ih (hv.step.inside ho.inside)))
    exact (hx.trans hbody).imp fun log hl => Placed.swap hl rfl
  | switch htag _ ih =>
    have ht := htag.outcome hs
    exact ht.trans (ih (ht.step.inside hs))
  | @ret m x a s t h =>
    have hx := h.evaluates hs
    rw [Expr.walkList_toList] at hx
    refine (hx.logs_record hs (.stmt (.ret m x))).imp fun log hl => ?_
    exact hl.placed rfl
  | @raise m x a e s t h =>
    have hx : Evaluates F s (x.walk everywhere) {} (a.raise e) t := by
      have h := h.evaluates hs
      rw [Expr.walkList_singleton] at h
      exact h.imp fun bs hb => by rw [← hb]; exact foldl_raise_reads [e] a
    exact (hx.logs_record hs (.stmt (.raise m x))).imp fun log hl => hl.placed rfl
  | attempt _ _ _ ihbody ihhandlers ihcleanup =>
    have hb := ihbody hs
    have hboth := hb.trans (ihhandlers (hb.step.inside hs))
    exact hboth.trans (ihcleanup (hboth.step.inside hs))
  | cons _ _ ih ih' =>
    have hx := ih hs
    exact hx.trans (ih' (hx.step.inside hs))
  | @block m body close s t _ ih =>
    have ho := opened_inner hs m close .block (by decide)
    exact ho.close (ih ho.inside)
  | @sections close m values isDefault body cs a s t u v hvalues _ _ ihbody ihcs =>
    have hx := ((hvalues.evaluates hs).logs_record hs
      (.caseClause (.mk m values isDefault body))).imp fun log hl => hl.placed rfl
    have ho := opened_inner (hx.step.inside hs) m close .case (by decide)
    have hclause := Outcome.trans hx (ho.close (ihbody ho.inside))
    simpa [Part.groups, CaseClause.groupsList] using
      hclause.trans (ihcs (hclause.step.inside hs))
  | @bareHandler m bodyMark body close cs s t u _ _ ihbody ihcs =>
    let n : Node := .catchClause (.mk m none (.mk bodyMark body close))
    have hn : Logs [] F s (s.after (addFact m (.catches .any))) (Placed · [(n, [])]) :=
      (Logs.refl hs.valid ((ReadBy.nil n []).placed rfl)).andThen
        (records_addFact s m (.catches .any))
    have ho := opened_inner (hn.step.inside hs) m close .handler (by decide)
    have hbody := (ihbody ho.inside).andThen (records_shareScope t bodyMark)
    have hclause := Outcome.trans hn (ho.close hbody)
    simpa [Part.groups, CatchClause.groupsList, Block.groups] using
      hclause.trans (ihcs (hclause.step.inside hs))
  | @namedHandler m bodyMark name type accepted body close cs s t u v htype _ _ ihbody ihcs =>
    let n : Node := .catchClause (.mk m (some (name, type)) (.mk bodyMark body close))
    have ht := ((htype.denotes hs).logs hs n).andThen (records_addFact t m (.catches accepted))
    have ho := opened_inner (ht.step.inside hs) m close .handler (by decide)
    have hv := logs_introduce ho.inside n name (some (.error accepted)) true
    have hbody : Logs [] F _ _ fun log => ∃ e rest,
        log = [⟨.init, n, name, e⟩] ++ rest ∧ Placed rest (Stmt.groupsList body) :=
      (hv.trans (ihbody (hv.step.inside ho.inside)) fun log rest hl hrest => by
        obtain ⟨e, rfl⟩ := hl
        exact ⟨e, rest, rfl, hrest⟩).andThen (records_shareScope u bodyMark)
    have hclause : Outcome F s ((u.after (shareScope bodyMark)).after closeScope)
        ((n, idents (name.walk ++ type.walk everywhere)) :: Stmt.groupsList body) := by
      refine ht.trans (ho.close hbody) ?_
      rintro log _ hl ⟨e, rest, rfl, hrest⟩
      rw [← List.append_assoc]
      exact (hl.placed_append (b := ⟨.init, n, name, e⟩) rfl trivial rfl).append hrest
    simpa [Part.groups, CatchClause.groupsList, Block.groups] using
      hclause.trans (ihcs (hclause.step.inside hs))

end Resolve

end FlowCheck
