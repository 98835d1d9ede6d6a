import FlowCheck.Proofs.Resolve.Declaration
import FlowCheck.Proofs.Resolve.Log
import Mathlib.Data.List.Forall2

/-!
# What resolving declarations records

Error domains, package variables and signatures add to the tables of names and to no facts, for they
belong to no function. The parameters of a function are made with its signature, and wait for its
body to put them into a scope.
-/
namespace FlowCheck

namespace Resolve

variable {F : Option ScopeId} {s t u : State}

/-- A step that binds no names but `names`, and records nothing that flow analysis reads. -/
structure Quiet (names : List Ident) (s t : State) : Prop where
  step : Step [] s t
  reads : t.readFacts = s.readFacts
  assigns : t.assignFacts = s.assignFacts
  keys : t.reports = [] → ∀ p ∈ t.uses ++ t.defs,
    p ∈ s.uses ++ s.defs ∨ ∃ name ∈ names, p.1 = name.mark.id

namespace Quiet

variable {names names' : List Ident}

theorem refl (hs : s.tree.Valid) (names : List Ident) : Quiet names s s :=
  ⟨.refl hs, rfl, rfl, fun _ _ hp => .inl hp⟩

theorem trans (h : Quiet names s t) (h' : Quiet names' t u) : Quiet (names ++ names') s u := by
  refine ⟨h.step.trans h'.step, h'.reads.trans h.reads, h'.assigns.trans h.assigns, ?_⟩
  intro hc p hp
  rcases h'.keys hc p hp with hp | ⟨name, hn, e⟩
  · rcases h.keys (h'.step.clean hc) p hp with hp | ⟨name, hn, e⟩
    · exact .inl hp
    · exact .inr ⟨name, List.mem_append_left _ hn, e⟩
  · exact .inr ⟨name, List.mem_append_right _ hn, e⟩

theorem mono (h : Quiet names s t) (hn : ∀ name ∈ names, name ∈ names') : Quiet names' s t := by
  refine ⟨h.step, h.reads, h.assigns, fun hc p hp => ?_⟩
  exact (h.keys hc p hp).imp_right fun ⟨name, hm, e⟩ => ⟨name, hn name hm, e⟩

theorem reported (h : Still s t) (hs : s.tree.Valid) (hr : t.reports ≠ []) : Quiet names s t :=
  ⟨h.step hs, h.reads, h.assigns, fun hc => absurd hc hr⟩

end Quiet

theorem Binds.quiet {w : List Node} {Q : List (Ident × EntityId) → Prop} (h : Binds F s t w Q)
    (hs : s.tree.Valid) : Quiet (idents w) s t := by
  refine ⟨h.still.step hs, h.still.reads, h.still.assigns, fun hc p hp => ?_⟩
  obtain ⟨bs, hb, -⟩ := h.bound hc
  rw [List.mem_append, h.still.defs, ← List.mem_reverse, hb.uses] at hp
  rcases hp with hp | hp
  · rcases List.mem_append.1 hp with hp | hp
    · exact .inl (List.mem_append_left _ (List.mem_reverse.1 hp))
    · obtain ⟨q, hq, rfl⟩ := List.mem_map.1 hp
      exact .inr ⟨q.1, hb.names.subset (List.mem_map_of_mem hq), rfl⟩
  · exact .inl (List.mem_append_right _ hp)

theorem Created.quiet {x : Entity} {e : EntityId} (h : Created x s t e) : Quiet [] s t :=
  ⟨h.step, h.reads, h.assigns, fun _ p hp => .inl (by rwa [h.uses, h.defs] at hp)⟩

theorem Created.quiet_declared {x : Entity} {e : EntityId} {name : Ident} (h : Created x s t e)
    (h' : Declared t u name e) : Quiet [name] s u := by
  refine ⟨h.declared h', h'.reads.trans h.reads, h'.assigns.trans h.assigns, fun hc p hp => ?_⟩
  have hdefs : p ∈ u.defs ↔ p ∈ u.defs.reverse := List.mem_reverse.symm
  rw [List.mem_append, h'.uses, h.uses, hdefs, h'.defs hc, h.defs, List.mem_append,
    List.mem_singleton, List.mem_reverse, ← or_assoc] at hp
  rcases hp with hp | rfl
  · exact .inl (List.mem_append.2 hp)
  · exact .inr ⟨name, List.mem_singleton_self _, rfl⟩

/-! ### Error domains -/

theorem CodeDeclRun.quiet {domain : EntityId} {owner : String} {c : Ident}
    (h : CodeDeclRun domain owner c s t) (hs : Inside F s) (hd : domain < s.tree.entities.size)
    (hv : (s.tree.entity domain).IsDomain) : Quiet [c] s t := by
  obtain ⟨hvalid, hgrows, hhomes⟩ := hs.valid.addCode hd hv c.mark.pos c.text
  cases h with
  | @added code tree h =>
    rw [h] at hvalid hgrows hhomes
    refine ⟨⟨hvalid, hgrows, rfl, rfl, fun e he _ => hhomes e he, id⟩, rfl, rfl, fun _ p hp => ?_⟩
    change p ∈ s.uses ++ (c.mark.id, code) :: s.defs at hp
    rcases List.mem_append.1 hp with hp | hp
    · exact .inl (List.mem_append_left _ hp)
    · rcases List.mem_cons.1 hp with rfl | hp
      · exact .inr ⟨c, List.mem_singleton_self _, rfl⟩
      · exact .inl (List.mem_append_right _ hp)
  | taken =>
    obtain ⟨hstill, hr⟩ := still_report s c.mark.pos (.redeclaredCode c.text owner)
    exact .reported hstill hs.valid hr

/-- The codes of a domain. -/
theorem quiet_codes {domain : EntityId} {owner : String} {cs : List Ident}
    (h : ListRun (CodeDeclRun domain owner) cs s t) (hs : Inside F s)
    (hd : domain < s.tree.entities.size) (hv : (s.tree.entity domain).IsDomain) : Quiet cs s t := by
  induction h with
  | nil => exact .refl hs.valid _
  | cons hc _ ih =>
    have ht := hc.quiet hs hd hv
    exact ht.trans (ih (ht.step.inside hs) (Nat.lt_of_lt_of_le hd ht.step.grows.entities_le)
      ((ht.step.grows.domain domain hd).2 hv))

theorem ErrorDomainRun.quiet {d : ErrorDomainDecl} (h : ErrorDomainRun d s t) (hs : Inside F s) :
    Quiet (d.name :: d.codes) s t := by
  cases h with
  | mk hcodes =>
    have hnew := created_newEntity (x := d.entity s.tree.entities.size) hs.valid rfl rfl
    have hname := declared_declare (hnew.step.inside hs) d.name hnew.known (by rw [hnew.entity]; rfl)
    have hquiet := hnew.quiet_declared hname
    refine hquiet.trans (quiet_codes hcodes (hquiet.step.inside hs)
      (Nat.lt_of_lt_of_le hnew.known hname.grows.entities_le) ?_)
    refine (hname.grows.domain _ hnew.known).2 ?_
    rw [hnew.entity]
    exact ⟨[], rfl⟩

/-! ### Package variables and signatures -/

theorem GlobalRun.quiet {d : VarDecl} (h : GlobalRun d s t) (hs : Inside F s) :
    Quiet (idents (d.walk everywhere)) s t := by
  cases h with
  | @mk type a t u hvalue htype =>
    have hx := (hvalue.evaluates hs).quiet hs.valid
    rw [Expr.walkList_toList] at hx
    have hboth := hx.trans ((htype.denotes (hx.step.inside hs)).quiet hx.step.valid)
    let v : Entity := { kind := .var .local, name := d.name.text, type, pos := d.name.mark.pos }
    have hnew : Created v u (u.after (newEntity v)) (newEntity v u).1 :=
      created_newEntity hboth.step.valid rfl rfl
    have hname := declared_declare ((hboth.trans hnew.quiet).step.inside hs) d.name hnew.known
      (by rw [hnew.entity])
    refine (hboth.trans (hnew.quiet_declared hname)).mono fun name hn => ?_
    simp only [VarDecl.walk, Node.above_everywhere, idents_cons_of_none (n := .varDecl d) rfl,
      idents_append, List.mem_append] at hn ⊢
    rcases hn with (hn | hn) | hn
    · exact .inr hn
    · exact .inl (.inr hn)
    · exact .inl (.inl hn)

/-- The variable that a parameter is. -/
def Param.var (p : Param) (e : EntityId) : Var :=
  ⟨e, p.name.text, if p.out then .outParam else .param, p.name.mark.pos⟩

/-- The entity is a parameter that no scope holds. -/
structure Waiting (t : ScopeTree) (p : Param) (e : EntityId) : Prop where
  known : e < t.entities.size
  home : (t.entity e).home = none
  asVar : asVar e (t.entity e) = some (Param.var p e)

theorem Waiting.step {ids : List EntityId} {p : Param} {e : EntityId} (h : Waiting s.tree p e)
    (hst : Step ids s t) (he : e ∉ ids) : Waiting t.tree p e where
  known := Nat.lt_of_lt_of_le h.known hst.grows.entities_le
  home := (hst.homes e h.known he).trans h.home
  asVar := (hst.grows.asVar e h.known).trans h.asVar

/-- The names in the type of a parameter. -/
def typeNames (p : Param) : List Ident := idents (p.type.walk everywhere)

theorem ParamRun.quiet {p : Param} {r : EntityId × VarKind × Typ} (h : ParamRun p s r t)
    (hs : Inside F s) :
    Quiet (typeNames p) s t ∧ s.tree.entities.size ≤ r.1 ∧ Waiting t.tree p r.1 := by
  cases h with
  | @mk type u htype =>
    have hquiet := (htype.denotes hs).quiet hs.valid
    let x : Entity := { kind := .var p.kind, name := p.name.text, type, pos := p.name.mark.pos }
    have hnew : Created x u (u.after (newEntity x)) (newEntity x u).1 :=
      created_newEntity hquiet.step.valid rfl rfl
    refine ⟨?_, hquiet.step.grows.entities_le, hnew.known, ?_, ?_⟩
    · have hboth := hquiet.trans hnew.quiet
      rwa [List.append_nil] at hboth
    · exact congrArg Entity.home hnew.entity
    · exact congrArg (asVar _) hnew.entity

theorem ParamsRun.quiet {ps : List Param} {rs : List (EntityId × VarKind × Typ)}
    (h : ParamsRun ps s rs t) (hs : Inside F s) :
    Quiet (ps.flatMap typeNames) s t ∧ (rs.map Prod.fst).Nodup ∧
      (∀ e ∈ rs.map Prod.fst, s.tree.entities.size ≤ e) ∧
      List.Forall₂ (Waiting t.tree) ps (rs.map Prod.fst) := by
  induction h with
  | nil => exact ⟨.refl hs.valid _, by simp, by simp, .nil⟩
  | cons hp _ ih =>
    obtain ⟨hq, hle, hw⟩ := hp.quiet hs
    obtain ⟨hq', hnodup, hles, hws⟩ := ih (hq.step.inside hs)
    refine ⟨hq.trans hq', ?_, ?_, .cons (hw.step hq'.step List.not_mem_nil) hws⟩
    · refine List.nodup_cons.2 ⟨fun hm => ?_, hnodup⟩
      exact absurd hw.known (Nat.not_lt.2 (hles _ hm))
    · refine List.forall_mem_cons.2 ⟨hle, fun e he => ?_⟩
      exact Nat.le_trans hq.step.grows.entities_le (hles e he)

theorem quiet_throws {xs : List Expr} (h : ListRun ErrorTypeRun xs s t) (hs : Inside F s) :
    Quiet (idents (Expr.walkList everywhere xs)) s t := by
  induction h with
  | nil => exact .refl hs.valid _
  | cons hx _ ih =>
    have hquiet := (hx.denotes hs).quiet hs.valid
    rw [Expr.walkList, idents_append]
    exact hquiet.trans (ih (hquiet.step.inside hs))

/-- The names that a signature binds. Those of parameters wait for the body. -/
def signatureNames (d : FuncDecl) : List Ident :=
  d.name :: (d.params.flatMap typeNames ++ idents (Expr.walkOption everywhere d.result) ++
    idents (Expr.walkList everywhere d.throws))

/-- An entry of the table of functions. -/
structure Signed (t : ScopeTree) (d : FuncDecl) (entry : Nat × FuncEntry) : Prop where
  key : entry.1 = d.mark.id
  params : List.Forall₂ (Waiting t) d.params entry.2.params

theorem Signed.step {d : FuncDecl} {entry : Nat × FuncEntry} (h : Signed s.tree d entry)
    (hst : Step [] s t) : Signed t.tree d entry :=
  ⟨h.key, h.params.imp fun _ _ hw => hw.step hst List.not_mem_nil⟩

/-- The state between declarations: the names bound so far are among `names`, the functions seen so
far are `ds`, and their parameters are all different. -/
structure Heads (names : List Ident) (ds : List FuncDecl) (s : State) : Prop where
  inside : Inside none s
  reads : s.readFacts = []
  assigns : s.assignFacts = []
  keys : s.reports = [] → ∀ p ∈ s.uses ++ s.defs, ∃ name ∈ names, p.1 = name.mark.id
  signed : List.Forall₂ (Signed s.tree) ds s.funcs.reverse
  params : (s.funcs.reverse.flatMap fun p => p.2.params).Nodup

namespace Heads

variable {names names' : List Ident} {ds : List FuncDecl}

theorem quiet (h : Heads names ds s) (hq : Quiet names' s t) : Heads (names ++ names') ds t := by
  refine ⟨hq.step.inside h.inside, hq.reads.trans h.reads, hq.assigns.trans h.assigns,
    fun hc p hp => ?_, ?_, ?_⟩
  · rcases hq.keys hc p hp with hp | ⟨name, hn, e⟩
    · obtain ⟨name, hn, e⟩ := h.keys (hq.step.clean hc) p hp
      exact ⟨name, List.mem_append_left _ hn, e⟩
    · exact ⟨name, List.mem_append_right _ hn, e⟩
  · rw [hq.step.funcs]
    exact h.signed.imp fun _ _ hd => hd.step hq.step
  · rw [hq.step.funcs]
    exact h.params

/-- The parameters seen so far exist. -/
theorem known (h : Heads names ds s) {e : EntityId}
    (he : e ∈ s.funcs.reverse.flatMap fun p => p.2.params) : e < s.tree.entities.size := by
  obtain ⟨entry, hentry, he⟩ := List.mem_flatMap.1 he
  obtain ⟨d, -, hd⟩ := exists_left_of_forall₂ h.signed entry hentry
  obtain ⟨p, -, hp⟩ := exists_left_of_forall₂ hd.params e he
  exact hp.known

/-- One more entry in the table of functions. -/
theorem enter (h : Heads names ds s) {d : FuncDecl} {entry : Nat × FuncEntry}
    (he : Signed s.tree d entry) (hn : entry.2.params.Nodup)
    (hd : ∀ a ∈ s.funcs.reverse.flatMap (fun p => p.2.params), ∀ b ∈ entry.2.params, a ≠ b) :
    Heads names (ds ++ [d]) { s with funcs := entry :: s.funcs } := by
  obtain ⟨⟨hv, hl, hf, ha⟩, hreads, hassigns, hkeys, hsigned, hparams⟩ := h
  refine ⟨⟨hv, hl, hf, ha⟩, hreads, hassigns, hkeys, ?_, ?_⟩
  · rw [List.reverse_cons]
    exact List.rel_append hsigned (.cons he .nil)
  · rw [List.reverse_cons, List.flatMap_append, List.flatMap_singleton, List.nodup_append]
    exact ⟨hparams, hn, hd⟩

theorem func {d : FuncDecl} (h : Heads names ds s) (hd : FuncRun d s t) :
    Heads (names ++ signatureNames d) (ds ++ [d]) t := by
  cases hd with
  | @mk params result throws u v w hparams hresult hthrows =>
    have hnew := created_newEntity (x := d.entity) h.inside.valid rfl rfl
    have hdecl := declared_declare (hnew.step.inside h.inside) d.name hnew.known
      (by rw [hnew.entity]; rfl)
    have hname := hnew.quiet_declared hdecl
    obtain ⟨hparams, hnodup, hfresh, hwaiting⟩ := hparams.quiet (hname.step.inside h.inside)
    have hsig := hname.trans hparams
    have hw := (hresult.denotes (hsig.step.inside h.inside)).quiet hsig.step.valid
    have hres := hsig.trans hw
    have hx := quiet_throws hthrows (hres.step.inside h.inside)
    have hall := hres.trans hx
    -- the type of the function is set last
    have hin := hall.step.inside h.inside
    let type := Typ.func (params.map Prod.snd) result throws
    let typed : State := { w with
      tree := w.tree.setEntity s.tree.entities.size fun e => { e with type := some type } }
    have hstep : Step [] w typed := by
      refine ⟨hin.valid.setEntity _ rfl .rfl rfl fun c hc => hin.valid.code _ c hc,
        ScopeTree.extends_setEntity w.tree _ rfl .rfl fun _ hh => hh, rfl, rfl, fun e _ _ => ?_, id⟩
      exact (congrArg Entity.home (ScopeTree.entity_setEntity _ _ _ _)).trans (by split <;> rfl)
    have hset : Quiet [] w typed := ⟨hstep, rfl, rfl, fun _ _ hp => .inl hp⟩
    have hquiet : Quiet (signatureNames d) s typed := by
      simpa [signatureNames] using hall.trans hset
    have hentry : Signed typed.tree d
        (d.mark.id, ⟨s.tree.entities.size, params.map Prod.fst, result⟩) := by
      refine ⟨rfl, hwaiting.imp fun p e he => ?_⟩
      exact ((he.step hw.step List.not_mem_nil).step hx.step List.not_mem_nil).step hstep
        List.not_mem_nil
    refine (h.quiet hquiet).enter hentry hnodup fun a ha b hb => ?_
    -- parameters of earlier functions are older than this function
    rw [hquiet.step.funcs] at ha
    have hold := Nat.lt_of_lt_of_le (h.known ha) hname.step.grows.entities_le
    exact Nat.ne_of_lt (Nat.lt_of_lt_of_le hold (hfresh b hb))

theorem mono (h : Heads names ds s) (hn : names ⊆ names') : Heads names' ds s := by
  refine ⟨h.inside, h.reads, h.assigns, fun hc p hp => ?_, h.signed, h.params⟩
  obtain ⟨name, hm, e⟩ := h.keys hc p hp
  exact ⟨name, hn hm, e⟩

end Heads

/-- The names that a declaration binds before any body is resolved. -/
def headNames : Decl → List Ident
  | .errorDomain d => d.name :: d.codes
  | .var d => idents (d.walk everywhere)
  | .func d => signatureNames d

variable {names : List Ident}

theorem Heads.domains {decls : List Decl} {ds : List FuncDecl} (h : Heads names ds s)
    (hd : ListRun DomainsRun decls s t) (hn : decls.flatMap headNames ⊆ names) :
    Heads names ds t := by
  induction hd with
  | nil => exact h
  | cons hx _ ih =>
    rw [List.flatMap_cons, List.append_subset] at hn
    cases hx with
    | errorDomain hx =>
      have ht := h.quiet (hx.quiet h.inside)
      exact ih (ht.mono (List.append_subset.2 ⟨List.Subset.refl _, hn.1⟩)) hn.2
    | var | func => exact ih h hn.2

theorem Heads.members {decls : List Decl} {ds : List FuncDecl} (h : Heads names ds s)
    (hd : ListRun MembersRun decls s t) (hn : decls.flatMap headNames ⊆ names) :
    Heads names (ds ++ decls.filterMap fun
      | .func d => some d
      | _ => none) t := by
  induction hd generalizing ds with
  | nil => simpa using h
  | cons hx _ ih =>
    rw [List.flatMap_cons, List.append_subset] at hn
    cases hx with
    | errorDomain => exact ih h hn.2
    | var hx =>
      have ht := h.quiet (hx.quiet h.inside)
      exact ih (ht.mono (List.append_subset.2 ⟨List.Subset.refl _, hn.1⟩)) hn.2
    | func hx =>
      have hmore := ih ((h.func hx).mono (List.append_subset.2 ⟨List.Subset.refl _, hn.1⟩)) hn.2
      simpa using hmore

theorem inside_initial : Inside none {} := by
  refine ⟨ScopeTree.valid_initial, by decide, by decide, ?_⟩
  have hchain : ScopeTree.initial.chain ScopeTree.root = [ScopeTree.root] := by decide
  intro i hi
  rw [show ({} : State).tree.chain ({} : State).here = _ from hchain] at hi
  obtain rfl := List.mem_singleton.1 hi
  exact .inl (by decide)

end Resolve

end FlowCheck
