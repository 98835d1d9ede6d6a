import FlowCheck.Proofs.Resolve.Head
import FlowCheck.Proofs.Resolve.Statement

/-!
# The log of a file

A function is resolved in a scope of its own, which its parameters share with its body. The tables
and facts of a whole file are those of its declarations, which have no facts, and after them the
logs of the function bodies one by one.
-/
namespace FlowCheck

namespace Resolve

variable {F : Option ScopeId} {s t u : State}

/-- A parameter is assigned on entry, or read where the body ends. -/
def paramBinding (d : FuncDecl) (p : Param) (e : EntityId) : Binding :=
  if p.out then ⟨.out d.body.close, .stmt (.block d.body), p.name, e⟩
  else ⟨.init, .func d, p.name, e⟩

@[simp] theorem name_paramBinding (d : FuncDecl) (p : Param) (e : EntityId) :
    (paramBinding d p e).name = p.name := by
  unfold paramBinding
  split <;> rfl

@[simp] theorem entity_paramBinding (d : FuncDecl) (p : Param) (e : EntityId) :
    (paramBinding d p e).entity = e := by
  unfold paramBinding
  split <;> rfl

theorem isUse_paramBinding (d : FuncDecl) (p : Param) (e : EntityId) :
    (paramBinding d p e).isUse = false := by
  unfold paramBinding
  split <;> rfl

/-- The log of a function: its parameters and then its body. -/
def Belongs (d : FuncDecl) (log : List Binding) : Prop :=
  ∃ ids body, d.params.length = ids.length ∧
    log = (d.params.zip ids).map (fun q => paramBinding d q.1 q.2) ++ body ∧
    Placed body d.body.groups

theorem BodyParamRun.logs {f : ScopeId} {d : FuncDecl} {p : Param} {e : EntityId}
    (h : BodyParamRun d p.name e s t) (hs : Inside (some f) s) (hw : Waiting s.tree p e) :
    Logs [e] (some f) s t (· = [paramBinding d p e]) := by
  have hdecl := declared_declare hs p.name hw.known hw.home
  have hvar : asVar e ((s.after (declare p.name e)).tree.entity e) = some (Param.var p e) :=
    (hdecl.grows.asVar e hw.known).trans hw.asVar
  have hown (hc : (s.after (declare p.name e)).reports = []) :
      (s.after (declare p.name e)).tree.ownVar? e = some (Param.var p e) := by
    rw [ScopeTree.ownVar?_of_function (hdecl.home hc) (f := f), hvar]
    rw [hdecl.grows.function? hs.valid hdecl.valid hs.here_lt, hs.function]
  have hstep : Step [e] s (s.after (declare p.name e)) := by
    refine ⟨hdecl.valid, hdecl.grows, hdecl.here, hdecl.funcs, fun i _ hi => ?_, hdecl.clean⟩
    exact hdecl.homes i fun h => hi (List.mem_singleton.2 h)
  -- the one fact that is recorded is what the entry of the log says
  have hlogs {rs : List (Nat × Use)} {as : List (Nat × Var)}
      (hrec : Records (s.after (declare p.name e)) t rs as)
      (hfact : (s.after (declare p.name e)).reports = [] →
        rs = ((paramBinding d p e).read? (s.after (declare p.name e)).tree).toList ∧
        as = ((paramBinding d p e).assigned? (s.after (declare p.name e)).tree).toList) :
      Logs [e] (some f) s t (· = [paramBinding d p e]) := by
    refine ⟨hstep.trans ((hrec.step hdecl.valid).mono (List.nil_subset _)), fun hc => ?_⟩
    have hclean := hrec.reports ▸ hc
    obtain ⟨rfl, rfl⟩ := hfact hclean
    refine ⟨_, hdecl.logged hs hw.known hclean ?_ (isUse_paramBinding d p e) hrec, rfl⟩
    simp [Binding.entry]
  cases h with
  | other hv =>
    rw [hvar] at hv
    cases hv
  | out hv hk =>
    obtain rfl := Option.some.inj (hvar.symm.trans hv)
    have hout : p.out = true := by
      cases hout : p.out with
      | true => rfl
      | false => simp [Param.var, hout] at hk
    refine hlogs (records_addFact _ d.body.mark _) fun hc => ?_
    simp [paramBinding, hout, Binding.read?, Binding.readPos?, Binding.assigned?,
      Binding.isAssign, hown hc, Node.id, Node.mark, Stmt.mark]
  | assigned hv hk =>
    obtain rfl := Option.some.inj (hvar.symm.trans hv)
    have hout : p.out = false := by
      cases hout : p.out with
      | false => rfl
      | true => simp [Param.var, hout] at hk
    refine hlogs (records_addFact _ d.mark _) fun hc => ?_
    simp [paramBinding, hout, Binding.read?, Binding.readPos?, Binding.assigned?,
      Binding.isAssign, hown hc, Node.id, Node.mark]

/-- Parameters wait on, as long as others than they are put into scopes. -/
theorem waiting_step {ids changed : List EntityId} {ps : List Param}
    (h : List.Forall₂ (Waiting s.tree) ps ids) (hst : Step changed s t)
    (hids : ∀ e ∈ ids, e ∉ changed) : List.Forall₂ (Waiting t.tree) ps ids :=
  List.forall₂_iff_zip.2 ⟨h.length_eq, fun {_ e} hz =>
    (List.forall₂_zip h hz).step hst (hids e (List.of_mem_zip hz).2)⟩

theorem logs_params {f : ScopeId} {d : FuncDecl} {ps : List Param} {ids : List EntityId}
    (h : ListRun (fun q => BodyParamRun d q.1.name q.2) (ps.zip ids) s t)
    (hs : Inside (some f) s) (hw : List.Forall₂ (Waiting s.tree) ps ids) (hn : ids.Nodup) :
    Logs ids (some f) s t (· = (ps.zip ids).map fun q => paramBinding d q.1 q.2) := by
  induction ps generalizing ids s with
  | nil =>
    cases hw
    cases h
    exact .refl hs.valid rfl
  | cons p ps ih =>
    cases hw with
    | @cons _ e _ ids hp hps =>
    cases h with
    | @cons _ _ _ t _ hfirst hmore =>
    obtain ⟨he, hn⟩ := List.nodup_cons.1 hn
    have ht := hfirst.logs hs hp
    have hrest : List.Forall₂ (Waiting t.tree) ps ids := waiting_step hps ht.step fun i hi hm => by
      obtain rfl := List.mem_singleton.1 hm
      exact he hi
    have hu := ih hmore (ht.step.inside hs) hrest hn
    have hone : Logs (e :: ids) (some f) s t _ := ht.mono (by simp)
    refine hone.trans (hu.mono (List.subset_cons_self e ids)) fun log log' hl hl' => ?_
    rw [hl, hl']
    rfl

theorem BodyRun.logs {d : FuncDecl} (h : BodyRun d s t) (hs : Inside none s)
    (hw : List.Forall₂ (Waiting s.tree) d.params (idsOf s.funcs d)) (hn : (idsOf s.funcs d).Nodup) :
    s.tree.scopes.size < t.tree.scopes.size ∧
      Logs (idsOf s.funcs d) (some s.tree.scopes.size) s t (Belongs d) := by
  cases h with
  | @mk u v hparams hbody =>
    have ho := opened_openScope hs d.mark d.body.close .function d.name.text
      (G := some s.tree.scopes.size) (by simp)
    have hlt := ho.inside.here_lt
    have hwaiting : List.Forall₂ (Waiting (s.after (openScope d.mark d.body.close .function
        d.name.text)).tree) d.params (idsOf s.funcs d) :=
      hw.imp fun p e he => ⟨he.known, he.home, he.asVar⟩
    have hu := (logs_params hparams ho.inside hwaiting hn).andThen (records_shareScope u d.body.mark)
    have hstmts := hbody.outcome (hu.step.inside ho.inside)
    have hall := hu.trans (hstmts.mono (List.nil_subset _)) (R := Belongs d) fun log log' hl hl' => by
      refine ⟨_, log', hw.length_eq, by rw [hl], ?_⟩
      cases hb : d.body
      simpa [Part.groups, Block.groups, hb, Block.stmts] using hl'
    exact ⟨Nat.lt_of_lt_of_le hlt hall.step.grows.scopes_le, ho.close hall⟩

/-- A function with its scope and its log. -/
structure Body where
  decl : FuncDecl
  scope : ScopeId
  log : List Binding

/-- The logs of some functions, which have been resolved between `s` and `t`. -/
structure Bodies (s t : State) (bodies : List Body) : Prop where
  entries : Entries s t (bodies.flatMap Body.log)
  owned : ∀ c ∈ bodies, Owned (some c.scope) t.tree c.log
  belongs : ∀ c ∈ bodies, Belongs c.decl c.log
  scopes : (bodies.map Body.scope).Pairwise (· < ·)
  scope_le : ∀ c ∈ bodies, s.tree.scopes.size ≤ c.scope

/-- The functions whose bodies are still to be resolved. -/
structure Ready (ds : List FuncDecl) (s : State) : Prop where
  inside : Inside none s
  waiting : ∀ d ∈ ds, List.Forall₂ (Waiting s.tree) d.params (idsOf s.funcs d)
  params : (ds.flatMap (idsOf s.funcs)).Nodup

/-- Other functions do not get hold of the parameters of a function. -/
theorem Ready.tail {d : FuncDecl} {ds : List FuncDecl} (h : Ready (d :: ds) s)
    (hst : Step (idsOf s.funcs d) s t) : Ready ds t := by
  obtain ⟨hin, hwaiting, hparams⟩ := h
  rw [List.flatMap_cons, List.nodup_append] at hparams
  refine ⟨hst.inside hin, fun d' hd' => ?_, hst.funcs ▸ hparams.2.1⟩
  rw [hst.funcs]
  refine waiting_step (hwaiting d' (List.mem_cons_of_mem _ hd')) hst fun e he hm => ?_
  exact hparams.2.2 e hm e (List.mem_flatMap.2 ⟨d', hd', he⟩) rfl

/-- What resolving some function bodies comes to. -/
structure Finished (ds : List FuncDecl) (s t : State) : Prop where
  valid : t.tree.Valid
  grows : s.tree.Extends t.tree
  clean : t.reports = [] → s.reports = []
  bodies : t.reports = [] → ∃ bodies, bodies.map Body.decl = ds ∧ Bodies s t bodies

theorem finished_funcs {ds : List FuncDecl} (h : ListRun BodyRun ds s t) (hr : Ready ds s) :
    Finished ds s t := by
  induction h with
  | nil =>
    refine ⟨hr.inside.valid, .refl _, id, fun _ => ⟨[], rfl, .nil _, ?_, ?_, ?_, ?_⟩⟩ <;> simp
  | @cons d ds s t u hd _ ih =>
    have hids := (List.nodup_append.1 (by simpa using hr.params)).1
    obtain ⟨hlt, ht⟩ := hd.logs hr.inside (hr.waiting d List.mem_cons_self) hids
    have hu := ih (hr.tail ht.step)
    refine ⟨hu.valid, ht.step.grows.trans hu.grows, fun hc => ht.step.clean (hu.clean hc),
      fun hc => ?_⟩
    obtain ⟨log, hlog, hbelongs⟩ := ht.logged (hu.clean hc)
    obtain ⟨bodies, rfl, hb⟩ := hu.bodies hc
    refine ⟨⟨d, s.tree.scopes.size, log⟩ :: bodies, rfl, ?_, ?_, ?_, ?_, ?_⟩
    · exact hlog.toEntries.append hb.entries hu.grows ht.step.valid hu.valid
    · refine List.forall_mem_cons.2 ⟨?_, hb.owned⟩
      exact hlog.owned.extends hlog.settled hu.grows ht.step.valid hu.valid
    · exact List.forall_mem_cons.2 ⟨hbelongs, hb.belongs⟩
    · refine List.pairwise_cons.2 ⟨List.forall_mem_map.2 fun c hc => ?_, hb.scopes⟩
      exact Nat.lt_of_lt_of_le hlt (hb.scope_le c hc)
    · refine List.forall_mem_cons.2 ⟨Nat.le_refl _, fun c hc => ?_⟩
      exact Nat.le_trans (Nat.le_of_lt hlt) (hb.scope_le c hc)

/-! ### Whole files -/

theorem lookup_of_mem {α : Type} {entries : List (Nat × α)} {k : Nat} {a : α}
    (hn : (entries.map Prod.fst).Nodup) (h : (k, a) ∈ entries) : entries.lookup k = some a := by
  induction entries with
  | nil => cases h
  | cons p entries ih =>
    rw [List.map_cons, List.nodup_cons] at hn
    rcases List.mem_cons.1 h with rfl | h
    · simp
    · have hne : k ≠ p.1 := fun e => hn.1 (e ▸ List.mem_map_of_mem h)
      rw [List.lookup_cons, beq_eq_false_iff_ne.2 hne]
      exact ih hn.2 h

/-- Every function finds its own parameters in the table. -/
theorem Heads.ready {names : List Ident} {ds : List FuncDecl} (h : Heads names ds s)
    (hn : (ds.map fun d => d.mark.id).Nodup) : Ready ds s := by
  have hkeys : List.Forall₂ (· = ·) (ds.map fun d => d.mark.id) (s.funcs.reverse.map Prod.fst) :=
    List.forall₂_map_left_iff.2 (List.forall₂_map_right_iff.2 (h.signed.imp fun _ _ hd => hd.key.symm))
  rw [List.forall₂_eq_eq_eq] at hkeys
  have hnodup : (s.funcs.map Prod.fst).Nodup := by
    rw [hkeys, List.map_reverse, List.nodup_reverse] at hn
    exact hn
  have hfound : List.Forall₂ (fun d entry => Signed s.tree d entry ∧ idsOf s.funcs d = entry.2.params)
      ds s.funcs.reverse := by
    refine List.forall₂_iff_zip.2 ⟨h.signed.length_eq, fun {d entry} hz => ?_⟩
    have hd := List.forall₂_zip h.signed hz
    have hmem : entry ∈ s.funcs := List.mem_reverse.1 (List.of_mem_zip hz).2
    refine ⟨hd, ?_⟩
    rw [idsOf, ← hd.key, lookup_of_mem hnodup hmem]
    rfl
  have hids : List.Forall₂ (· = ·) (ds.map (idsOf s.funcs)) (s.funcs.reverse.map fun e => e.2.params) :=
    List.forall₂_map_left_iff.2 (List.forall₂_map_right_iff.2 (hfound.imp fun _ _ hd => hd.2))
  rw [List.forall₂_eq_eq_eq] at hids
  refine ⟨h.inside, fun d hd => ?_, ?_⟩
  · obtain ⟨entry, -, hsigned, hpar⟩ := exists_left_of_forall₂ hfound.flip d hd
    rw [hpar]
    exact hsigned.params
  · rw [List.flatMap_def, hids, ← List.flatMap_def]
    exact h.params

/-- Everything before the function bodies. -/
theorem HeadsRun.heads {f : File} (h : HeadsRun f {} t) :
    Heads (f.decls.flatMap headNames) f.funcs t := by
  cases h with
  | mk hdomains hmembers =>
    have ho := opened_openScope inside_initial f.mark Pos.none .package f.package.text (G := none)
      (by simp)
    have hstart : Heads (f.decls.flatMap headNames) []
        (State.after {} (openScope f.mark Pos.none .package f.package.text)) := by
      refine ⟨ho.inside, ho.reads, ho.assigns, fun _ p hp => ?_, ?_, ?_⟩
      · rw [ho.uses, ho.defs] at hp
        cases hp
      · rw [ho.funcs]
        exact .nil
      · rw [ho.funcs]
        exact List.nodup_nil
    exact (hstart.domains hdomains (List.Subset.refl _)).members hmembers (List.Subset.refl _)

end Resolve

namespace Resolution

/-- The reads that have been found, each with the number of its node. -/
def readFacts (r : Resolution) : List (Nat × Use) :=
  r.found.filterMap fun
    | (i, .reads u) => some (i, u)
    | _ => none

/-- The assignments that have been found. -/
def assignFacts (r : Resolution) : List (Nat × Var) :=
  r.found.filterMap fun
    | (i, .assigns v) => some (i, v)
    | _ => none

theorem uses_eq (r : Resolution) (n : Node) :
    r.facts.uses n = (r.readFacts.filter fun p => p.1 == n.id).map Prod.snd := by
  simp only [facts, factsAt, readFacts]
  induction r.found with
  | nil => rfl
  | cons entry found ih =>
    obtain ⟨i, fact⟩ := entry
    by_cases hi : i == n.id <;> cases fact <;> simp_all

theorem defs_eq (r : Resolution) (n : Node) :
    r.facts.defs n = (r.assignFacts.filter fun p => p.1 == n.id).map Prod.snd := by
  simp only [facts, factsAt, assignFacts]
  induction r.found with
  | nil => rfl
  | cons entry found ih =>
    obtain ⟨i, fact⟩ := entry
    by_cases hi : i == n.id <;> cases fact <;> simp_all

/-- The tables and facts of a resolution as readings of the logs of its functions. -/
structure Logs (f : File) (r : Resolution) (bodies : List Resolve.Body) : Prop where
  decls : bodies.map Resolve.Body.decl = f.funcs
  scopes : (bodies.map Resolve.Body.scope).Pairwise (· < ·)
  belongs : ∀ c ∈ bodies, Resolve.Belongs c.decl c.log
  owned : ∀ c ∈ bodies, Resolve.Owned (some c.scope) r.tree c.log
  reads : r.readFacts = (bodies.flatMap Resolve.Body.log).filterMap (Binding.read? r.tree)
  assigns : r.assignFacts = (bodies.flatMap Resolve.Body.log).filterMap (Binding.assigned? r.tree)
  uses : ∀ p ∈ r.uses, (∃ name ∈ f.decls.flatMap Resolve.headNames, p.1 = name.mark.id) ∨
    ∃ b ∈ bodies.flatMap Resolve.Body.log, b.isUse ∧ b.entry = p
  defs : ∀ p ∈ r.defs, (∃ name ∈ f.decls.flatMap Resolve.headNames, p.1 = name.mark.id) ∨
    ∃ b ∈ bodies.flatMap Resolve.Body.log, ¬b.isUse ∧ b.entry = p
  bound : ∀ b ∈ bodies.flatMap Resolve.Body.log, b.entry ∈ r.uses ++ r.defs

theorem exists_logs {f : File} (hn : (f.funcs.map fun d => d.mark.id).Nodup)
    (hc : (ofFile f).reports = []) : ∃ bodies, Logs f (ofFile f) bodies := by
  obtain ⟨hhead, hbodies⟩ := Resolve.run_file f {}
  have hheads := hhead.heads
  have hdone := Resolve.finished_funcs hbodies (hheads.ready hn)
  have hclean : (Resolve.file f {}).2.reports = [] := List.reverse_eq_nil_iff.1 hc
  obtain ⟨bodies, hdecls, hb⟩ := hdone.bodies hclean
  have huses : (ofFile f).uses = _ := hb.entries.uses
  have hdefs : (ofFile f).defs = _ := hb.entries.defs
  have hhead := hheads.keys (hdone.clean hclean)
  refine ⟨bodies, hdecls, hb.scopes, hb.belongs, hb.owned, ?_, ?_, fun p hp => ?_, fun p hp => ?_,
    fun b hm => ?_⟩
  · exact hb.entries.reads.trans (by rw [hheads.reads, List.nil_append]; rfl)
  · exact hb.entries.assigns.trans (by rw [hheads.assigns, List.nil_append]; rfl)
  · rw [huses, List.mem_append, List.mem_reverse, List.mem_map] at hp
    rcases hp with hp | ⟨b, hm, e⟩
    · exact .inl (hhead p (List.mem_append_left _ hp))
    · exact .inr ⟨b, (List.mem_filter.1 hm).1, (List.mem_filter.1 hm).2, e⟩
  · rw [hdefs, List.mem_append, List.mem_reverse, List.mem_map] at hp
    rcases hp with hp | ⟨b, hm, e⟩
    · exact .inl (hhead p (List.mem_append_right _ hp))
    · exact .inr ⟨b, (List.mem_filter.1 hm).1, by simpa using (List.mem_filter.1 hm).2, e⟩
  · rw [huses, hdefs]
    cases huse : b.isUse with
    | true =>
      have hin : b.entry ∈ ((bodies.flatMap Resolve.Body.log).filter Binding.isUse).map Binding.entry :=
        List.mem_map_of_mem (List.mem_filter.2 ⟨hm, huse⟩)
      exact List.mem_append_left _ (List.mem_append_right _ hin)
    | false =>
      have hin : b.entry ∈ ((bodies.flatMap Resolve.Body.log).filter fun b => !b.isUse).map
          Binding.entry := List.mem_map_of_mem (List.mem_filter.2 ⟨hm, by simp [huse]⟩)
      exact List.mem_append_right _ (List.mem_append_right _ hin)

end Resolution

end FlowCheck
