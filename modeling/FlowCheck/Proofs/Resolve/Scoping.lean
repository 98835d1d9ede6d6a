import FlowCheck.Proofs.Check.Agreement
import FlowCheck.Proofs.Resolve.Lexical

/-!
# Names and their declarations

The declarations of a file follow its frames as its bodies do: error domains come first, then
functions and package variables in source order, so every body has all of them around it. As each
name of a file stands in it once, the tables can be read back: a name of a body is bound to what it
refers to by the scopes around it.
-/
namespace FlowCheck

namespace Resolve

/-! ### Declarations -/

section

variable {s t u : State} {f : Frame} {fs : Frames} {os os' : List Occurrence}

theorem scopes_addCode (t : ScopeTree) (domain : EntityId) (pos : Pos) (name : String) :
    (t.addCode domain pos name).2.2.scopes = t.scopes := by
  unfold ScopeTree.addCode
  split <;> rfl

theorem CodeDeclRun.follows {domain : EntityId} {owner : String} {c : Ident}
    (h : CodeDeclRun domain owner c s t) (hs : Sees s fs) (hd : domain < s.tree.entities.size)
    (hv : (s.tree.entity domain).IsDomain) : Follows fs [⟨c, .declared, []⟩] s t := by
  obtain ⟨hvalid, hgrows, -⟩ := hs.valid.addCode hd hv c.mark.pos c.text
  have hscopes := scopes_addCode s.tree domain c.mark.pos c.text
  cases h with
  | @added code tree h =>
    rw [h] at hvalid hgrows hscopes
    exact ⟨.declares s hgrows c code [], hs.congr hvalid hscopes rfl (List.subset_cons_self _ _)⟩
  | taken => exact ⟨.reported s _ (by simp), hs.congr hs.valid rfl rfl (List.Subset.refl _)⟩

theorem follows_codes {domain : EntityId} {owner : String} {cs : List Ident}
    (h : ListRun (CodeDeclRun domain owner) cs s t) (hs : Sees s fs)
    (hd : domain < s.tree.entities.size) (hv : (s.tree.entity domain).IsDomain) :
    Follows fs (cs.map fun name => ⟨name, .declared, []⟩) s t := by
  induction h with
  | nil => exact .refl hs
  | cons hc _ ih =>
    have ht := hc.follows hs hd hv
    exact ht.trans (ih ht.sees (Nat.lt_of_lt_of_le hd ht.grows.entities_le)
      ((ht.grows.domain domain hd).2 hv))

theorem ErrorDomainRun.follows {d : ErrorDomainDecl} (h : ErrorDomainRun d s t)
    (hs : Sees s (f :: fs)) :
    Follows ((f ++ [d.name]) :: fs) ((d.name :: d.codes).map fun name => ⟨name, .declared, []⟩)
      s t := by
  cases h with
  | mk hcodes =>
    let x := d.entity s.tree.entities.size
    have hnew : Created x s (s.after (newEntity x)) s.tree.entities.size :=
      created_newEntity hs.valid rfl rfl
    have hsees : Sees (s.after (newEntity x)) (f :: fs) :=
      hs.congr hnew.step.valid rfl rfl (List.Subset.refl _)
    have hdecl : Follows ((f ++ [d.name]) :: fs) [⟨d.name, .declared, []⟩] _
        ((s.after (newEntity x)).after (declare d.name s.tree.entities.size)) :=
      follows_declare hsees [] hnew.known (by rw [hnew.entity]; rfl) (by rw [hnew.entity]; rfl)
    have hname := (follows_newEntity hs (x := x) rfl rfl).trans hdecl
    refine hname.trans (follows_codes hcodes hname.sees ?_ ?_)
    · exact Nat.lt_of_lt_of_le hnew.known hdecl.grows.entities_le
    · refine (hdecl.grows.domain _ hnew.known).2 ?_
      rw [hnew.entity]
      exact ⟨[], rfl⟩

theorem GlobalRun.follows {d : VarDecl} (h : GlobalRun d s t) (hs : Sees s (f :: fs)) :
    Follows ((f ++ [d.name]) :: fs) (d.occurrences (f :: fs)) s t := by
  cases h with
  | @mk type a t u hvalue htype => exact (hvalue.follows hs).variable htype d.mark type false

theorem follows_params {ps : List Param} {rs : List (EntityId × VarKind × Typ)}
    (h : ParamsRun ps s rs t) (hs : Sees s fs) :
    Follows fs (ps.flatMap (·.type.typeOccurrences fs)) s t := by
  induction h with
  | nil => exact .refl hs
  | @cons p _ _ _ _ _ _ hp _ ih =>
    cases hp with
    | @mk type t htype =>
      have ht := htype.follows hs
      have hnew := follows_newEntity (x := { kind := .var p.kind, name := p.name.text, type
                                             pos := p.name.mark.pos }) ht.sees rfl rfl
      exact (ht.andThen hnew).trans (ih hnew.sees)

theorem follows_throws {xs : List Expr} (h : ListRun ErrorTypeRun xs s t) (hs : Sees s fs) :
    Follows fs (xs.flatMap (Expr.errorOccurrences fs)) s t := by
  induction h with
  | nil => exact .refl hs
  | cons hx _ ih =>
    have ht := hx.follows hs
    exact ht.trans (ih ht.sees)

theorem FuncRun.follows {d : FuncDecl} (h : FuncRun d s t) (hs : Sees s (f :: fs)) :
    Follows ((f ++ [d.name]) :: fs) (d.signatureOccurrences ((f ++ [d.name]) :: fs)) s t := by
  cases h with
  | @mk params result throws t u v hparams hresult hthrows =>
    have hname := follows_created hs ((f ++ [d.name]) :: fs) d.name (x := d.entity) rfl rfl rfl
    have ht := follows_params hparams hname.sees
    have hu := ht.trans (follows_type hresult ht.sees)
    have hall := hname.trans (hu.trans (follows_throws hthrows hu.sees))
    -- the type of the function is set last
    have hgrows := ScopeTree.extends_setEntity v.tree s.tree.entities.size
      (f := fun e => { e with type := some (Typ.func (params.map Prod.snd) result throws) })
      rfl .rfl fun _ h => h
    have hvalid := hall.sees.valid.setEntity s.tree.entities.size
      (f := fun e => { e with type := some (Typ.func (params.map Prod.snd) result throws) })
      rfl .rfl rfl fun c hc => hall.sees.valid.code s.tree.entities.size c hc
    exact hall.andThen ⟨.same hgrows rfl rfl rfl,
      hall.sees.congr hvalid rfl rfl (List.Subset.refl _)⟩

theorem follows_domains {decls : List Decl} (h : ListRun DomainsRun decls s t)
    (hs : Sees s (f :: fs)) :
    Follows ((f ++ decls.flatMap Decl.domains) :: fs) (decls.flatMap Decl.domainOccurrences)
      s t := by
  induction h generalizing f with
  | nil => exact (Follows.refl hs).plain
  | cons hd _ ih =>
    cases hd with
    | errorDomain hd =>
      have ht := hd.follows hs
      have hmore := ih ht.sees
      rw [List.append_assoc] at hmore
      exact ht.trans hmore
    | var | func => exact ih hs

theorem follows_members {decls : List Decl} (h : ListRun MembersRun decls s t)
    (hs : Sees s (f :: fs)) :
    Follows ((f ++ decls.flatMap Decl.members) :: fs) (Decl.memberOccurrencesList decls (f :: fs))
      s t := by
  induction h generalizing f with
  | nil => exact (Follows.refl hs).plain
  | @cons d decls _ _ _ hd _ ih =>
    cases hd with
    | errorDomain =>
      simpa [Decl.memberOccurrencesList, Decl.memberOccurrences, Decl.members, Frames.declare]
        using ih hs
    | var hd =>
      have ht := hd.follows hs
      have hmore := ih ht.sees
      rw [List.append_assoc] at hmore
      exact ht.trans hmore
    | func hd =>
      have ht := hd.follows hs
      have hmore := ih ht.sees
      rw [List.append_assoc] at hmore
      exact ht.trans hmore

/-! ### Bodies -/

theorem Waiting.name {t : ScopeTree} {p : Param} {e : EntityId} (h : Waiting t p e) :
    (t.entity e).name = p.name.text := by
  obtain ⟨_, -, hv⟩ := Option.map_eq_some_iff.1 h.asVar
  exact congrArg Var.name hv

theorem BodyParamRun.follows {d : FuncDecl} {p : Param} {e : EntityId}
    (h : BodyParamRun d p.name e s t) (hs : Sees s (f :: fs)) (gs : Frames)
    (hw : Waiting s.tree p e) :
    Follows ((f ++ [p.name]) :: fs) [⟨p.name, .declared, gs⟩] s t := by
  have hdecl := follows_declare hs gs hw.known hw.home hw.name
  cases h with
  | other => exact hdecl
  | out | assigned => exact hdecl.records (records_addFact _ _ _)

theorem follows_bodyParams {i : ScopeId} {d : FuncDecl} {ps : List Param} {ids : List EntityId}
    (h : ListRun (fun q => BodyParamRun d q.1.name q.2) (ps.zip ids) s t) (gs : Frames)
    (hin : Inside (some i) s) (hs : Sees s (f :: fs)) (hw : List.Forall₂ (Waiting s.tree) ps ids)
    (hn : ids.Nodup) :
    Follows ((f ++ ps.map Param.name) :: fs) (ps.map fun p => ⟨p.name, .declared, gs⟩) s t := by
  induction ps generalizing ids f s with
  | nil =>
    cases hw
    cases h
    exact (Follows.refl hs).plain
  | cons p ps ih =>
    cases hw with
    | cons hp hps =>
    cases h with
    | @cons _ _ _ t _ hfirst hmore =>
    obtain ⟨he, hn⟩ := List.nodup_cons.1 hn
    have ht := hfirst.follows hs gs hp
    have hstep := (hfirst.logs hin hp).step
    have hrest : List.Forall₂ (Waiting t.tree) ps _ := waiting_step hps hstep fun j hj hm => by
      obtain rfl := List.mem_singleton.1 hm
      exact he hj
    have hu := ih hmore (hstep.inside hin) ht.sees hrest hn
    rw [List.append_assoc] at hu
    exact ht.trans hu

theorem BodyRun.follows {outline : Frame} {d : FuncDecl} (h : BodyRun d s t) (hin : Inside none s)
    (hs : Sees s [outline]) (hw : List.Forall₂ (Waiting s.tree) d.params (idsOf s.funcs d))
    (hn : (idsOf s.funcs d).Nodup) :
    Follows [outline] (d.innerOccurrences outline) s t := by
  cases h with
  | @mk u v hparams hbody =>
    have hopened := opened_openScope hin d.mark d.body.close .function d.name.text
      (G := some s.tree.scopes.size) (by simp)
    have ho := follows_openScope hs d.mark d.body.close .function d.name.text
    have hwaiting : List.Forall₂ (Waiting (s.after (openScope d.mark d.body.close .function
        d.name.text)).tree) d.params (idsOf s.funcs d) :=
      hw.imp fun p e he => ⟨he.known, he.home, he.asVar⟩
    have hp := follows_bodyParams hparams [[], outline] hopened.inside ho.sees hwaiting hn
    have hscope := (ho.trans hp).records (records_shareScope u d.body.mark)
    exact (hscope.trans (hbody.follows hscope.sees)).closeScope

theorem follows_funcs {outline : Frame} {ds : List FuncDecl} (h : ListRun BodyRun ds s t)
    (hr : Ready ds s) (hs : Sees s [outline]) :
    Follows [outline] (ds.flatMap (FuncDecl.innerOccurrences outline)) s t := by
  induction h with
  | nil => exact .refl hs
  | @cons d ds s t u hd _ ih =>
    have hids := (List.nodup_append.1 (by simpa using hr.params)).1
    have hwaiting := hr.waiting d List.mem_cons_self
    have ht := hd.follows hr.inside hs hwaiting hids
    exact ht.trans (ih (hr.tail (hd.logs hr.inside hwaiting hids).2.step) ht.sees)

end

/-! ### Whole files -/

theorem sees_initial : Sees {} [] := by
  have hview : ScopeTree.initial.view ScopeTree.root =
      [(ScopeTree.initial.scope ScopeTree.root).members] := by
    have hchain : ScopeTree.initial.chain ScopeTree.root = [ScopeTree.root] := by decide
    rw [ScopeTree.view, hchain]
    rfl
  exact ⟨ScopeTree.valid_initial, by decide, [], hview, .nil⟩

/-- Everything before the function bodies. -/
theorem HeadsRun.follows {f : File} {s : State} (h : HeadsRun f {} s) :
    Follows [f.outline] f.headOccurrences {} s := by
  cases h with
  | mk hdomains hmembers =>
    have ho := follows_openScope sees_initial f.mark Pos.none .package f.package.text
    have hd := ho.trans (follows_domains hdomains ho.sees)
    exact hd.trans (follows_members hmembers hd.sees)

theorem FileRun.accounted {f : File} {s : State} (h : FileRun f {} s)
    (hn : (f.funcs.map fun d => d.mark.id).Nodup) : Accounted f.occurrences {} s := by
  cases h with
  | mk hheads hbodies =>
    have hs := hheads.follows
    exact hs.toAccounted.trans (follows_funcs hbodies (hheads.heads.ready hn) hs.sees).toAccounted

end Resolve

/-! ### Each name of a file once -/

theorem FuncDecl.names_signatureOccurrences (fs : Frames) (d : FuncDecl) :
    (d.signatureOccurrences fs).map Occurrence.name = Resolve.signatureNames d := by
  have hparams : (d.params.flatMap (·.type.typeOccurrences fs)).map Occurrence.name =
      d.params.flatMap Resolve.typeNames := by
    rw [List.map_flatMap]
    exact List.flatMap_congr fun p _ => (surveys_type fs p.type).names
  have hthrows : (d.throws.flatMap (Expr.errorOccurrences fs)).map Occurrence.name =
      idents (Expr.walkList everywhere d.throws) := by
    induction d.throws with
    | nil => rfl
    | cons x xs ih =>
      rw [List.flatMap_cons, List.map_append, ih, (surveys_errorType fs x).names, Expr.walkList,
        idents_append]
  rw [signatureOccurrences, List.map_cons, List.map_append, List.map_append, hparams, hthrows,
    (surveys_typeOption fs d.result).names, Resolve.signatureNames]

theorem FuncDecl.surveys_body (outline : Frame) (d : FuncDecl) :
    Surveys (d.body.walk everywhere) (d.bodyOccurrences outline) := by
  rw [bodyOccurrences]
  cases d.body with
  | mk m stmts close => exact (surveys_stmts stmts _).above rfl

theorem FuncDecl.names_innerOccurrences (outline : Frame) (d : FuncDecl) :
    (d.innerOccurrences outline).map Occurrence.name =
      d.params.map Param.name ++ idents (d.body.walk everywhere) := by
  rw [innerOccurrences, List.map_append, (d.surveys_body outline).names, List.map_map]
  rfl

namespace Decl

/-- The names that a declaration leaves to the resolution of bodies. -/
def innerOccurrences (outline : Frame) : Decl → List Occurrence
  | .func d => d.innerOccurrences outline
  | _ => []

theorem names_perm (outline : Frame) (fs : Frames) (d : Decl) :
    ((d.domainOccurrences ++ d.memberOccurrences fs ++ d.innerOccurrences outline).map
      Occurrence.name).Perm (idents (d.walk everywhere)) := by
  cases d with
  | errorDomain d =>
    have hcodes : idents (d.codes.flatMap Ident.walk) = d.codes := by
      rw [idents, List.filterMap_flatMap]
      exact List.flatMap_singleton' d.codes
    have hwalk : idents (d.walk everywhere) = d.name :: d.codes := congrArg (d.name :: ·) hcodes
    have hnames : (domainOccurrences (.errorDomain d)).map Occurrence.name = d.name :: d.codes := by
      rw [domainOccurrences, List.map_map]
      exact List.map_id _
    simp only [memberOccurrences, innerOccurrences, List.append_nil, hnames, Decl.walk, hwalk,
      List.Perm.refl]
  | var d =>
    simp only [domainOccurrences, memberOccurrences, innerOccurrences, List.nil_append,
      List.append_nil, (surveys_varDecl fs d).names, Decl.walk, List.Perm.refl]
  | func d =>
    simp only [domainOccurrences, memberOccurrences, innerOccurrences, List.nil_append,
      List.map_append, d.names_signatureOccurrences, d.names_innerOccurrences, Decl.walk]
    exact Resolve.names_perm d

theorem names_list_perm (outline : Frame) (decls : List Decl) (fs : Frames) :
    ((decls.flatMap domainOccurrences ++ memberOccurrencesList decls fs ++
      decls.flatMap (innerOccurrences outline)).map Occurrence.name).Perm
      (idents (decls.flatMap (·.walk everywhere))) := by
  induction decls generalizing fs with
  | nil => exact .refl _
  | cons d decls ih =>
    rw [List.perm_iff_count]
    intro x
    have hfirst := (d.names_perm outline fs).count_eq x
    have hrest := (ih (fs.declare d.members)).count_eq x
    simp only [List.flatMap_cons, memberOccurrencesList, List.map_append, List.count_append,
      idents_append] at hfirst hrest ⊢
    omega

end Decl

theorem File.funcs_flatMap (f : File) (outline : Frame) :
    f.funcs.flatMap (FuncDecl.innerOccurrences outline) =
      f.decls.flatMap (Decl.innerOccurrences outline) := by
  rw [File.funcs]
  induction f.decls with
  | nil => rfl
  | cons d decls ih =>
    cases d with
    | func d => exact congrArg (d.innerOccurrences outline ++ ·) ih
    | errorDomain d => exact ih
    | var d => exact ih

theorem File.names_occurrences (f : File) :
    (f.occurrences.map Occurrence.name).Perm (idents (f.decls.flatMap (·.walk everywhere))) := by
  rw [occurrences, headOccurrences, funcs_flatMap]
  exact Decl.names_list_perm f.outline f.decls _

namespace File.Numbered

variable {f : File}

theorem nodup_occurrences (hf : f.Numbered) :
    (f.occurrences.map fun o => o.name.mark.id).Nodup := by
  have hids : ((idents (f.decls.flatMap (·.walk everywhere))).map fun name => name.mark.id).Nodup :=
    (hf.sublist (idents_ids_sublist f.nodes)).sublist
      (List.Sublist.map _ (List.sublist_cons_self f.package _))
  have hperm := f.names_occurrences.map fun name => name.mark.id
  rw [List.map_map] at hperm
  exact hperm.nodup_iff.2 hids

/-- Names of one number are one occurrence. -/
theorem occurrence_eq (hf : f.Numbered) {o o' : Occurrence} (ho : o ∈ f.occurrences)
    (ho' : o' ∈ f.occurrences) (h : o.name.mark.id = o'.name.mark.id) : o = o' :=
  List.inj_on_of_nodup_map hf.nodup_occurrences ho ho' h

end File.Numbered

/-! ### What the tables say -/

namespace Resolution

/-- An occurrence is treated as the scopes around it say: what is not selected is bound to nothing
but what it refers to, and of the names that are looked up those that refer to something are bound,
the others reported. -/
structure Scoped (r : Resolution) (o : Occurrence) : Prop where
  denotes : o.kind ≠ .selected → ∀ e, (o.name.mark.id, e) ∈ r.uses → o.Denotes r.defs e
  bound : o.kind = .named → ¬ o.Undeclared → ∃ e, (o.name.mark.id, e) ∈ r.uses
  undefined : o.kind = .named → o.Undeclared →
    ⟨o.name.mark.pos, .undefined o.name.text⟩ ∈ r.reports ∧
      ∀ e, (o.name.mark.id, e) ∉ r.uses ∧ (o.name.mark.id, e) ∉ r.defs

theorem accounted {f : File} (hf : f.Numbered) :
    Resolve.Accounted f.occurrences {} (Resolve.file f {}).2 :=
  (Resolve.run_file f {}).accounted hf.nodup_funcs

/-- Only declaring names are among the keys of the declarations. -/
theorem defs_subperm {f : File} (hf : f.Numbered) :
    ((ofFile f).defs.map Prod.fst).Subperm
      ((f.occurrences.filter (·.kind = .declared)).map (·.name.mark.id)) := by
  obtain ⟨new, hnew, hsub⟩ := (accounted hf).defs
  have hdefs : (ofFile f).defs = new.reverse := by
    rw [← List.append_nil new]
    exact congrArg List.reverse hnew
  rw [hdefs, List.map_reverse]
  exact (List.reverse_perm _).subperm.trans hsub

/-- Every declaring name stands for one entity. -/
theorem nodup_defs {f : File} (hf : f.Numbered) : ((ofFile f).defs.map Prod.fst).Nodup :=
  Resolve.nodup_of_subperm (defs_subperm hf)
    (hf.nodup_occurrences.sublist (List.filter_sublist.map _))

theorem declared_of_mem_defs {f : File} (hf : f.Numbered) {p : Nat × EntityId}
    (hp : p ∈ (ofFile f).defs) :
    ∃ o ∈ f.occurrences, o.kind = .declared ∧ o.name.mark.id = p.1 := by
  obtain ⟨o, ho, hid⟩ := List.mem_map.1 ((defs_subperm hf).subset (List.mem_map_of_mem hp))
  obtain ⟨ho, hk⟩ := List.mem_filter.1 ho
  exact ⟨o, ho, of_decide_eq_true hk, hid⟩

theorem scoped_of_mem {f : File} (hf : f.Numbered) {o : Occurrence} (ho : o ∈ f.occurrences) :
    (ofFile f).Scoped o := by
  have hacc := accounted hf
  have hdenotes (hk : o.kind ≠ .selected) (e : EntityId)
      (he : (o.name.mark.id, e) ∈ (ofFile f).uses) : o.Denotes (ofFile f).defs e := by
    obtain ⟨new, hnew, huses⟩ := hacc.uses
    have hin : (o.name.mark.id, e) ∈ new := by
      have huse : (o.name.mark.id, e) ∈ (Resolve.file f {}).2.uses := List.mem_reverse.1 he
      rw [hnew] at huse
      exact (List.mem_append.1 huse).resolve_right List.not_mem_nil
    obtain ⟨o', ho', hid, hkind⟩ := huses _ hin
    obtain rfl := hf.occurrence_eq ho ho' hid
    exact (hkind.resolve_left hk).2.mono fun p hp => List.mem_reverse.2 hp
  refine ⟨hdenotes, fun hk hu => ?_, fun hk hu => ?_⟩
  · rcases hacc.named o ho hk with ⟨e, he⟩ | ⟨hun, -⟩
    · exact ⟨e, List.mem_reverse.2 he⟩
    · exact absurd hun hu
  · have huses (e : EntityId) : (o.name.mark.id, e) ∉ (ofFile f).uses := fun he =>
      hu.not_denotes (hdenotes (by rw [hk]; decide) e he)
    refine ⟨?_, fun e => ⟨huses e, fun he => ?_⟩⟩
    · rcases hacc.named o ho hk with ⟨e, he⟩ | ⟨-, hr⟩
      · exact absurd (List.mem_reverse.2 he) (huses e)
      · exact List.mem_reverse.2 hr
    · obtain ⟨o', ho', hk', hid⟩ := declared_of_mem_defs hf he
      obtain rfl := hf.occurrence_eq ho' ho hid
      exact absurd (hk'.symm.trans hk) (by decide)

theorem mem_occurrences_of_body {f : File} {d : FuncDecl} (hd : d ∈ f.funcs) {o : Occurrence}
    (ho : o ∈ d.bodyOccurrences f.outline) : o ∈ f.occurrences :=
  List.mem_append_right _ (List.mem_flatMap.2 ⟨d, hd, List.mem_append_right _ ho⟩)

/-- A name refers to one entity at most. -/
theorem denotes_unique {f : File} (hf : f.Numbered) {o : Occurrence} {e e' : EntityId}
    (h : o.Denotes (ofFile f).defs e) (h' : o.Denotes (ofFile f).defs e') : e = e' := by
  unfold Occurrence.Denotes at h h'
  cases hd : o.declaration? with
  | some d =>
    simp only [hd] at h h'
    exact (Prod.mk.inj (List.inj_on_of_nodup_map (nodup_defs hf) h h' rfl)).2
  | none =>
    simp only [hd] at h h'
    exact Option.some.inj (h.symm.trans h')

/-- The name that an error type selects from is bound, if it refers to an error domain. -/
theorem bound_or_not_isDomain {f : File} (hf : f.Numbered) {o : Occurrence} (ho : o ∈ f.occurrences)
    (hk : o.kind = .qualifier) :
    (∃ e, (o.name.mark.id, e) ∈ (ofFile f).uses) ∨
      ∀ e, o.Denotes (ofFile f).defs e → ¬((ofFile f).tree.entity e).IsDomain := by
  refine ((accounted hf).qualifier o ho hk).imp (fun ⟨e, he⟩ => ⟨e, List.mem_reverse.2 he⟩) ?_
  rintro (hu | ⟨e, hden, -, hkind⟩) e' hden'
  · exact absurd hden' hu.not_denotes
  · obtain rfl := denotes_unique hf hden' (hden.mono fun p hp => List.mem_reverse.2 hp)
    exact hkind

/-- After a clean resolution every name of the file is bound, declares something or is selected, but
for what an error type selects from, if that is no error domain: a name that refers to nothing or to
something else, or an expression that is not a name. -/
theorem bound_of_clean {source : Source}
    (hr : (ofFile (Parsed.ofSource source).file).reports = []) :
    let f := (Parsed.ofSource source).file
    (f.package :: f.occurrences.map Occurrence.name).Perm (idents f.nodes) ∧
      ∀ o ∈ f.occurrences,
        (o.kind = .named ∧ ∃ e, (o.name.mark.id, e) ∈ (ofFile f).uses) ∨
        (o.kind = .declared ∧ ∃ e, (o.name.mark.id, e) ∈ (ofFile f).defs) ∨
        o.kind = .selected ∨
        (o.kind = .qualifier ∧ ((∃ e, (o.name.mark.id, e) ∈ (ofFile f).uses) ∨
          ∀ e, o.Denotes (ofFile f).defs e → ¬((ofFile f).tree.entity e).IsDomain)) ∨
        o.kind = .beneath := by
  intro f
  have hf : f.Numbered := Parsed.file_numbered source
  have hacc := accounted hf
  have hclean : (Resolve.file f {}).2.reports = [] := List.reverse_eq_nil_iff.1 hr
  refine ⟨f.names_occurrences.cons f.package, fun o ho => ?_⟩
  cases hk : o.kind with
  | named =>
    rcases hacc.named o ho hk with ⟨e, he⟩ | ⟨-, hreport⟩
    · exact .inl ⟨rfl, e, List.mem_reverse.2 he⟩
    · rw [hclean] at hreport
      cases hreport
  | declared =>
    obtain ⟨e, he⟩ := hacc.declared hclean o ho hk
    exact .inr (.inl ⟨rfl, e, List.mem_reverse.2 he⟩)
  | selected => exact .inr (.inr (.inl rfl))
  | qualifier => exact .inr (.inr (.inr (.inl ⟨rfl, bound_or_not_isDomain hf ho hk⟩)))
  | beneath => exact .inr (.inr (.inr (.inr rfl)))
  | misplaced => exact absurd hk (hacc.misplaced hclean o ho)

/-- A function that throws a code of a domain and catches it. -/
def codeSource : Source :=
  .ofText "" ("package p\nerrordomain D \x7b A \x7d\n" ++
    "func f() throws D.A \x7b try \x7b \x7d catch (e D.A) \x7b \x7d \x7d").toList

theorem codeSource_qualifiers :
    (Parsed.ofSource codeSource).reports = [] ∧
    (ofFile (Parsed.ofSource codeSource).file).reports = [] ∧
    ((Parsed.ofSource codeSource).file.occurrences.filter (·.kind = .qualifier)).map
      (fun o => (o.name.text,
        ((ofFile (Parsed.ofSource codeSource).file).uses.lookup o.name.mark.id).isSome)) =
      [("D", true), ("D", true)] := by
  cbv

theorem bound_codeSource :
    (ofFile (Parsed.ofSource codeSource).file).reports = [] ∧
      ((Parsed.ofSource codeSource).file.occurrences.filter (·.kind = .qualifier)).map
        (fun o => (o.name.text,
          ((ofFile (Parsed.ofSource codeSource).file).uses.lookup o.name.mark.id).isSome)) =
        [("D", true), ("D", true)] ∧
      ∀ o ∈ (Parsed.ofSource codeSource).file.occurrences,
        (o.kind = .named ∧
          ∃ e, (o.name.mark.id, e) ∈ (ofFile (Parsed.ofSource codeSource).file).uses) ∨
        (o.kind = .declared ∧
          ∃ e, (o.name.mark.id, e) ∈ (ofFile (Parsed.ofSource codeSource).file).defs) ∨
        o.kind = .selected ∨
        (o.kind = .qualifier ∧
          ((∃ e, (o.name.mark.id, e) ∈ (ofFile (Parsed.ofSource codeSource).file).uses) ∨
            ∀ e, o.Denotes (ofFile (Parsed.ofSource codeSource).file).defs e →
              ¬((ofFile (Parsed.ofSource codeSource).file).tree.entity e).IsDomain)) ∨
        o.kind = .beneath :=
  ⟨codeSource_qualifiers.2.1, codeSource_qualifiers.2.2,
    (bound_of_clean codeSource_qualifiers.2.1).2⟩

/-- A function that throws a code of no domain. -/
def strayCodeSource : Source :=
  .ofText "" "package p\nfunc f() throws Foo.BAR \x7b \x7d".toList

/-- The qualifier is reported nowhere and bound to nothing. -/
theorem unbound_qualifier :
    (Parsed.ofSource strayCodeSource).reports = [] ∧
    (ofFile (Parsed.ofSource strayCodeSource).file).reports = [] ∧
    ((Parsed.ofSource strayCodeSource).file.occurrences.filter (·.kind = .qualifier)).map
      (fun o => (o.name.text,
        ((ofFile (Parsed.ofSource strayCodeSource).file).uses.lookup o.name.mark.id).isSome ||
        ((ofFile (Parsed.ofSource strayCodeSource).file).defs.lookup o.name.mark.id).isSome)) =
      [("Foo", false)] := by
  cbv

/-- Name resolution is lexical scoping: every name of a function body that is not selected stands at
one place among scopes, and is bound to the declaration that these scopes give it. -/
theorem scoped_of_name {source : Source} {d : FuncDecl}
    (hd : d ∈ (Parsed.ofSource source).file.funcs) {x : Ident}
    (hx : x ∈ idents (d.body.walk everywhere))
    (hsel : ∀ m y, .expr (.select m y x) ∉ d.body.walk everywhere) :
    let f := (Parsed.ofSource source).file
    ((ofFile f).defs.map Prod.fst).Nodup ∧
      ∃ o ∈ d.bodyOccurrences f.outline, o.name = x ∧ o.kind ≠ .selected ∧ (ofFile f).Scoped o ∧
        ∀ o' ∈ d.bodyOccurrences f.outline, o'.name = x → o' = o := by
  intro f
  have hf : f.Numbered := Parsed.file_numbered source
  have hbody := d.surveys_body f.outline
  rw [← hbody.names] at hx
  obtain ⟨o, ho, rfl⟩ := List.mem_map.1 hx
  have hmem := mem_occurrences_of_body hd ho
  refine ⟨nodup_defs hf, o, ho, rfl, fun hk => ?_, scoped_of_mem hf hmem, fun o' ho' hname => ?_⟩
  · obtain ⟨m, y, hselect⟩ := hbody.selected o ho hk
    exact hsel m y hselect
  · exact hf.occurrence_eq (mem_occurrences_of_body hd ho') hmem (by rw [hname])

end Resolution

/-- A block that introduces a name from the parameter of the same name, and sets it. -/
def shadowSource : Source :=
  .ofText "" "package p\nfunc f(n int) \x7b \x7b n := n; n = n \x7d \x7d".toList

theorem shadowSource_names :
    ((Parsed.ofSource shadowSource).file.funcs.map fun d =>
      ((idents (d.body.walk everywhere)).map Ident.text,
        (d.body.walk everywhere).all (·.kind != "SelectorExpr"))) =
      [(["n", "n", "n", "n"], true)] := by
  cbv

theorem Resolution.scoped_shadowSource :
    ∃ d ∈ (Parsed.ofSource shadowSource).file.funcs, ∃ x ∈ idents (d.body.walk everywhere),
      (∀ m y, .expr (.select m y x) ∉ d.body.walk everywhere) ∧
      ∃ o ∈ d.bodyOccurrences (Parsed.ofSource shadowSource).file.outline,
        o.name = x ∧ (Resolution.ofFile (Parsed.ofSource shadowSource).file).Scoped o := by
  obtain ⟨d, hd, hnames⟩ := List.map_eq_singleton_iff.1 shadowSource_names
  obtain ⟨hnames, hall⟩ := Prod.mk.inj hnames
  have hmem : d ∈ (Parsed.ofSource shadowSource).file.funcs := by simp [hd]
  obtain ⟨x, hx⟩ : ∃ x, x ∈ idents (d.body.walk everywhere) := by
    refine List.exists_mem_of_ne_nil _ fun h => ?_
    simp [h] at hnames
  have hsel (m : Mark) (y : Expr) : .expr (.select m y x) ∉ d.body.walk everywhere := fun h => by
    have := List.all_eq_true.1 hall _ h
    exact absurd this (by simp [Node.kind, Expr.kind])
  obtain ⟨-, o, ho, hname, -, hscoped, -⟩ := Resolution.scoped_of_name hmem hx hsel
  exact ⟨d, hmem, x, hx, hsel, o, ho, hname, hscoped⟩

end FlowCheck
