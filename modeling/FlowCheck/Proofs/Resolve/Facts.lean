import FlowCheck.Proofs.Parse.Position
import FlowCheck.Proofs.Resolve.File
import Mathlib.Data.List.Perm.Lattice

/-!
# Where the facts of a file are found

In a file whose nodes are numbered apart, the facts about a node are those that were logged for it:
no two entries of the logs share a name, and no name of a log is bound before the bodies. So the
tables of names give back the entity of every entry, and the facts about a node can be read off the
names that it carries.
-/
namespace FlowCheck

/-! ### The functions of a file -/

theorem File.funcs_walk_sublist (f : File) :
    (f.funcs.flatMap (·.walk everywhere)).Sublist f.nodes := by
  have hdecls : (f.funcs.flatMap (·.walk everywhere)).Sublist
      (f.decls.flatMap (·.walk everywhere)) := by
    rw [File.funcs]
    induction f.decls with
    | nil => exact .slnil
    | cons d ds ih =>
      rw [List.flatMap_cons]
      cases d with
      | func d => exact (List.Sublist.refl (d.walk everywhere)).append ih
      | errorDomain d => exact List.sublist_append_of_sublist_right ih
      | var d => exact List.sublist_append_of_sublist_right ih
  exact (List.sublist_append_of_sublist_right hdecls).cons _

theorem File.mem_nodes_of_decl {f : File} {d : Decl} (hd : d ∈ f.decls) {n : Node}
    (hn : n ∈ d.walk everywhere) : n ∈ f.nodes :=
  List.mem_cons_of_mem _ (List.mem_append_right _ (List.mem_flatMap.2 ⟨d, hd, hn⟩))

theorem File.mem_nodes_of_func {f : File} {d : FuncDecl} (hd : d ∈ f.funcs) {n : Node}
    (hn : n ∈ d.walk everywhere) : n ∈ f.nodes :=
  File.mem_nodes_of_decl (File.mem_funcs.1 hd) hn

theorem idents_ids_sublist (ns : List Node) :
    ((idents ns).map fun name => name.mark.id).Sublist (ns.map Node.id) := by
  induction ns with
  | nil => exact .slnil
  | cons n ns ih =>
    cases h : n.ident? with
    | none =>
      rw [idents_cons_of_none h]
      exact ih.cons _
    | some name =>
      have hid : n.id = name.mark.id := by
        rw [n.eq_of_ident? h]
        rfl
      rw [idents, List.filterMap_cons_some h, List.map_cons, List.map_cons, hid]
      exact ih.cons_cons _

/-- The nodes of a file have numbers of their own. -/
def File.Numbered (f : File) : Prop := (f.nodes.map Node.id).Nodup

namespace File.Numbered

variable {f : File} {d e : FuncDecl} {n m : Node} {name : Ident}

theorem eq_of_id (hf : f.Numbered) (hn : n ∈ f.nodes) (hm : m ∈ f.nodes) (h : n.id = m.id) :
    n = m :=
  List.inj_on_of_nodup_map hf hn hm h

theorem nodup (hf : f.Numbered) : f.nodes.Nodup := List.Nodup.of_map _ hf

theorem nodup_walk (hf : f.Numbered) (hd : d ∈ f.funcs) : (d.walk everywhere).Nodup :=
  (List.nodup_flatMap.1 (hf.nodup.sublist f.funcs_walk_sublist)).1 d hd

theorem decl_eq (hf : f.Numbered) {d e : Decl} (hd : d ∈ f.decls) (he : e ∈ f.decls)
    (hn : n ∈ d.walk everywhere) (hn' : n ∈ e.walk everywhere) : d = e := by
  have hdecls : (f.decls.flatMap (·.walk everywhere)).Nodup :=
    (List.nodup_cons.1 hf.nodup).2.of_append_right
  have hsymm : Std.Symm (Function.onFun List.Disjoint fun d : Decl => d.walk everywhere) :=
    ⟨fun _ _ h => h.symm⟩
  by_contra hne
  exact (List.nodup_flatMap.1 hdecls).2.forall hd he hne hn hn'

theorem func_eq (hf : f.Numbered) (hd : d ∈ f.funcs) (he : e ∈ f.funcs)
    (hn : n ∈ d.walk everywhere) (hn' : n ∈ e.walk everywhere) : d = e := by
  have h := hf.decl_eq (File.mem_funcs.1 hd) (File.mem_funcs.1 he) hn hn'
  cases h
  rfl

theorem nodup_funcs (hf : f.Numbered) : (f.funcs.map fun d => d.mark.id).Nodup := by
  have hheads : (f.funcs.map Node.func).Sublist (f.funcs.flatMap (·.walk everywhere)) := by
    induction f.funcs with
    | nil => exact .slnil
    | cons d ds ih => exact (List.sublist_append_of_sublist_right ih).cons_cons _
  have hids := List.Nodup.sublist ((hheads.trans f.funcs_walk_sublist).map Node.id) hf
  rwa [List.map_map] at hids

theorem ident_eq (hf : f.Numbered) {a b : Ident} (ha : a ∈ idents f.nodes) (hb : b ∈ idents f.nodes)
    (h : a.mark.id = b.mark.id) : a = b :=
  List.inj_on_of_nodup_map (hf.sublist (idents_ids_sublist _)) ha hb h

theorem mem_idents_of_func (hd : d ∈ f.funcs) (hn : name ∈ idents (d.walk everywhere)) :
    name ∈ idents f.nodes :=
  mem_idents.2 (File.mem_nodes_of_func hd (mem_idents.1 hn))

end File.Numbered

theorem Parsed.file_numbered (source : Source) : (Parsed.ofSource source).file.Numbered := by
  obtain ⟨f, s, -, ho, -⟩ := Parsed.exists_end source
  rw [ho]
  exact f.nodup_ids

/-! ### The log of a function -/

/-- The name is set by an assignment that introduces nothing. -/
def FuncDecl.Sets (d : FuncDecl) (name : Ident) : Prop :=
  ∃ m value, .stmt (.simple (.assign m .set (.ident name) value)) ∈ d.body.walk everywhere

namespace Binding

/-- The read that an entry is. -/
def use? (t : ScopeTree) (b : Binding) : Option Use :=
  b.readPos?.bind fun p => (t.ownVar? b.entity).map (⟨·, p⟩)

theorem read?_eq (t : ScopeTree) (b : Binding) :
    b.read? t = (b.use? t).map (b.carrier.id, ·) := by
  rw [read?, use?]
  cases b.readPos? <;> cases t.ownVar? b.entity <;> rfl

theorem readPos?_of_use? {t : ScopeTree} {b : Binding} {u : Use} (h : b.use? t = some u) :
    b.readPos? = some u.pos := by
  obtain ⟨p, hp, h⟩ := Option.bind_eq_some_iff.1 h
  obtain ⟨v, -, rfl⟩ := Option.map_eq_some_iff.1 h
  exact hp

theorem ownVar?_of_use? {t : ScopeTree} {b : Binding} {u : Use} (h : b.use? t = some u) :
    t.ownVar? b.entity = some u.var := by
  obtain ⟨p, -, h⟩ := Option.bind_eq_some_iff.1 h
  obtain ⟨v, hv, rfl⟩ := Option.map_eq_some_iff.1 h
  exact hv

end Binding

namespace Resolve

/-- An entry for a name of the function at the innermost node around it, or for a parameter that is
read where the body ends. -/
inductive Carried (d : FuncDecl) (b : Binding) : Prop where
  | name {names : List Ident} (group : (b.carrier, names) ∈ d.groups) (mem : b.name ∈ names)
    (role : ∀ close, b.role ≠ .out close)
  | out {p : Param} (mem : p ∈ d.params) (out : p.out) (name : b.name = p.name)
    (role : b.role = .out d.body.close) (carrier : b.carrier = .stmt (.block d.body))

/-- The log of a function, seen from the tree of the function. -/
structure Kept (d : FuncDecl) (log : List Binding) : Prop where
  names : (signatureNames d ++ log.map Binding.name).Subperm (idents (d.walk everywhere))
  carried : ∀ b ∈ log, Carried d b
  assigned : (log.filter Binding.isAssign).map Binding.place =
    d.carriers.flatMap fun n => n.assigned.map (n, ·)
  sets : ∀ b ∈ log, b.role = .set → d.Sets b.name
  outs : ∀ p ∈ d.params, p.out → ∃ b ∈ log,
    b.name = p.name ∧ b.role = .out d.body.close ∧ b.carrier = .stmt (.block d.body)

theorem idents_params (ps : List Param) :
    idents (ps.flatMap (·.walk everywhere)) = ps.flatMap fun p => [p.name] ++ typeNames p := by
  rw [idents, List.filterMap_flatMap]
  rfl

/-- The names of a function: those of its signature, its parameters and its body. -/
theorem names_perm (d : FuncDecl) :
    (signatureNames d ++ (d.params.map Param.name ++ idents (d.body.walk everywhere))).Perm
      (idents (d.walk everywhere)) := by
  have hparams : (d.params.map Param.name ++ d.params.flatMap typeNames).Perm
      (d.params.flatMap fun p => [p.name] ++ typeNames p) := by
    rw [List.map_eq_flatMap]
    exact List.flatMap_append_perm d.params _ typeNames
  have hwalk : idents (d.walk everywhere) = d.name ::
      (d.params.flatMap (fun p => [p.name] ++ typeNames p) ++
        idents (Expr.walkOption everywhere d.result) ++ idents (Expr.walkList everywhere d.throws) ++
        idents (d.body.walk everywhere)) := by
    rw [← idents_params, ← idents_append, ← idents_append, ← idents_append]
    rfl
  rw [hwalk, signatureNames, List.perm_iff_count]
  intro x
  have hx := hparams.count_eq x
  simp only [List.count_append, List.count_cons] at hx ⊢
  omega

theorem map_zip_fst {α β γ : Type} {xs : List α} {ys : List β} (h : xs.length = ys.length)
    (f : α → γ) : (xs.zip ys).map (fun q => f q.1) = xs.map f := by
  have hfst := congrArg (List.map f) (List.map_fst_zip (Nat.le_of_eq h))
  rwa [List.map_map] at hfst

/-- The parameters that a function assigns on entry. -/
theorem assigned_params (d : FuncDecl) {ps : List Param} {ids : List EntityId}
    (h : ps.length = ids.length) :
    (((ps.zip ids).map fun q => paramBinding d q.1 q.2).filter Binding.isAssign).map Binding.place =
      ((ps.filter fun p => !p.out).map Param.name).map (.func d, ·) := by
  induction ps generalizing ids with
  | nil => rfl
  | cons p ps ih =>
    cases ids with
    | nil => simp at h
    | cons e ids =>
      have hrest := ih (by simpa using h)
      cases hout : p.out <;>
        simp [paramBinding, hout, Binding.isAssign, Binding.place] at hrest ⊢ <;> exact hrest

theorem Belongs.kept {d : FuncDecl} {log : List Binding} (h : Belongs d log)
    (hd : (d.walk everywhere).Nodup) : Kept d log := by
  obtain ⟨ids, body, hlen, rfl, hbody⟩ := h
  have hparts : (d.headWalk ++ d.body.walk everywhere).Nodup := (List.nodup_cons.1 hd).2
  have hgroups := (grouped_block d.body hparts.of_append_right).names
  have hparam {b : Binding} (hb : b ∈ (d.params.zip ids).map fun q => paramBinding d q.1 q.2) :
      ∃ p ∈ d.params, ∃ e, b = paramBinding d p e := by
    obtain ⟨⟨p, e⟩, hq, rfl⟩ := List.mem_map.1 hb
    exact ⟨p, (List.of_mem_zip hq).1, e, rfl⟩
  have hname (p : Param) (hp : p ∈ d.params) : p.name ∈ idents d.headWalk := by
    refine mem_idents.2 ?_
    simp only [FuncDecl.headWalk, List.mem_append, List.mem_flatMap]
    exact .inl (.inl (.inr ⟨p, hp, by simp [Param.walk, Node.above, Ident.walk]⟩))
  refine ⟨?_, fun b hb => ?_, ?_, fun b hb hset => ?_, fun p hp hout => ?_⟩
  · rw [List.map_append, List.map_map]
    have hnames : (d.params.zip ids).map (Binding.name ∘ fun q => paramBinding d q.1 q.2) =
        d.params.map Param.name := by
      simp only [Function.comp_def, name_paramBinding]
      exact map_zip_fst hlen Param.name
    rw [hnames]
    refine List.Subperm.trans ?_ (names_perm d).subperm
    exact (List.Subperm.refl _).append ((List.Subperm.refl _).append (hgroups ▸ hbody.names))
  · rcases List.mem_append.1 hb with hb | hb
    · obtain ⟨p, hp, e, rfl⟩ := hparam hb
      unfold paramBinding
      split
      · exact .out hp ‹_› rfl rfl rfl
      · exact .name List.mem_cons_self (hname p hp) fun _ => nofun
    · obtain ⟨⟨n, names⟩, hg, hc, hn⟩ := hbody.carried b hb
      have hsound := hbody.sound b hb
      refine .name (List.mem_cons_of_mem _ (hc ▸ hg)) hn fun close hrole => ?_
      simp [Binding.Sound, hrole] at hsound
  · rw [List.filter_append, List.map_append, hbody.assigned, FuncDecl.carriers, FuncDecl.groups,
      List.map_cons, List.flatMap_cons, List.flatMap_map]
    congr 1
    exact assigned_params d hlen
  · rcases List.mem_append.1 hb with hb | hb
    · obtain ⟨p, hp, e, rfl⟩ := hparam hb
      unfold paramBinding at hset
      split at hset <;> cases hset
    · obtain ⟨m, value, hc⟩ : ∃ m value,
          b.carrier = .stmt (.simple (.assign m .set (.ident b.name) value)) := by
        simpa [Binding.Sound, hset] using hbody.sound b hb
      obtain ⟨g, hg, hcarrier, -⟩ := hbody.carried b hb
      refine ⟨m, value, hc ▸ (marshalled_block d.body).subset ?_⟩
      exact hcarrier ▸ List.mem_map_of_mem hg
  · have hzip : p ∈ (d.params.zip ids).map Prod.fst := by
      rwa [List.map_fst_zip (Nat.le_of_eq hlen)]
    obtain ⟨⟨q, e⟩, he, hq⟩ := List.mem_map.1 hzip
    obtain rfl : q = p := hq
    refine ⟨paramBinding d q e, List.mem_append_left _ (List.mem_map.2 ⟨_, he, rfl⟩), ?_⟩
    simp [paramBinding, hout]

theorem headNames_subset (d : Decl) : headNames d ⊆ idents (d.walk everywhere) := by
  cases d with
  | errorDomain d =>
    intro name hn
    refine mem_idents.2 (List.mem_cons_of_mem _ ?_)
    rcases List.mem_cons.1 hn with rfl | hn
    · exact List.mem_append_left _ List.mem_cons_self
    · exact List.mem_append_right _ (List.mem_flatMap.2 ⟨name, hn, List.mem_cons_self⟩)
  | var d => exact List.Subset.refl _
  | func d => exact fun name hn => (names_perm d).subset (List.mem_append_left _ hn)

theorem nodup_of_subperm {α : Type} {xs ys : List α} (h : xs.Subperm ys) (hy : ys.Nodup) :
    xs.Nodup := by
  obtain ⟨zs, hperm, hsub⟩ := h
  exact hperm.nodup_iff.1 (hy.sublist hsub)

theorem mem_carriers {b : Binding} {d : FuncDecl} {names : List Ident}
    (h : (b.carrier, names) ∈ d.groups) : b.carrier ∈ d.carriers :=
  List.mem_map_of_mem h

theorem body_mem_walk (d : FuncDecl) : .stmt (.block d.body) ∈ d.walk everywhere :=
  List.mem_cons_of_mem _ (List.mem_append_right _ (Node.mem_subtree (.stmt (.block d.body))))

theorem Carried.mem_walk {b : Binding} {d : FuncDecl} (h : Carried d b) :
    b.carrier ∈ d.walk everywhere := by
  cases h with
  | name group _ _ => exact d.carriers_sublist.subset (mem_carriers group)
  | out _ _ _ _ carrier => exact carrier ▸ body_mem_walk d

end Resolve

/-! ### From logs to facts -/

namespace Resolution

/-- The variable of a function that a name denotes. -/
def usedVar? (r : Resolution) (name : Ident) : Option Var :=
  (r.uses.lookup name.mark.id).bind r.tree.ownVar?

/-- The variable of a function that a name denotes or declares. -/
def boundVar? (r : Resolution) (name : Ident) : Option Var :=
  ((r.uses ++ r.defs).lookup name.mark.id).bind r.tree.ownVar?

theorem lookup_eq_some {α : Type} {entries : List (Nat × α)} {k : Nat} {a : α}
    (h : (k, a) ∈ entries) (hu : ∀ p ∈ entries, p.1 = k → p.2 = a) : entries.lookup k = some a := by
  induction entries with
  | nil => cases h
  | cons p entries ih =>
    by_cases hk : p.1 = k
    · rw [List.lookup_cons, beq_iff_eq.2 hk.symm, hu p List.mem_cons_self hk]
    · have hne : (k, a) ≠ p := fun e => hk (congrArg Prod.fst e.symm)
      rw [List.lookup_cons, beq_eq_false_iff_ne.2 (Ne.symm hk)]
      exact ih ((List.mem_cons.1 h).resolve_left hne) fun q hq => hu q (List.mem_cons_of_mem _ hq)

theorem mem_of_lookup {α : Type} {entries : List (Nat × α)} {k : Nat} {a : α}
    (h : entries.lookup k = some a) : (k, a) ∈ entries := by
  induction entries with
  | nil => cases h
  | cons p entries ih =>
    rw [List.lookup_cons] at h
    split at h
    · rename_i hk
      cases h
      rw [beq_iff_eq.1 hk]
      exact List.mem_cons_self
    · exact List.mem_cons_of_mem _ (ih h)

theorem count_filterMap_eq_one {α β : Type} [DecidableEq β] {xs : List α} {g : α → Option β} {a : α}
    {b : β} (hn : xs.Nodup) (ha : a ∈ xs) (hb : g a = some b)
    (hu : ∀ c ∈ xs, g c = some b → c = a) : (xs.filterMap g).count b = 1 := by
  obtain ⟨ys, zs, rfl⟩ := List.append_of_mem ha
  have hnone {w : List α} (hw : w ⊆ ys ++ a :: zs) (haw : a ∉ w) :
      w.countP (fun c => g c == some b) = 0 := by
    refine List.countP_eq_zero.2 fun c hc h => haw ?_
    exact hu c (hw hc) (by simpa using h) ▸ hc
  obtain ⟨-, htail, hdisj⟩ := List.nodup_append.1 hn
  have hys := hnone (w := ys) (by simp) fun h => hdisj a h a List.mem_cons_self rfl
  have hzs := hnone (w := zs) (by simp) (List.nodup_cons.1 htail).1
  rw [List.count_filterMap, List.countP_append, hys, List.countP_cons_of_pos (by simp [hb]), hzs]

theorem flatMap_at {α β : Type} {xs : List α} {key : α → Nat} {g : α → List β} {a : α}
    (hn : (xs.map key).Nodup) (ha : a ∈ xs) :
    (xs.flatMap fun x => if key x = key a then g x else []) = g a := by
  obtain ⟨ys, zs, rfl⟩ := List.append_of_mem ha
  rw [List.map_append, List.map_cons] at hn
  obtain ⟨-, htail, hdisj⟩ := List.nodup_append.1 hn
  have hnone {w : List α} (hw : key a ∉ w.map key) :
      (w.flatMap fun x => if key x = key a then g x else []) = [] := by
    refine List.flatMap_eq_nil_iff.2 fun x hx => if_neg fun e => hw ?_
    exact e ▸ List.mem_map_of_mem hx
  have hys := hnone (w := ys) fun h => hdisj _ h _ List.mem_cons_self rfl
  have hzs := hnone (w := zs) (List.nodup_cons.1 htail).1
  rw [List.flatMap_append, List.flatMap_cons, hys, hzs, if_pos rfl, List.nil_append, List.append_nil]

namespace Logs

variable {f : File} {r : Resolution} {bodies : List Resolve.Body} {b c : Binding} {n : Node}
  {d : FuncDecl}

/-- All entries, function after function. -/
abbrev entries (bodies : List Resolve.Body) : List Binding := bodies.flatMap Resolve.Body.log

theorem mem_funcs (h : Logs f r bodies) {c : Resolve.Body} (hc : c ∈ bodies) : c.decl ∈ f.funcs :=
  h.decls ▸ List.mem_map_of_mem hc

theorem kept (h : Logs f r bodies) (hf : f.Numbered) {c : Resolve.Body} (hc : c ∈ bodies) :
    Resolve.Kept c.decl c.log :=
  (h.belongs c hc).kept (hf.nodup_walk (h.mem_funcs hc))

/-- The function that an entry is about. -/
theorem exists_func (h : Logs f r bodies) (hf : f.Numbered) (hb : b ∈ entries bodies) :
    ∃ c ∈ bodies, b ∈ c.log ∧ c.decl ∈ f.funcs ∧ Resolve.Kept c.decl c.log ∧
      b.name ∈ idents (c.decl.walk everywhere) := by
  obtain ⟨c, hc, hb⟩ := List.mem_flatMap.1 hb
  have hkept := h.kept hf hc
  refine ⟨c, hc, hb, h.mem_funcs hc, hkept, hkept.names.subset ?_⟩
  exact List.mem_append_right _ (List.mem_map_of_mem hb)

theorem mem_idents (h : Logs f r bodies) (hf : f.Numbered) (hb : b ∈ entries bodies) :
    b.name ∈ idents f.nodes := by
  obtain ⟨c, -, -, hd, -, hn⟩ := h.exists_func hf hb
  exact File.Numbered.mem_idents_of_func hd hn

theorem carrier_mem (h : Logs f r bodies) (hf : f.Numbered) (hb : b ∈ entries bodies) :
    b.carrier ∈ f.nodes := by
  obtain ⟨c, -, hlog, hd, hkept, -⟩ := h.exists_func hf hb
  exact File.mem_nodes_of_func hd (hkept.carried b hlog).mem_walk

theorem nodup_names (h : Logs f r bodies) (hf : f.Numbered) :
    ((entries bodies).map Binding.name).Nodup := by
  have hdecls : bodies.Pairwise fun c c' => c.decl ≠ c'.decl := by
    have hfuncs := List.Nodup.of_map _ hf.nodup_funcs
    rw [← h.decls] at hfuncs
    exact List.pairwise_map.1 hfuncs
  rw [List.map_flatMap, List.nodup_flatMap]
  constructor
  · intro c hc
    have hnames := nodup_idents (hf.nodup_walk (h.mem_funcs hc))
    exact (Resolve.nodup_of_subperm (h.kept hf hc).names hnames).of_append_right
  · refine hdecls.imp_of_mem fun {c c'} hc hc' hne name hn hn' => hne ?_
    have hmem {c : Resolve.Body} (hc : c ∈ bodies) (hn : name ∈ c.log.map Binding.name) :
        .expr (.ident name) ∈ c.decl.walk everywhere :=
      FlowCheck.mem_idents.1 ((h.kept hf hc).names.subset (List.mem_append_right _ hn))
    exact hf.func_eq (h.mem_funcs hc) (h.mem_funcs hc') (hmem hc hn) (hmem hc' hn')

/-- A name is entered once. -/
theorem eq_of_id (h : Logs f r bodies) (hf : f.Numbered) (hb : b ∈ entries bodies)
    (hc : c ∈ entries bodies) (hid : b.name.mark.id = c.name.mark.id) : b = c :=
  List.inj_on_of_nodup_map (h.nodup_names hf) hb hc
    (hf.ident_eq (h.mem_idents hf hb) (h.mem_idents hf hc) hid)

/-- No name of a log has been bound before the bodies. -/
theorem head_ne (h : Logs f r bodies) (hf : f.Numbered) (hb : b ∈ entries bodies) {name : Ident}
    (hn : name ∈ f.decls.flatMap Resolve.headNames) : name.mark.id ≠ b.name.mark.id := by
  intro hid
  obtain ⟨e, he, hn⟩ := List.mem_flatMap.1 hn
  obtain ⟨c, -, hlog, hd, hkept, hbn⟩ := h.exists_func hf hb
  have hwalk := FlowCheck.mem_idents.1 (Resolve.headNames_subset e hn)
  have hname := hf.ident_eq (FlowCheck.mem_idents.2 (File.mem_nodes_of_decl he hwalk))
    (h.mem_idents hf hb) hid
  rw [hname] at hn hwalk
  have hdecl := hf.decl_eq he (File.mem_funcs.1 hd) hwalk (FlowCheck.mem_idents.1 hbn)
  subst hdecl
  have hnodup := Resolve.nodup_of_subperm hkept.names (nodup_idents (hf.nodup_walk hd))
  exact List.disjoint_of_nodup_append hnodup hn (List.mem_map_of_mem hlog)

theorem boundVar?_eq (h : Logs f r bodies) (hf : f.Numbered) (hb : b ∈ entries bodies) :
    r.boundVar? b.name = r.tree.ownVar? b.entity := by
  rw [boundVar?, lookup_eq_some (h.bound b hb) fun p hp hid => ?_]
  · rfl
  have hentry : ∀ c ∈ entries bodies, c.entry = p → p.2 = b.entity := by
    rintro c hc rfl
    rw [h.eq_of_id hf hc hb hid]
    rfl
  rcases List.mem_append.1 hp with hp | hp
  · rcases h.uses p hp with ⟨name, hn, e⟩ | ⟨c, hc, -, e⟩
    · exact absurd (e.symm.trans hid) (h.head_ne hf hb hn)
    · exact hentry c hc e
  · rcases h.defs p hp with ⟨name, hn, e⟩ | ⟨c, hc, -, e⟩
    · exact absurd (e.symm.trans hid) (h.head_ne hf hb hn)
    · exact hentry c hc e

/-- A name of a body is bound by its entry and by nothing else. -/
theorem exists_use (h : Logs f r bodies) (hf : f.Numbered) (hd : d ∈ f.funcs) {name : Ident}
    (hn : name ∈ idents (d.body.walk everywhere)) {e : EntityId} (he : (name.mark.id, e) ∈ r.uses) :
    ∃ b ∈ entries bodies, b.isUse ∧ b.name = name ∧ b.entity = e := by
  have hperm := Resolve.names_perm d
  have hnames := hperm.nodup_iff.2 (nodup_idents (hf.nodup_walk hd))
  have hparts := List.mem_append_right (d.params.map Param.name) hn
  have hwalk : name ∈ idents (d.walk everywhere) :=
    hperm.subset (List.mem_append_right _ hparts)
  have hnode := File.Numbered.mem_idents_of_func hd hwalk
  rcases h.uses _ he with ⟨x, hx, hid⟩ | ⟨b, hb, huse, hentry⟩
  · -- the names of signatures stand before bodies
    obtain ⟨e, he, hx⟩ := List.mem_flatMap.1 hx
    have hxwalk := FlowCheck.mem_idents.1 (Resolve.headNames_subset e hx)
    have hxname := hf.ident_eq (FlowCheck.mem_idents.2 (File.mem_nodes_of_decl he hxwalk)) hnode
      hid.symm
    rw [hxname] at hx hxwalk
    have hdecl := hf.decl_eq he (File.mem_funcs.1 hd) hxwalk (FlowCheck.mem_idents.1 hwalk)
    subst hdecl
    exact absurd hparts (List.disjoint_of_nodup_append hnames hx)
  · have hid : b.name.mark.id = name.mark.id := congrArg Prod.fst hentry
    exact ⟨b, hb, huse, hf.ident_eq (h.mem_idents hf hb) hnode hid, congrArg Prod.snd hentry⟩

/-! ### Reads -/

theorem uses_eq_filterMap (h : Logs f r bodies) (n : Node) :
    r.facts.uses n = (entries bodies).filterMap fun b =>
      if b.carrier.id = n.id then b.use? r.tree else none := by
  rw [uses_eq, h.reads, List.filter_filterMap, List.map_filterMap]
  refine List.filterMap_congr fun b _ => ?_
  rw [Binding.read?_eq]
  cases b.use? r.tree with
  | none => simp
  | some u => by_cases hid : b.carrier.id = n.id <;> simp [hid]

theorem mem_uses (h : Logs f r bodies) (hf : f.Numbered) (hn : n ∈ f.nodes) {u : Use} :
    u ∈ r.facts.uses n ↔ ∃ b ∈ entries bodies, b.carrier = n ∧ b.use? r.tree = some u := by
  rw [h.uses_eq_filterMap, List.mem_filterMap]
  refine exists_congr fun b => and_congr_right fun hb => ?_
  have hid : b.carrier.id = n.id ↔ b.carrier = n :=
    ⟨hf.eq_of_id (h.carrier_mem hf hb) hn, congrArg Node.id⟩
  by_cases hc : b.carrier = n <;> simp [hid, hc]

/-- Nothing but the name itself is read where a name stands. -/
theorem eq_of_readPos (h : Logs f r bodies) (hf : f.Numbered) (hl : f.Laid)
    (hb : b ∈ entries bodies) (hc : c ∈ entries bodies)
    (hpos : c.readPos? = some b.name.mark.pos) : c = b := by
  have hname := h.mem_idents hf hb
  unfold Binding.readPos? at hpos
  split at hpos
  · have hnames := hl.names _ (h.mem_idents hf hc) _ hname (Option.some.inj hpos)
    exact h.eq_of_id hf hc hb (by rw [hnames])
  · rename_i close hrole
    obtain ⟨d, -, hlog, hd, hkept, -⟩ := h.exists_func hf hc
    cases hkept.carried c hlog with
    | name _ _ role => exact absurd hrole (role close)
    | out _ _ _ role _ =>
      rw [hrole, Role.out.injEq] at role
      exact absurd ((Option.some.inj hpos).symm.trans role) (hl.closes _ hd _ hname)
  · cases hpos

/-- A name that is read gives one use, at one node. -/
theorem count_uses (h : Logs f r bodies) (hf : f.Numbered) (hl : f.Laid) (hb : b ∈ entries bodies)
    (hrole : b.role = .read) {v : Var} (hv : r.tree.ownVar? b.entity = some v) :
    (r.facts.uses b.carrier).count ⟨v, b.name.mark.pos⟩ = 1 ∧
      ∀ m ∈ f.nodes, ⟨v, b.name.mark.pos⟩ ∈ r.facts.uses m → m = b.carrier := by
  have huse : b.use? r.tree = some ⟨v, b.name.mark.pos⟩ := by
    simp [Binding.use?, Binding.readPos?, hrole, hv]
  have hunique (c : Binding) (hc : c ∈ entries bodies)
      (hu : c.use? r.tree = some ⟨v, b.name.mark.pos⟩) : c = b :=
    h.eq_of_readPos hf hl hb hc (Binding.readPos?_of_use? hu)
  constructor
  · rw [h.uses_eq_filterMap]
    refine count_filterMap_eq_one (List.Nodup.of_map _ (h.nodup_names hf)) hb ?_ fun c hc hu => ?_
    · rw [if_pos rfl, huse]
    · refine hunique c hc ?_
      split at hu
      · exact hu
      · cases hu
  · intro m hm hu
    obtain ⟨c, hc, hcarrier, hu⟩ := (h.mem_uses hf hm).1 hu
    rw [← hcarrier, hunique c hc hu]

/-! ### Assignments -/

theorem assigned_eq (h : Logs f r bodies) (hf : f.Numbered) :
    ((entries bodies).filter Binding.isAssign).map Binding.place =
      (f.funcs.flatMap FuncDecl.carriers).flatMap fun n => n.assigned.map (n, ·) := by
  rw [List.filter_flatMap, List.map_flatMap, ← h.decls, List.flatMap_map, List.flatMap_assoc]
  refine List.flatMap_congr fun c hc => ?_
  exact (h.kept hf hc).assigned

theorem defs_eq_flatMap (h : Logs f r bodies) (hf : f.Numbered) (n : Node) :
    r.facts.defs n = (f.funcs.flatMap FuncDecl.carriers).flatMap fun m =>
      if m.id = n.id then m.assigned.filterMap r.boundVar? else [] := by
  let at? (q : Node × Ident) : Option Var := if q.1.id = n.id then r.boundVar? q.2 else none
  have hread : r.facts.defs n =
      (((entries bodies).filter Binding.isAssign).map Binding.place).filterMap at? := by
    rw [defs_eq, h.assigns, List.filter_filterMap, List.map_filterMap, List.filterMap_map,
      List.filterMap_filter]
    refine List.filterMap_congr fun b hb => ?_
    simp only [Binding.assigned?, Function.comp_apply, at?, Binding.place, h.boundVar?_eq hf hb]
    by_cases ha : b.isAssign <;> by_cases hid : b.carrier.id = n.id <;>
      cases r.tree.ownVar? b.entity <;> simp [ha, hid]
  rw [hread, h.assigned_eq hf, List.filterMap_flatMap]
  refine List.flatMap_congr fun m _ => ?_
  rw [List.filterMap_map]
  by_cases hid : m.id = n.id <;> simp [at?, hid]

theorem carriers_sublist (f : File) : (f.funcs.flatMap FuncDecl.carriers).Sublist f.nodes := by
  refine List.Sublist.trans ?_ f.funcs_walk_sublist
  induction f.funcs with
  | nil => exact .slnil
  | cons d ds ih => exact d.carriers_sublist.append ih

/-- The variables that a node assigns are those of the names that it assigns. -/
theorem defs_of_carrier (h : Logs f r bodies) (hf : f.Numbered)
    (hn : n ∈ f.funcs.flatMap FuncDecl.carriers) :
    r.facts.defs n = n.assigned.filterMap r.boundVar? := by
  rw [h.defs_eq_flatMap hf]
  exact flatMap_at (hf.sublist ((carriers_sublist f).map Node.id)) hn

theorem defs_eq_nil (h : Logs f r bodies) (hf : f.Numbered) (hn : n ∈ f.nodes)
    (hnot : n ∉ f.funcs.flatMap FuncDecl.carriers) : r.facts.defs n = [] := by
  rw [h.defs_eq_flatMap hf]
  refine List.flatMap_eq_nil_iff.2 fun m hm => if_neg fun e => hnot ?_
  rwa [← hf.eq_of_id ((carriers_sublist f).subset hm) hn e]

/-- Each name that a node assigns has an entry of its own. -/
theorem exists_assign (h : Logs f r bodies) (hf : f.Numbered)
    (hn : n ∈ f.funcs.flatMap FuncDecl.carriers) {name : Ident} (ha : name ∈ n.assigned) :
    ∃ b ∈ entries bodies, b.isAssign ∧ b.carrier = n ∧ b.name = name := by
  have hplace : (n, name) ∈ ((entries bodies).filter Binding.isAssign).map Binding.place := by
    rw [h.assigned_eq hf]
    exact List.mem_flatMap.2 ⟨n, hn, List.mem_map_of_mem ha⟩
  obtain ⟨b, hb, e⟩ := List.mem_map.1 hplace
  obtain ⟨hb, hassign⟩ := List.mem_filter.1 hb
  exact ⟨b, hb, hassign, congrArg Prod.fst e, congrArg Prod.snd e⟩

theorem nodup_assigned (h : Logs f r bodies) (hf : f.Numbered)
    (hn : n ∈ f.funcs.flatMap FuncDecl.carriers) : n.assigned.Nodup := by
  have hplaces : (((entries bodies).filter Binding.isAssign).map Binding.place).Nodup := by
    refine List.Nodup.of_map Prod.snd ?_
    rw [List.map_map]
    exact (h.nodup_names hf).sublist (List.filter_sublist.map _)
  rw [h.assigned_eq hf] at hplaces
  exact List.Nodup.of_map _ ((List.nodup_flatMap.1 hplaces).1 n hn)

end Logs

end Resolution

end FlowCheck
