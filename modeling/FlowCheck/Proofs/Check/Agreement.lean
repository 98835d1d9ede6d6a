import Mathlib
import FlowCheck.Proofs.Build.Visit
import FlowCheck.Proofs.Resolve.Facts
import FlowCheck.Proofs.Source.Encoding

/-!
# Where facts live

Name resolution attaches facts to nodes, and construction puts nodes into blocks. The two walk over
a function independently of each other, yet they choose the same nodes: every name that is read or
assigned gives one fact, at the innermost node around it that construction visits, and no fact is
attached to a node that construction does not ask about.
-/
namespace FlowCheck

/-- The facts of a function are where construction looks for them. -/
structure Agrees (f : File) (r : Resolution) (d : FuncDecl) : Prop where
  /-- A name that denotes a variable is read once, by the innermost node around it, unless it is
  the target of an assignment. -/
  reads : ∀ name v, .expr (.ident name) ∈ d.body.walk everywhere → ¬d.Sets name →
    r.usedVar? name = some v → ∃ n, d.Innermost n name ∧
      (r.facts.uses n).count ⟨v, name.mark.pos⟩ = 1 ∧
      ∀ m ∈ f.nodes, ⟨v, name.mark.pos⟩ ∈ r.facts.uses m → m = n
  /-- A node reads nothing but such names. -/
  read : ∀ n ∈ d.carriers, ∀ u ∈ r.facts.uses n, ∃ name, d.Innermost n name ∧ ¬d.Sets name ∧
    name.mark.pos = u.pos ∧ r.boundVar? name = some u.var
  /-- A node assigns the variables of the names that it assigns. -/
  assigns : ∀ n ∈ d.walk everywhere, r.facts.defs n = n.assigned.filterMap r.boundVar?
  /-- A name is assigned once, by the innermost node around it. -/
  assigned : ∀ n ∈ d.walk everywhere, ∀ name ∈ n.assigned, d.Innermost n name ∧
    n.assigned.count name = 1 ∧ ∀ m ∈ f.nodes, name ∈ m.assigned → m = n
  /-- The body reads the `out` parameters where it ends, and assigns nothing. -/
  body : r.facts.defs (.stmt (.block d.body)) = [] ∧
    ∀ u, u ∈ r.facts.uses (.stmt (.block d.body)) ↔
      ∃ p ∈ d.params, p.out ∧ r.boundVar? p.name = some u.var ∧ u.pos = d.body.close
  /-- No other node of the file has facts. -/
  elsewhere : ∀ n ∈ f.nodes, (∀ e ∈ f.funcs, n ≠ .stmt (.block e.body) ∧ n ∉ e.carriers) →
    r.facts.defs n = [] ∧ r.facts.uses n = []
  /-- Construction puts these nodes into blocks or finds them dead, and no others. -/
  blocks : ∀ g, (Construction.ofFunc r.facts d).outcome = .ok g →
    (∀ b, ∀ n ∈ g.nodes b, n = .stmt (.block d.body) ∨ n ∈ d.carriers) ∧
    ∀ n ∈ .stmt (.block d.body) :: d.carriers,
      (∃ b, n ∈ g.nodes b) ∨ n.id ∈ (Construction.ofFunc r.facts d).dead

namespace Resolution.Logs

variable {f : File} {r : Resolution} {bodies : List Resolve.Body} {d : FuncDecl} {n : Node}
  {name : Ident}

theorem mem_carriers (hd : d ∈ f.funcs) (hn : n ∈ d.carriers) :
    n ∈ f.funcs.flatMap FuncDecl.carriers :=
  List.mem_flatMap.2 ⟨d, hd, hn⟩

/-- The body of a function carries nothing but what it reads where it ends. -/
theorem body_notMem (hf : f.Numbered) (hd : d ∈ f.funcs) :
    .stmt (.block d.body) ∉ f.funcs.flatMap FuncDecl.carriers := by
  intro hmem
  obtain ⟨e, he, hn⟩ := List.mem_flatMap.1 hmem
  obtain rfl : d = e :=
    hf.func_eq hd he (Resolve.body_mem_walk d) (e.carriers_sublist.subset hn)
  have hparts := (List.nodup_cons.1 (hf.nodup_walk hd)).2
  have hbody : (d.body.walk everywhere).Nodup := hparts.of_append_right
  rcases List.mem_cons.1 hn with h | hn
  · cases h
  · cases hb : d.body with
    | mk m stmts close =>
      rw [hb] at hn hbody
      exact (List.nodup_cons.1 hbody).1 ((marshalled_stmts stmts).subset hn)

/-- The entries of the names of a function are in its own log. -/
theorem kept_of_name (h : Logs f r bodies) (hf : f.Numbered) (hd : d ∈ f.funcs) {b : Binding}
    (hb : b ∈ entries bodies) (hn : b.name ∈ idents (d.walk everywhere)) :
    ∃ log, b ∈ log ∧ Resolve.Kept d log := by
  obtain ⟨c, -, hlog, hc, hkept, hname⟩ := h.exists_func hf hb
  obtain rfl := hf.func_eq hc hd (FlowCheck.mem_idents.1 hname) (FlowCheck.mem_idents.1 hn)
  exact ⟨c.log, hlog, hkept⟩

/-- So are the entries at its nodes. -/
theorem kept_of_carrier (h : Logs f r bodies) (hf : f.Numbered) (hd : d ∈ f.funcs) {b : Binding}
    (hb : b ∈ entries bodies) (hn : b.carrier ∈ d.walk everywhere) :
    ∃ log, b ∈ log ∧ Resolve.Kept d log := by
  obtain ⟨c, -, hlog, hc, hkept, -⟩ := h.exists_func hf hb
  obtain rfl := hf.func_eq hc hd (hkept.carried b hlog).mem_walk hn
  exact ⟨c.log, hlog, hkept⟩

theorem mem_body_idents (hn : .expr (.ident name) ∈ d.body.walk everywhere) :
    name ∈ idents (d.body.walk everywhere) ∧ name ∈ idents (d.walk everywhere) := by
  refine ⟨FlowCheck.mem_idents.2 hn, FlowCheck.mem_idents.2 ?_⟩
  exact List.mem_cons_of_mem _ (List.mem_append_right _ hn)

theorem reads_once (h : Logs f r bodies) (hf : f.Numbered) (hl : f.Laid) (hd : d ∈ f.funcs)
    {v : Var} (hn : .expr (.ident name) ∈ d.body.walk everywhere) (hset : ¬d.Sets name)
    (hv : r.usedVar? name = some v) :
    ∃ n, d.Innermost n name ∧ (r.facts.uses n).count ⟨v, name.mark.pos⟩ = 1 ∧
      ∀ m ∈ f.nodes, ⟨v, name.mark.pos⟩ ∈ r.facts.uses m → m = n := by
  obtain ⟨e, he, hv⟩ := Option.bind_eq_some_iff.1 hv
  obtain ⟨hbody, hwalk⟩ := mem_body_idents hn
  obtain ⟨b, hb, huse, rfl, rfl⟩ := h.exists_use hf hd hbody (mem_of_lookup he)
  obtain ⟨log, hlog, hkept⟩ := h.kept_of_name hf hd hb hwalk
  have hrole : b.role = .read := by
    rw [Binding.isUse, decide_eq_true_iff] at huse
    exact huse.resolve_right fun hrole => hset (hkept.sets b hlog hrole)
  refine ⟨b.carrier, ?_, h.count_uses hf hl hb hrole hv⟩
  cases hkept.carried b hlog with
  | name group mem _ => exact FuncDecl.innermost_of_mem (hf.nodup_walk hd) group mem
  | out _ _ _ role _ =>
    rw [hrole] at role
    cases role

/-- An entry that assigns is not one that reads. -/
theorem assigned_of_carrier (h : Logs f r bodies) (hf : f.Numbered) (hd : d ∈ f.funcs)
    (hn : n ∈ d.walk everywhere) (ha : name ∈ n.assigned) :
    ∃ b ∈ entries bodies, b.isAssign ∧ b.carrier = n ∧ b.name = name ∧
      n ∈ f.funcs.flatMap FuncDecl.carriers := by
  have hcarrier : n ∈ d.carriers :=
    (grouped_funcDecl d (hf.nodup_walk hd)).assigns n hn (List.ne_nil_of_mem ha)
  obtain ⟨b, hb, hassign, hc, hname⟩ := h.exists_assign hf (mem_carriers hd hcarrier) ha
  exact ⟨b, hb, hassign, hc, hname, mem_carriers hd hcarrier⟩

theorem reads_name (h : Logs f r bodies) (hf : f.Numbered) (hd : d ∈ f.funcs)
    (hn : n ∈ d.carriers) {u : Use} (hu : u ∈ r.facts.uses n) :
    ∃ name, d.Innermost n name ∧ ¬d.Sets name ∧ name.mark.pos = u.pos ∧
      r.boundVar? name = some u.var := by
  have hwalk := d.carriers_sublist.subset hn
  obtain ⟨b, hb, rfl, huse⟩ := (h.mem_uses hf (File.mem_nodes_of_func hd hwalk)).1 hu
  obtain ⟨log, hlog, hkept⟩ := h.kept_of_carrier hf hd hb hwalk
  have hpos := Binding.readPos?_of_use? huse
  cases hkept.carried b hlog with
  | out _ _ _ _ carrier => exact absurd (mem_carriers hd (carrier ▸ hn)) (body_notMem hf hd)
  | name group mem role =>
    have hread : b.role = .read ∧ b.name.mark.pos = u.pos := by
      unfold Binding.readPos? at hpos
      split at hpos
      · exact ⟨‹_›, Option.some.inj hpos⟩
      · exact absurd ‹_› (role _)
      · cases hpos
    refine ⟨b.name, FuncDecl.innermost_of_mem (hf.nodup_walk hd) group mem, ?_, hread.2, ?_⟩
    · rintro ⟨m, value, hm⟩
      have hm' := List.mem_cons_of_mem (.func d) (List.mem_append_right d.headWalk hm)
      obtain ⟨c, hc, hassign, -, hname, -⟩ :=
        h.assigned_of_carrier hf hd hm' (List.mem_singleton_self b.name)
      rw [h.eq_of_id hf hc hb (by rw [hname])] at hassign
      simp [Binding.isAssign, hread.1] at hassign
    · rw [h.boundVar?_eq hf hb, Binding.ownVar?_of_use? huse]

theorem assigns_names (h : Logs f r bodies) (hf : f.Numbered) (hd : d ∈ f.funcs)
    (hn : n ∈ d.walk everywhere) : r.facts.defs n = n.assigned.filterMap r.boundVar? := by
  by_cases hc : n ∈ f.funcs.flatMap FuncDecl.carriers
  · exact h.defs_of_carrier hf hc
  · have hnone : n.assigned = [] := by
      by_contra hne
      exact hc (mem_carriers hd ((grouped_funcDecl d (hf.nodup_walk hd)).assigns n hn hne))
    rw [h.defs_eq_nil hf (File.mem_nodes_of_func hd hn) hc, hnone]
    rfl

/-- Nothing but the nodes of functions assigns anything. -/
theorem exists_func_of_assigned (hn : n ∈ f.nodes) (ha : n.assigned ≠ []) :
    ∃ d ∈ f.funcs, n ∈ d.walk everywhere := by
  have hident {names : List Ident} (h : n ∈ names.flatMap Ident.walk) : n.assigned = [] := by
    obtain ⟨name, -, h⟩ := List.mem_flatMap.1 h
    exact assigned_ident h
  rcases List.mem_cons.1 hn with rfl | hn
  · exact absurd rfl ha
  rcases List.mem_append.1 hn with hn | hn
  · exact absurd (assigned_ident hn) ha
  obtain ⟨e, he, hn⟩ := List.mem_flatMap.1 hn
  cases e with
  | func d => exact ⟨d, File.mem_funcs.2 he, hn⟩
  | errorDomain d =>
    rcases List.mem_cons.1 hn with rfl | hn
    · exact absurd rfl ha
    · exact absurd ((List.mem_append.1 hn).elim assigned_ident hident) ha
  | var d =>
    rcases List.mem_cons.1 hn with rfl | hn
    · exact absurd rfl ha
    · rcases List.mem_append.1 hn with hn | hn
      · exact absurd ((List.mem_append.1 hn).elim assigned_ident assigned_exprOption) ha
      · exact absurd (assigned_exprOption hn) ha

theorem assigned_once (h : Logs f r bodies) (hf : f.Numbered) (hd : d ∈ f.funcs)
    (hn : n ∈ d.walk everywhere) (ha : name ∈ n.assigned) :
    d.Innermost n name ∧ n.assigned.count name = 1 ∧
      ∀ m ∈ f.nodes, name ∈ m.assigned → m = n := by
  obtain ⟨b, hb, hassign, hc, rfl, hcarrier⟩ := h.assigned_of_carrier hf hd hn ha
  obtain ⟨log, hlog, hkept⟩ := h.kept_of_carrier hf hd hb (hc ▸ hn)
  refine ⟨?_, List.count_eq_one_of_mem (h.nodup_assigned hf hcarrier) ha, fun m hm ham => ?_⟩
  · cases hkept.carried b hlog with
    | name group mem _ => exact hc ▸ FuncDecl.innermost_of_mem (hf.nodup_walk hd) group mem
    | out _ _ _ role _ => simp [Binding.isAssign, role] at hassign
  · obtain ⟨e, he, hme⟩ := exists_func_of_assigned hm (List.ne_nil_of_mem ham)
    obtain ⟨c, hc', -, hcm, hname, -⟩ := h.assigned_of_carrier hf he hme ham
    rw [← hcm, ← hc, h.eq_of_id hf hc' hb (by rw [hname])]

/-- The body reads the parameters that the caller reads. -/
theorem mem_uses_body (h : Logs f r bodies) (hf : f.Numbered) (hd : d ∈ f.funcs) {u : Use} :
    u ∈ r.facts.uses (.stmt (.block d.body)) ↔
      ∃ p ∈ d.params, p.out ∧ r.boundVar? p.name = some u.var ∧ u.pos = d.body.close := by
  have hbody := Resolve.body_mem_walk d
  rw [h.mem_uses hf (File.mem_nodes_of_func hd hbody)]
  constructor
  · rintro ⟨b, hb, hc, huse⟩
    obtain ⟨log, hlog, hkept⟩ := h.kept_of_carrier hf hd hb (hc ▸ hbody)
    cases hkept.carried b hlog with
    | name group _ _ =>
      exact absurd (mem_carriers hd (hc ▸ Resolve.mem_carriers group)) (body_notMem hf hd)
    | @out p mem out name role _ =>
      refine ⟨p, mem, out, ?_, ?_⟩
      · rw [← name, h.boundVar?_eq hf hb, Binding.ownVar?_of_use? huse]
      · have hpos := Binding.readPos?_of_use? huse
        rw [Binding.readPos?, role] at hpos
        exact (Option.some.inj hpos).symm
  · rintro ⟨p, hp, hout, hv, hpos⟩
    obtain ⟨c, hc, hcd⟩ : ∃ c ∈ bodies, c.decl = d := by
      have hmem := hd
      rw [← h.decls] at hmem
      exact List.mem_map.1 hmem
    obtain ⟨b, hb, hname, hrole, hcarrier⟩ := (hcd ▸ h.kept hf hc).outs p hp hout
    have hentry : b ∈ entries bodies := List.mem_flatMap.2 ⟨c, hc, hb⟩
    refine ⟨b, hentry, hcarrier, ?_⟩
    rw [← hname, h.boundVar?_eq hf hentry] at hv
    simp [Binding.use?, Binding.readPos?, hrole, hv, ← hpos]

theorem facts_elsewhere (h : Logs f r bodies) (hf : f.Numbered) (hn : n ∈ f.nodes)
    (hout : ∀ e ∈ f.funcs, n ≠ .stmt (.block e.body) ∧ n ∉ e.carriers) :
    r.facts.defs n = [] ∧ r.facts.uses n = [] := by
  constructor
  · refine h.defs_eq_nil hf hn fun hm => ?_
    obtain ⟨e, he, hm⟩ := List.mem_flatMap.1 hm
    exact (hout e he).2 hm
  · refine List.eq_nil_iff_forall_not_mem.2 fun u hu => ?_
    obtain ⟨b, hb, rfl, -⟩ := (h.mem_uses hf hn).1 hu
    obtain ⟨c, -, hlog, hc, hkept, -⟩ := h.exists_func hf hb
    cases hkept.carried b hlog with
    | name group _ _ => exact (hout _ hc).2 (Resolve.mem_carriers group)
    | out _ _ _ _ carrier => exact (hout _ hc).1 carrier

theorem agrees (h : Logs f r bodies) (hf : f.Numbered) (hl : f.Laid) (hd : d ∈ f.funcs) :
    Agrees f r d where
  reads _ _ hn hset hv := h.reads_once hf hl hd hn hset hv
  read _ hn _ hu := h.reads_name hf hd hn hu
  assigns _ hn := h.assigns_names hf hd hn
  assigned _ hn _ ha := h.assigned_once hf hd hn ha
  body := ⟨h.defs_eq_nil hf (File.mem_nodes_of_func hd (Resolve.body_mem_walk d))
    (body_notMem hf hd), fun _ => h.mem_uses_body hf hd⟩
  elsewhere _ hn hout := h.facts_elsewhere hf hn hout
  blocks _ hg := ⟨fun _ _ hn => Construction.mem_carriers_of_mem_nodes hg hn,
    fun _ hn => Construction.mem_nodes_or_dead hg hn⟩

end Resolution.Logs

/-- In a file that parses and resolves without error, name resolution puts the facts of every
function where construction looks for them. -/
theorem Resolution.agrees_of_clean {source : Source}
    (hp : (Parsed.ofSource source).reports = [])
    (hr : (Resolution.ofFile (Parsed.ofSource source).file).reports = []) :
    ∀ d ∈ (Parsed.ofSource source).file.funcs,
      Agrees (Parsed.ofSource source).file (Resolution.ofFile (Parsed.ofSource source).file) d := by
  have hnumbered := Parsed.file_numbered source
  obtain ⟨bodies, hlogs⟩ := exists_logs hnumbered.nodup_funcs hr
  exact fun d hd => hlogs.agrees hnumbered (Parsed.file_laid hp) hd

/-- A function that reads one name and assigns another, which its caller reads. -/
def outSource : Source :=
  .ofText "" "package p\nfunc f(n int, out m int) \x7b m = n \x7d".toList

theorem outSource_clean : (Parsed.ofSource outSource).reports = [] ∧
    (Resolution.ofFile (Parsed.ofSource outSource).file).reports = [] ∧
    (Parsed.ofSource outSource).file.funcs.length = 1 := by
  cbv

theorem Resolution.agrees_outSource : ∃ d ∈ (Parsed.ofSource outSource).file.funcs,
    Agrees (Parsed.ofSource outSource).file
      (Resolution.ofFile (Parsed.ofSource outSource).file) d := by
  obtain ⟨hp, hr, hlength⟩ := outSource_clean
  obtain ⟨d, hd⟩ := List.length_eq_one_iff.1 hlength
  have hmem : d ∈ (Parsed.ofSource outSource).file.funcs := by simp [hd]
  exact ⟨d, hmem, Resolution.agrees_of_clean hp hr d hmem⟩

end FlowCheck
