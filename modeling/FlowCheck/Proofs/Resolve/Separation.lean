import FlowCheck.Proofs.Resolve.Facts

/-!
# What the functions of a file have in common

Names are resolved for the file as a whole, but what is found out about the nodes of a function
concerns its own variables only, and its reads stand at its own places.
-/
namespace FlowCheck

/-- The node reads or assigns the variable. -/
def Facts.Concerns (facts : Facts) (n : Node) (v : Var) : Prop :=
  v ∈ facts.defs n ∨ ∃ u ∈ facts.uses n, u.var = v

theorem ScopeTree.id_of_ownVar? {t : ScopeTree} {e : EntityId} {v : Var}
    (h : t.ownVar? e = some v) : v.id = e := by
  rw [ownVar?, Option.ite_none_right_eq_some, Resolve.asVar, Option.map_eq_some_iff] at h
  obtain ⟨-, kind, -, rfl⟩ := h
  rfl

namespace Resolution.Logs

variable {f : File} {r : Resolution} {bodies : List Resolve.Body} {d e : FuncDecl} {n m : Node}
  {v : Var}

theorem mem_defs (h : Logs f r bodies) (hf : f.Numbered) (hn : n ∈ f.nodes)
    (hv : v ∈ r.facts.defs n) :
    ∃ b ∈ entries bodies, b.carrier = n ∧ r.tree.ownVar? b.entity = some v := by
  rw [defs_eq, h.assigns] at hv
  obtain ⟨⟨id, w⟩, hp, rfl⟩ := List.mem_map.1 hv
  obtain ⟨hp, hid⟩ := List.mem_filter.1 hp
  obtain ⟨b, hb, hassigned⟩ := List.mem_filterMap.1 hp
  rw [Binding.assigned?, Option.ite_none_right_eq_some, Option.map_eq_some_iff] at hassigned
  obtain ⟨-, w, hw, he⟩ := hassigned
  cases he
  exact ⟨b, hb, hf.eq_of_id (h.carrier_mem hf hb) hn (beq_iff_eq.1 hid), hw⟩

/-- A variable of a node belongs to the function of the node. -/
theorem exists_home (h : Logs f r bodies) (hf : f.Numbered) (hd : d ∈ f.funcs)
    (hn : n ∈ d.walk everywhere) (hv : r.facts.Concerns n v) :
    ∃ c ∈ bodies, c.decl = d ∧ r.tree.function? (r.tree.entity v.id).home = some c.scope := by
  have hnode := File.mem_nodes_of_func hd hn
  obtain ⟨b, hb, rfl, hvar⟩ :
      ∃ b ∈ entries bodies, b.carrier = n ∧ r.tree.ownVar? b.entity = some v := by
    rcases hv with hv | ⟨u, hu, rfl⟩
    · exact h.mem_defs hf hnode hv
    · obtain ⟨b, hb, hc, hu⟩ := (h.mem_uses hf hnode).1 hu
      exact ⟨b, hb, hc, Binding.ownVar?_of_use? hu⟩
  obtain ⟨c, hc, hlog, hcd, hkept, -⟩ := h.exists_func hf hb
  refine ⟨c, hc, hf.func_eq hcd hd (hkept.carried b hlog).mem_walk hn, ?_⟩
  rw [ScopeTree.id_of_ownVar? hvar]
  exact h.owned c hc b hlog (by simp [hvar])

/-- No variable is one of two functions. -/
theorem func_eq_of_concerns (h : Logs f r bodies) (hf : f.Numbered) (hd : d ∈ f.funcs)
    (he : e ∈ f.funcs) (hn : n ∈ d.walk everywhere) (hm : m ∈ e.walk everywhere)
    (hv : r.facts.Concerns n v) (hv' : r.facts.Concerns m v) : d = e := by
  obtain ⟨c, hc, rfl, hhome⟩ := h.exists_home hf hd hn hv
  obtain ⟨c', hc', rfl, hhome'⟩ := h.exists_home hf he hm hv'
  have hscopes : (bodies.map Resolve.Body.scope).Nodup := h.scopes.imp fun hlt => Nat.ne_of_lt hlt
  have hscope : c.scope = c'.scope := Option.some.inj (hhome.symm.trans hhome')
  rw [List.inj_on_of_nodup_map hscopes hc hc' hscope]

/-- What a node reads stands at a place of its function. -/
theorem pos_mem_places (h : Logs f r bodies) (hf : f.Numbered) (hd : d ∈ f.funcs)
    (hn : n ∈ d.walk everywhere) {u : Use} (hu : u ∈ r.facts.uses n) : u.pos ∈ d.places := by
  obtain ⟨b, hb, rfl, huse⟩ := (h.mem_uses hf (File.mem_nodes_of_func hd hn)).1 hu
  obtain ⟨c, -, hlog, hc, hkept, hname⟩ := h.exists_func hf hb
  obtain rfl := hf.func_eq hc hd (hkept.carried b hlog).mem_walk hn
  have hpos := Binding.readPos?_of_use? huse
  unfold Binding.readPos? at hpos
  split at hpos
  · rw [← Option.some.inj hpos]
    exact List.mem_append_left _ (List.mem_map_of_mem (FlowCheck.mem_idents.1 hname))
  · rename_i close hrole
    cases hkept.carried b hlog with
    | name _ _ role => exact absurd hrole (role close)
    | out _ _ _ role _ =>
      rw [hrole, Role.out.injEq] at role
      rw [← Option.some.inj hpos, role]
      exact List.mem_append_right _ List.mem_cons_self
  · cases hpos

end Resolution.Logs

end FlowCheck
