import FlowCheck.Proofs.Assignment.Exactness

/-!
# Reads and the versions that reach them

After the passes every read stands for the version that is made last on every path to it, phis
included, and every operand of a phi for the version that is made last on every path through its
predecessor.
-/
namespace FlowCheck

open FlowCheck.Graph Dominance

namespace Graph

/-- The graph has what the site stands for: a phi, or an assignment in a reachable block. -/
def Makes (g : Graph) (facts : Facts) (x : Site) : Prop :=
  match x.place with
  | .phi r => ∃ p, g.phi? r = some p ∧ p.var = x.var
  | .node b k j => g.Reachable b ∧ ∃ n, (g.nodes b)[k]? = some n ∧ (facts.defs n)[j]? = some x.var

/-- A node of a reachable block performs the read. -/
def Performs (g : Graph) (facts : Facts) (r : Read) : Prop :=
  g.Reachable r.block ∧
    ∃ n, (g.nodes r.block)[r.node]? = some n ∧ (facts.uses n)[r.index]? = some r.use

end Graph

namespace Assignment

/-- One version for each phi and each assignment; those of a variable are numbered from one on, in
the order in which they are made. -/
structure Numbered (s : State) (facts : Facts) (sites : List Site) (version : Site → Version) :
    Prop where
  nodup : sites.Nodup
  mem_iff : ∀ x, x ∈ sites ↔ s.graph.Makes facts x
  made_eq : s.made.reverse = sites.map Site.var
  var_eq : ∀ x, (version x).var = x.var
  phi_eq : ∀ x, (version x).phi = x.phi?
  numbers : ∀ v, (sites.filter fun x => x.var = v).map (fun x => (version x).number) =
    List.range' 1 (s.made.count v)
  result_eq : ∀ r p, s.graph.phi? r = some p → p.result = some (version ⟨p.var, .phi r⟩)

/-- Every read of a reachable block with what it was resolved to: on every path to it, the version
of its variable that is made last, if one is; else it is reported. -/
structure ReadsResolved (g : Graph) (s : State) (facts : Facts) (version : Site → Version)
    (resolved : List (Read × Option Version)) : Prop where
  nodup : (resolved.map Prod.fst).Nodup
  mem_iff : ∀ r, (∃ o, (r, o) ∈ resolved) ↔ g.Performs facts r
  reads_eq : s.reads = resolved.filterMap fun x => x.2.map fun version => (version, x.1.use)
  reported : ∀ r, (r, none) ∈ resolved → r.use ∈ s.unassigned
  reaching : ∀ r o, (r, o) ∈ resolved → ∀ l, g.Path g.entry l r.block →
    (lastOf r.use.var (s.graph.along facts l ++ s.graph.sitesBefore facts r.block r.node)).map
      version = o

/-- Every phi has one operand for each predecessor: on every path through that, the version of its
variable that is made last, if one is. -/
structure OperandsResolved (g : Graph) (s : State) (facts : Facts) (version : Site → Version) :
    Prop where
  length_eq : ∀ r p, s.graph.phi? r = some p → p.operands.length = (g.preds r.block).length
  unreached : ∀ r p (i : ℕ) q, s.graph.phi? r = some p → (g.preds r.block)[i]? = some q →
    ¬ g.Reachable q → p.operands[i]? = some none
  reaching : ∀ r p (i : ℕ) q, s.graph.phi? r = some p → (g.preds r.block)[i]? = some q →
    ∀ l, g.Path g.entry l q →
      p.operands[i]? = some ((lastOf p.var (s.graph.along facts (l ++ [q]))).map version)

/-! ### Graphs with the same frames -/

section Frames

variable {g g' : Graph} {facts : Facts}

theorem sitesBefore_eq (h : SameFrames g g') (b : BlockId) (k : ℕ) :
    g'.sitesBefore facts b k = g.sitesBefore facts b k := by
  rw [sitesBefore, h.phiSites_eq, h.nodes_eq, sitesBefore]

theorem along_eq (h : SameFrames g g') (l : List BlockId) : g'.along facts l = g.along facts l := by
  have hsites : g'.sitesIn facts = g.sitesIn facts := by
    funext b
    rw [sitesIn, h.phiSites_eq, h.nodes_eq, sitesIn]
  rw [along, hsites, along]

theorem makes_iff (h : SameFrames g g') {x : Site} : g'.Makes facts x ↔ g.Makes facts x := by
  obtain ⟨v, r | ⟨b, k, j⟩⟩ := x
  · constructor
    · rintro ⟨p, hp, hv⟩
      obtain ⟨q, hq, hframe⟩ := h.exists_phi hp
      exact ⟨q, hq, (congrArg Prod.fst hframe).trans hv⟩
    · rintro ⟨p, hp, hv⟩
      obtain ⟨q, hq, hframe⟩ := h.exists_phi' hp
      exact ⟨q, hq, (congrArg Prod.fst hframe).trans hv⟩
  · simp only [Makes, h.reachable_iff, h.nodes_eq]

end Frames

/-! ### The run -/

section Run

variable {g : Graph} {facts : Facts} {post : List BlockId}

/-- After the walk only reports are added. -/
theorem run_eq (g : Graph) (facts : Facts) : ∃ found,
    run g facts = { block facts (g.blocks.size + 1) { graph := g } g.entry with
      unassigned := found } ∧
    ∀ u ∈ (block facts (g.blocks.size + 1) { graph := g } g.entry).unassigned, u ∈ found := by
  obtain ⟨found, hrun, -, hmem⟩ := propagate_spec
    (block facts (g.blocks.size + 1) { graph := g } g.entry).reads
    (block facts (g.blocks.size + 1) { graph := g } g.entry)
  exact ⟨found, hrun, fun u hu => (hmem u).mpr (.inl hu)⟩

theorem mem_sites (hg : g.WellFormed) (ht : DominatorTree g post) (hp : PhisPlaced g facts)
    {x : Site} : x ∈ sites g facts ↔ g.Makes facts x := by
  simp only [sites, List.mem_flatMap, mem_treeBelow_entry hg ht, mem_sitesIn, mem_phiSites]
  constructor
  · rintro ⟨b, hb, ⟨i, p, hi, rfl⟩ | ⟨k, n, j, hn, hj, hplace⟩⟩
    · exact ⟨p, hi, rfl⟩
    · rw [Makes, hplace]
      exact ⟨hb, n, hn, hj⟩
  · obtain ⟨v, r | ⟨b, k, j⟩⟩ := x
    · rintro ⟨p, hr, hv⟩
      obtain ⟨q, hq, he⟩ := hp.entered r.block p (List.mem_of_getElem? hr)
      exact ⟨r.block, hq.step he, .inl ⟨r.index, p, hr, hv ▸ rfl⟩⟩
    · rintro ⟨hb, n, hn, hj⟩
      exact ⟨b, hb, .inr ⟨k, n, j, hn, hj, rfl⟩⟩

theorem numbered_run (hg : g.WellFormed) (ht : DominatorTree g post) (hp : PhisPlaced g facts) :
    Numbered (run g facts) facts (sites g facts) (versionIn (sites g facts)) := by
  have hall := renames_entry hg ht hp
  obtain ⟨found, hrun, -⟩ := run_eq g facts
  rw [hrun]
  have hmade := hall.made
  rw [List.append_nil] at hmade
  exact {
    nodup := nodup_sites hg ht facts
    mem_iff := fun x => (mem_sites hg ht hp).trans (makes_iff hall.frames).symm
    made_eq := by rw [hmade, List.reverse_reverse]
    var_eq := fun _ => rfl
    phi_eq := fun _ => rfl
    numbers := fun v => by
      rw [hmade, List.count_reverse]
      exact map_number_versionIn (nodup_sites hg ht facts) v
    result_eq := fun r p hr => by
      obtain ⟨q, hq, hframe⟩ := hall.frames.exists_phi hr
      have hresult := hall.named r q hq ((mem_sites hg ht hp).mpr ⟨q, hq, rfl⟩)
      have hvar : q.var = p.var := congrArg Prod.fst hframe
      rw [result, hr, hvar] at hresult
      exact Option.some_inj.mp hresult }

theorem readsResolved_run (h : Prepared g facts post) :
    ReadsResolved g (run g facts) facts (versionIn (sites g facts))
      ((reads g facts).map fun r => (r, (g.resolve facts r).map (versionIn (sites g facts)))) := by
  have hall := renames_entry h.wellFormed h.tree h.placed
  obtain ⟨found, hrun, hfound⟩ := run_eq g facts
  rw [hrun]
  exact {
    nodup := by
      rw [List.map_map]
      exact List.map_id _ ▸ nodup_reads h.wellFormed h.tree facts
    mem_iff := fun r => by simp [Performs, mem_reads h.wellFormed h.tree]
    reads_eq := by
      rw [hall.reads_eq, List.nil_append, List.filterMap_map]
      simp [Function.comp_def]
    reported := fun r hr => by
      obtain ⟨r', hr', heq⟩ := List.mem_map.mp hr
      obtain ⟨rfl, hnone⟩ := Prod.mk.inj heq
      rw [Option.map_eq_none_iff] at hnone
      exact hfound _ ((hall.unassigned _).mpr (.inr ⟨r', hr', rfl, hnone⟩))
    reaching := fun r o hr l hl => by
      obtain ⟨r', -, heq⟩ := List.mem_map.mp hr
      obtain ⟨rfl, rfl⟩ := Prod.mk.inj heq
      rw [along_eq hall.frames, sitesBefore_eq hall.frames, h.lastOf_along_before hl, resolve] }

theorem operandsResolved_run (h : Prepared g facts post) :
    OperandsResolved g (run g facts) facts (versionIn (sites g facts)) := by
  have hall := renames_entry h.wellFormed h.tree h.placed
  obtain ⟨found, hrun, -⟩ := run_eq g facts
  rw [hrun]
  have hedge : ∀ {r i q}, (g.preds r)[i]? = some q → g.Edge q r := fun hq =>
    (h.wellFormed.mem_preds _ _).mp (List.mem_of_getElem? hq)
  exact {
    length_eq := fun r p hr => by
      obtain ⟨q, hq, hframe⟩ := hall.frames.exists_phi hr
      have hlength : q.operands.length = p.operands.length := congrArg (fun x => x.2.2) hframe
      rw [← hlength, length_operands h.placed q (List.mem_of_getElem? hq)]
    unreached := fun r p i q hr hq hnot => by
      obtain ⟨p', hp', -⟩ := hall.frames.exists_phi hr
      have hblank := h.placed.blank r.block p' (List.mem_of_getElem? hp')
      have hoperand := hall.untold r i q hq fun he => hnot he.1
      have hnone : p'.operands[i]? = some none := by
        rw [hblank, blankPhi, List.getElem?_map, hq, Option.map_some]
      rw [operand, hr, operand, hp', Option.bind_some, Option.bind_some, hnone] at hoperand
      exact hoperand
    reaching := fun r p i q hr hq l hl => by
      obtain ⟨p', hp', hframe⟩ := hall.frames.exists_phi hr
      have hvar : p'.var = p.var := congrArg Prod.fst hframe
      have hoperand := hall.told r i q p' hp' hq ⟨⟨l, hl⟩, hedge hq⟩
      rw [operand, hr, hvar, ← h.lastOf_along_end hl] at hoperand
      rw [along_eq hall.frames]
      exact hoperand }

/-! ### Graphs as they are assembled -/

theorem ReadsResolved.congr {g' : Graph} (h : SameShape g g') {s : State} {version : Site → Version}
    {resolved : List (Read × Option Version)} (hr : ReadsResolved g' s facts version resolved) :
    ReadsResolved g s facts version resolved where
  nodup := hr.nodup
  mem_iff r := by rw [hr.mem_iff, Performs, h.reachable_iff, h.nodes_eq, Performs]
  reads_eq := hr.reads_eq
  reported := hr.reported
  reaching r o hmem l hl := hr.reaching r o hmem l (h.path_entry_iff.mpr hl)

theorem OperandsResolved.congr {g' : Graph} (h : SameShape g g') {s : State}
    {version : Site → Version} (ho : OperandsResolved g' s facts version) :
    OperandsResolved g s facts version where
  length_eq r p hr := by rw [ho.length_eq r p hr, h.preds_eq]
  unreached r p i q hr hq hnot := by
    rw [← h.preds_eq] at hq
    exact ho.unreached r p i q hr hq (mt h.reachable_iff.mp hnot)
  reaching r p i q hr hq l hl := by
    rw [← h.preds_eq] at hq
    exact ho.reaching r p i q hr hq l (h.path_entry_iff.mpr hl)

end Run

/-- Renaming resolves every read and every operand to what reaches it. The versions of a variable are
numbered from one on, one for each of its phis and for each assignment in a reachable block; a read
stands for the version that is made last on every path to it, and has none if no path makes one; so
does each operand of a phi on the paths through its predecessor. -/
theorem run_resolves {g : Graph} (facts : Facts) (hg : g.Assembled)
    (hentry : g.preds g.entry = []) :
    let s := run (g.prepare facts) facts
    (Pass.applied (Pass.standard facts) (.ofGraph g)).graph = s.graph ∧
      ∃ (sites : List Site) (version : Site → Version) (resolved : List (Read × Option Version)),
        Numbered s facts sites version ∧ ReadsResolved g s facts version resolved ∧
          OperandsResolved g s facts version := by
  have h := prepared_prepare facts hg.wellFormed hg.phis_eq_nil hentry
  have hshape := sameShape_prepare facts g
  have hnumbered := numbered_run h.wellFormed h.tree h.placed
  have hreads := (readsResolved_run h).congr hshape
  have hoperands := (operandsResolved_run h).congr hshape
  exact ⟨Analysis.graph_checkAssignments facts (g.prepare facts), _, _, _, hnumbered, hreads,
    hoperands⟩

/-- What is read after the loop is what its phi makes, whatever way was taken through the loop. -/
theorem run_resolves_assigningLoop : assigningLoop.Assembled ∧
    assigningLoop.preds assigningLoop.entry = [] ∧
    ∃ (sites : List Site) (version : Site → Version) (resolved : List (Read × Option Version)),
      Numbered (run (assigningLoop.prepare assigningLoop.facts) assigningLoop.facts)
        assigningLoop.facts sites version ∧
      ReadsResolved assigningLoop (run (assigningLoop.prepare assigningLoop.facts)
        assigningLoop.facts) assigningLoop.facts version resolved ∧
      OperandsResolved assigningLoop (run (assigningLoop.prepare assigningLoop.facts)
        assigningLoop.facts) assigningLoop.facts version ∧
      ∃ made, (⟨6, 0, 0, ⟨assigningLoop.x, ⟨"", 7, 5⟩⟩⟩, some made) ∈ resolved ∧
        made.phi = some ⟨1, 0⟩ := by
  have hentry : assigningLoop.preds assigningLoop.entry = [] := by decide
  obtain ⟨-, sites, version, resolved, hnumbered, hreads, hoperands⟩ :=
    run_resolves assigningLoop.facts assigningLoop.assembled hentry
  have hpath : assigningLoop.Path assigningLoop.entry [0, 1] 6 :=
    .cons (by decide) (.cons (by decide) .here)
  obtain ⟨o, ho⟩ := (hreads.mem_iff ⟨6, 0, 0, ⟨assigningLoop.x, ⟨"", 7, 5⟩⟩⟩).mpr
    ⟨⟨_, hpath⟩, _, rfl, rfl⟩
  have hlast : lastOf assigningLoop.x
      ((run (assigningLoop.prepare assigningLoop.facts) assigningLoop.facts).graph.along
          assigningLoop.facts [0, 1] ++
        (run (assigningLoop.prepare assigningLoop.facts) assigningLoop.facts).graph.sitesBefore
          assigningLoop.facts 6 0) = some ⟨assigningLoop.x, .phi ⟨1, 0⟩⟩ := by decide +kernel
  have hreach := hreads.reaching _ o ho _ hpath
  rw [hlast] at hreach
  exact ⟨assigningLoop.assembled, hentry, sites, version, resolved, hnumbered, hreads, hoperands,
    _, hreach ▸ ho, hnumbered.phi_eq _⟩

end Assignment

end FlowCheck
