import FlowCheck.Proofs.Check.Cleanup
import FlowCheck.Proofs.Check.Ending

/-!
# Nodes that can be reached

Every block with a node, but for the return block, can be reached from the entry of the graph or from
the beginning of a `finally` block. So in a function without `finally` blocks the nodes that are not
dead are those that can be reached.
-/
namespace FlowCheck

/-- No path leads to the node. -/
def Graph.Unreached (g : Graph) (n : Node) : Prop := ∀ b, g.Reachable b → n ∉ g.nodes b

namespace FuncDecl

variable {d : FuncDecl}

/-- The body is not among the nodes that stand for parts of the function. -/
theorem Numbered.notMem_carriers (hd : d.Numbered) : .stmt (.block d.body) ∉ d.carriers := by
  intro hmem
  obtain ⟨hnodup, hapart⟩ := hd.statements
  have hgrouped := grouped_stmts d.body.stmts hnodup.of_map
  have hbody : d.body.groups = Stmt.groupsList d.body.stmts := by
    cases d.body
    rfl
  rw [carriers, groups, hbody, List.map_cons, List.mem_cons] at hmem
  rcases hmem with hfunc | hmem
  · cases hfunc
  · obtain ⟨p, hp, hnode⟩ := List.mem_map.mp hmem
    have hwalk := hgrouped.below p hp _ p.1.mem_subtree
    rw [hnode] at hwalk
    exact hapart _ hwalk List.mem_cons_self

end FuncDecl

namespace Construction

open Build

variable {facts : Facts} {d : FuncDecl} {g : Graph}

theorem entry_eq_zero (hg : (ofFunc facts d).outcome = .ok g) : g.entry = 0 := by
  rcases outcome_ofFunc facts d with hfail | ⟨s, hfinished, hok, -⟩
  · cases hg.symm.trans hfail
  · cases hg.symm.trans hok
    exact hfinished.sane.wellFormed.entry_eq

/-- Every block with a node but for the return block is rooted. -/
theorem rooted_of_nodes (hg : (ofFunc facts d).outcome = .ok g) {b : BlockId}
    (hret : g.ret ≠ some b) (hnodes : g.nodes b ≠ []) : g.Rooted b := by
  obtain ⟨made, s, hcourse, -, rfl, -, -⟩ := exists_course hg
  have hled := hcourse.alive_of_statements.led
  rw [(later_concluded s d).ret_eq] at hret
  rw [(frame_concluded s d).2.1 b] at hnodes
  exact rooted_concluded d (hled.filled b hret hnodes)

/-- In the return block stands the body, and nothing else. -/
theorem nodes_ret (hd : d.Numbered) (hg : (ofFunc facts d).outcome = .ok g)
    (hjumps : ∀ x ∈ (ofFunc facts d).diagnostics, x.code ≠ .noEnclosingLoop) :
    ∃ b, g.ret = some b ∧ g.nodes b = [.stmt (.block d.body)] := by
  obtain ⟨made, s, hcourse, -, rfl, hdiagnostics, -⟩ := exists_course hg
  have hlater := later_concluded s d
  have hclean : Clean s := fun x hx => hjumps x (hdiagnostics ▸ hlater.diagnostics.subset hx)
  have hconf := (hcourse.confined hclean hd.statements.1 (ready_startState d _)).confined
  have hstarted := started_startState d d.name.text
  refine ⟨1, ?_, ?_⟩
  · rw [hlater.ret_eq, hcourse.grown.ret_eq, hstarted.ret]
  · obtain ⟨ns, hns, hopen⟩ := hconf.added 1
    rw [(frame_concluded s d).2.1 1, hns, hstarted.nodes]
    cases ns with
    | nil => rfl
    | cons n ns =>
      have hone := (hopen n List.mem_cons_self).1
      rw [Open, cursor_startState, size_startState] at hone
      simp at hone

/-- A node that is not dead stands in a block other than the return block. -/
theorem mem_nodes_of_notMem_dead (hd : d.Numbered) (hg : (ofFunc facts d).outcome = .ok g)
    (hjumps : ∀ x ∈ (ofFunc facts d).diagnostics, x.code ≠ .noEnclosingLoop) {n : Node}
    (hn : n ∈ d.carriers) (hlive : n.id ∉ (ofFunc facts d).dead) :
    ∃ b, n ∈ g.nodes b ∧ g.ret ≠ some b := by
  obtain ⟨b, hb⟩ := (mem_nodes_or_dead hg (List.mem_cons_of_mem _ hn)).resolve_right hlive
  refine ⟨b, hb, fun hret => ?_⟩
  obtain ⟨r, hr, hnodes⟩ := nodes_ret hd hg hjumps
  obtain rfl : b = r := Option.some_inj.mp (hret.symm.trans hr)
  rw [hnodes, List.mem_singleton] at hb
  exact hd.notMem_carriers (hb ▸ hn)

/-- A dead node stands in no block. -/
theorem notMem_nodes_of_mem_dead (hd : d.Numbered) (hg : (ofFunc facts d).outcome = .ok g) {n : Node}
    (hn : n ∈ d.carriers) (hdead : n.id ∈ (ofFunc facts d).dead) (b : BlockId) : n ∉ g.nodes b := by
  intro hb
  rcases placed_or_dead_of_numbered hd hg (List.mem_cons_of_mem _ hn) with ⟨hlive, -⟩ | ⟨-, hcount⟩
  · exact hlive hdead
  · exact List.count_eq_zero.mp hcount (List.mem_map_of_mem (Graph.mem_placed.mpr ⟨b, hb⟩))

/-- Every block with a node, but for the return block, can be reached from the entry or from the
beginning of the `finally` block of a try statement; and if there are no `finally` blocks, just the
nodes that cannot be reached from the entry are dead. -/
theorem reached_of_mem_funcs {source : Source} (hd : d ∈ (Parsed.ofSource source).file.funcs)
    (hg : (ofFunc facts d).outcome = .ok g)
    (hjumps : ∀ x ∈ (ofFunc facts d).diagnostics, x.code ≠ .noEnclosingLoop) :
    (∃ entries, Sheltered d g (ofFunc facts d).dead entries ∧
      ∀ b, g.nodes b ≠ [] → g.ret ≠ some b →
        g.Reachable b ∨ ∃ p ∈ entries, ∃ l, g.Path p.2 l b) ∧
    (attempts (d.body.walk everywhere) = [] →
      ∀ n ∈ d.carriers, n.id ∈ (ofFunc facts d).dead ↔ g.Unreached n) := by
  have hnumbered := (Parsed.file_numbered source).numbered_of_mem_funcs hd
  have hentry := entry_eq_zero hg
  obtain ⟨entries, hentries⟩ := sheltered_of_numbered hnumbered hg hjumps
  refine ⟨⟨entries, hentries, fun b hnodes hret => ?_⟩, fun hnone n hn => ⟨fun hdead b _ => ?_, ?_⟩⟩
  · obtain ⟨r, l, rfl | hr, hl⟩ := rooted_of_nodes hg hret hnodes
    · exact .inl ⟨l, hentry ▸ hl⟩
    · rw [← hentries.blocks] at hr
      obtain ⟨p, hp, rfl⟩ := List.mem_map.mp hr
      exact .inr ⟨p, hp, l, hl⟩
  · exact notMem_nodes_of_mem_dead hnumbered hg hn hdead b
  · intro hunreached
    by_contra hlive
    obtain ⟨b, hb, hret⟩ := mem_nodes_of_notMem_dead hnumbered hg hjumps hn hlive
    obtain ⟨r, l, rfl | hr, hl⟩ := rooted_of_nodes hg hret (List.ne_nil_of_mem hb)
    · exact hunreached b ⟨l, hentry ▸ hl⟩ hb
    · -- without try statements there are no `finally` blocks
      rw [← hentries.blocks] at hr
      obtain ⟨p, hp, -⟩ := List.mem_map.mp hr
      have hattempt := ((hentries.live p.1).mp (List.mem_map_of_mem hp)).1
      rw [hnone] at hattempt
      cases hattempt

theorem reached_idleSource : ∃ d ∈ (Parsed.ofSource idleSource).file.funcs,
    ∃ g, (ofFunc idleFacts d).outcome = .ok g ∧
      (∃ n ∈ d.carriers, n.id ∈ (ofFunc idleFacts d).dead) ∧
      ∀ n ∈ d.carriers, n.id ∈ (ofFunc idleFacts d).dead ↔ g.Unreached n := by
  obtain ⟨d, g, hfuncs, hg, -, hrest⟩ := exists_graph_of_map built_idleSource
  have hd : d ∈ (Parsed.ofSource idleSource).file.funcs := by simp [hfuncs]
  simp only [Prod.mk.injEq] at hrest
  obtain ⟨hcodes, hattempts, -, hdead⟩ := hrest
  have hjumps : ∀ x ∈ (ofFunc idleFacts d).diagnostics, x.code ≠ .noEnclosingLoop := by
    intro x hx
    have hcode := List.mem_map_of_mem (f := (·.code)) hx
    rw [hcodes, List.mem_singleton] at hcode
    exact hcode ▸ by decide
  refine ⟨d, hd, g, hg, ?_, (reached_of_mem_funcs hd hg hjumps).2 hattempts⟩
  obtain ⟨n, hn⟩ := List.exists_mem_of_length_pos (hdead ▸ Nat.one_pos)
  rw [List.mem_filter, List.contains_iff_mem] at hn
  exact ⟨n, hn⟩

end Construction

end FlowCheck
