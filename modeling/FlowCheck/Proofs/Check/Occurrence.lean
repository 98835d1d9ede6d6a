import FlowCheck.Proofs.Build.Record
import FlowCheck.Proofs.Check.Agreement

/-!
# Where the nodes of a function occur

In the graph of a function of a parsed file every node that control flow visits occurs once, unless
it is dead; and nothing that stands below a dead node is alive.
-/
namespace FlowCheck

theorem File.Numbered.numbered_of_mem_funcs {f : File} (hf : f.Numbered) {d : FuncDecl}
    (hd : d ∈ f.funcs) : d.Numbered := by
  have hfuncs := hf.sublist (f.funcs_walk_sublist.map Node.id)
  rw [List.map_flatMap] at hfuncs
  exact (List.nodup_flatMap.1 hfuncs).1 d hd

/-- A graph and a list of dead nodes account for all nodes that control flow visits in a function:
its head, its body, simple statements, jumps, returns and throws, conditions, the tags of switches,
the operands and headers of foreach loops, the labels of switch sections and the clauses of
handlers. -/
structure Accounted (d : FuncDecl) (g : Graph) (dead : List Nat) : Prop where
  /-- A node is in one place of all blocks together, or it is dead and in none. -/
  once : ∀ n ∈ .stmt (.block d.body) :: d.carriers,
    (n.id ∉ dead ∧ n ∈ g.placed ∧ (g.placed.map Node.id).count n.id = 1) ∨
      (n.id ∈ dead ∧ (g.placed.map Node.id).count n.id = 0)
  /-- With a node everything below it is dead. -/
  below : ∀ n ∈ d.walk everywhere, n.id ∈ dead → ∀ m ∈ n.subtree, m.id ∈ dead

namespace Construction

/-- Construction accounts for all nodes of a function of a parsed file, whatever the facts. -/
theorem accounted_of_mem_funcs {source : Source} {d : FuncDecl}
    (hd : d ∈ (Parsed.ofSource source).file.funcs) {facts : Facts} {g : Graph}
    (hg : (ofFunc facts d).outcome = .ok g) : Accounted d g (ofFunc facts d).dead := by
  have hnumbered := (Parsed.file_numbered source).numbered_of_mem_funcs hd
  exact ⟨fun n hn => placed_or_dead_of_numbered hnumbered hg hn,
    fun n hn hdead m hm => dead_of_mem_subtree hnumbered hg hn hdead hm⟩

/-- A function that calls itself after it has returned. -/
def idleSource : Source := .ofText "" "package p\nfunc f() \x7b return; f() \x7d".toList

def idleFacts : Facts where
  defs _ := []
  uses _ := []
  raises _ := []
  catches _ := .any
  constant _ := none

/-- The statement behind the return is dead, and so are its call and the name that it calls. -/
theorem built_idleSource : (Parsed.ofSource idleSource).file.funcs.map (fun d =>
    ((ofFunc idleFacts d).outcome.toOption.map Graph.entry,
      (ofFunc idleFacts d).diagnostics.map (·.code), attempts (d.body.walk everywhere),
      (ofFunc idleFacts d).dead.length,
      (d.carriers.filter fun n => (ofFunc idleFacts d).dead.contains n.id).length)) =
      [(some 0, [.unreachableCode], [], 3, 1)] := by
  cbv

theorem accounted_idleSource : ∃ d ∈ (Parsed.ofSource idleSource).file.funcs,
    (ofFunc idleFacts d).dead.length = 3 ∧
      ∃ g, (ofFunc idleFacts d).outcome = .ok g ∧ Accounted d g (ofFunc idleFacts d).dead := by
  obtain ⟨d, g, hfuncs, hg, -, hrest⟩ := exists_graph_of_map built_idleSource
  have hd : d ∈ (Parsed.ofSource idleSource).file.funcs := by simp [hfuncs]
  simp only [Prod.mk.injEq] at hrest
  obtain ⟨-, -, hdead, -⟩ := hrest
  exact ⟨d, hd, hdead, g, hg, accounted_of_mem_funcs hd hg⟩

end Construction

end FlowCheck
