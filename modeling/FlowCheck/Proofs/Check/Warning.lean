import FlowCheck.Proofs.Build.Warning
import FlowCheck.Proofs.Check.Cleanup

/-!
# One warning for a run of dead code

In every statement list of a function the dead statements are at the end, and the first of them gets
a warning. There are no other warnings about unreachable code.
-/
namespace FlowCheck

namespace Construction

open Build

variable {facts : Facts} {d : FuncDecl} {g : Graph}

theorem warnings_concluded (s : State) (d : FuncDecl) : (s.concluded d).warnings = s.warnings := by
  unfold State.concluded
  split_ifs
  · exact (noWarning_reported s.fallenOff (by decide) d.body.close _).warnings
  · exact (noWarning_withEdge s.fallenOff s.cursor 1).warnings
  · rfl

/-- In every list that is built, the dead statements form the end of the list, and the warnings about
unreachable code are one for each list that has any, where they begin. The lists are those of the
body and of the compound statements that are not dead, with nested blocks made part of the list
around them and without empty statements. -/
theorem warned_of_mem_funcs {source : Source} (hd : d ∈ (Parsed.ofSource source).file.funcs)
    (hg : (ofFunc facts d).outcome = .ok g) :
    (∀ xs ∈ d.body.lists (ofFunc facts d).dead, deadOf (ofFunc facts d).dead xs <:+ xs) ∧
    (ofFunc facts d).diagnostics.filter (·.code = .unreachableCode) =
      (d.body.lists (ofFunc facts d).dead).filterMap (unreachable? (ofFunc facts d).dead) := by
  have hnumbered := (Parsed.file_numbered source).numbered_of_mem_funcs hd
  obtain ⟨made, s, hcourse, -, -, hdiagnostics, hdead⟩ := exists_course hg
  rw [hdiagnostics, hdead, dead_concluded]
  have hdead : DeadExactly s.dead (Stmt.walkList everywhere d.body.stmts) (startState d d.name.text) s :=
    ⟨List.nodup_iff_count_le_one.mp hnumbered.statements.1, fun i _ => List.not_mem_nil,
      fun i _ => Iff.rfl⟩
  have hlisted := ListsWarned.one (hcourse.warns hdead) rfl
  have hlists : Stmt.innerList s.dead d.body.stmts ++ [Stmt.flatList d.body.stmts] =
      d.body.lists s.dead := by
    cases d.body
    rfl
  rw [hlists] at hlisted
  exact ⟨hlisted.deadLast, (warnings_concluded s d).trans hlisted.warnings⟩

/-- A function whose loop and whose body both end in statements that cannot be reached, in the body
partly in a block of its own. -/
def tailsSource : Source := .ofText "" ("package p\nfunc f() \x7b " ++
  "for \x7b break; f() \x7d; return; \x7b ; f() \x7d; f() \x7d").toList

theorem built_tailsSource : (Parsed.ofSource tailsSource).reports = [] ∧
    (Parsed.ofSource tailsSource).file.funcs.map (fun d =>
      ((ofFunc idleFacts d).outcome.toOption.map Graph.entry,
        (d.body.lists (ofFunc idleFacts d).dead).map fun xs =>
          (xs.length, (deadOf (ofFunc idleFacts d).dead xs).length))) =
      [(some 0, [(2, 1), (4, 2)])] := by
  cbv

theorem warned_tailsSource : ∃ d ∈ (Parsed.ofSource tailsSource).file.funcs,
    ∃ xs ys, d.body.lists (ofFunc idleFacts d).dead = [xs, ys] ∧
      (deadOf (ofFunc idleFacts d).dead xs).length = 1 ∧ deadOf (ofFunc idleFacts d).dead ys <:+ ys ∧
      (ofFunc idleFacts d).diagnostics.filter (·.code = .unreachableCode) =
        [xs, ys].filterMap (unreachable? (ofFunc idleFacts d).dead) := by
  obtain ⟨d, g, hfuncs, hg, -, hlists⟩ := exists_graph_of_map built_tailsSource.2
  have hd : d ∈ (Parsed.ofSource tailsSource).file.funcs := by simp [hfuncs]
  obtain ⟨hsuffix, hwarnings⟩ := warned_of_mem_funcs hd hg
  obtain ⟨xs, rest, heq, hxs, hrest⟩ := List.map_eq_cons_iff.mp hlists
  obtain ⟨ys, rfl, hys⟩ := List.map_eq_singleton_iff.mp hrest
  rw [heq] at hsuffix hwarnings
  exact ⟨d, hd, xs, ys, heq, (Prod.mk.inj hxs).2, hsuffix ys (by simp), hwarnings⟩

end Construction

end FlowCheck
