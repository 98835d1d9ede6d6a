import FlowCheck.Proofs.Build.Liveness
import FlowCheck.Proofs.Check.Agreement

/-!
# Where control falls off the end of a function

A missing return is reported where the cursor is left when the body has been built. That the end can
be reached from the entry follows only if every `finally` block can be.
-/
namespace FlowCheck

namespace Build

variable {s : State} {b : BlockId}

/-- Control falling off the end changes no path. -/
theorem rooted_fallenOff (h : s.graph.Rooted b) : s.fallenOff.graph.Rooted b := by
  obtain ⟨r, l, hr, hl⟩ := h
  exact ⟨r, l, hr, Graph.Path.congr (g := s.graph) (fun _ _ => id) hl⟩

/-- What is done at the end of the body leaves rooted blocks rooted. -/
theorem rooted_concluded (d : FuncDecl) (h : s.graph.Rooted b) :
    (s.concluded d).graph.Rooted b := by
  unfold State.concluded
  split_ifs
  · exact rooted_fallenOff h
  · exact (grown_withEdge s.fallenOff s.cursor 1).rooted (rooted_fallenOff h)
  · exact h

/-- The graph is told that the end of the body is reached if there is a cursor left. -/
theorem endReachable_concluded (s : State) (d : FuncDecl) :
    (s.concluded d).graph.endReachable = (s.cursor.isSome || s.graph.endReachable) := by
  unfold State.concluded
  cases s.cursor with
  | none => rfl
  | some c =>
    cases d.result with
    | some x => rfl
    | none => exact endReachable_withEdge s.fallenOff (some c) 1

/-- The block in which control falls off the end of the body: the cursor when the body has been
built. -/
def bodyEnd? (facts : Facts) (d : FuncDecl) : Option BlockId :=
  match stmtList facts bodyTargets d.body.stmts (startState d d.name.text) with
  | .ok _ s => s.cursor
  | .error _ _ => none

end Build

namespace Construction

open Build

variable {facts : Facts} {d : FuncDecl} {g : Graph}

/-- Control falls off the end of a body where the graph says so, and only then a missing return is
reported. The block at the end can be reached from the entry, unless it can only be reached from the
beginning of a `finally` block that nothing leads into. -/
theorem rooted_of_endReachable (hg : (ofFunc facts d).outcome = .ok g) :
    (g.endReachable = true ↔ ∃ b, bodyEnd? facts d = some b) ∧
    (∀ b, bodyEnd? facts d = some b →
      g.Reachable b ∨ ∃ f ∈ g.cleanupEntries, ¬g.Reachable f ∧ ∃ l, g.Path f l b) ∧
    ∀ x ∈ (ofFunc facts d).diagnostics, x.code = .missingReturn →
      d.result.isSome ∧ ∃ b, bodyEnd? facts d = some b := by
  have hentry : g.entry = 0 := by
    rcases outcome_ofFunc facts d with hfail | ⟨s, hfinished, hok, -⟩
    · rw [hg] at hfail
      cases hfail
    · cases hg.symm.trans hok
      exact hfinished.sane.wellFormed.entry_eq
  obtain ⟨made, s, hcourse, hbody, rfl, hdiagnostics, -⟩ := exists_course hg
  have hend : bodyEnd? facts d = s.cursor := by rw [bodyEnd?, hbody]
  have hgrown := hcourse.grown
  rw [hend, hdiagnostics]
  refine ⟨?_, fun b hb => ?_, fun x hx hcode => ?_⟩
  · have hfalse : s.graph.endReachable = false := hgrown.endReachable_eq
    rw [endReachable_concluded, hfalse, Bool.or_false, Option.isSome_iff_exists]
  · obtain ⟨r, l, hr, hl⟩ := rooted_concluded d (hcourse.alive_of_statements.cursor b hb).2
    by_cases hreach : (s.concluded d).graph.Reachable r
    · obtain ⟨l', hl'⟩ := hreach
      exact .inl ⟨_, hl'.trans hl⟩
    · rcases hr with rfl | hr
      · exact absurd ⟨[], hentry ▸ .here⟩ hreach
      · exact .inr ⟨r, hr, hreach, l, hl⟩
  · obtain ⟨-, hresult, hcursor⟩ := (mem_diagnostics_concluded hx).resolve_left fun hold => by
      obtain ⟨new, hnew, hcodes⟩ := hgrown.findings
      rw [hnew] at hold
      exact hcodes x hold hcode
    exact ⟨hresult, Option.isSome_iff_exists.mp hcursor⟩

/-- A function that never gets past its loop. The `finally` block of the loop, which nothing leads
into, raises what is caught outside. -/
def strandedSource : Source := .ofText "" ("package p\nfunc f() int throws Error \x7b " ++
  "try \x7b try \x7b for \x7b \x7d \x7d finally \x7b f() \x7d \x7d catch \x7b \x7d \x7d").toList

def strandedFacts : Facts := (Resolution.ofFile (Parsed.ofSource strandedSource).file).facts

theorem built_strandedSource :
    (Parsed.ofSource strandedSource).reports = [] ∧
    (Resolution.ofFile (Parsed.ofSource strandedSource).file).reports = [] ∧
    (Parsed.ofSource strandedSource).file.funcs.map (fun d =>
      ((ofFunc strandedFacts d).outcome.toOption.map fun g =>
          (g.endReachable, g.entry, [0, 3, 9].map g.succs),
        (ofFunc strandedFacts d).diagnostics.map (·.code), bodyEnd? strandedFacts d)) =
      [(some (true, 0, [[3], [9], [9]]), [.missingReturn], some 4)] := by
  cbv

/-- The one function of the file, and its graph. -/
theorem exists_strandedSource : ∃ d g, (Parsed.ofSource strandedSource).file.funcs = [d] ∧
    (ofFunc strandedFacts d).outcome = .ok g ∧
    (g.endReachable, g.entry, [0, 3, 9].map g.succs) = (true, 0, [[3], [9], [9]]) ∧
    (ofFunc strandedFacts d).diagnostics.map (·.code) = [.missingReturn] ∧
    bodyEnd? strandedFacts d = some 4 := by
  obtain ⟨d, g, hfuncs, hg, hgraph, hrest⟩ := exists_graph_of_map built_strandedSource.2.2
  exact ⟨d, g, hfuncs, hg, hgraph, Prod.mk.inj hrest⟩

theorem rooted_strandedSource : ∃ d ∈ (Parsed.ofSource strandedSource).file.funcs,
    ∃ g, (ofFunc strandedFacts d).outcome = .ok g ∧ g.endReachable = true ∧
      (g.Reachable 4 ∨ ∃ f ∈ g.cleanupEntries, ¬g.Reachable f ∧ ∃ l, g.Path f l 4) := by
  obtain ⟨d, g, hfuncs, hg, -, -, hend⟩ := exists_strandedSource
  obtain ⟨hreach, hrooted, -⟩ := rooted_of_endReachable hg
  exact ⟨d, by simp [hfuncs], g, hg, hreach.mpr ⟨4, hend⟩, hrooted 4 hend⟩

/-- The missing return is reported although nothing leads from the entry to the end. -/
theorem stranded_missingReturn : ∃ d ∈ (Parsed.ofSource strandedSource).file.funcs,
    ∃ g, (ofFunc strandedFacts d).outcome = .ok g ∧ g.endReachable = true ∧
      (∃ x ∈ (ofFunc strandedFacts d).diagnostics, x.code = .missingReturn) ∧
      ∃ b, bodyEnd? strandedFacts d = some b ∧ ¬g.Reachable b := by
  obtain ⟨d, g, hfuncs, hg, hgraph, hcodes, hend⟩ := exists_strandedSource
  simp only [List.map_cons, List.map_nil, Prod.mk.injEq, List.cons.injEq, and_true] at hgraph
  obtain ⟨hreach, hentry, h₀, h₃, h₉⟩ := hgraph
  obtain ⟨x, hx, hcode⟩ := List.mem_map.mp
    (show Code.missingReturn ∈ (ofFunc strandedFacts d).diagnostics.map (·.code) by simp [hcodes])
  refine ⟨d, by simp [hfuncs], g, hg, hreach, ⟨x, hx, hcode⟩, 4, hend, ?_⟩
  rintro ⟨l, hl⟩
  -- from the entry control gets into the loop and stays there
  have hloop : 4 ∈ [0, 3, 9] := by
    refine hl.preserves (P := (· ∈ [0, 3, 9])) (by simp [hentry]) ?_
    intro a _ b ha he
    replace he : b ∈ g.succs a := he
    simp only [List.mem_cons, List.not_mem_nil, or_false] at ha
    rcases ha with rfl | rfl | rfl <;> simp_all
  exact absurd hloop (by decide)

end Construction

end FlowCheck
