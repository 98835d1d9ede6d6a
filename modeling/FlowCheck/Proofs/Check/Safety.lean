import FlowCheck.Check.Basic
import FlowCheck.Proofs.Check.Soundness

/-!
# Safety of checks

A check of any text with any options comes to an end: it does not fail, and no step is asked for an
answer that it does not have.
-/
namespace FlowCheck

namespace Check

variable {c : Check} {options : PassOptions} {facts : Facts}

/-- Nothing has gone wrong in the check itself. -/
structure Intact (c : Check) : Prop where
  failure : c.failure = none
  crashed : c.crashed = false

/-! ### One function -/

theorem intact_analyze {g : Graph} (name : String) (h : c.Intact) (hg : Build.Sane g) :
    (c.analyze options facts name g).Intact := by
  obtain ⟨hfailure, hmisfit, -⟩ := Pass.runAll_standard options facts hg
  simp only [analyze, hfailure, hmisfit]
  refine ⟨h.failure, ?_⟩
  simp [log, addFunc, h.crashed]

theorem intact_checkFunc (h : c.Intact) (d : FuncDecl) :
    (c.checkFunc options facts d).Intact := by
  rw [checkFunc]
  rcases Construction.outcome_ofFunc facts d with habort | ⟨s, hfinished, hok, -⟩
  · simp only [habort]
    exact ⟨h.failure, h.crashed⟩
  · simp only [hok]
    apply intact_analyze _ _ hfinished.sane
    exact ⟨h.failure, h.crashed⟩

/-! ### Whole files -/

theorem intact_foldl_checkFunc (ds : List FuncDecl) (h : c.Intact) :
    (ds.foldl (checkFunc options facts) c).Intact := by
  induction ds generalizing c with
  | nil => exact h
  | cons d ds ih =>
    rw [List.foldl_cons]
    exact ih (intact_checkFunc h d)

theorem intact_checkFuncs (r : Resolution) (h : c.Intact) : (c.checkFuncs options r).Intact := by
  have hall : (c.file.funcs.foldl (checkFunc options r.facts) { c with analyzed := true }).Intact :=
    intact_foldl_checkFunc _ ⟨h.failure, h.crashed⟩
  simp only [checkFuncs]
  split
  · exact hall
  · exact ⟨hall.failure, hall.crashed⟩

theorem intact_resolve (h : c.Intact) : (c.resolve options).Intact := by
  simp only [resolve]
  split
  · exact intact_checkFuncs _ ⟨h.failure, h.crashed⟩
  · exact ⟨h.failure, h.crashed⟩

theorem intact_ofSource (options : CheckOptions) (source : Source) :
    (ofSource options source).Intact := by
  simp only [ofSource]
  split
  · exact ⟨rfl, rfl⟩
  · exact intact_resolve ⟨rfl, rfl⟩

/-- A check never fails and never crashes. The graph of every function, unless a jump out of a
`finally` block keeps it from being built, is accepted after construction and after every pass, and
no phi gets an operand that it has no place for. -/
theorem ofSource_never_fails (options : CheckOptions) (source : Source) :
    (ofSource options source).failure = none ∧ (ofSource options source).crashed = false ∧
      ∀ d ∈ (Parsed.ofSource source).file.funcs,
        let facts := (Resolution.ofFile (Parsed.ofSource source).file).facts
        (Construction.ofFunc facts d).outcome = .error .jumpOutOfFinally ∨
          ∃ g, (Construction.ofFunc facts d).outcome = .ok g ∧
            (∀ k ≤ (Pass.standard facts).length,
              (Pass.applied ((Pass.standard facts).take k) (.ofGraph g)).graph.verify = none) ∧
            (Pass.runAll options.passes (Pass.standard facts)
              { analysis := .ofGraph g }).failure = none ∧
            (Pass.runAll options.passes (Pass.standard facts)
              { analysis := .ofGraph g }).analysis.misfit = false := by
  have h := intact_ofSource options source
  refine ⟨h.failure, h.crashed, ?_⟩
  intro d _ facts
  rcases Construction.outcome_ofFunc facts d with habort | ⟨s, hfinished, hok, -⟩
  · exact .inl habort
  · obtain ⟨hfailure, hmisfit, -⟩ := Pass.runAll_standard options.passes facts hfinished.sane
    have haccepted : ∀ k ≤ (Pass.standard facts).length,
        (Pass.applied ((Pass.standard facts).take k) (.ofGraph s.graph)).graph.verify = none := by
      intro k hk
      exact (Graph.consistent_applied hfinished.sane facts hk).verify_eq_none
    exact .inr ⟨s.graph, hok, haccepted, hfailure, hmisfit⟩

end Check

end FlowCheck
