import FlowCheck.Proofs.Check.Passes

/-!
# Soundness of the assignment check

Whatever a run of a function reads before it is assigned is reported: the run is traced through the
graph, its trace is a path that does not assign the variable, and such paths are reported.
-/
namespace FlowCheck

open Execution

theorem Graph.readsUnassigned_of_traces {g : Graph} {facts : Facts} {t t' : List Moment} {n : Node}
    {b : BlockId} {k : ℕ} {u : Use} (h : g.Traces (t ++ .started n :: t') b k)
    (hu : u ∈ facts.uses n) (hnone : ∀ m ∈ completed t, u.var ∉ facts.defs m) :
    g.ReadsUnassigned facts u := by
  obtain ⟨c, j, l, hn, hpath, hnodes⟩ := h.exists_path_of_started
  have hpassed : ∀ c ∈ l, ∀ m ∈ g.nodes c, u.var ∉ facts.defs m := by
    intro c hc m hm
    have hmem : m ∈ l.flatMap g.nodes := List.mem_flatMap.mpr ⟨c, hc, hm⟩
    exact hnone m (hnodes ▸ List.mem_append_left _ hmem)
  have hbefore : ∀ m ∈ (g.nodes c).take j, u.var ∉ facts.defs m := by
    intro m hm
    exact hnone m (hnodes ▸ List.mem_append_right _ hm)
  exact ⟨c, j, n, l, hn, hu, hpath, hpassed, hbefore⟩

namespace Construction

variable {facts : Facts} {d : FuncDecl} {g : Graph}

theorem sane_of_ofFunc (hg : (ofFunc facts d).outcome = .ok g) : Build.Sane g := by
  rcases outcome_ofFunc facts d with hfail | ⟨s, hfinished, hok, -⟩
  · rw [hg] at hfail
    cases hfail
  · rw [hg] at hok
    cases hok
    exact hfinished.sane

/-- A node that starts in some run of a function and reads a variable that no node completed before
assigns: the passes over the graph of the function report the read. -/
theorem reported_of_unassigned_read (o : PassOptions) (hg : (ofFunc facts d).outcome = .ok g)
    (hjumps : ∀ x ∈ (ofFunc facts d).diagnostics, x.code ≠ .noEnclosingLoop)
    {t t' : List Moment} {n : Node} {e : Ending} {u : Use}
    (hrun : Execution.function facts d (t ++ .started n :: t') e) (hu : u ∈ facts.uses n)
    (hnone : ∀ m ∈ completed t, u.var ∉ facts.defs m) :
    Assignment.finding u ∈
      (Pass.runAll o (Pass.standard facts) { analysis := .ofGraph g }).analysis.diagnostics := by
  obtain ⟨b, k, htraces, -⟩ := traced_of_function hg hjumps hrun
  have hreads := Graph.readsUnassigned_of_traces htraces hu hnone
  obtain ⟨-, -, reported, hdiag, hmem⟩ := Pass.runAll_standard o facts (sane_of_ofFunc hg)
  rw [hdiag]
  exact List.mem_map_of_mem ((hmem u).mpr hreads)

/-! ### An assignment that fails -/

def failingAssign : Simple :=
  .assign ⟨.none, 6⟩ .set (.ident ⟨⟨.none, 7⟩, "x"⟩) (.ident ⟨⟨.none, 8⟩, "y"⟩)

def failingRead : Simple := .expr ⟨.none, 11⟩ (.ident ⟨⟨.none, 12⟩, "x"⟩)

def failingHandler : CatchClause :=
  .mk ⟨.none, 9⟩ none (.mk ⟨.none, 10⟩ [.simple failingRead] .none)

/-- A function that assigns a variable in a try statement and reads it in the handler. -/
def failing : FuncDecl where
  mark := ⟨.none, 1⟩
  name := ⟨⟨.none, 2⟩, "f"⟩
  params := []
  result := none
  throws := []
  body := .mk ⟨.none, 3⟩
    [.attempt ⟨.none, 4⟩ (.mk ⟨.none, 5⟩ [.simple failingAssign] .none) [failingHandler] none] .none

/-- The assignment may raise an error. -/
def failingFacts : Facts where
  defs n := if n.id = 6 then [⟨0, "x", .local, .none⟩] else []
  uses n := if n.id = 11 then [⟨⟨0, "x", .local, .none⟩, ⟨"", 1, 1⟩⟩] else []
  raises n := if n.id = 6 then [.any] else []
  catches _ := .any
  constant _ := none

/-- Up to the read: the assignment starts but raises an error, which the handler takes. -/
def failingPast : List Moment :=
  [.started (.func failing), .completed (.func failing), .started (.stmt (.simple failingAssign)),
    .started (.catchClause failingHandler), .completed (.catchClause failingHandler)]

theorem function_failing : Execution.function failingFacts failing
    (failingPast ++ [.started (.stmt (.simple failingRead))]) .cut := by
  have hbody : Execution.block failingFacts (.mk ⟨.none, 5⟩ [.simple failingAssign] .none)
      [.started (.stmt (.simple failingAssign))] (.error ⟨⟨0, "D"⟩, "C"⟩) := by
    rw [Execution.block, Execution.stmtList, Execution.stmt]
    exact .stops (.raises (a := .any) (by decide) rfl) (by simp)
  have hhandler : Execution.handlerList failingFacts [failingHandler] ⟨⟨0, "D"⟩, "C"⟩
      [.started (.catchClause failingHandler), .completed (.catchClause failingHandler),
        .started (.stmt (.simple failingRead))] .cut := by
    have haccepts : Failure.Is ⟨⟨0, "D"⟩, "C"⟩ (failingFacts.catches failingHandler) := rfl
    rw [failingHandler] at haccepts ⊢
    rw [Execution.handlerList, if_pos haccepts, Execution.block, Execution.stmtList,
      Execution.stmt]
    exact Then.goesOn Visits.completes (Then.stops Evaluates.during (by simp))
  have hattempt : Execution.stmtList failingFacts failing.body.stmts
      [.started (.stmt (.simple failingAssign)), .started (.catchClause failingHandler),
        .completed (.catchClause failingHandler), .started (.stmt (.simple failingRead))] .cut := by
    change Execution.stmtList failingFacts [.attempt ..] _ _
    rw [Execution.stmtList, Execution.stmt, Execution.cleanupOption]
    exact .stops (Guarded.handles hbody hhandler) (by simp)
  have hrest := Returns.passes (d := failing) hattempt (by simp) (by simp)
  exact (Then.goesOn Visits.completes hrest :)

/-- The assignment has not completed, so the read is reported. -/
theorem reported_failing : ∃ g, (ofFunc failingFacts failing).outcome = .ok g ∧
    (∀ x ∈ (ofFunc failingFacts failing).diagnostics, x.code ≠ .noEnclosingLoop) ∧
    Execution.function failingFacts failing
      (failingPast ++ [.started (.stmt (.simple failingRead))]) .cut ∧
    (∀ m ∈ completed failingPast, ⟨0, "x", .local, .none⟩ ∉ failingFacts.defs m) ∧
    Assignment.finding ⟨⟨0, "x", .local, .none⟩, ⟨"", 1, 1⟩⟩ ∈
      (Pass.runAll {} (Pass.standard failingFacts)
        { analysis := .ofGraph g }).analysis.diagnostics := by
  have hjumps : ∀ x ∈ (ofFunc failingFacts failing).diagnostics, x.code ≠ .noEnclosingLoop := by
    decide +kernel
  have hg : ∃ g, (ofFunc failingFacts failing).outcome = .ok g := by
    have hok : (ofFunc failingFacts failing).outcome.isOk = true := by decide +kernel
    revert hok
    cases (ofFunc failingFacts failing).outcome <;> simp [Except.isOk, Except.toBool]
  have hnone : ∀ m ∈ completed failingPast,
      ⟨0, "x", .local, .none⟩ ∉ failingFacts.defs m := by decide
  obtain ⟨g, hg⟩ := hg
  exact ⟨g, hg, hjumps, function_failing, hnone,
    reported_of_unassigned_read {} hg hjumps function_failing (by decide) hnone⟩

end Construction

end FlowCheck
