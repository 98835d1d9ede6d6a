import FlowCheck.Proofs.Build.Course

/-!
# Building statements

Every part is built for what can be observed of it, under any targets that give errors and returns a
place to go. The induction is over courses; each case is one of the previous modules.
-/
namespace FlowCheck.Build

open Execution

section

variable {s s' : State} {T : List Target} {facts : Facts}

theorem silent_then {B : Behavior} {t : List Moment} {e : Ending} (h : B t e) :
    Then (silent .normal) B t e :=
  .goesOn (t := []) ⟨rfl, rfl⟩ h

theorem SingleBuilt.realizes {x : Stmt} (h : SingleBuilt facts T x s s') (hground : Grounded T) :
    Realizes T (Execution.stmt facts x) s s' := by
  obtain ⟨hx, ⟨b, hb⟩, h⟩ := h
  intro hs hT
  cases x with
  | simple x =>
    rw [stmt, whenReached_of_some hb] at h
    rw [Execution.stmt]
    exact (runs_addNode hs hb hT hground).ok h
  | var m d =>
    rw [stmt, whenReached_of_some hb] at h
    rw [Execution.stmt]
    exact (runs_addNode hs hb hT hground).ok h
  | jump m kind =>
    rw [stmt, whenReached_of_some hb] at h
    rw [Execution.stmt]
    exact (runs_jumpStmt hs hb hT).ok h
  | ret m result =>
    rw [stmt, whenReached_of_some hb] at h
    rw [Execution.stmt]
    exact (runs_ret hs hb hT hground).ok h
  | raise m y =>
    rw [stmt, whenReached_of_some hb] at h
    rw [Execution.stmt]
    exact (runs_addRaising hs hb hT hground).ok h
  | _ => cases hx

/-- The `else` part of a statement is built like a list of at most one statement. -/
theorem Realizes.stmtOption {x : Option Stmt}
    (h : Realizes T (Execution.stmtList facts x.toList) s s') :
    Realizes T (Execution.stmtOption facts x) s s' := by
  cases x with
  | none =>
    rw [Execution.stmtOption]
    rwa [Option.toList_none, Execution.stmtList] at h
  | some x =>
    rw [Execution.stmtOption]
    rw [Option.toList_some, Execution.stmtList, Execution.stmtList] at h
    exact h.weaken fun _ _ => then_silent

/-! ### All parts -/

/-- The part has been built for what can be observed of it. -/
def Part.Realized (facts : Facts) (T : List Target) : Part → State → State → Prop
  | .stmt x => Realizes T (Execution.stmt facts x)
  | .stmts xs => Realizes T (Execution.stmtList facts xs)
  | .block b => Realizes T (Execution.block facts b)
  | .sections tagEnd after cs => fun s s' =>
    ∀ b, tagEnd = some b → Links T b after (Execution.sectionList facts cs) s s'
  | .clauses cl after _ hs cs => Handles facts T cl after hs cs
  | .cleanup b cl => fun s s' => Cleanses facts T b s cl s'

theorem Course.realized {p : Part} {made : List (Stmt × BlockId)}
    (h : Course facts T p s made s') (hground : Grounded T) : p.Realized facts T s s' := by
  induction h with
  | skipped _ hc => exact realizes_skipped hc
  | @empty T m s =>
    change Realizes T (Execution.stmt facts (.empty m)) s _
    rw [Execution.stmt]
    exact realizes_markedHere s m
  | @braces T b s s' made _ ih =>
    change Realizes T (Execution.stmt facts (.block b)) s s'
    rw [Execution.stmt]
    exact ih hground
  | single h => exact h.realizes hground
  | cond htest _ _ ihyes ihno =>
    exact realizes_cond (htest.realizes hground) (ihyes hground) (ihno hground).stmtOption
  | loop _ hinit htest hq _ hround ih =>
    exact realizes_loop hground (hinit.realizes hground) (htest.realizes hground) hq
      (ih (hground.append [_, _])) hround
  | foreach hoperand _ ih =>
    exact realizes_foreach hground (hoperand.realizes hground) (ih (hground.append [_, _]))
  | switch htag _ ih =>
    have hinner := fun after => hground.append [.landing .loopEnd after]
    obtain ⟨b, hb⟩ := htag.placed.cursor
    exact realizes_switch (htag.realizes (hinner _)) hb (ih (hinner _) b hb)
  | attempt hc _ hready _ hleave _ ihcleanup ihbody ihclauses =>
    exact realizes_attempt hc (ihcleanup hground) hready (ihbody ((hground.append _).append _))
      hleave (ihclauses (hground.append _))
  | @nil T s =>
    change Realizes T (Execution.stmtList facts []) s s
    rw [Execution.stmtList]
    exact .silent rfl rfl List.prefix_rfl
  | @cons T x xs s s₁ s' made₁ made₂ _ _ ihx ihxs =>
    change Realizes T (Execution.stmtList facts (x :: xs)) s s'
    rw [Execution.stmtList]
    exact (ihx hground).andThen (ihxs hground)
  | @block T m xs close s s' made _ ih =>
    change Realizes T (Execution.block facts (.mk m xs close)) s s'
    rw [Execution.block]
    exact ((realizes_markedHere s m).andThen (ih hground)).weaken fun _ _ => silent_then
  | noSections => exact fun b _ => links_nil b _ _
  | sections hlabels _ _ ihbody ihcs =>
    rintro b rfl
    exact links_cons (hlabels.realizes hground) (ihbody hground) (ihcs hground b rfl)
  | noClauses => exact handles_nil _
  | uncaught hb _ ih => exact handles_uncaught hb (ih hground)
  | caught _ _ hleave _ ihbody ihcs => exact handles_caught (ihbody hground) hleave (ihcs hground)
  | noCleanup => exact cleanses_none _
  | cleanup _ ih => exact cleanses_some (ih (hground.append [.barrier]))

end

end FlowCheck.Build
