import FlowCheck.Check.Basic
import FlowCheck.Proofs.Build.Refusal
import FlowCheck.Proofs.Check.Cleanup

/-!
# Functions without a graph

The graph of a function is not built if and only if some jump or return that is not dead leaves the
innermost `finally` block around it. It is the last thing that is reported about the function.
Errors that are raised may leave a `finally` block.
-/
namespace FlowCheck

namespace Build

variable {facts : Facts} {d : FuncDecl} {s s' : State} {y : Stmt} {p : Part} {e : Aborted}

/-- No jump is barred from the body of a function as a whole. -/
theorem not_barred_bodyTargets (k : Exit) : ¬Barred k bodyTargets := by
  simp [bodyTargets, Barred]

theorem offends_body : Offends bodyTargets (.stmts d.body.stmts) y ↔
    Escapes (d.body.walk everywhere) y := by
  have hwalk : Escapes (d.body.walk everywhere) y ↔
      Escapes (Stmt.walkList everywhere d.body.stmts) y := by
    rw [d.walk_body]
    exact escapes_congr (attempts_cons _ rfl)
  rw [hwalk, Offends, Part.walk]
  simp [Part.Bars, not_barred_bodyTargets]

/-- Where the numbers are distinct, the jump that is refused is not found dead. -/
theorem Refused.notMem_dead (h : Refused bodyTargets p s y s') (hs : s.dead = [])
    (hp : (p.walk.map Node.id).Nodup) : (Node.stmt y).id ∉ s'.dead := by
  obtain ⟨s₁, w, -, hw, ⟨l, hperm, hsub⟩, rfl⟩ := h.ends
  intro hdead
  have hmem : (Node.stmt y).id ∈ w.map Node.id := by
    refine (hw.dead _ hdead).resolve_left ?_
    rw [hs]
    exact List.not_mem_nil
  have hnodup : ((w ++ [Node.stmt y]).map Node.id).Nodup :=
    (hperm.map Node.id).nodup_iff.mp (hp.sublist (hsub.map Node.id))
  rw [List.map_append, List.nodup_append] at hnodup
  exact hnodup.2.2 _ hmem _ List.mem_cons_self rfl

end Build

namespace Construction

open Build

variable {facts : Facts} {d : FuncDecl}

/-- Where construction is aborted, the last thing that is reported is a jump out of a `finally` block
that is not dead, and nothing else of this kind is. -/
theorem exists_last_of_aborted (hd : d.Numbered)
    (h : (ofFunc facts d).outcome = .error .jumpOutOfFinally) :
    ∃ y before, Escapes (d.body.walk everywhere) y ∧ (Node.stmt y).id ∉ (ofFunc facts d).dead ∧
      (ofFunc facts d).diagnostics = before ++ [⟨.flow, .error, .jumpOutOfFinally, y.mark.pos,
        "jump out of finally block not permitted"⟩] ∧
      ∀ x ∈ before, x.code ≠ .jumpOutOfFinally := by
  obtain ⟨y, s, hy, hdiagnostics, hdead⟩ := exists_refused h
  obtain ⟨s₁, w, hgrown, -, -, hs⟩ := hy.ends
  obtain ⟨before, hbefore, hcodes⟩ := hgrown.finds
  refine ⟨y, before, offends_body.mp hy.offends, ?_, ?_, fun x hx => (hcodes x hx).2⟩
  · rw [hdead]
    exact hy.notMem_dead rfl hd.statements.1
  · rw [hdiagnostics, hs, State.reported, hbefore]
    rfl

/-- Construction is not aborted if all jumps that leave a `finally` block are dead. -/
theorem dead_of_escapes (h : (ofFunc facts d).outcome ≠ .error .jumpOutOfFinally) {y : Stmt}
    (hy : Escapes (d.body.walk everywhere) y) : (Node.stmt y).id ∈ (ofFunc facts d).dead := by
  obtain ⟨s₁, -, hg, -⟩ := (outcome_ofFunc facts d).resolve_left h
  obtain ⟨made, s, hcourse, -, -, -, hdead⟩ := exists_course hg
  rw [hdead, dead_concluded]
  exact hcourse.dead_of_offends (offends_body.mpr hy)

/-- The graph of a function is not built if and only if some jump or return that is not dead leaves
the innermost `finally` block around it. Then such a jump is the last thing that is reported about the
function, and the only one of its kind, and the function counts as one whose end is not reached.
Throw statements and nodes that may raise errors are built under all targets. -/
theorem aborted_of_mem_funcs {source : Source} (hd : d ∈ (Parsed.ofSource source).file.funcs) :
    ((ofFunc facts d).outcome = .error .jumpOutOfFinally ↔
      ∃ y, Escapes (d.body.walk everywhere) y ∧ (Node.stmt y).id ∉ (ofFunc facts d).dead) ∧
    ((ofFunc facts d).outcome = .error .jumpOutOfFinally →
      (∃ y before, Escapes (d.body.walk everywhere) y ∧ (Node.stmt y).id ∉ (ofFunc facts d).dead ∧
        (ofFunc facts d).diagnostics = before ++
          [⟨.flow, .error, .jumpOutOfFinally, y.mark.pos,
            "jump out of finally block not permitted"⟩] ∧
        ∀ x ∈ before, x.code ≠ .jumpOutOfFinally) ∧
      ∀ options c,
        (Check.checkFunc options facts c d).bag = c.bag.reportAll (ofFunc facts d).diagnostics ∧
        ∃ f : CheckedFunc, (Check.checkFunc options facts c d).funcs = c.funcs ++ [f] ∧
          f.name = d.name.text ∧ f.endReachable = false) ∧
    ∀ T s, (∀ n, s.cursor.isSome → Completes (addNode facts T n) s) ∧
      ∀ m x, Completes (stmt facts T (.raise m x)) s := by
  have hnumbered := (Parsed.file_numbered source).numbered_of_mem_funcs hd
  refine ⟨⟨fun h => ?_, ?_⟩, fun h => ⟨exists_last_of_aborted hnumbered h, fun options c => ?_⟩,
    fun T s => ⟨?_, ?_⟩⟩
  · obtain ⟨y, -, hy, hlive, -⟩ := exists_last_of_aborted hnumbered h
    exact ⟨y, hy, hlive⟩
  · rintro ⟨y, hy, hlive⟩
    by_contra h
    exact hlive (dead_of_escapes h hy)
  · rw [Check.checkFunc, h]
    exact ⟨rfl, ⟨d.name.text, none⟩, rfl, rfl, rfl⟩
  · intro n hs
    obtain ⟨b, hb⟩ := Option.isSome_iff_exists.mp hs
    exact completes_addNode facts T hb n
  · exact fun m x => completes_throw facts T m x s

/-- A function whose loop ends each round with a `finally` block. There a loop of its own is left, a
return cannot be reached, and the next round is asked for. -/
def hastySource : Source := .ofText "" ("package p\nfunc f() \x7b for \x7b try \x7b \x7d " ++
  "finally \x7b for \x7b break; return \x7d; continue \x7d \x7d \x7d").toList

set_option maxRecDepth 1024 in
theorem built_hastySource : (Parsed.ofSource hastySource).reports = [] ∧
    (Parsed.ofSource hastySource).file.funcs.map (fun d =>
      ((ofFunc idleFacts d).outcome.toOption.isSome,
        (ofFunc idleFacts d).diagnostics.map (·.code))) =
      [(false, [.unreachableCode, .jumpOutOfFinally])] := by
  cbv

theorem aborted_hastySource : ∃ d ∈ (Parsed.ofSource hastySource).file.funcs,
    (ofFunc idleFacts d).outcome = .error .jumpOutOfFinally ∧
    ∃ y, Escapes (d.body.walk everywhere) y ∧ (Node.stmt y).id ∉ (ofFunc idleFacts d).dead := by
  obtain ⟨d, hfuncs, hbuilt⟩ := List.map_eq_singleton_iff.mp built_hastySource.2
  have hd : d ∈ (Parsed.ofSource hastySource).file.funcs := by simp [hfuncs]
  have habort : (ofFunc idleFacts d).outcome = .error .jumpOutOfFinally := by
    rcases outcome_ofFunc idleFacts d with h | ⟨s, -, hg, -⟩
    · exact h
    · rw [hg] at hbuilt
      cases (Prod.mk.inj hbuilt).1
  exact ⟨d, hd, habort, (aborted_of_mem_funcs hd).1.mp habort⟩

end Construction

end FlowCheck
