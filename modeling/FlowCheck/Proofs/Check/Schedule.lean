import FlowCheck.Proofs.Build.Refusal
import FlowCheck.Proofs.Check.Agreement
import FlowCheck.Proofs.Check.Safety
import FlowCheck.Proofs.Diagnostic.Order
import FlowCheck.Proofs.Resolve.Separation

/-!
# Functions that are checked at the same time

The functions of a file may be analyzed one after the other or at the same time. What they share is
the bag and the marks on variables and nodes; each function works on them step by step, and the
steps of different functions may come in any order. As no two functions report at one position and
no graph belongs to two of them, the outcome is always that of one function after the other.
-/
namespace FlowCheck

/-! ### Interleaving -/

/-- The log consists of the items of all tasks, with those of each task in their order: at every
step some task hands over its next item. -/
inductive Interleaves {α : Type} : List (List α) → List α → Prop where
  | done {ts : List (List α)} (h : ∀ t ∈ ts, t = []) : Interleaves ts []
  | step {ts us : List (List α)} {t log : List α} {a : α} (h : Interleaves (ts ++ t :: us) log) :
    Interleaves (ts ++ (a :: t) :: us) (a :: log)

namespace Interleaves

variable {α : Type} {ts us : List (List α)} {t log : List α}

theorem perm (h : Interleaves ts log) : log.Perm ts.flatten := by
  induction h with
  | done h =>
    rw [List.flatten_eq_nil_iff.2 h]
  | @step ts us t log a _ ih =>
    rw [List.flatten_append, List.flatten_cons, List.cons_append] at *
    exact (ih.cons a).trans List.perm_middle.symm

/-- Items that only one task has are in the order of that task. -/
theorem filter_eq {q : α → Bool} (h : Interleaves ts log)
    (hq : ts.Pairwise fun t u => ∀ x ∈ t, ∀ y ∈ u, ¬ (q x ∧ q y)) :
    log.filter q = ts.flatten.filter q := by
  induction h with
  | done h => rw [List.flatten_eq_nil_iff.2 h]
  | @step ts us t log a _ ih =>
    have hrest : (ts ++ t :: us).Pairwise fun t u => ∀ x ∈ t, ∀ y ∈ u, ¬ (q x ∧ q y) := by
      rw [List.pairwise_append, List.pairwise_cons] at hq ⊢
      obtain ⟨hts, ⟨hus, hpair⟩, hcross⟩ := hq
      refine ⟨hts, ⟨fun u hu x hx => hus u hu x (List.mem_cons_of_mem _ hx), hpair⟩, ?_⟩
      intro v hv w hw x hx y hy
      rcases List.mem_cons.1 hw with rfl | hw
      · exact hcross v hv _ List.mem_cons_self x hx y (List.mem_cons_of_mem _ hy)
      · exact hcross v hv w (List.mem_cons_of_mem _ hw) x hx y hy
    have ih := ih hrest
    rw [List.flatten_append, List.flatten_cons, List.filter_append, List.filter_append] at ih ⊢
    cases ha : q a with
    | false => rwa [List.filter_cons_of_neg (by simp [ha]), List.filter_cons_of_neg (by simp [ha])]
    | true =>
      -- the tasks before have no such item
      have hnone : ts.flatten.filter q = [] := by
        refine List.filter_eq_nil_iff.2 fun x hx hqx => ?_
        obtain ⟨v, hv, hx⟩ := List.mem_flatten.1 hx
        exact (List.pairwise_append.1 hq).2.2 v hv _ List.mem_cons_self x hx a
          List.mem_cons_self ⟨hqx, ha⟩
      rw [hnone, List.nil_append] at ih ⊢
      rw [List.filter_cons_of_pos ha, List.filter_cons_of_pos ha, ih, List.cons_append]

/-- One task may run to its end before the others go on. -/
theorem task (h : Interleaves (ts ++ [] :: us) log) : Interleaves (ts ++ t :: us) (t ++ log) := by
  induction t with
  | nil => exact h
  | cons a t ih => exact .step ih

end Interleaves

namespace Check

/-! ### The steps of a function -/

/-- What the analysis of a function does to what the functions of a file share. -/
inductive Effect where
  | report (x : Diagnostic)
  | kill (ids : List Nat)
  | use (v : Var)
  | reassign (v : Var)
  /-- The graph of the function at an index is done. -/
  | keep (i : Nat) (g : Graph)

def perform (c : Check) : Effect → Check
  | .report x => { c with bag := c.bag.report x }
  | .kill ids => { c with dead := c.dead ++ ids }
  | .use v => { c with used := c.used ++ [v] }
  | .reassign v => { c with reassigned := c.reassigned ++ [v] }
  | .keep i g => { c with funcs := c.funcs.modify i fun f => { f with graph := some g } }

/-- The analysis of the function at an index: construction, and then the passes. -/
def effects (options : PassOptions) (facts : Facts) (i : Nat) (d : FuncDecl) : List Effect :=
  let built := Construction.ofFunc facts d
  built.diagnostics.map .report ++ .kill built.dead ::
    match built.outcome with
    | .error _ => []
    | .ok g =>
      let run := Pass.runAll options (Pass.standard facts) { analysis := .ofGraph g }
      run.analysis.used.map .use ++ run.analysis.reassigned.map .reassign ++
        run.analysis.diagnostics.map .report ++
        if run.failure.isSome then [] else [.keep i run.analysis.graph]

/-- The analyses of some functions that stand in the file from an index on. -/
def tasks (options : PassOptions) (facts : Facts) : Nat → List FuncDecl → List (List Effect)
  | _, [] => []
  | i, d :: ds => effects options facts i d :: tasks options facts (i + 1) ds

/-- A function that has no graph yet. -/
def blank (d : FuncDecl) : CheckedFunc := ⟨d.name.text, none⟩

/-- The check of a file that parses and resolves, before its functions are analyzed. -/
def start (options : CheckOptions) (source : Source) : Check where
  fileName := source.file
  file := (Parsed.ofSource source).file
  bag := { warningsAsErrors := options.warningsAsErrors }
  resolution := some (Resolution.ofFile (Parsed.ofSource source).file)
  analyzed := true
  funcs := (Parsed.ofSource source).file.funcs.map blank

/-- A check may end so if its functions are analyzed at the same time. -/
inductive Concurrent (options : CheckOptions) (source : Source) : Check → Prop where
  | stopped (h : (ofSource options source).analyzed = false) :
    Concurrent options source (ofSource options source)
  | analyzed {log : List Effect} (h : (ofSource options source).analyzed = true)
    (hlog : Interleaves (tasks options.passes
      (Resolution.ofFile (Parsed.ofSource source).file).facts 0
      (Parsed.ofSource source).file.funcs) log) :
    Concurrent options source (log.foldl perform (start options source))

section

variable {c s : Check} {options : PassOptions} {facts : Facts}

/-! ### One function after the other -/

theorem foldl_report (xs : List Diagnostic) (c : Check) :
    (xs.map Effect.report).foldl perform c = c.report xs := by
  induction xs generalizing c with
  | nil => rfl
  | cons x xs ih => exact ih _

theorem foldl_use (vs : List Var) (c : Check) :
    (vs.map Effect.use).foldl perform c = { c with used := c.used ++ vs } := by
  induction vs generalizing c with
  | nil => simp
  | cons v vs ih =>
    rw [List.map_cons, List.foldl_cons, ih]
    simp [perform]

theorem foldl_reassign (vs : List Var) (c : Check) :
    (vs.map Effect.reassign).foldl perform c = { c with reassigned := c.reassigned ++ vs } := by
  induction vs generalizing c with
  | nil => simp
  | cons v vs ih =>
    rw [List.map_cons, List.foldl_cons, ih]
    simp [perform]

/-- The check `c` has come as far as the check `s`, which has yet to get to the functions `ds`. -/
structure Abreast (c s : Check) (ds : List FuncDecl) : Prop where
  bag : c.bag = s.bag
  dead : c.dead = s.dead
  used : c.used = s.used
  reassigned : c.reassigned = s.reassigned
  funcs : c.funcs = s.funcs ++ ds.map blank

theorem modify_funcs (fs gs : List CheckedFunc) (f : CheckedFunc) (k : CheckedFunc → CheckedFunc) :
    (fs ++ f :: gs).modify fs.length k = fs ++ k f :: gs := by
  induction fs with
  | nil => rfl
  | cons f' fs ih => exact congrArg (f' :: ·) ih

namespace Abreast

variable {d : FuncDecl} {ds : List FuncDecl}

/-- Only what functions share counts. -/
theorem congr {t : Check} (h : Abreast c s ds) (hbag : t.bag = s.bag) (hdead : t.dead = s.dead)
    (hused : t.used = s.used) (hreassigned : t.reassigned = s.reassigned)
    (hfuncs : t.funcs = s.funcs) : Abreast c t ds := by
  refine ⟨?_, ?_, ?_, ?_, ?_⟩
  · rw [hbag, h.bag]
  · rw [hdead, h.dead]
  · rw [hused, h.used]
  · rw [hreassigned, h.reassigned]
  · rw [hfuncs, h.funcs]

theorem report (h : Abreast c s ds) (xs : List Diagnostic) :
    Abreast (c.report xs) (s.report xs) ds := by
  refine ⟨?_, h.dead, h.used, h.reassigned, h.funcs⟩
  rw [Check.report, Check.report, h.bag]

theorem kill (h : Abreast c s ds) (ids : List Nat) :
    Abreast (c.perform (.kill ids)) { s with dead := s.dead ++ ids } ds := by
  refine ⟨h.bag, ?_, h.used, h.reassigned, h.funcs⟩
  rw [perform, h.dead]

theorem mark (h : Abreast c s ds) (used reassigned : List Var) :
    Abreast { c with used := c.used ++ used, reassigned := c.reassigned ++ reassigned }
      { s with used := s.used ++ used, reassigned := s.reassigned ++ reassigned } ds :=
  ⟨h.bag, h.dead, congrArg (· ++ used) h.used, congrArg (· ++ reassigned) h.reassigned, h.funcs⟩

/-- The next function gets no graph. -/
theorem leave (h : Abreast c s (d :: ds)) : Abreast c (s.addFunc d.name.text none) ds := by
  refine ⟨h.bag, h.dead, h.used, h.reassigned, ?_⟩
  rw [h.funcs, addFunc, List.map_cons, List.append_assoc]
  rfl

/-- The next function gets its graph. -/
theorem keep (h : Abreast c s (d :: ds)) (g : Graph) :
    Abreast (c.perform (.keep s.funcs.length g)) (s.addFunc d.name.text (some g)) ds := by
  refine ⟨h.bag, h.dead, h.used, h.reassigned, ?_⟩
  rw [perform, h.funcs, List.map_cons, modify_funcs, addFunc, List.append_assoc]
  rfl

/-- The effects of a function are its check. -/
theorem step (h : Abreast c s (d :: ds)) :
    Abreast ((effects options facts s.funcs.length d).foldl perform c)
      (checkFunc options facts s d) ds := by
  have hbuilt := (h.report (Construction.ofFunc facts d).diagnostics).kill
    (Construction.ofFunc facts d).dead
  rw [effects, List.foldl_append, foldl_report, List.foldl_cons, checkFunc]
  cases hout : (Construction.ofFunc facts d).outcome with
  | error e => cases e <;> exact hbuilt.leave.congr rfl rfl rfl rfl rfl
  | ok g =>
    simp only [List.foldl_append, foldl_use, foldl_reassign, foldl_report, analyze]
    let a := (Pass.runAll options (Pass.standard facts) { analysis := .ofGraph g }).analysis
    have hrun := (hbuilt.mark a.used a.reassigned).report a.diagnostics
    cases (Pass.runAll options (Pass.standard facts) { analysis := .ofGraph g }).failure with
    | some e => exact hrun.leave.congr rfl rfl rfl rfl rfl
    | none => exact (hrun.keep a.graph).congr rfl rfl rfl rfl rfl

end Abreast

theorem length_funcs_foldl (log : List Effect) (c : Check) :
    (log.foldl perform c).funcs.length = c.funcs.length := by
  induction log generalizing c with
  | nil => rfl
  | cons e log ih =>
    rw [List.foldl_cons, ih]
    cases e <;> simp [perform]

/-- The tasks one after the other are the check of one function after the other. -/
theorem Abreast.tasks {ds : List FuncDecl} {c s : Check} (h : Abreast c s ds) :
    Abreast ((tasks options facts s.funcs.length ds).flatten.foldl perform c)
      (ds.foldl (checkFunc options facts) s) [] := by
  induction ds generalizing c s with
  | nil => exact h
  | cons d ds ih =>
    have hstep : Abreast ((effects options facts s.funcs.length d).foldl perform c)
        (checkFunc options facts s d) ds := h.step
    have hlength : (checkFunc options facts s d).funcs.length = s.funcs.length + 1 := by
      have hafter := congrArg List.length hstep.funcs
      have hbefore := congrArg List.length h.funcs
      simp only [length_funcs_foldl, List.length_append, List.length_map, List.length_cons] at *
      omega
    rw [Check.tasks, List.flatten_cons, List.foldl_append, List.foldl_cons, ← hlength]
    exact ih hstep

theorem Abreast.checkFuncs {c s : Check} {r : Resolution} {f : File} (h : Abreast c s f.funcs)
    (hfile : s.file = f) (hnone : s.funcs.length = 0) :
    Abreast ((Check.tasks options r.facts 0 f.funcs).flatten.foldl perform c)
      (s.checkFuncs options r) [] := by
  subst hfile
  have hstart : Abreast c { s with analyzed := true } s.file.funcs :=
    ⟨h.bag, h.dead, h.used, h.reassigned, h.funcs⟩
  have hall : Abreast ((Check.tasks options r.facts s.funcs.length s.file.funcs).flatten.foldl
      perform c) (s.file.funcs.foldl (checkFunc options r.facts) { s with analyzed := true }) [] :=
    hstart.tasks
  rw [hnone] at hall
  simp only [Check.checkFuncs]
  split
  · exact hall
  · exact ⟨hall.bag, hall.dead, hall.used, hall.reassigned, hall.funcs⟩

/-! ### In any order -/

namespace Effect

def reported? : Effect → Option Diagnostic
  | .report x => some x
  | _ => none

def used? : Effect → Option Var
  | .use v => some v
  | _ => none

def reassigned? : Effect → Option Var
  | .reassign v => some v
  | _ => none

def killed : Effect → List Nat
  | .kill ids => ids
  | _ => []

def isReportAt (p : Pos) (e : Effect) : Bool := e.reported?.any (·.pos = p)

def isKeepAt (i : Nat) : Effect → Bool
  | .keep j _ => j = i
  | _ => false

/-- What becomes of the function at an index. -/
def onFunc (i : Nat) (f : Option CheckedFunc) : Effect → Option CheckedFunc
  | .keep j g => if j = i then f.map ({ · with graph := some g }) else f
  | _ => f

end Effect

theorem pos_promote (b : Bag) (x : Diagnostic) : (b.promote x).pos = x.pos := by
  unfold Bag.promote
  split <;> rfl

theorem items_foldl (log : List Effect) (c : Check) :
    (log.foldl perform c).bag.items =
      c.bag.items ++ (log.filterMap Effect.reported?).map c.bag.promote := by
  induction log generalizing c with
  | nil => simp
  | cons e log ih =>
    rw [List.foldl_cons, ih]
    cases e with
    | report x =>
      simp only [perform, Bag.report, List.append_assoc, List.filterMap_cons, Effect.reported?,
        List.map_cons, List.singleton_append]
      rfl
    | _ => rfl

theorem used_foldl (log : List Effect) (c : Check) :
    (log.foldl perform c).used = c.used ++ log.filterMap Effect.used? := by
  induction log generalizing c with
  | nil => simp
  | cons e log ih =>
    rw [List.foldl_cons, ih]
    cases e with
    | use v => simp [perform, Effect.used?]
    | _ => rfl

theorem reassigned_foldl (log : List Effect) (c : Check) :
    (log.foldl perform c).reassigned = c.reassigned ++ log.filterMap Effect.reassigned? := by
  induction log generalizing c with
  | nil => simp
  | cons e log ih =>
    rw [List.foldl_cons, ih]
    cases e with
    | reassign v => simp [perform, Effect.reassigned?]
    | _ => rfl

theorem dead_foldl (log : List Effect) (c : Check) :
    (log.foldl perform c).dead = c.dead ++ log.flatMap Effect.killed := by
  induction log generalizing c with
  | nil => simp
  | cons e log ih =>
    rw [List.foldl_cons, ih]
    cases e <;> simp [perform, Effect.killed]

theorem funcs_foldl (log : List Effect) (c : Check) (i : Nat) :
    (log.foldl perform c).funcs[i]? = (log.filter (Effect.isKeepAt i)).foldl (Effect.onFunc i)
      c.funcs[i]? := by
  induction log generalizing c with
  | nil => rfl
  | cons e log ih =>
    rw [List.foldl_cons, ih]
    cases e with
    | keep j g =>
      by_cases hj : j = i
      · simp [perform, Effect.isKeepAt, Effect.onFunc, hj]
      · simp [perform, Effect.isKeepAt, hj]
    | _ => rfl

variable {ts : List (List Effect)} {log : List Effect}

theorem sorted_of_interleaves (h : Interleaves ts log)
    (hq : ∀ p, ts.Pairwise fun t u => ∀ x ∈ t, ∀ y ∈ u, ¬ (x.isReportAt p ∧ y.isReportAt p))
    (c : Check) :
    (log.foldl perform c).bag.sorted = (ts.flatten.foldl perform c).bag.sorted := by
  have hchosen (p : Pos) (es : List Effect) :
      ((es.filterMap Effect.reported?).map c.bag.promote).filter (·.pos = p) =
        ((es.filter (Effect.isReportAt p)).filterMap Effect.reported?).map c.bag.promote := by
    induction es with
    | nil => rfl
    | cons e es ih =>
      cases e with
      | report x =>
        by_cases hx : x.pos = p
        · simpa [Effect.reported?, Effect.isReportAt, pos_promote, hx] using ih
        · simpa [Effect.reported?, Effect.isReportAt, pos_promote, hx] using ih
      | _ => exact ih
  refine Bag.sorted_congr fun p => ?_
  rw [items_foldl, items_foldl, List.filter_append, List.filter_append, hchosen, hchosen,
    h.filter_eq (hq p)]

theorem funcs_of_interleaves (h : Interleaves ts log)
    (hq : ∀ i, ts.Pairwise fun t u => ∀ x ∈ t, ∀ y ∈ u, ¬ (x.isKeepAt i ∧ y.isKeepAt i))
    (c : Check) : (log.foldl perform c).funcs = (ts.flatten.foldl perform c).funcs := by
  refine List.ext_getElem? fun i => ?_
  rw [funcs_foldl, funcs_foldl, h.filter_eq (hq i)]

/-- Marks do not depend on the order in which they are made. -/
theorem marks_of_interleaves (h : Interleaves ts log) (c : Check) :
    (∀ v, (log.foldl perform c).isUsed v = (ts.flatten.foldl perform c).isUsed v) ∧
      (∀ v, (log.foldl perform c).isSingleAssignment v =
        (ts.flatten.foldl perform c).isSingleAssignment v) ∧
      ∀ id, (log.foldl perform c).isDead id = (ts.flatten.foldl perform c).isDead id := by
  refine ⟨fun v => ?_, fun v => ?_, fun id => ?_⟩
  · rw [isUsed, isUsed, used_foldl, used_foldl]
    exact (h.perm.filterMap _ |>.append_left _).contains_eq
  · rw [isSingleAssignment, isSingleAssignment, reassigned_foldl, reassigned_foldl]
    exact congrArg (!·) (h.perm.filterMap _ |>.append_left _).contains_eq
  · rw [isDead, isDead, dead_foldl, dead_foldl]
    exact (h.perm.flatMap_right _ |>.append_left _).contains_eq

/-! ### The tasks of a file -/

theorem keep_mem_effects {i j : Nat} {g : Graph} {d : FuncDecl}
    (h : .keep j g ∈ effects options facts i d) : j = i := by
  unfold effects at h
  cases hout : (Construction.ofFunc facts d).outcome with
  | error e => simp [hout] at h
  | ok k =>
    simp only [hout, List.mem_append, List.mem_cons, List.mem_map] at h
    split at h <;> simp_all

/-- A function reports where construction does, and where it reads what may be unassigned. -/
theorem report_mem_effects {i : Nat} {x : Diagnostic} {d : FuncDecl}
    (h : .report x ∈ effects options facts i d) : x ∈ (Construction.ofFunc facts d).diagnostics ∨
      ∃ g, (Construction.ofFunc facts d).outcome = .ok g ∧
        ∃ b, ∃ n ∈ g.nodes b, ∃ u ∈ facts.uses n, x.pos = u.pos := by
  unfold effects at h
  cases hout : (Construction.ofFunc facts d).outcome with
  | error e => simpa [hout] using h
  | ok g =>
    obtain ⟨hfailure, -, reported, hdiag, hreads⟩ :=
      Pass.runAll_standard options facts (Construction.sane_of_ofFunc hout)
    have hcases : x ∈ (Construction.ofFunc facts d).diagnostics ∨
        x ∈ reported.map Assignment.finding := by
      simpa [hout, hfailure, hdiag] using h
    refine hcases.imp_right fun hx => ⟨g, rfl, ?_⟩
    obtain ⟨u, hu, rfl⟩ := List.mem_map.1 hx
    obtain ⟨b, k, n, l, hn, huse, -⟩ := (hreads u).1 hu
    refine ⟨b, n, List.mem_of_getElem? hn, u, huse, ?_⟩
    unfold Assignment.finding
    split <;> rfl

theorem mem_tasks {i : Nat} {ds : List FuncDecl} {t : List Effect}
    (h : t ∈ tasks options facts i ds) :
    ∃ j, i ≤ j ∧ ∃ d ∈ ds, t = effects options facts j d := by
  induction ds generalizing i with
  | nil => cases h
  | cons d ds ih =>
    rcases List.mem_cons.1 h with rfl | h
    · exact ⟨i, Nat.le_refl i, d, List.mem_cons_self, rfl⟩
    · obtain ⟨j, hj, e, he, rfl⟩ := ih h
      exact ⟨j, Nat.le_of_succ_le hj, e, List.mem_cons_of_mem _ he, rfl⟩

theorem pairwise_tasks {R : List Effect → List Effect → Prop} {ds : List FuncDecl}
    (h : ds.Pairwise fun d e =>
      ∀ i j, i < j → R (effects options facts i d) (effects options facts j e)) (i : Nat) :
    (tasks options facts i ds).Pairwise R := by
  induction h generalizing i with
  | nil => exact .nil
  | cons hd _ ih =>
    refine .cons (fun t ht => ?_) (ih (i + 1))
    obtain ⟨j, hj, e, he, rfl⟩ := mem_tasks ht
    exact hd e he i j hj

/-- Every function keeps its own graph. -/
theorem keeps_apart (ds : List FuncDecl) (i k : Nat) :
    (tasks options facts i ds).Pairwise fun t u =>
      ∀ x ∈ t, ∀ y ∈ u, ¬ (x.isKeepAt k ∧ y.isKeepAt k) := by
  have hindex {i : Nat} {d : FuncDecl} {x : Effect} (hx : x ∈ effects options facts i d)
      (hk : x.isKeepAt k) : k = i := by
    cases x with
    | keep j g =>
      rw [← keep_mem_effects hx]
      simpa [Effect.isKeepAt, eq_comm] using hk
    | _ => cases hk
  refine pairwise_tasks (List.pairwise_of_forall fun d e i j hij x hx y hy hk => ?_) i
  exact Nat.ne_of_lt hij ((hindex hx hk.1).symm.trans (hindex hy hk.2))

end

/-! ### Files that are analyzed -/

section

variable {options : CheckOptions} {source : Source}

theorem errors_reportAll {b : Bag} {rs : List ParseReport} (h : rs ≠ []) :
    0 < (b.reportAll (rs.map ofParse)).errors := by
  obtain ⟨r, hr⟩ := List.exists_mem_of_ne_nil rs h
  rw [Bag.errors, Bag.items_reportAll, List.countP_pos_iff]
  refine ⟨b.promote (ofParse r), List.mem_append_right _ ?_, Bag.isError_promote rfl⟩
  exact List.mem_map_of_mem (List.mem_map_of_mem hr)

/-- What is left to do for a file that parses and resolves without a report. -/
theorem ofSource_of_clean (hparse : (Parsed.ofSource source).reports = [])
    (hresolve : (Resolution.ofFile (Parsed.ofSource source).file).reports = []) :
    ofSource options source =
      checkFuncs options.passes (Resolution.ofFile (Parsed.ofSource source).file)
        { start options source with
          analyzed := false
          funcs := []
          events := [.parsed source.file (Parsed.ofSource source).file.decls.length] } := by
  simp only [ofSource, hparse, List.map_nil]
  split
  · rename_i herrors
    exact absurd herrors (Nat.not_lt_zero 0)
  · simp only [resolve, log, report, hresolve]
    rfl

theorem analyzed_checkFunc (options : PassOptions) (facts : Facts) (c : Check) (d : FuncDecl) :
    (checkFunc options facts c d).analyzed = c.analyzed := by
  simp only [checkFunc]
  split
  · rfl
  · rfl
  · simp only [analyze]
    split <;> rfl

theorem analyzed_checkFuncs (options : PassOptions) (r : Resolution) (c : Check) :
    (c.checkFuncs options r).analyzed = true := by
  have hall (ds : List FuncDecl) (c : Check) :
      (ds.foldl (checkFunc options r.facts) c).analyzed = c.analyzed := by
    induction ds generalizing c with
    | nil => rfl
    | cons d ds ih => rw [List.foldl_cons, ih, analyzed_checkFunc]
  simp only [checkFuncs]
  split
  · rw [hall]
  · rw [log, hall]

/-- The files that are analyzed are those that parse and resolve without a report. -/
theorem analyzed_iff : (ofSource options source).analyzed = true ↔
    (Parsed.ofSource source).reports = [] ∧
      (Resolution.ofFile (Parsed.ofSource source).file).reports = [] := by
  constructor
  · intro h
    simp only [ofSource] at h
    split at h
    · cases h
    · rename_i herrors
      have hparse : (Parsed.ofSource source).reports = [] := by
        by_contra hne
        exact herrors (errors_reportAll hne)
      refine ⟨hparse, ?_⟩
      simp only [resolve] at h
      split at h
      · assumption
      · cases h
  · rintro ⟨hparse, hresolve⟩
    rw [ofSource_of_clean hparse hresolve, analyzed_checkFuncs]

/-- The tasks of a file one after the other are its check. -/
theorem abreast_ofSource (h : (ofSource options source).analyzed = true) :
    Abreast ((tasks options.passes (Resolution.ofFile (Parsed.ofSource source).file).facts 0
      (Parsed.ofSource source).file.funcs).flatten.foldl perform (start options source))
      (ofSource options source) [] := by
  obtain ⟨hparse, hresolve⟩ := analyzed_iff.1 h
  rw [ofSource_of_clean hparse hresolve]
  exact Abreast.checkFuncs ⟨rfl, rfl, rfl, rfl, rfl⟩ rfl rfl

/-- A function reports at its own places. -/
theorem pos_mem_places (h : (ofSource options source).analyzed = true) {d : FuncDecl}
    (hd : d ∈ (Parsed.ofSource source).file.funcs) {i : Nat} {x : Diagnostic}
    (hx : .report x ∈ effects options.passes
      (Resolution.ofFile (Parsed.ofSource source).file).facts i d) : x.pos ∈ d.places := by
  have hf := Parsed.file_numbered source
  obtain ⟨bodies, hlogs⟩ := Resolution.exists_logs hf.nodup_funcs (analyzed_iff.1 h).2
  rcases report_mem_effects hx with hx | ⟨g, hg, b, n, hn, u, hu, hpos⟩
  · exact Construction.pos_mem_places _ d hx
  · have hwalk : n ∈ d.walk everywhere := by
      rcases Construction.mem_carriers_of_mem_nodes hg hn with rfl | hn
      · exact Resolve.body_mem_walk d
      · exact d.carriers_sublist.subset hn
    rw [hpos]
    exact hlogs.pos_mem_places hf hd hwalk hu

theorem places_apart (h : (ofSource options source).analyzed = true) :
    (Parsed.ofSource source).file.funcs.Pairwise fun d e => d.places.Disjoint e.places :=
  List.pairwise_map.1 (Parsed.file_laid (analyzed_iff.1 h).1).apart

/-- No variable is read or assigned in two functions. -/
theorem not_concerns (h : (ofSource options source).analyzed = true) {d e : FuncDecl}
    (hd : d ∈ (Parsed.ofSource source).file.funcs) (he : e ∈ (Parsed.ofSource source).file.funcs)
    (hne : d ≠ e) {n m : Node} (hn : n ∈ d.walk everywhere) (hm : m ∈ e.walk everywhere) {v : Var}
    (hv : (Resolution.ofFile (Parsed.ofSource source).file).facts.Concerns n v) :
    ¬ (Resolution.ofFile (Parsed.ofSource source).file).facts.Concerns m v := by
  have hf := Parsed.file_numbered source
  obtain ⟨bodies, hlogs⟩ := Resolution.exists_logs hf.nodup_funcs (analyzed_iff.1 h).2
  exact fun hv' => hne (hlogs.func_eq_of_concerns hf hd he hn hm hv hv')

/-- No two functions report at one position. -/
theorem pos_ne (h : (ofSource options source).analyzed = true) {d e : FuncDecl}
    (hd : d ∈ (Parsed.ofSource source).file.funcs) (he : e ∈ (Parsed.ofSource source).file.funcs)
    (hne : d ≠ e) {i j : Nat} {x y : Diagnostic}
    (hx : .report x ∈ effects options.passes
      (Resolution.ofFile (Parsed.ofSource source).file).facts i d)
    (hy : .report y ∈ effects options.passes
      (Resolution.ofFile (Parsed.ofSource source).file).facts j e) : x.pos ≠ y.pos := by
  have hsymm : Std.Symm fun d e : FuncDecl => d.places.Disjoint e.places := ⟨fun _ _ h => h.symm⟩
  intro hpos
  have hplace := pos_mem_places h hd hx
  rw [hpos] at hplace
  exact (places_apart h).forall hd he hne hplace (pos_mem_places h he hy)

theorem reports_apart (h : (ofSource options source).analyzed = true) (p : Pos) :
    (tasks options.passes (Resolution.ofFile (Parsed.ofSource source).file).facts 0
      (Parsed.ofSource source).file.funcs).Pairwise fun t u =>
        ∀ x ∈ t, ∀ y ∈ u, ¬ (x.isReportAt p ∧ y.isReportAt p) := by
  have hplace {d : FuncDecl} (hd : d ∈ (Parsed.ofSource source).file.funcs) {i : Nat} {x : Effect}
      (hx : x ∈ effects options.passes (Resolution.ofFile (Parsed.ofSource source).file).facts i d)
      (hp : x.isReportAt p) : p ∈ d.places := by
    cases x with
    | report x =>
      have hpos : x.pos = p := by simpa [Effect.isReportAt, Effect.reported?] using hp
      exact hpos ▸ pos_mem_places h hd hx
    | _ => cases hp
  refine pairwise_tasks ((places_apart h).imp_of_mem ?_) 0
  intro d e hd he hapart i j _ x hx y hy hp
  exact hapart (hplace hd hx hp.1) (hplace he hy hp.2)

end

/-- The outcome of a check does not depend on the order in which the steps of its functions come:
the diagnostics as they are shown, their numbers, the graphs and the marks of variables and nodes
are those of one function after the other. No variable is read or assigned in two functions, and no
two functions report at one position. -/
theorem outcome_of_concurrent {options : CheckOptions} {source : Source} {c : Check}
    (h : Concurrent options source c) :
    let s := ofSource options source
    let f := (Parsed.ofSource source).file
    let facts := (Resolution.ofFile f).facts
    c.bag.sorted = s.bag.sorted ∧ c.bag.errors = s.bag.errors ∧ c.bag.warnings = s.bag.warnings ∧
      c.funcs = s.funcs ∧
      c.funcs.map CheckedFunc.endReachable = s.funcs.map CheckedFunc.endReachable ∧
      (∀ v, c.isUsed v = s.isUsed v) ∧ (∀ v, c.isSingleAssignment v = s.isSingleAssignment v) ∧
      (∀ id, c.isDead id = s.isDead id) ∧
      (s.analyzed = true → ∀ d ∈ f.funcs, ∀ e ∈ f.funcs, d ≠ e →
        (∀ n ∈ d.walk everywhere, ∀ m ∈ e.walk everywhere, ∀ v,
          facts.Concerns n v → ¬ facts.Concerns m v) ∧
        ∀ i j x y, .report x ∈ effects options.passes facts i d →
          .report y ∈ effects options.passes facts j e → x.pos ≠ y.pos) := by
  intro s f facts
  cases h with
  | stopped h =>
    exact ⟨rfl, rfl, rfl, rfl, rfl, fun _ => rfl, fun _ => rfl, fun _ => rfl, by simp [h, s]⟩
  | @analyzed log h hlog =>
    have hserial := abreast_ofSource h
    have hsorted : (log.foldl perform (start options source)).bag.sorted = s.bag.sorted := by
      rw [sorted_of_interleaves hlog (reports_apart h), hserial.bag]
    have hfuncs : (log.foldl perform (start options source)).funcs = s.funcs := by
      rw [funcs_of_interleaves hlog (keeps_apart _ _), hserial.funcs, List.map_nil,
        List.append_nil]
    obtain ⟨hused, hsingle, hdead⟩ := marks_of_interleaves hlog (start options source)
    refine ⟨hsorted, ?_, ?_, hfuncs, by rw [hfuncs], fun v => ?_, fun v => ?_, fun id => ?_,
      fun _ d hd e he hne => ⟨?_, ?_⟩⟩
    · rw [Bag.errors_eq_sorted, hsorted, ← Bag.errors_eq_sorted]
    · rw [Bag.warnings_eq_sorted, hsorted, ← Bag.warnings_eq_sorted]
    · rw [hused, isUsed, hserial.used]
      rfl
    · rw [hsingle, isSingleAssignment, hserial.reassigned]
      rfl
    · rw [hdead, isDead, hserial.dead]
      rfl
    · exact fun n hn m hm v hv => not_concerns h hd he hne hn hm hv
    · exact fun i j x y hx hy => pos_ne h hd he hne hx hy

end Check

/-- Two functions that leave unassigned what their callers read. -/
def forgetfulSource : Source :=
  .ofText "" "package p\nfunc f(out m int) \x7b \x7d\nfunc g(out n int) \x7b \x7d".toList

theorem forgetfulSource_clean : (Parsed.ofSource forgetfulSource).reports = [] ∧
    (Resolution.ofFile (Parsed.ofSource forgetfulSource).file).reports = [] ∧
    (Parsed.ofSource forgetfulSource).file.funcs.map (·.name.text) = ["f", "g"] := by
  cbv

/-- The second function is analyzed before the first. -/
theorem Check.outcome_forgetfulSource :
    let facts := (Resolution.ofFile (Parsed.ofSource forgetfulSource).file).facts
    ∃ d e, (Parsed.ofSource forgetfulSource).file.funcs = [d, e] ∧ ∃ c : Check,
      c = (effects {} facts 1 e ++ effects {} facts 0 d).foldl perform
        (start {} forgetfulSource) ∧
      Concurrent {} forgetfulSource c ∧
      c.bag.sorted = (ofSource {} forgetfulSource).bag.sorted ∧
      c.funcs = (ofSource {} forgetfulSource).funcs := by
  intro facts
  obtain ⟨hparse, hresolve, hnames⟩ := forgetfulSource_clean
  obtain ⟨d, ds, hfuncs, -, hrest⟩ := List.map_eq_cons_iff.1 hnames
  obtain ⟨e, rfl, -⟩ := List.map_eq_singleton_iff.1 hrest
  have hlog : Interleaves (tasks {} facts 0 (Parsed.ofSource forgetfulSource).file.funcs)
      (effects {} facts 1 e ++ (effects {} facts 0 d ++ [])) := by
    rw [hfuncs]
    refine @Interleaves.task _ [_] [] _ _ ?_
    refine @Interleaves.task _ [] [[]] _ _ ?_
    exact .done (by simp)
  rw [List.append_nil] at hlog
  have hc : Concurrent {} forgetfulSource _ := .analyzed (analyzed_iff.2 ⟨hparse, hresolve⟩) hlog
  obtain ⟨hsorted, -, -, hgraphs, -⟩ := outcome_of_concurrent hc
  exact ⟨d, e, hfuncs, _, rfl, hc, hsorted, hgraphs⟩

end FlowCheck
