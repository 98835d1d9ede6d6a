import FlowCheck.Proofs.Build.Course

/-!
# Outcomes of construction

Building a part either takes its course or fails within the part. Construction begins one part inside
another until it gets to a statement that fails, so a failure is a way down the tree with the state
that it is found in. What the builder does is read off here and nowhere else: facts about graphs are
inductions over courses, and facts about failures are inductions over these ways.
-/
namespace FlowCheck.Build

/-! ### Failures -/

/-- While a part is built, construction begins with another one inside it. -/
inductive Begins (facts : Facts) : List Target → Part → State → List Target → Part → State → Prop
  | braces {T : List Target} {b : Block} {s : State} :
    Begins facts T (.stmt (.block b)) s T (.block b) s
  | yes {T : List Target} {m : Mark} {test : Expr} {yes : Block} {no : Option Stmt} {s s₁ : State}
    (htest : Added facts T (.expr test) s s₁) :
    Begins facts T (.stmt (.cond m test yes no)) s T (.block yes)
      (s₁.branchedIf (facts.constant test != some false) s₁.cursor)
  | no {T : List Target} {m : Mark} {test : Expr} {yes : Block} {no : Option Stmt} {s s₁ s₂ : State}
    {made : List (Stmt × BlockId)} (htest : Added facts T (.expr test) s s₁)
    (hyes : Course facts T (.block yes)
      (s₁.branchedIf (facts.constant test != some false) s₁.cursor) made s₂) :
    Begins facts T (.stmt (.cond m test yes no)) s T (.stmts no.toList)
      (s₂.branchedIf (facts.constant test != some true) s₁.cursor)
  | loop {T : List Target} {m : Mark} {init post : Option Simple} {test : Option Expr} {body : Block}
    {c : BlockId} {s s₁ s₂ : State} {q : Option (Simple × BlockId)} (hc : s.cursor = some c)
    (hinit : AddedOption facts T (init.map fun x => .stmt (.simple x)) s s₁)
    (htest : AddedOption facts T (test.map .expr) (s₁.branched .loop s₁.cursor) s₂)
    (hq : q = post.map fun x => (x, (s₂.withBlock .afterLoop).graph.blocks.size)) :
    Begins facts T (.stmt (.loop m init test post body)) s
      (loopTargets s₁.graph.blocks.size s₂.graph.blocks.size q T) (.block body)
      ((s₂.laidOut post).opened (test.elim (some true) facts.constant) test.isSome
        s₂.graph.blocks.size)
  | foreach {T : List Target} {m : Mark} {v : Ident} {operand : Expr} {body : Block} {s s₁ : State}
    (hoperand : Added facts T (.expr operand) s s₁) :
    Begins facts T (.stmt (.foreach m v operand body)) s
      (loopTargets s₁.graph.blocks.size (s₁.withBlock .loop).graph.blocks.size none T) (.block body)
      (s₁.iterated (.stmt (.foreach m v operand body)))
  | switch {T : List Target} {m : Mark} {tag : Expr} {sections : List CaseClause} {close : Pos}
    {s s₁ : State}
    (htag : Added facts (.landing .loopEnd s.graph.blocks.size :: T) (.expr tag) (s.withBlock .join)
      s₁) :
    Begins facts T (.stmt (.switch m tag sections close)) s
      (.landing .loopEnd s.graph.blocks.size :: T)
      (.sections s₁.cursor s.graph.blocks.size sections) s₁
  | cleanup {T : List Target} {m : Mark} {body : Block} {clauses : List CatchClause}
    {cleanup : Option Block} {c : BlockId} {s : State} (hc : s.cursor = some c) :
    Begins facts T (.stmt (.attempt m body clauses cleanup)) s T (.cleanup cleanup none)
      (s.withBlock .join)
  | body {T : List Target} {m : Mark} {body : Block} {clauses : List CatchClause}
    {cleanup : Option Block} {c : BlockId} {s s₁ s₂ : State} {cl : Option Target}
    {hs : List (ErrorType × BlockId)} {made : List (Stmt × BlockId)} (hc : s.cursor = some c)
    (hcleanup : Course facts T (.cleanup cleanup cl) (s.withBlock .join) made s₁)
    (hready : Prepared facts clauses s₁ hs s₂) :
    Begins facts T (.stmt (.attempt m body clauses cleanup)) s
      (handlerTargets hs ++ (cl.toList ++ T)) (.block body) (s₂.movedTo (some c))
  | clauses {T : List Target} {m : Mark} {body : Block} {clauses : List CatchClause}
    {cleanup : Option Block} {c : BlockId} {s s₁ s₂ s₃ s₄ : State} {cl : Option Target}
    {hs : List (ErrorType × BlockId)} {made₁ made₂ : List (Stmt × BlockId)} (hc : s.cursor = some c)
    (hcleanup : Course facts T (.cleanup cleanup cl) (s.withBlock .join) made₁ s₁)
    (hready : Prepared facts clauses s₁ hs s₂)
    (hbody : Course facts (handlerTargets hs ++ (cl.toList ++ T)) (.block body)
      (s₂.movedTo (some c)) made₂ s₃)
    (hleave : Left cl s.graph.blocks.size s₃ s₄) :
    Begins facts T (.stmt (.attempt m body clauses cleanup)) s (cl.toList ++ T)
      (.clauses cl s.graph.blocks.size [] hs clauses) s₄
  | barrier {T : List Target} {b : Block} {s : State} :
    Begins facts T (.cleanup (some b) none) s (.barrier :: T) (.block b)
      ((s.withBlock .cleanup).movedTo (some s.graph.blocks.size))
  | head {T : List Target} {x : Stmt} {xs : List Stmt} {s : State} :
    Begins facts T (.stmts (x :: xs)) s T (.stmt x) s
  | tail {T : List Target} {x : Stmt} {xs : List Stmt} {s s₁ : State} {made : List (Stmt × BlockId)}
    (hx : Course facts T (.stmt x) s made s₁) :
    Begins facts T (.stmts (x :: xs)) s T (.stmts xs) s₁
  | block {T : List Target} {m : Mark} {xs : List Stmt} {close : Pos} {s : State} :
    Begins facts T (.block (.mk m xs close)) s T (.stmts xs) (s.markedHere m)
  | section {T : List Target} {tagEnd : Option BlockId} {after : BlockId} {m : Mark}
    {values : List Expr} {isDefault : Bool} {body : List Stmt} {cs : List CaseClause} {s s₁ : State}
    (hlabels : Added facts T (.caseClause (.mk m values isDefault body)) (s.branched .branch tagEnd)
      s₁) :
    Begins facts T (.sections tagEnd after (.mk m values isDefault body :: cs)) s T (.stmts body) s₁
  | sections {T : List Target} {tagEnd : Option BlockId} {after : BlockId} {m : Mark}
    {values : List Expr} {isDefault : Bool} {body : List Stmt} {cs : List CaseClause}
    {s s₁ s₂ : State} {made : List (Stmt × BlockId)}
    (hlabels : Added facts T (.caseClause (.mk m values isDefault body)) (s.branched .branch tagEnd)
      s₁)
    (hbody : Course facts T (.stmts body) s₁ made s₂) :
    Begins facts T (.sections tagEnd after (.mk m values isDefault body :: cs)) s T
      (.sections tagEnd after cs) (s₂.fallenThrough m after)
  | clause {T : List Target} {cl : Option Target} {after b : BlockId} {before : List ErrorType}
    {a : ErrorType} {hs : List (ErrorType × BlockId)} {c : CatchClause} {cs : List CatchClause}
    {s : State} (hb : s.graph.preds b ≠ []) :
    Begins facts T (.clauses cl after before ((a, b) :: hs) (c :: cs)) s T (.block c.body)
      (((s.compared before a c.mark).movedTo (some b)).withNode b (.catchClause c))
  | uncaught {T : List Target} {cl : Option Target} {after b : BlockId} {before : List ErrorType}
    {a : ErrorType} {hs : List (ErrorType × BlockId)} {c : CatchClause} {cs : List CatchClause}
    {s : State} (hb : s.graph.preds b = []) :
    Begins facts T (.clauses cl after before ((a, b) :: hs) (c :: cs)) s T
      (.clauses cl after (a :: before) hs cs) ((s.compared before a c.mark).uncaught c)
  | caught {T : List Target} {cl : Option Target} {after b : BlockId} {before : List ErrorType}
    {a : ErrorType} {hs : List (ErrorType × BlockId)} {c : CatchClause} {cs : List CatchClause}
    {s s₁ s₂ : State} {made : List (Stmt × BlockId)} (hb : s.graph.preds b ≠ [])
    (hbody : Course facts T (.block c.body)
      (((s.compared before a c.mark).movedTo (some b)).withNode b (.catchClause c)) made s₁)
    (hleave : Left cl after s₁ s₂) :
    Begins facts T (.clauses cl after before ((a, b) :: hs) (c :: cs)) s T
      (.clauses cl after (a :: before) hs cs) s₂

/-- Building the part fails, in a single statement inside it. -/
inductive Fails (facts : Facts) : List Target → Part → State → Aborted → State → Prop
  | single {T : List Target} {x : Stmt} {s s' : State} {e : Aborted} (hx : x.Single)
    (hb : ∃ b, s.cursor = some b) (h : stmt facts T x s = .error e s') :
    Fails facts T (.stmt x) s e s'
  | within {T T' : List Target} {p q : Part} {s s₁ s' : State} {e : Aborted}
    (h : Begins facts T p s T' q s₁) (hq : Fails facts T' q s₁ e s') : Fails facts T p s e s'

section

variable {facts : Facts} {T T' : List Target} {p q : Part} {s s' : State} {e : Aborted} {b : BlockId}

/-- A single statement that fails: a jump that is refused, or a return that finds no target. -/
inductive SingleFailed (T : List Target) (x : Stmt) (s : State) : Aborted → State → Prop
  | barred {k : Exit} {s₁ s₂ : State} (hk : x.exit? = some k) (hplaced : Placed T (.stmt x) s s₁)
    (hbarred : Barred k T) (hd : Departed s₁.cursor T s₁ s₂) :
    SingleFailed T x s .jumpOutOfFinally (s₂.reported .jumpOutOfFinally x.mark.pos
      "jump out of finally block not permitted")
  | lost {s' : State} (hbarrier : .barrier ∉ T) (hlanding : ∀ b, .landing .functionEnd b ∉ T) :
    SingleFailed T x s .returnWithoutTarget s'

theorem failed_jump {m : Mark} {kind : Jump} (hb : s.cursor = some b)
    (h : jumpStmt T m kind s = .error e s') : SingleFailed T (.jump m kind) s e s' := by
  obtain ⟨text, hjump⟩ := exists_jumpStmt T m kind
  rw [hjump] at h
  obtain ⟨_, s₁, hadd, h⟩ := (completes_add hb _).error h
  rcases error_bind.mp h with h | ⟨found, s₂, -, h⟩
  · obtain ⟨rfl, hbarred, s₂, hd, rfl⟩ := refused_jump h
    exact .barred rfl (placed_add hb hadd) hbarred hd
  · cases found <;> cases h

theorem failed_ret {m : Mark} {result : Option Expr} (hb : s.cursor = some b)
    (h : (do
      addNode facts T (.stmt (.ret m result))
      if !(← jump m.pos .functionEnd T) then throw Aborted.returnWithoutTarget) s = .error e s') :
    SingleFailed T (.ret m result) s e s' := by
  obtain ⟨_, s₁, hadd, h⟩ := (completes_addNode facts T hb _).error h
  have hplaced := Added.placed ⟨⟨b, hb⟩, hadd⟩
  rcases error_bind.mp h with h | ⟨found, s₂, hjump, h⟩
  · obtain ⟨rfl, hbarred, s₂, hd, rfl⟩ := refused_jump h
    exact .barred rfl hplaced hbarred hd
  · cases found with
    | true => cases h
    | false =>
      obtain ⟨hbarrier, hlanding⟩ := lost_jump hjump
      cases h
      exact .lost hbarrier hlanding

theorem Completes.not_error {α : Type} {m : Builder α} (hm : Completes m s) : m s ≠ .error e s' := by
  obtain ⟨a, s₁, ha⟩ := hm
  simp [ha]

theorem singleFailed {x : Stmt} (hx : x.Single) (hb : s.cursor = some b)
    (h : stmt facts T x s = .error e s') : SingleFailed T x s e s' := by
  cases x with
  | simple x =>
    rw [stmt, whenReached_of_some hb] at h
    exact absurd h (completes_addNode facts T hb _).not_error
  | var m d =>
    rw [stmt, whenReached_of_some hb] at h
    exact absurd h (completes_addNode facts T hb _).not_error
  | jump m kind =>
    rw [stmt, whenReached_of_some hb] at h
    exact failed_jump hb h
  | ret m result =>
    rw [stmt, whenReached_of_some hb] at h
    exact failed_ret hb h
  | raise m y =>
    rw [stmt, whenReached_of_some hb] at h
    exact absurd h (completes_addRaising facts T hb _).not_error
  | _ => cases hx

theorem Begins.grounded (h : Begins facts T p s T' q s') (hground : Grounded T) : Grounded T' := by
  cases h with
  | loop | foreach => exact hground.append [_, _]
  | switch | barrier => exact hground.append [_]
  | body => exact (hground.append _).append _
  | clauses => exact hground.append _
  | _ => exact hground

/-- Under targets for errors and returns, construction fails on a refused jump only. -/
theorem Fails.error_eq (h : Fails facts T p s e s') (hground : Grounded T) : e = .jumpOutOfFinally := by
  induction h with
  | single hx hb h =>
    obtain ⟨b, hb⟩ := hb
    cases singleFailed hx hb h with
    | barred => rfl
    | lost hbarrier hlanding =>
      obtain ⟨b, hret⟩ := hground.ret.resolve_left hbarrier
      exact absurd hret (hlanding b)
  | within h _ ih => exact ih (h.grounded hground)

end

/-! ### Building a part -/

/-- The builder takes the course of the part, or fails within it. -/
def Constructs (facts : Facts) (T : List Target) (p : Part) (m : Builder Unit) (s : State) : Prop :=
  Results m s (fun _ s' => ∃ made, Course facts T p s made s') (Fails facts T p s)

/-- The same of a `finally` block, which becomes a target. -/
def Cleans (facts : Facts) (T : List Target) (b : Option Block) (s : State) : Prop :=
  Results (cleanupOption facts T b) s (fun cl s' => ∃ made, Course facts T (.cleanup b cl) s made s')
    (Fails facts T (.cleanup b none) s)

theorem Course.eq_cleanup {facts : Facts} {T : List Target} {b : Option Block} {cl : Option Target}
    {s s' : State} {made : List (Stmt × BlockId)} (h : Course facts T (.cleanup b cl) s made s') :
    ∀ t, cl = some t → ∃ entry last, t = .cleanup entry last := by
  cases h with
  | noCleanup => simp
  | cleanup => simp

section

variable {facts : Facts} {T T' : List Target} {p q : Part} {s s₁ : State} {m : Builder Unit}

/-- What remains after a part inside has been built. -/
theorem Constructs.within {α : Type} {f : Unit → Builder α} {Q : α → State → Prop}
    (hq : Constructs facts T' q m s₁) (hbegin : Begins facts T p s T' q s₁)
    (hrest : ∀ made s₂, Course facts T' q s₁ made s₂ → Results (f ()) s₂ Q (Fails facts T p s)) :
    Results (m >>= f) s₁ Q (Fails facts T p s) := by
  refine results_bind.mpr (Results.mono hq ?_ fun _ _ => .within hbegin)
  rintro _ s₂ ⟨made, hcourse⟩
  exact hrest made s₂ hcourse

/-- The part inside is the last one. -/
theorem Constructs.last (hq : Constructs facts T' q m s₁) (hbegin : Begins facts T p s T' q s₁)
    (hrest : ∀ made s₂, Course facts T' q s₁ made s₂ → ∃ made, Course facts T p s made s₂) :
    Results m s₁ (fun _ s' => ∃ made, Course facts T p s made s') (Fails facts T p s) := by
  refine Results.mono hq ?_ fun _ _ => .within hbegin
  rintro _ s₂ ⟨made, hcourse⟩
  exact hrest made s₂ hcourse

theorem constructs_whenReached {x : Stmt} (hx : x.Watched)
    (h : ∀ b, s.cursor = some b → Constructs facts T (.stmt x) m s) :
    Constructs facts T (.stmt x) (whenReached (.stmt x) m) s := by
  cases hc : s.cursor with
  | none => exact results_of_ok (whenReached_of_none hc m) ⟨[], .skipped hx hc⟩
  | some b => exact .of_eq (whenReached_of_some hc m) (h b hc)

end

/-! ### Statements -/

section

variable {facts : Facts} {T : List Target} {m : Mark}

theorem constructs_empty (s : State) :
    Constructs facts T (.stmt (.empty m)) (stmt facts T (.empty m)) s := by
  rw [stmt]
  exact results_of_ok (ok_markHere m s) ⟨[], .empty⟩

theorem constructs_single {x : Stmt} (hx : x.Single) (s : State) :
    Constructs facts T (.stmt x) (stmt facts T x) s := by
  cases hc : s.cursor with
  | none =>
    have hwatched : x.Watched ∧ stmt facts T x s = .ok () (s.skipped (.stmt x)) := by
      cases x with
      | simple x => exact ⟨trivial, by rw [stmt, whenReached_of_none hc]⟩
      | var m d => exact ⟨trivial, by rw [stmt, whenReached_of_none hc]⟩
      | jump m kind => exact ⟨trivial, by rw [stmt, whenReached_of_none hc]⟩
      | ret m result => exact ⟨trivial, by rw [stmt, whenReached_of_none hc]⟩
      | raise m y => exact ⟨trivial, by rw [stmt, whenReached_of_none hc]⟩
      | _ => cases hx
    exact results_of_ok hwatched.2 ⟨[], .skipped hwatched.1 hc⟩
  | some b =>
    cases h : stmt facts T x s with
    | ok _ s' => exact results_of_ok h ⟨[], .single ⟨hx, ⟨b, hc⟩, h⟩⟩
    | error e s' => exact results_of_error h (.single hx ⟨b, hc⟩ h)

theorem constructs_cond {test : Expr} {yes : Block} {no : Option Stmt}
    (hyes : ∀ s, Constructs facts T (.block yes) (block facts T yes) s)
    (hno : ∀ s, Constructs facts T (.stmts no.toList) (stmtOption facts T no) s) (s : State) :
    Constructs facts T (.stmt (.cond m test yes no)) (stmt facts T (.cond m test yes no)) s := by
  rw [stmt]
  refine constructs_whenReached trivial fun b hb => ?_
  refine (completes_addNode facts T hb _).results fun _ s₁ hadd => ?_
  have htest : Added facts T (.expr test) s s₁ := ⟨⟨b, hb⟩, hadd⟩
  refine .step (show cursor s₁ = .ok s₁.cursor s₁ from rfl) (.step (ok_branchIf _ _ _) ?_)
  refine (hyes _).within (.yes htest) fun made₁ s₂ hyes => ?_
  refine .step (show cursor s₂ = .ok s₂.cursor s₂ from rfl) (.step (ok_branchIf _ _ _) ?_)
  refine (hno _).within (.no htest hyes) fun made₂ s₃ hno => ?_
  refine .step (show cursor s₃ = .ok s₃.cursor s₃ from rfl) (results_of_ok (ok_join _ _ _) ?_)
  exact ⟨_, .cond htest hyes hno⟩

/-! ### Loops -/

/-- What a loop does from the end of its test on. -/
def turns (facts : Facts) (T : List Target) (value : Option Bool) (tested : Bool)
    (header : BlockId) (post : Option Simple) (body : Block) : Builder Unit := do
  let testEnd ← cursor
  let after ← newBlock .afterLoop
  let post ← post.mapM fun s => return (s, ← newBlock .post)
  if value != some true then connect testEnd after
  if tested then branchIf (value != some false) testEnd
  block facts (loopTargets header after post T) body
  closeRound facts (loopTargets header after post T) header post
  goOnIfEntered after

theorem stmt_loop (m : Mark) (init : Option Simple) (test : Option Expr) (post : Option Simple)
    (body : Block) :
    stmt facts T (.loop m init test post body) =
      whenReached (.stmt (.loop m init test post body)) (do
        addOption facts T (init.map fun s => .stmt (.simple s))
        let header ← newBlock .loop
        connectHere header
        goOn (some header)
        addOption facts T (test.map .expr)
        turns facts T (test.elim (some true) facts.constant) test.isSome header post body) := by
  rw [stmt]
  cases init <;> cases test <;> rfl

/-- Whether or not there is a post statement, the blocks of a loop are laid out, they are opened, and
the same remains to be done. -/
theorem turns_eq (facts : Facts) (T : List Target) (value : Option Bool) (tested : Bool)
    (header : BlockId) (post : Option Simple) (body : Block) (s : State) :
    turns facts T value tested header post body s =
      let q := post.map fun x => (x, (s.withBlock .afterLoop).graph.blocks.size)
      (do
        block facts (loopTargets header s.graph.blocks.size q T) body
        closeRound facts (loopTargets header s.graph.blocks.size q T) header q
        goOnIfEntered s.graph.blocks.size)
      ((s.laidOut post).opened value tested s.graph.blocks.size) := by
  unfold turns State.opened
  cases post <;> cases value != some true <;> cases tested <;> try rfl
  all_goals cases value != some false <;> rfl

theorem constructs_loop {init post : Option Simple} {test : Option Expr} {body : Block}
    (hbody : ∀ T s, Constructs facts T (.block body) (block facts T body) s) (s : State) :
    Constructs facts T (.stmt (.loop m init test post body))
      (stmt facts T (.loop m init test post body)) s := by
  rw [stmt_loop]
  refine constructs_whenReached trivial fun b hb => ?_
  refine (completes_addOption facts T hb _).results fun _ s₁ hinit => ?_
  have hinit := added_addOption hb hinit
  refine .of_eq (k := addOption facts T (test.map .expr) >>= fun _ => turns facts T
    (test.elim (some true) facts.constant) test.isSome s₁.graph.blocks.size post body)
    (t := s₁.branched .loop s₁.cursor) rfl ?_
  refine (completes_addOption facts T rfl _).results fun _ s₂ htest => ?_
  have htest := added_addOption rfl htest
  refine .of_eq (turns_eq ..) ((hbody _ _).within (.loop hb hinit htest rfl) fun made s₃ hbody => ?_)
  refine (completes_closeRound facts _ _ _ s₃).results fun _ s₄ hround => ?_
  exact results_of_ok rfl ⟨made, .loop hb hinit htest rfl hbody (closes_closeRound hround)⟩

theorem constructs_foreach {v : Ident} {operand : Expr} {body : Block}
    (hbody : ∀ T s, Constructs facts T (.block body) (block facts T body) s) (s : State) :
    Constructs facts T (.stmt (.foreach m v operand body))
      (stmt facts T (.foreach m v operand body)) s := by
  rw [stmt]
  refine constructs_whenReached trivial fun b hb => ?_
  refine (completes_addNode facts T hb _).results fun _ s₁ hadd => ?_
  have hoperand : Added facts T (.expr operand) s s₁ := ⟨⟨b, hb⟩, hadd⟩
  refine .of_eq (k := block facts (loopTargets s₁.graph.blocks.size
      (s₁.withBlock .loop).graph.blocks.size none T) body >>= fun _ =>
      connectHere s₁.graph.blocks.size >>= fun _ =>
      goOn (some (s₁.withBlock .loop).graph.blocks.size))
    (t := s₁.iterated (.stmt (.foreach m v operand body))) rfl ?_
  refine (hbody _ _).within (.foreach hoperand) fun made s₂ hbody => ?_
  exact results_of_ok rfl ⟨made, .foreach hoperand hbody⟩

/-! ### Switches -/

theorem constructs_switch {tag : Expr} {sections : List CaseClause} {close : Pos}
    (hsections : ∀ T tagEnd after s, Constructs facts T (.sections tagEnd after sections)
      (sectionList facts T tagEnd after sections) s) (s : State) :
    Constructs facts T (.stmt (.switch m tag sections close))
      (stmt facts T (.switch m tag sections close)) s := by
  rw [stmt]
  refine constructs_whenReached trivial fun b hb => ?_
  refine .step (show newBlock .join s = .ok s.graph.blocks.size (s.withBlock .join) from rfl) ?_
  refine (completes_addNode facts _ (s := s.withBlock .join) hb _).results fun _ s₁ hadd => ?_
  have htag : Added facts _ (.expr tag) (s.withBlock .join) s₁ := ⟨⟨b, hb⟩, hadd⟩
  refine .step (show cursor s₁ = .ok s₁.cursor s₁ from rfl) ?_
  refine (hsections _ _ _ _).within (.switch htag) fun made s₂ hsections => ?_
  refine results_of_ok (a := ()) (t := (s₂.defaulted sections s₁.cursor s.graph.blocks.size).movedTo
    (Onward.cursor (s₂.defaulted sections s₁.cursor s.graph.blocks.size).graph
      s.graph.blocks.size)) ?_ ⟨made, .switch htag hsections⟩
  unfold State.defaulted
  split_ifs <;> rfl

theorem constructs_noSections (tagEnd : Option BlockId) (after : BlockId) (s : State) :
    Constructs facts T (.sections tagEnd after []) (sectionList facts T tagEnd after []) s := by
  rw [sectionList]
  exact results_of_ok rfl ⟨[], .noSections⟩

/-- The end of a switch section: without a jump it is reported and left. -/
theorem endSection_eq (m : Mark) (after : BlockId) (rest : Builder Unit) (s : State) :
    (do
      if (← cursor).isSome then
        report .error .missingBreak m.pos "missing break statement at end of switch section"
        connectHere after
      rest) s = rest (s.fallenThrough m after) := by
  rw [bind_of_ok (show cursor s = .ok s.cursor s from rfl), State.fallenThrough]
  split_ifs <;> rfl

theorem constructs_sections {tagEnd : Option BlockId} {after : BlockId} {values : List Expr}
    {isDefault : Bool} {body : List Stmt} {cs : List CaseClause}
    (hbody : ∀ s, Constructs facts T (.stmts body) (stmtList facts T body) s)
    (hcs : ∀ s, Constructs facts T (.sections tagEnd after cs)
      (sectionList facts T tagEnd after cs) s) (s : State) :
    Constructs facts T (.sections tagEnd after (.mk m values isDefault body :: cs))
      (sectionList facts T tagEnd after (.mk m values isDefault body :: cs)) s := by
  rw [sectionList]
  refine .step (show branch .branch tagEnd s = .ok () (s.branched .branch tagEnd) from rfl) ?_
  refine (completes_addNode facts T (s := s.branched .branch tagEnd) rfl _).results
    fun _ s₁ hadd => ?_
  have hlabels : Added facts T (.caseClause (.mk m values isDefault body)) _ s₁ := ⟨⟨_, rfl⟩, hadd⟩
  refine (hbody s₁).within (.section hlabels) fun made₁ s₂ hbody => ?_
  refine .of_eq (endSection_eq m after _ s₂) ?_
  exact (hcs _).last (.sections hlabels hbody) fun made₂ s₃ hcs => ⟨_, .sections hlabels hbody hcs⟩

/-! ### Try statements -/

theorem constructs_attempt {body : Block} {clauses : List CatchClause} {cleanup : Option Block}
    (hcleanup : ∀ s, Cleans facts T cleanup s)
    (hbody : ∀ T s, Constructs facts T (.block body) (block facts T body) s)
    (hclauses : ∀ T cl after before hs s, (∀ t, cl = some t → ∃ entry last, t = .cleanup entry last) →
      hs.length = clauses.length → Constructs facts T (.clauses cl after before hs clauses)
        (handlerList facts T cl after before hs clauses) s) (s : State) :
    Constructs facts T (.stmt (.attempt m body clauses cleanup))
      (stmt facts T (.attempt m body clauses cleanup)) s := by
  rw [stmt]
  refine constructs_whenReached trivial fun b hb => ?_
  refine .step (show cursor s = .ok s.cursor s from rfl) ?_
  refine .step (show newBlock .join s = .ok s.graph.blocks.size (s.withBlock .join) from rfl) ?_
  refine results_bind.mpr ((hcleanup _).mono ?_ fun _ _ => .within (.cleanup hb))
  rintro cl s₁ ⟨made₁, hcleanup⟩
  refine (completes_handlers facts clauses s₁).results fun H s₂ hready => ?_
  have hready := prepared_handlers hready
  rw [hb, map_handler]
  refine .step (show goOn (some b) s₂ = .ok () (s₂.movedTo (some b)) from rfl) ?_
  refine (hbody _ _).within (.body hb hcleanup hready) fun made₂ s₃ hbody => ?_
  refine (completes_leaveAttempt cl _ s₃).results fun _ s₄ hleave => ?_
  have hleave : Left cl s.graph.blocks.size s₃ s₄ := ⟨hcleanup.eq_cleanup, hleave⟩
  refine (hclauses _ cl _ [] _ s₄ hcleanup.eq_cleanup hready.length_eq).within
    (.clauses hb hcleanup hready hbody hleave) fun made₃ s₅ hclauses => ?_
  exact results_of_ok rfl ⟨_, .attempt hb hcleanup hready hbody hleave hclauses⟩

theorem cleans_none (s : State) : Cleans facts T none s := by
  unfold Cleans
  rw [cleanupOption]
  exact results_of_ok rfl ⟨[], .noCleanup⟩

theorem cleans_some {b : Block}
    (hb : ∀ T s, Constructs facts T (.block b) (block facts T b) s) (s : State) :
    Cleans facts T (some b) s := by
  unfold Cleans
  rw [cleanupOption]
  refine .step (show newBlock .cleanup s = .ok s.graph.blocks.size (s.withBlock .cleanup) from rfl) ?_
  refine .step (t := (s.withBlock .cleanup).movedTo (some s.graph.blocks.size)) rfl ?_
  refine (hb _ _).within .barrier fun made s₂ hb => ?_
  exact results_of_ok rfl ⟨made, .cleanup hb⟩

theorem constructs_noClauses (cl : Option Target) (after : BlockId) (before : List ErrorType)
    (s : State) : Constructs facts T (.clauses cl after before [] [])
      (handlerList facts T cl after before [] []) s := by
  rw [handlerList]
  · exact results_of_ok rfl ⟨[], .noClauses⟩
  · simp

/-- The beginning of a handler: one for errors that are handled already is reported. -/
theorem compare_eq (before : List ErrorType) (a : ErrorType) (m : Mark) (rest : Builder Unit)
    (s : State) :
    (do
      if before.contains a then
        report .error .doubleCatch m.pos "double catch clause of same error detected"
      rest) s = rest (s.compared before a m) := by
  rw [State.compared]
  split_ifs <;> rfl

theorem constructs_clauses {cl : Option Target} {after b : BlockId} {before : List ErrorType}
    {a : ErrorType} {hs : List (ErrorType × BlockId)} {param : Option (Ident × Expr)} {body : Block}
    {cs : List CatchClause} (hcl : ∀ t, cl = some t → ∃ entry last, t = .cleanup entry last)
    (hbody : ∀ s, Constructs facts T (.block body) (block facts T body) s)
    (hcs : ∀ s, Constructs facts T (.clauses cl after (a :: before) hs cs)
      (handlerList facts T cl after (a :: before) hs cs) s) (s : State) :
    Constructs facts T (.clauses cl after before ((a, b) :: hs) (.mk m param body :: cs))
      (handlerList facts T cl after before ((a, b) :: hs) (.mk m param body :: cs)) s := by
  rw [handlerList]
  refine .of_eq (compare_eq ..) ?_
  obtain ⟨hgraph, -⟩ := compared_spec s before a m
  refine .step (a := s.graph.preds b) (by rw [← hgraph]; rfl) ?_
  split_ifs with hpreds
  · refine .of_eq (k := handlerList facts T cl after (a :: before) hs cs)
      (t := (s.compared before a m).uncaught (.mk m param body)) rfl ?_
    have hb := List.isEmpty_iff.mp hpreds
    exact (hcs _).last (.uncaught hb) fun made s' hcs => ⟨made, .uncaught hb hcs⟩
  · have hb : s.graph.preds b ≠ [] := fun h => hpreds (List.isEmpty_iff.mpr h)
    refine .step (t := (s.compared before a m).movedTo (some b)) rfl ?_
    refine .step (t := ((s.compared before a m).movedTo (some b)).withNode b
      (.catchClause (.mk m param body))) rfl ?_
    refine (hbody _).within (.clause hb) fun made₁ s₁ hbody => ?_
    refine (completes_leaveAttempt cl after s₁).results fun _ s₂ hleave => ?_
    have hleave : Left cl after s₁ s₂ := ⟨hcl, hleave⟩
    exact (hcs s₂).last (.caught hb hbody hleave) fun made₂ s' hcs => ⟨_, .caught hb hbody hleave hcs⟩

/-! ### Lists and blocks -/

theorem constructs_nil (s : State) : Constructs facts T (.stmts []) (stmtList facts T []) s := by
  rw [stmtList]
  exact results_of_ok rfl ⟨[], .nil⟩

theorem constructs_cons {x : Stmt} {xs : List Stmt}
    (hx : ∀ s, Constructs facts T (.stmt x) (stmt facts T x) s)
    (hxs : ∀ s, Constructs facts T (.stmts xs) (stmtList facts T xs) s) (s : State) :
    Constructs facts T (.stmts (x :: xs)) (stmtList facts T (x :: xs)) s := by
  rw [stmtList]
  refine (hx s).within .head fun made₁ s₁ hx => ?_
  exact (hxs s₁).last (.tail hx) fun made₂ s' hxs => ⟨_, .cons hx hxs⟩

theorem constructs_block_mk {xs : List Stmt} {close : Pos}
    (hxs : ∀ s, Constructs facts T (.stmts xs) (stmtList facts T xs) s) (s : State) :
    Constructs facts T (.block (.mk m xs close)) (block facts T (.mk m xs close)) s := by
  rw [block]
  refine .step (ok_markHere m s) ?_
  exact (hxs _).last .block fun made s' hxs => ⟨made, .block hxs⟩

end

/-! ### All parts -/

mutual

theorem constructs_stmt (facts : Facts) (T : List Target) : (x : Stmt) → (s : State) →
    Constructs facts T (.stmt x) (stmt facts T x) s
  | .empty _, s => constructs_empty s
  | .block b, s => by
    rw [stmt]
    exact (constructs_block facts T b s).last .braces fun made s' h => ⟨made, .braces h⟩
  | .simple x, s => constructs_single (x := .simple x) trivial s
  | .var m d, s => constructs_single (x := .var m d) trivial s
  | .jump m kind, s => constructs_single (x := .jump m kind) trivial s
  | .ret m result, s => constructs_single (x := .ret m result) trivial s
  | .raise m y, s => constructs_single (x := .raise m y) trivial s
  | .cond _ _ yes no, s =>
    constructs_cond (constructs_block facts T yes) (constructs_stmtOption facts T no) s
  | .loop _ _ _ _ body, s => constructs_loop (fun T => constructs_block facts T body) s
  | .foreach _ _ _ body, s => constructs_foreach (fun T => constructs_block facts T body) s
  | .switch _ _ sections _, s => constructs_switch (fun T tagEnd after =>
    constructs_sectionList facts T tagEnd after sections) s
  | .attempt _ body clauses cleanup, s =>
    constructs_attempt (cleans_cleanupOption facts T cleanup)
      (fun T => constructs_block facts T body) (fun T cl after before hs s hcl hlen =>
        constructs_handlerList facts T hcl after before hs clauses hlen s) s

theorem constructs_stmtOption (facts : Facts) (T : List Target) : (x : Option Stmt) → (s : State) →
    Constructs facts T (.stmts x.toList) (stmtOption facts T x) s
  | none, s => by
    rw [stmtOption]
    exact results_of_ok rfl ⟨[], .nil⟩
  | some x, s => by
    rw [stmtOption]
    exact (constructs_stmt facts T x s).last .head fun made s' h => ⟨_, .cons h .nil⟩

theorem constructs_stmtList (facts : Facts) (T : List Target) : (xs : List Stmt) → (s : State) →
    Constructs facts T (.stmts xs) (stmtList facts T xs) s
  | [], s => constructs_nil s
  | x :: xs, s => constructs_cons (constructs_stmt facts T x) (constructs_stmtList facts T xs) s

theorem constructs_block (facts : Facts) (T : List Target) : (b : Block) → (s : State) →
    Constructs facts T (.block b) (block facts T b) s
  | .mk _ xs _, s => constructs_block_mk (constructs_stmtList facts T xs) s

theorem cleans_cleanupOption (facts : Facts) (T : List Target) : (b : Option Block) → (s : State) →
    Cleans facts T b s
  | none, s => cleans_none s
  | some b, s => cleans_some (fun T => constructs_block facts T b) s

theorem constructs_sectionList (facts : Facts) (T : List Target) (tagEnd : Option BlockId)
    (after : BlockId) : (cs : List CaseClause) → (s : State) →
    Constructs facts T (.sections tagEnd after cs) (sectionList facts T tagEnd after cs) s
  | [], s => constructs_noSections tagEnd after s
  | .mk _ _ _ body :: cs, s => constructs_sections (constructs_stmtList facts T body)
    (constructs_sectionList facts T tagEnd after cs) s

theorem constructs_handlerList (facts : Facts) (T : List Target) {cl : Option Target}
    (hcl : ∀ t, cl = some t → ∃ entry last, t = .cleanup entry last) (after : BlockId)
    (before : List ErrorType) (hs : List (ErrorType × BlockId)) (cs : List CatchClause)
    (hlen : hs.length = cs.length) (s : State) :
    Constructs facts T (.clauses cl after before hs cs) (handlerList facts T cl after before hs cs)
      s := by
  match hs, cs with
  | [], [] => exact constructs_noClauses cl after before s
  | (a, b) :: hs, .mk _ _ body :: cs =>
    exact constructs_clauses hcl (constructs_block facts T body)
      (constructs_handlerList facts T hcl after (a :: before) hs cs (Nat.succ_inj.mp hlen)) s

end

end FlowCheck.Build
