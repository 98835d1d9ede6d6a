import FlowCheck.Proofs.Build.Record

/-!
# Jumps out of `finally` blocks

A jump may not leave the innermost `finally` block around it. Which jumps would is a matter of the
statements alone. `Offends` says the same of a part that is built under targets: the ones that stand
for loops and `finally` blocks around the part take the place of these statements. Where a part has
been built, whatever offends in it is dead.
-/
namespace FlowCheck

/-- The statement is a jump or a return that leaves the `finally` block of a try statement among the
nodes, and this `finally` block is the innermost one around it. -/
def Escapes (w : List Node) (y : Stmt) : Prop :=
  ∃ x b k, .stmt x ∈ w ∧ x.cleanup? = some b ∧ y ∈ b.outbound k

section

variable {y : Stmt} {w v : List Node} {n : Node}

theorem escapes_append : Escapes (w ++ v) y ↔ Escapes w y ∨ Escapes v y := by
  simp only [Escapes, List.mem_append, or_and_right, exists_or]

theorem escapes_cons : Escapes (n :: w) y ↔
    (∃ x b k, .stmt x = n ∧ x.cleanup? = some b ∧ y ∈ b.outbound k) ∨ Escapes w y := by
  simp only [Escapes, List.mem_cons, or_and_right, exists_or]

/-- Only the try statements with a `finally` block matter. -/
theorem escapes_iff_attempts :
    Escapes w y ↔ ∃ x ∈ attempts w, ∃ b k, x.cleanup? = some b ∧ y ∈ b.outbound k := by
  constructor
  · rintro ⟨x, b, k, hx, hb, hy⟩
    exact ⟨x, mem_attempts.mpr ⟨hx, Option.isSome_of_eq_some hb⟩, b, k, hb, hy⟩
  · rintro ⟨x, hx, b, k, hb, hy⟩
    exact ⟨x, b, k, (mem_attempts.mp hx).1, hb, hy⟩

theorem escapes_congr (h : attempts w = attempts v) : Escapes w y ↔ Escapes v y := by
  rw [escapes_iff_attempts, escapes_iff_attempts, h]

theorem not_escapes (h : attempts w = []) : ¬Escapes w y := by
  simp [escapes_iff_attempts, h]

end

namespace Build

/-- The jumps and returns in a part that ask for an exit and do not find it there. -/
def Part.outbound (k : Exit) : Part → List Stmt
  | .stmt x => x.outbound k
  | .stmts xs => Stmt.outboundList k xs
  | .block b => b.outbound k
  | .sections _ _ cs => CaseClause.outbound k cs
  | .clauses _ _ _ _ cs => CatchClause.outbound k cs
  | .cleanup b _ => Block.outboundOption k b

/-- Asking for an exit from a part under targets means to leave a `finally` block first, be it the
part itself. -/
def Part.Bars (k : Exit) (T : List Target) : Part → Prop
  | .cleanup .. => True
  | _ => Barred k T

/-- The jump or return stands in the part and is refused if control gets to it. -/
def Offends (T : List Target) (p : Part) (y : Stmt) : Prop :=
  (∃ k, p.Bars k T ∧ y ∈ p.outbound k) ∨ Escapes p.walk y

section

variable {T : List Target} {y : Stmt} {k : Exit} {m : Mark}

/-! ### Which exits are barred -/

theorem barred_loopTargets {header after : BlockId} {q : Option (Simple × BlockId)} :
    Barred k (loopTargets header after q T) ↔ k = .functionEnd ∧ Barred k T := by
  cases k <;> simp [loopTargets, Barred]

theorem barred_landing {b : BlockId} :
    Barred k (.landing .loopEnd b :: T) ↔ k ≠ .loopEnd ∧ Barred k T := by
  rw [Barred, ne_comm]

theorem barred_handlers (hs : List (ErrorType × BlockId)) :
    Barred k (handlerTargets hs ++ T) ↔ Barred k T := by
  induction hs with
  | nil => exact Iff.rfl
  | cons h hs ih => exact ih

/-- The `finally` block of a try statement bars nothing from what it cleans up after. -/
theorem Course.barred_cleanup {facts : Facts} {b : Option Block} {cl : Option Target}
    {s s' : State} {made : List (Stmt × BlockId)}
    (h : Course facts T (.cleanup b cl) s made s') : Barred k (cl.toList ++ T) ↔ Barred k T := by
  cases h with
  | noCleanup => exact Iff.rfl
  | cleanup _ => exact Iff.rfl

/-! ### What offends, by the form of the part -/

theorem offends_empty : ¬Offends T (.stmt (.empty m)) y := by
  rintro (⟨k, -, h⟩ | h)
  · cases h
  · exact not_escapes rfl h

theorem offends_braces {b : Block} : Offends T (.stmt (.block b)) y ↔ Offends T (.block b) y := by
  simp only [Offends, Part.Bars, Part.outbound, Part.walk, Stmt.outbound, Stmt.walk]

/-- A statement without parts offends if it asks for an exit that is barred. -/
theorem offends_single {x : Stmt} (hx : x.Single) :
    Offends T (.stmt x) y ↔ y = x ∧ ∃ k, x.exit? = some k ∧ Barred k T := by
  have hnone : ¬Escapes (x.walk everywhere) y := not_escapes hx.attempts_eq_nil
  cases x with
  | jump m kind =>
    simp [Offends, Part.Bars, Part.outbound, Part.walk, hnone, Stmt.outbound, Stmt.exit?, and_comm]
  | ret m result =>
    simp [Offends, Part.Bars, Part.outbound, Part.walk, hnone, Stmt.outbound, Stmt.exit?, and_comm]
  | simple x => simp [Offends, Part.outbound, Part.walk, hnone, Stmt.outbound, Stmt.exit?]
  | var m d => simp [Offends, Part.outbound, Part.walk, hnone, Stmt.outbound, Stmt.exit?]
  | raise m e => simp [Offends, Part.outbound, Part.walk, hnone, Stmt.outbound, Stmt.exit?]
  | _ => cases hx

theorem offends_cond {test : Expr} {yes : Block} {no : Option Stmt} :
    Offends T (.stmt (.cond m test yes no)) y ↔
      Offends T (.block yes) y ∨ Offends T (.stmts no.toList) y := by
  have hwalk : Escapes ((Stmt.cond m test yes no).walk everywhere) y ↔
      Escapes (yes.walk everywhere ++ Stmt.walkList everywhere no.toList) y := by
    refine escapes_congr ?_
    rw [Stmt.walk, Node.above_everywhere, attempts_cons _ rfl, walkList_toList]
    simp
  simp only [Offends, Part.Bars, Part.outbound, Part.walk, hwalk, Stmt.outbound, escapes_append,
    Stmt.outboundList_toList, List.mem_append, and_or_left, exists_or]
  exact or_or_or_comm

/-- The targets of a loop take every jump in its body, so only the way out of the function can be
barred there. -/
theorem offends_of_loop {x : Stmt} {body : Block} {header after : BlockId}
    {q : Option (Simple × BlockId)}
    (hwalk : attempts (x.walk everywhere) = attempts (body.walk everywhere))
    (hout : ∀ k, x.outbound k = if k = .functionEnd then body.outbound k else []) :
    Offends T (.stmt x) y ↔ Offends (loopTargets header after q T) (.block body) y := by
  simp only [Offends, Part.Bars, Part.outbound, Part.walk, escapes_congr hwalk, hout,
    barred_loopTargets]
  refine or_congr (exists_congr fun k => ?_) Iff.rfl
  by_cases hk : k = .functionEnd <;> simp [hk]

theorem offends_loop {init post : Option Simple} {test : Option Expr} {body : Block}
    {header after : BlockId} {q : Option (Simple × BlockId)} :
    Offends T (.stmt (.loop m init test post body)) y ↔
      Offends (loopTargets header after q T) (.block body) y := by
  refine offends_of_loop ?_ fun _ => rfl
  rw [Stmt.walk, Node.above_everywhere, attempts_cons _ rfl]
  simp

theorem offends_foreach {v : Ident} {operand : Expr} {body : Block} {header after : BlockId} :
    Offends T (.stmt (.foreach m v operand body)) y ↔
      Offends (loopTargets header after none T) (.block body) y := by
  refine offends_of_loop ?_ fun _ => rfl
  rw [Stmt.walk, Node.above_everywhere, attempts_cons _ rfl]
  simp

theorem offends_switch {tag : Expr} {sections : List CaseClause} {close : Pos}
    {tagEnd : Option BlockId} {after : BlockId} :
    Offends T (.stmt (.switch m tag sections close)) y ↔
      Offends (.landing .loopEnd after :: T) (.sections tagEnd after sections) y := by
  have hwalk : Escapes ((Stmt.switch m tag sections close).walk everywhere) y ↔
      Escapes (CaseClause.walkList everywhere sections) y := by
    refine escapes_congr ?_
    rw [Stmt.walk, Node.above_everywhere, attempts_cons _ rfl]
    simp
  simp only [Offends, Part.Bars, Part.outbound, Part.walk, hwalk, Stmt.outbound, barred_landing]
  refine or_congr (exists_congr fun k => ?_) Iff.rfl
  by_cases hk : k = .loopEnd <;> simp [hk]

theorem offends_cleanup {b : Block} {cl : Option Target} :
    Offends T (.cleanup (some b) cl) y ↔ Offends (.barrier :: T) (.block b) y := Iff.rfl

theorem offends_noCleanup {cl : Option Target} : ¬Offends T (.cleanup none cl) y := by
  rintro (⟨k, -, h⟩ | h)
  · cases h
  · exact not_escapes rfl h

/-- What escapes in a try statement leaves its own `finally` block or one inside. -/
theorem escapes_attempt {body : Block} {clauses : List CatchClause} {cleanup : Option Block} :
    Escapes ((Stmt.attempt m body clauses cleanup).walk everywhere) y ↔
      (∃ k, y ∈ Block.outboundOption k cleanup) ∨ Escapes (body.walk everywhere) y ∨
        Escapes (CatchClause.walkList everywhere clauses) y ∨
        Escapes (Block.walkOption everywhere cleanup) y := by
  have hself : (∃ x b k, Node.stmt x = .stmt (.attempt m body clauses cleanup) ∧
      x.cleanup? = some b ∧ y ∈ b.outbound k) ↔ ∃ k, y ∈ Block.outboundOption k cleanup := by
    cases cleanup <;> simp [Stmt.cleanup?, Block.outboundOption]
  rw [Stmt.walk, Node.above_everywhere, escapes_cons, escapes_append, escapes_append, hself, or_assoc]

theorem offends_attempt {body : Block} {clauses : List CatchClause} {cleanup : Option Block}
    {cl : Option Target} (after : BlockId) (hs : List (ErrorType × BlockId))
    (hcl : ∀ k, Barred k (cl.toList ++ T) ↔ Barred k T) :
    Offends T (.stmt (.attempt m body clauses cleanup)) y ↔
      Offends T (.cleanup cleanup cl) y ∨
      Offends (handlerTargets hs ++ (cl.toList ++ T)) (.block body) y ∨
      Offends (cl.toList ++ T) (.clauses cl after [] hs clauses) y := by
  simp only [Offends, Part.Bars, Part.outbound, Part.walk, barred_handlers, hcl, escapes_attempt,
    Stmt.outbound, List.mem_append, and_or_left, exists_or, true_and]
  exact iff_of_eq (by ac_rfl)

theorem offends_nil : ¬Offends T (.stmts []) y := by
  rintro (⟨k, -, h⟩ | h)
  · cases h
  · exact not_escapes rfl h

theorem offends_cons {x : Stmt} {xs : List Stmt} :
    Offends T (.stmts (x :: xs)) y ↔ Offends T (.stmt x) y ∨ Offends T (.stmts xs) y := by
  simp only [Offends, Part.Bars, Part.outbound, Part.walk, Stmt.outboundList, Stmt.walkList,
    escapes_append, List.mem_append, and_or_left, exists_or]
  exact or_or_or_comm

theorem offends_block {xs : List Stmt} {close : Pos} :
    Offends T (.block (.mk m xs close)) y ↔ Offends T (.stmts xs) y := by
  have hwalk : Escapes ((Block.mk m xs close).walk everywhere) y ↔
      Escapes (Stmt.walkList everywhere xs) y := escapes_congr (attempts_cons _ rfl)
  simp only [Offends, Part.Bars, Part.outbound, Part.walk, hwalk, Block.outbound]

theorem offends_noSections {tagEnd : Option BlockId} {after : BlockId} :
    ¬Offends T (.sections tagEnd after []) y := by
  rintro (⟨k, -, h⟩ | h)
  · cases h
  · exact not_escapes rfl h

theorem offends_sections {tagEnd : Option BlockId} {after : BlockId} {values : List Expr}
    {isDefault : Bool} {body : List Stmt} {cs : List CaseClause} :
    Offends T (.sections tagEnd after (.mk m values isDefault body :: cs)) y ↔
      Offends T (.stmts body) y ∨ Offends T (.sections tagEnd after cs) y := by
  have hwalk : Escapes (CaseClause.walkList everywhere (.mk m values isDefault body :: cs)) y ↔
      Escapes (Stmt.walkList everywhere body ++ CaseClause.walkList everywhere cs) y := by
    refine escapes_congr ?_
    rw [CaseClause.walkList, CaseClause.walk, Node.above_everywhere, attempts_append,
      attempts_cons _ rfl]
    simp
  simp only [Offends, Part.Bars, Part.outbound, Part.walk, hwalk, CaseClause.outbound,
    escapes_append, List.mem_append, and_or_left, exists_or]
  exact or_or_or_comm

theorem offends_noClauses {cl : Option Target} {after : BlockId} {before : List ErrorType}
    {hs : List (ErrorType × BlockId)} : ¬Offends T (.clauses cl after before hs []) y := by
  rintro (⟨k, -, h⟩ | h)
  · cases h
  · exact not_escapes rfl h

theorem offends_clauses {cl : Option Target} {after b : BlockId} {before : List ErrorType}
    {a : ErrorType} {hs : List (ErrorType × BlockId)} {c : CatchClause} {cs : List CatchClause} :
    Offends T (.clauses cl after before ((a, b) :: hs) (c :: cs)) y ↔
      Offends T (.block c.body) y ∨ Offends T (.clauses cl after (a :: before) hs cs) y := by
  obtain ⟨m, param, body⟩ := c
  have hwalk : Escapes (CatchClause.walkList everywhere (.mk m param body :: cs)) y ↔
      Escapes (body.walk everywhere ++ CatchClause.walkList everywhere cs) y := by
    refine escapes_congr ?_
    rw [CatchClause.walkList, CatchClause.walk, Node.above_everywhere, attempts_append,
      attempts_cons _ rfl]
    cases param <;> simp
  simp only [Offends, Part.Bars, Part.outbound, Part.walk, hwalk, CatchClause.outbound,
    CatchClause.body, escapes_append, List.mem_append, and_or_left, exists_or]
  exact or_or_or_comm

/-! ### Where it stands -/

theorem Part.whole (p : Part) : Whole p.walk := by
  cases p with
  | stmt x => exact whole_stmt x
  | stmts xs => exact whole_stmts xs
  | block b => exact whole_block b
  | sections _ _ cs => exact whole_sections cs
  | clauses _ _ _ _ cs => exact whole_clauses cs
  | cleanup b _ => exact whole_blockOption b

theorem Part.mem_walk_of_outbound (p : Part) (h : y ∈ p.outbound k) : .stmt y ∈ p.walk := by
  cases p with
  | stmt x => exact Stmt.mem_walk_of_outbound x h
  | stmts xs => exact Stmt.mem_walkList_of_outbound xs h
  | block b => exact Block.mem_walk_of_outbound b h
  | sections _ _ cs => exact CaseClause.mem_walk_of_outbound cs h
  | clauses _ _ _ _ cs => exact CatchClause.mem_walk_of_outbound cs h
  | cleanup b _ => exact Block.mem_walkOption_of_outbound b h

/-- Whatever offends in a part stands in it. -/
theorem Offends.mem_walk {p : Part} (h : Offends T p y) : .stmt y ∈ p.walk := by
  rcases h with ⟨k, -, h⟩ | ⟨x, b, k, hx, hb, hy⟩
  · exact p.mem_walk_of_outbound h
  · have hblock : Node.stmt y ∈ Block.walkOption everywhere x.cleanup? := by
      rw [hb]
      exact b.mem_walk_of_outbound hy
    exact p.whole _ hx (x.cleanup_subset hblock)

/-! ### What has been built -/

/-- Where a part has been built, whatever offends in it is dead. -/
theorem Course.dead_of_offends {facts : Facts} {p : Part} {s s' : State}
    {made : List (Stmt × BlockId)} (h : Course facts T p s made s') (hy : Offends T p y) :
    (Node.stmt y).id ∈ s'.dead := by
  induction h with
  | @skipped T x s _ _ =>
    exact List.mem_append_right _ (List.mem_map_of_mem (f := Node.id) hy.mem_walk)
  | empty => exact absurd hy offends_empty
  | braces _ ih => exact ih (offends_braces.mp hy)
  | single h =>
    obtain ⟨-, k, hk, hbarred⟩ := (offends_single h.single).mp hy
    exact absurd hbarred (h.spec.2 k hk)
  | @cond T m test yes no s s₁ s₂ s₃ made₁ made₂ _ _ hno ihyes ihno =>
    rw [dead_joined]
    rcases offends_cond.mp hy with hy | hy
    · have hdead := ihyes hy
      rw [← dead_branchedIf s₂ (facts.constant test != some true) s₁.cursor] at hdead
      exact hno.grown.dead.subset hdead
    · exact ihno hy
  | loop _ _ _ _ _ hround ih => exact hround.grown.dead.subset (ih (offends_loop.mp hy))
  | foreach _ _ ih => exact ih (offends_foreach.mp hy)
  | @switch T m tag sections close s s₁ s₂ made _ _ ih =>
    rw [dead_movedTo, dead_defaulted]
    exact ih (offends_switch.mp hy)
  | @attempt T m body clauses cleanup c s s₁ s₂ s₃ s₄ s₅ cl hs made₁ made₂ made₃ _ hcleanup hready
      hbody hleave hclauses ihcleanup ihbody ihclauses =>
    have hlater := hleave.departed.grown.trans hclauses.grown
    rcases (offends_attempt _ hs fun _ => hcleanup.barred_cleanup).mp hy with hy | hy | hy
    · have hdead : (Node.stmt y).id ∈ (s₂.movedTo (some c)).dead := hready.dead_eq ▸ ihcleanup hy
      exact (hbody.grown.trans hlater).dead.subset hdead
    · exact hlater.dead.subset (ihbody hy)
    · exact ihclauses hy
  | nil => exact absurd hy offends_nil
  | cons _ hxs ihx ihxs =>
    rcases offends_cons.mp hy with hy | hy
    · exact hxs.grown.dead.subset (ihx hy)
    · exact ihxs hy
  | block _ ih => exact ih (offends_block.mp hy)
  | noSections => exact absurd hy offends_noSections
  | @sections T tagEnd after m values isDefault body cs s s₁ s₂ s' made₁ made₂ _ _ hcs ihbody ihcs =>
    rcases offends_sections.mp hy with hy | hy
    · have hdead := ihbody hy
      rw [← dead_fallenThrough s₂ m after] at hdead
      exact hcs.grown.dead.subset hdead
    · exact ihcs hy
  | noClauses => exact absurd hy offends_noClauses
  | @uncaught T cl after b before a hs c cs s s' made _ hcs ih =>
    rcases offends_clauses.mp hy with hy | hy
    · refine hcs.grown.dead.subset (List.mem_append_right _ (List.mem_map_of_mem (f := Node.id) ?_))
      obtain ⟨m, param, body⟩ := c
      exact List.mem_cons_of_mem _ (List.mem_append_right _ hy.mem_walk)
    · exact ih hy
  | caught _ _ hleave hcs ihbody ihcs =>
    rcases offends_clauses.mp hy with hy | hy
    · exact (hleave.departed.grown.trans hcs.grown).dead.subset (ihbody hy)
    · exact ihcs hy
  | noCleanup => exact absurd hy offends_noCleanup
  | cleanup _ ih => exact ih (offends_cleanup.mp hy)

end

end Build

end FlowCheck
