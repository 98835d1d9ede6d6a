import FlowCheck.Proofs.Build.Ways
import FlowCheck.Proofs.Build.Looping
import FlowCheck.Proofs.Build.Attempt
import FlowCheck.Proofs.Tree.Outbound

/-!
# The course of construction

`Course` relates the states before and after a part of a program is built, with one rule for every
way in which that can go, and keeps a record of the `finally` blocks that are built on the way.
Whatever has been built successfully has taken such a course, so what every rule preserves holds of
all graphs: an induction over courses replaces one over the builder.
-/
namespace FlowCheck

/-- Statements that are passed over as a whole where they cannot be reached. -/
def Stmt.Watched : Stmt → Prop
  | .empty _ | .block _ => False
  | _ => True

/-- Statements that are nodes themselves and have no parts that are built. -/
def Stmt.Single : Stmt → Prop
  | .simple _ | .var .. | .jump .. | .ret .. | .raise .. => True
  | _ => False

namespace Build

/-! ### Nodes -/

/-- A node has been built under targets, in the block at the cursor or, behind the errors that it
may raise, in a new one. -/
inductive Placed (T : List Target) (n : Node) (s : State) : State → Prop
  | here {b : BlockId} (hb : s.cursor = some b) : Placed T n s (s.withNode b n)
  | after {b : BlockId} {s₁ : State} (hb : s.cursor = some b) (hd : Departed (some b) T s s₁) :
    Placed T n s ((s₁.branched .plain (some b)).withNode s₁.graph.blocks.size n)

/-- The same of a node that may be missing. -/
def PlacedOption (T : List Target) : Option Node → State → State → Prop
  | none, s, s' => s' = s
  | some n, s, s' => Placed T n s s'

/-- A single statement has been built: control goes on behind it, leaves for a target, or does not
find one. -/
inductive Stands (T : List Target) : Stmt → State → State → Prop
  | goesOn {x : Stmt} {s s' : State} (hx : x.Single) (h : Placed T (.stmt x) s s') : Stands T x s s'
  | leaves {x : Stmt} {s s₁ s₂ : State} (hx : x.Single) (h : Placed T (.stmt x) s s₁)
    (hd : Departed s₁.cursor T s₁ s₂) : Stands T x s (s₂.movedTo none)
  | strays {m : Mark} {kind : Jump} {s s₁ s₂ : State} (h : Placed T (.stmt (.jump m kind)) s s₁)
    (hd : Departed s₁.cursor T s₁ s₂) (text : String) :
    Stands T (.jump m kind) s (s₂.reported .noEnclosingLoop m.pos text)

section

variable {facts : Facts} {T : List Target} {n : Node} {s s' : State} {b : BlockId}

theorem ok_add (hb : s.cursor = some b) (h : add n s = .ok () s') : s' = s.withNode b n := by
  rw [add, ok_bind] at h
  obtain ⟨_, _, ⟨rfl⟩, h⟩ := h
  rw [hb] at h
  cases h
  rfl

theorem placed_add (hb : s.cursor = some b) (h : add n s = .ok () s') : Placed T n s s' := by
  rw [ok_add hb h]
  exact .here hb

theorem Added.placed (h : Added facts T n s s') : Placed T n s s' := by
  obtain ⟨⟨b, hb⟩, h⟩ := h
  unfold addNode at h
  cases hr : facts.raises n with
  | nil =>
    rw [hr] at h
    exact placed_add hb h
  | cons e es =>
    rw [hr] at h
    obtain ⟨_, _, ⟨rfl⟩, h⟩ := ok_bind.mp h
    obtain ⟨_, s₁, hraise, h⟩ := ok_bind.mp h
    obtain ⟨_, _, ⟨rfl⟩, h⟩ := ok_bind.mp h
    rw [hb] at hraise h
    rw [ok_add rfl h]
    exact .after hb (departed_raiseAll hb hraise)

theorem AddedOption.placed {o : Option Node} (h : AddedOption facts T o s s') :
    PlacedOption T o s s' := by
  cases o with
  | none => exact h
  | some n => exact Added.placed h

theorem Placed.cursor (h : Placed T n s s') : ∃ b, s'.cursor = some b := by
  cases h with
  | here hb => exact ⟨_, hb⟩
  | after hb hd => exact ⟨_, rfl⟩

theorem PlacedOption.cursor {o : Option Node} (h : PlacedOption T o s s') (hb : s.cursor = some b) :
    ∃ c, s'.cursor = some c := by
  cases o with
  | none => exact ⟨b, h.symm ▸ hb⟩
  | some n => exact Placed.cursor h

theorem Left.departed {cl : Option Target} {after : BlockId} (h : Left cl after s s') :
    Departed s.cursor (cl.toList ++ [.landing .loopEnd after]) s s' :=
  departed_leaveAttempt h.cleanup h.ok

/-! ### Single statements -/

/-- A single statement that is reached has been built. -/
structure SingleBuilt (facts : Facts) (T : List Target) (x : Stmt) (s s' : State) : Prop where
  single : x.Single
  reached : ∃ b, s.cursor = some b
  ok : stmt facts T x s = .ok () s'

theorem stands_of_departed {x : Stmt} {s₁ : State} (hx : x.Single) (h : Placed T (.stmt x) s s₁)
    (hd : Departed s₁.cursor T s₁ s') (hnone : s'.cursor = none) (hw : s'.warned = false) :
    Stands T x s s' := by
  have hmoved : s'.movedTo none = s' := by
    obtain ⟨g, c, w, ds, dead⟩ := s'
    cases hnone
    cases hw
    rfl
  exact hmoved ▸ .leaves hx h hd

theorem stands_jump {m : Mark} {kind : Jump} (hb : s.cursor = some b)
    (h : jumpStmt T m kind s = .ok () s') :
    Stands T (.jump m kind) s s' ∧ ¬Barred kind.exit T := by
  obtain ⟨text, hjump⟩ := exists_jumpStmt T m kind
  rw [hjump] at h
  obtain ⟨_, s₁, hadd, h⟩ := ok_bind.mp h
  have hplaced : Placed T (.stmt (.jump m kind)) s s₁ := placed_add hb hadd
  obtain ⟨found, s₂, hjump, h⟩ := ok_bind.mp h
  obtain ⟨hd, hfound⟩ := departed_jump hjump
  refine ⟨?_, not_barred_of_ok hjump⟩
  cases found with
  | false =>
    cases h
    exact .strays hplaced hd text
  | true =>
    cases h
    exact stands_of_departed trivial hplaced hd (hfound rfl).1 (hfound rfl).2

theorem stands_ret {m : Mark} {result : Option Expr} {pos : Pos} (hb : s.cursor = some b)
    (h : (do
      addNode facts T (.stmt (.ret m result))
      if !(← jump pos .functionEnd T) then throw Aborted.returnWithoutTarget) s = .ok () s') :
    Stands T (.ret m result) s s' ∧ ¬Barred .functionEnd T := by
  obtain ⟨_, s₁, hadd, h⟩ := ok_bind.mp h
  have hplaced := Added.placed ⟨⟨b, hb⟩, hadd⟩
  obtain ⟨found, s₂, hjump, h⟩ := ok_bind.mp h
  obtain ⟨hd, hfound⟩ := departed_jump hjump
  refine ⟨?_, not_barred_of_ok hjump⟩
  cases found with
  | false => cases h
  | true =>
    cases h
    exact stands_of_departed trivial hplaced hd (hfound rfl).1 (hfound rfl).2

theorem stands_raise {m : Mark} {x : Expr} (hb : s.cursor = some b)
    (h : addRaising facts T (.stmt (.raise m x)) s = .ok () s') : Stands T (.raise m x) s s' := by
  unfold addRaising at h
  obtain ⟨_, s₁, hadd, h⟩ := ok_bind.mp h
  obtain ⟨_, _, ⟨rfl⟩, h⟩ := ok_bind.mp h
  obtain ⟨_, s₂, hraise, h⟩ := ok_bind.mp h
  cases h
  exact .leaves trivial (placed_add hb hadd) (departed_raiseAll rfl hraise)

/-- A single statement stands where it has been built, and a jump that has been built is not
barred. -/
theorem SingleBuilt.spec {x : Stmt} (h : SingleBuilt facts T x s s') :
    Stands T x s s' ∧ ∀ k, x.exit? = some k → ¬Barred k T := by
  obtain ⟨hx, ⟨b, hb⟩, h⟩ := h
  cases x with
  | simple x =>
    rw [stmt, whenReached_of_some hb] at h
    exact ⟨.goesOn trivial (Added.placed ⟨⟨b, hb⟩, h⟩), by simp [Stmt.exit?]⟩
  | var m d =>
    rw [stmt, whenReached_of_some hb] at h
    exact ⟨.goesOn trivial (Added.placed ⟨⟨b, hb⟩, h⟩), by simp [Stmt.exit?]⟩
  | jump m kind =>
    rw [stmt, whenReached_of_some hb] at h
    exact ⟨(stands_jump hb h).1, by simpa [Stmt.exit?] using (stands_jump hb h).2⟩
  | ret m result =>
    rw [stmt, whenReached_of_some hb] at h
    exact ⟨(stands_ret hb h).1, by simpa [Stmt.exit?] using (stands_ret hb h).2⟩
  | raise m y =>
    rw [stmt, whenReached_of_some hb] at h
    exact ⟨stands_raise hb h, by simp [Stmt.exit?]⟩
  | _ => cases hx

theorem SingleBuilt.stands {x : Stmt} (h : SingleBuilt facts T x s s') : Stands T x s s' := h.spec.1

end

/-! ### Parts -/

/-- What is built at one go: a part of the program, with what is known of the blocks around it. -/
inductive Part where
  | stmt (x : Stmt)
  | stmts (xs : List Stmt)
  | block (b : Block)
  | sections (tagEnd : Option BlockId) (after : BlockId) (cs : List CaseClause)
  | clauses (cl : Option Target) (after : BlockId) (before : List ErrorType)
      (hs : List (ErrorType × BlockId)) (cs : List CatchClause)
  | cleanup (b : Option Block) (cl : Option Target)

/-- The nodes of a part. -/
def Part.walk : Part → List Node
  | .stmt x => x.walk everywhere
  | .stmts xs => Stmt.walkList everywhere xs
  | .block b => b.walk everywhere
  | .sections _ _ cs => CaseClause.walkList everywhere cs
  | .clauses _ _ _ _ cs => CatchClause.walkList everywhere cs
  | .cleanup b _ => Block.walkOption everywhere b

/-- The record of the `finally` block of a statement. -/
def recorded (x : Stmt) : Option Target → List (Stmt × BlockId)
  | some (.cleanup entry _) => [(x, entry)]
  | _ => []

/-- What becomes of a state while a part is built under targets, and which statements have got an
entry to their `finally` block meanwhile, in the order of these blocks. -/
inductive Course (facts : Facts) :
    List Target → Part → State → List (Stmt × BlockId) → State → Prop
  | skipped {T : List Target} {x : Stmt} {s : State} (hx : x.Watched) (hc : s.cursor = none) :
    Course facts T (.stmt x) s [] (s.skipped (.stmt x))
  | empty {T : List Target} {m : Mark} {s : State} :
    Course facts T (.stmt (.empty m)) s [] (s.markedHere m)
  | braces {T : List Target} {b : Block} {s s' : State} {made : List (Stmt × BlockId)}
    (h : Course facts T (.block b) s made s') : Course facts T (.stmt (.block b)) s made s'
  | single {T : List Target} {x : Stmt} {s s' : State} (h : SingleBuilt facts T x s s') :
    Course facts T (.stmt x) s [] s'
  | cond {T : List Target} {m : Mark} {test : Expr} {yes : Block} {no : Option Stmt}
    {s s₁ s₂ s₃ : State} {made₁ made₂ : List (Stmt × BlockId)}
    (htest : Added facts T (.expr test) s s₁)
    (hyes : Course facts T (.block yes)
      (s₁.branchedIf (facts.constant test != some false) s₁.cursor) made₁ s₂)
    (hno : Course facts T (.stmts no.toList)
      (s₂.branchedIf (facts.constant test != some true) s₁.cursor) made₂ s₃) :
    Course facts T (.stmt (.cond m test yes no)) s (made₁ ++ made₂) (s₃.joined s₂.cursor s₃.cursor)
  | loop {T : List Target} {m : Mark} {init post : Option Simple} {test : Option Expr} {body : Block}
    {c : BlockId} {s s₁ s₂ s₃ s₄ : State} {q : Option (Simple × BlockId)}
    {made : List (Stmt × BlockId)} (hc : s.cursor = some c)
    (hinit : AddedOption facts T (init.map fun x => .stmt (.simple x)) s s₁)
    (htest : AddedOption facts T (test.map .expr) (s₁.branched .loop s₁.cursor) s₂)
    (hq : q = post.map fun x => (x, (s₂.withBlock .afterLoop).graph.blocks.size))
    (hbody : Course facts (loopTargets s₁.graph.blocks.size s₂.graph.blocks.size q T) (.block body)
      ((s₂.laidOut post).opened (test.elim (some true) facts.constant) test.isSome
        s₂.graph.blocks.size) made s₃)
    (hround : Closes facts (loopTargets s₁.graph.blocks.size s₂.graph.blocks.size q T)
      s₁.graph.blocks.size q s₃ s₄) :
    Course facts T (.stmt (.loop m init test post body)) s made
      (s₄.movedTo (Onward.cursor s₄.graph s₂.graph.blocks.size))
  | foreach {T : List Target} {m : Mark} {v : Ident} {operand : Expr} {body : Block}
    {s s₁ s₂ : State} {made : List (Stmt × BlockId)} (hoperand : Added facts T (.expr operand) s s₁)
    (hbody : Course facts (loopTargets s₁.graph.blocks.size
        (s₁.withBlock .loop).graph.blocks.size none T) (.block body)
      (s₁.iterated (.stmt (.foreach m v operand body))) made s₂) :
    Course facts T (.stmt (.foreach m v operand body)) s made
      ((s₂.withEdge s₂.cursor s₁.graph.blocks.size).movedTo
        (some (s₁.withBlock .loop).graph.blocks.size))
  | switch {T : List Target} {m : Mark} {tag : Expr} {sections : List CaseClause} {close : Pos}
    {s s₁ s₂ : State} {made : List (Stmt × BlockId)}
    (htag : Added facts (.landing .loopEnd s.graph.blocks.size :: T) (.expr tag) (s.withBlock .join)
      s₁)
    (hsections : Course facts (.landing .loopEnd s.graph.blocks.size :: T)
      (.sections s₁.cursor s.graph.blocks.size sections) s₁ made s₂) :
    Course facts T (.stmt (.switch m tag sections close)) s made
      ((s₂.defaulted sections s₁.cursor s.graph.blocks.size).movedTo
        (Onward.cursor (s₂.defaulted sections s₁.cursor s.graph.blocks.size).graph
          s.graph.blocks.size))
  | attempt {T : List Target} {m : Mark} {body : Block} {clauses : List CatchClause}
    {cleanup : Option Block} {c : BlockId} {s s₁ s₂ s₃ s₄ s₅ : State} {cl : Option Target}
    {hs : List (ErrorType × BlockId)} {made₁ made₂ made₃ : List (Stmt × BlockId)}
    (hc : s.cursor = some c)
    (hcleanup : Course facts T (.cleanup cleanup cl) (s.withBlock .join) made₁ s₁)
    (hready : Prepared facts clauses s₁ hs s₂)
    (hbody : Course facts (handlerTargets hs ++ (cl.toList ++ T)) (.block body)
      (s₂.movedTo (some c)) made₂ s₃)
    (hleave : Left cl s.graph.blocks.size s₃ s₄)
    (hclauses : Course facts (cl.toList ++ T)
      (.clauses cl s.graph.blocks.size [] hs clauses) s₄ made₃ s₅) :
    Course facts T (.stmt (.attempt m body clauses cleanup)) s
      (recorded (.attempt m body clauses cleanup) cl ++ made₁ ++ made₂ ++ made₃)
      (s₅.movedTo (Onward.cursor s₅.graph s.graph.blocks.size))
  | nil {T : List Target} {s : State} : Course facts T (.stmts []) s [] s
  | cons {T : List Target} {x : Stmt} {xs : List Stmt} {s s₁ s' : State}
    {made₁ made₂ : List (Stmt × BlockId)} (hx : Course facts T (.stmt x) s made₁ s₁)
    (hxs : Course facts T (.stmts xs) s₁ made₂ s') :
    Course facts T (.stmts (x :: xs)) s (made₁ ++ made₂) s'
  | block {T : List Target} {m : Mark} {xs : List Stmt} {close : Pos} {s s' : State}
    {made : List (Stmt × BlockId)} (h : Course facts T (.stmts xs) (s.markedHere m) made s') :
    Course facts T (.block (.mk m xs close)) s made s'
  | noSections {T : List Target} {tagEnd : Option BlockId} {after : BlockId} {s : State} :
    Course facts T (.sections tagEnd after []) s [] s
  | sections {T : List Target} {tagEnd : Option BlockId} {after : BlockId} {m : Mark}
    {values : List Expr} {isDefault : Bool} {body : List Stmt} {cs : List CaseClause}
    {s s₁ s₂ s' : State} {made₁ made₂ : List (Stmt × BlockId)}
    (hlabels : Added facts T (.caseClause (.mk m values isDefault body)) (s.branched .branch tagEnd)
      s₁)
    (hbody : Course facts T (.stmts body) s₁ made₁ s₂)
    (hcs : Course facts T (.sections tagEnd after cs) (s₂.fallenThrough m after) made₂ s') :
    Course facts T (.sections tagEnd after (.mk m values isDefault body :: cs)) s (made₁ ++ made₂) s'
  | noClauses {T : List Target} {cl : Option Target} {after : BlockId} {before : List ErrorType}
    {s : State} : Course facts T (.clauses cl after before [] []) s [] s
  | uncaught {T : List Target} {cl : Option Target} {after b : BlockId} {before : List ErrorType}
    {a : ErrorType} {hs : List (ErrorType × BlockId)} {c : CatchClause} {cs : List CatchClause}
    {s s' : State} {made : List (Stmt × BlockId)} (hb : s.graph.preds b = [])
    (hcs : Course facts T (.clauses cl after (a :: before) hs cs)
      ((s.compared before a c.mark).uncaught c) made s') :
    Course facts T (.clauses cl after before ((a, b) :: hs) (c :: cs)) s made s'
  | caught {T : List Target} {cl : Option Target} {after b : BlockId} {before : List ErrorType}
    {a : ErrorType} {hs : List (ErrorType × BlockId)} {c : CatchClause} {cs : List CatchClause}
    {s s₁ s₂ s' : State} {made₁ made₂ : List (Stmt × BlockId)} (hb : s.graph.preds b ≠ [])
    (hbody : Course facts T (.block c.body)
      (((s.compared before a c.mark).movedTo (some b)).withNode b (.catchClause c)) made₁ s₁)
    (hleave : Left cl after s₁ s₂)
    (hcs : Course facts T (.clauses cl after (a :: before) hs cs) s₂ made₂ s') :
    Course facts T (.clauses cl after before ((a, b) :: hs) (c :: cs)) s (made₁ ++ made₂) s'
  | noCleanup {T : List Target} {s : State} : Course facts T (.cleanup none none) s [] s
  | cleanup {T : List Target} {b : Block} {s s' : State} {made : List (Stmt × BlockId)}
    (h : Course facts (.barrier :: T) (.block b)
      ((s.withBlock .cleanup).movedTo (some s.graph.blocks.size)) made s') :
    Course facts T (.cleanup (some b) (some (.cleanup s.graph.blocks.size s'.cursor))) s made s'

end Build

end FlowCheck
