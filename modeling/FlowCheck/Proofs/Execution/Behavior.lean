import FlowCheck.Flow.Facts
import Mathlib.Tactic

/-!
# Executions

What a run of a function may do, said of its statements and without any graph. Values are not
modelled: a condition goes either way unless it is constant, and a node that may raise errors either
completes or raises one of them. A run is observed as a sequence of moments. The observation may
stop anywhere, so that the beginnings of endless runs are observed as well.
-/
namespace FlowCheck.Execution

/-- A node performs its reads when it starts and its assignments when it completes. -/
inductive Moment where
  | started (n : Node)
  | completed (n : Node)

/-- The nodes completed, in order. -/
def completed (t : List Moment) : List Node :=
  t.filterMap fun
    | .started _ => none
    | .completed n => some n

/-- A single error: a code of a domain. -/
structure Failure where
  domain : Domain
  code : String

/-- The error is of the type. -/
def Failure.Is (x : Failure) (t : ErrorType) : Prop := t.covers (.code x.domain x.code) = true

instance (x : Failure) (t : ErrorType) : Decidable (x.Is t) :=
  inferInstanceAs (Decidable (_ = true))

/-- How a part of a run ends. A jump, a return or an error is on its way out of the part. -/
inductive Ending where
  | normal
  | jump (kind : Jump)
  | ret
  | error (x : Failure)
  /-- The observation stopped. -/
  | cut

/-- What can be observed of a part of a program: moments in order, and how the part ends. -/
abbrev Behavior := List Moment → Ending → Prop

/-! ### Nodes -/

inductive Evaluates (facts : Facts) (n : Node) : List Moment → Ending → Prop
  | before : Evaluates facts n [] .cut
  | during : Evaluates facts n [.started n] .cut
  | completes : Evaluates facts n [.started n, .completed n] .normal
  | raises {x : Failure} {a : ErrorType} (mem : a ∈ facts.raises n) (is : x.Is a) :
      Evaluates facts n [.started n] (.error x)

/-- Functions, bodies, headers of loops over a collection, handlers and jumps only mark a place in a
program. They start and complete and raise nothing. -/
inductive Visits (n : Node) : List Moment → Ending → Prop
  | before : Visits n [] .cut
  | during : Visits n [.started n] .cut
  | completes : Visits n [.started n, .completed n] .normal

/-- A throw always raises, and counts as completed when it does. -/
inductive Throws (facts : Facts) (n : Node) : List Moment → Ending → Prop
  | before : Throws facts n [] .cut
  | during : Throws facts n [.started n] .cut
  | after : Throws facts n [.started n, .completed n] .cut
  | raises {x : Failure} {a : ErrorType} (mem : a ∈ facts.raises n) (is : x.Is a) :
      Throws facts n [.started n, .completed n] (.error x)

/-- A node that cannot raise an error evaluates like a place. -/
theorem visits_of_evaluates {facts : Facts} {n : Node} (hn : facts.raises n = [])
    {t : List Moment} {e : Ending} (h : Evaluates facts n t e) : Visits n t e := by
  cases h with
  | before => exact .before
  | during => exact .during
  | completes => exact .completes
  | raises hmem _ =>
    rw [hn] at hmem
    cases hmem

/-! ### Parts put together -/

/-- Nothing happens but the given ending. -/
def silent (e₀ : Ending) : Behavior := fun t e => t = [] ∧ e = e₀

/-- The second part runs if the first one ends normally. -/
inductive Then (A B : Behavior) : List Moment → Ending → Prop
  | stops {t : List Moment} {e : Ending} (first : A t e) (abrupt : e ≠ .normal) : Then A B t e
  | goesOn {t t' : List Moment} {e : Ending} (first : A t .normal) (second : B t' e) :
      Then A B (t ++ t') e

/-- One of two parts runs, each only if it may. -/
inductive Either (p : Prop) (A : Behavior) (q : Prop) (B : Behavior) : List Moment → Ending → Prop
  | left {t : List Moment} {e : Ending} (may : p) (run : A t e) : Either p A q B t e
  | right {t : List Moment} {e : Ending} (may : q) (run : B t e) : Either p A q B t e

/-- Jumps of a kind land at the end of the part. -/
inductive Lands (kind : Jump) (A : Behavior) : List Moment → Ending → Prop
  | passes {t : List Moment} {e : Ending} (run : A t e) (other : e ≠ .jump kind) :
      Lands kind A t e
  | lands {t : List Moment} (run : A t (.jump kind)) : Lands kind A t .normal

/-- Rounds until the test lets the loop be left or a part ends abruptly. -/
inductive Loops (test : Behavior) (leave enter : Prop) (round : Behavior) :
    List Moment → Ending → Prop
  | cut : Loops test leave enter round [] .cut
  | stops {t : List Moment} {e : Ending} (tested : test t e) (abrupt : e ≠ .normal) :
      Loops test leave enter round t e
  | leaves {t : List Moment} (may : leave) (tested : test t .normal) :
      Loops test leave enter round t .normal
  | breaks {t t' : List Moment} {e : Ending} (may : enter) (tested : test t .normal)
      (run : round t' e) (abrupt : e ≠ .normal) : Loops test leave enter round (t ++ t') e
  | again {t t' t'' : List Moment} {e : Ending} (may : enter) (tested : test t .normal)
      (run : round t' .normal) (rest : Loops test leave enter round t'' e) :
      Loops test leave enter round (t ++ t' ++ t'') e

/-- Errors of the body are handled. -/
inductive Guarded (body : Behavior) (handle : Failure → Behavior) : List Moment → Ending → Prop
  | passes {t : List Moment} {e : Ending} (run : body t e) (other : ∀ x, e ≠ .error x) :
      Guarded body handle t e
  | handles {t t' : List Moment} {x : Failure} {e : Ending} (run : body t (.error x))
      (rest : handle x t' e) : Guarded body handle (t ++ t') e

/-- A cleanup runs however the part before it ends. If it ends abruptly itself, that takes the place
of what was pending. -/
inductive Cleaned (A cleanup : Behavior) : List Moment → Ending → Prop
  | cut {t : List Moment} (run : A t .cut) : Cleaned A cleanup t .cut
  | keeps {t t' : List Moment} {e : Ending} (run : A t e) (ended : e ≠ .cut)
      (cleaned : cleanup t' .normal) : Cleaned A cleanup (t ++ t') e
  | replaces {t t' : List Moment} {e e' : Ending} (run : A t e) (ended : e ≠ .cut)
      (cleaned : cleanup t' e') (abrupt : e' ≠ .normal) : Cleaned A cleanup (t ++ t') e'

/-! ### Statements -/

/-- A node that may be missing. -/
def optionally (facts : Facts) (n : Option Node) : Behavior :=
  n.elim (silent .normal) (Evaluates facts)

def simpleOption (facts : Facts) (s : Option Simple) : Behavior :=
  optionally facts (s.map fun s => .stmt (.simple s))

mutual

def stmt (facts : Facts) : Stmt → Behavior
  | .block b => block facts b
  | .empty _ => silent .normal
  | .simple s => Evaluates facts (.stmt (.simple s))
  | .var m d => Evaluates facts (.stmt (.var m d))
  | .cond _ test yes no =>
    Then (Evaluates facts (.expr test))
      (Either (facts.constant test ≠ some false) (block facts yes)
        (facts.constant test ≠ some true) (stmtOption facts no))
  | .loop _ init test post body =>
    let value := test.elim (some true) facts.constant
    Then (simpleOption facts init) <| Lands .toEnd <|
      Loops (optionally facts (test.map .expr)) (value ≠ some true) (value ≠ some false)
        (Then (Lands .toNext (block facts body)) (simpleOption facts post))
  | .foreach m v operand body =>
    Then (Evaluates facts (.expr operand)) <| Lands .toEnd <|
      Loops (Visits (.stmt (.foreach m v operand body))) True True
        (Lands .toNext (block facts body))
  | .switch _ tag sections _ =>
    Then (Evaluates facts (.expr tag)) <| Lands .toEnd <|
      Either (sections.any CaseClause.isDefault = false) (silent .normal)
        True (sectionList facts sections)
  | .jump m kind => Then (Visits (.stmt (.jump m kind))) (silent (.jump kind))
  | .ret m result => Then (Evaluates facts (.stmt (.ret m result))) (silent .ret)
  | .raise m x => Throws facts (.stmt (.raise m x))
  | .attempt _ body handlers cleanup =>
    cleanupOption facts (Guarded (block facts body) (handlerList facts handlers)) cleanup

def stmtOption (facts : Facts) : Option Stmt → Behavior
  | none => silent .normal
  | some s => stmt facts s

def stmtList (facts : Facts) : List Stmt → Behavior
  | [] => silent .normal
  | s :: rest => Then (stmt facts s) (stmtList facts rest)

def block (facts : Facts) : Block → Behavior
  | .mk _ stmts _ => stmtList facts stmts

def cleanupOption (facts : Facts) (A : Behavior) : Option Block → Behavior
  | none => A
  | some b => Cleaned A (block facts b)

/-- Any one of the sections. -/
def sectionList (facts : Facts) : List CaseClause → Behavior
  | [] => fun _ _ => False
  | .mk m values isDefault body :: rest =>
    Either True (Then (Evaluates facts (.caseClause (.mk m values isDefault body)))
      (stmtList facts body)) True (sectionList facts rest)

/-- The first handler that accepts the error; without one the error goes on. -/
def handlerList (facts : Facts) : List CatchClause → Failure → Behavior
  | [], x => silent (.error x)
  | .mk m param body :: rest, x =>
    if x.Is (facts.catches (.mk m param body)) then
      Then (Visits (.catchClause (.mk m param body))) (block facts body)
    else handlerList facts rest x

end

/-! ### Functions -/

/-- A return, and the end of the body of a function without a result, lead to the body as a node:
it stands for what the function reads when it returns. -/
inductive Returns (d : FuncDecl) (A : Behavior) : List Moment → Ending → Prop
  | passes {t : List Moment} {e : Ending} (run : A t e) (notBack : e ≠ .ret)
      (notEnd : e = .normal → d.result.isSome = true) : Returns d A t e
  | returns {t t' : List Moment} {e e' : Ending} (run : A t e)
      (back : e = .ret ∨ (e = .normal ∧ d.result.isSome = false))
      (reads : Then (Visits (.stmt (.block d.body))) (silent .ret) t' e') :
      Returns d A (t ++ t') e'

/-- The runs of a function. -/
def function (facts : Facts) (d : FuncDecl) : Behavior :=
  Then (Visits (.func d)) (Returns d (stmtList facts d.body.stmts))

end FlowCheck.Execution
