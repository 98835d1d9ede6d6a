import FlowCheck.Flow.Jump

/-!
# The graph of a function

Blocks hold the nodes that a program evaluates, in order; a compound statement contributes the parts
that it evaluates itself, such as a condition. Every statement is built with the list of targets
that jumps and errors in it may meet.
-/
namespace FlowCheck

namespace Build

/-- A jump statement. Where nothing takes the jump, what follows is not unreachable. -/
def jumpStmt (targets : List Target) (m : Mark) (kind : Jump) : Builder Unit := do
  add (.stmt (.jump m kind))
  match kind with
  | .toEnd =>
    if !(← jump m.pos .loopEnd targets) then
      report .error .noEnclosingLoop m.pos "no enclosing loop or switch statement found"
  | .toNext =>
    if !(← jump m.pos .nextRound targets) then
      report .error .noEnclosingLoop m.pos "no enclosing loop found"

/-- The post statement of a loop, in a block of its own, and the way back to the header. -/
def closeRound (facts : Facts) (targets : List Target) (header : BlockId) :
    Option (Simple × BlockId) → Builder Unit
  | none => connectHere header
  | some (post, b) => do
    connectHere b
    if (← preds b).isEmpty then markTreeDead (.stmt (.simple post))
    else
      goOn (some b)
      addNode facts targets (.stmt (.simple post))
    connectHere header

/-- One handler for every clause, made from the last to the first so that they end up in order. -/
def handlers (facts : Facts) : List CatchClause → Builder (List (CatchClause × ErrorType × BlockId))
  | [] => return []
  | c :: rest => do
    let others ← handlers facts rest
    let b ← newBlock .handler
    return (c, facts.catches c, b) :: others

mutual

def stmt (facts : Facts) (targets : List Target) : Stmt → Builder Unit
  | .block b => block facts targets b
  | .empty m => markHere m
  | .simple s => whenReached (.stmt (.simple s)) (addNode facts targets (.stmt (.simple s)))
  | .var m d => whenReached (.stmt (.var m d)) (addNode facts targets (.stmt (.var m d)))
  | .cond m test yes no => whenReached (.stmt (.cond m test yes no)) do
    addNode facts targets (.expr test)
    let before ← cursor
    branchIf (facts.constant test != some false) before
    block facts targets yes
    let yesEnd ← cursor
    branchIf (facts.constant test != some true) before
    stmtOption facts targets no
    join yesEnd (← cursor)
  | .loop m init test post body => whenReached (.stmt (.loop m init test post body)) do
    if let some s := init then addNode facts targets (.stmt (.simple s))
    let header ← newBlock .loop
    connectHere header
    goOn (some header)
    if let some x := test then addNode facts targets (.expr x)
    let value := test.elim (some true) facts.constant
    let testEnd ← cursor
    let after ← newBlock .afterLoop
    let post ← post.mapM fun s => return (s, ← newBlock .post)
    let inner := .landing .loopEnd after
      :: .landing .nextRound (post.elim header Prod.snd) :: targets
    if value != some true then connect testEnd after
    if test.isSome then branchIf (value != some false) testEnd
    block facts inner body
    closeRound facts inner header post
    goOnIfEntered after
  | .foreach m v operand body => whenReached (.stmt (.foreach m v operand body)) do
    addNode facts targets (.expr operand)
    let header ← newBlock .loop
    let after ← newBlock .afterLoop
    connectHere header
    goOn (some header)
    add (.stmt (.foreach m v operand body))
    connectHere after
    branch .branch (some header)
    block facts (.landing .loopEnd after :: .landing .nextRound header :: targets) body
    connectHere header
    goOn (some after)
  | .switch m tag sections close => whenReached (.stmt (.switch m tag sections close)) do
    let after ← newBlock .join
    let inner := .landing .loopEnd after :: targets
    addNode facts inner (.expr tag)
    let tagEnd ← cursor
    sectionList facts inner tagEnd after sections
    if !sections.any CaseClause.isDefault then connect tagEnd after
    goOnIfEntered after
  | .jump m kind => whenReached (.stmt (.jump m kind)) (jumpStmt targets m kind)
  | .ret m result => whenReached (.stmt (.ret m result)) do
    addNode facts targets (.stmt (.ret m result))
    if !(← jump m.pos .functionEnd targets) then throw .returnWithoutTarget
  | .raise m x => whenReached (.stmt (.raise m x)) (addRaising facts targets (.stmt (.raise m x)))
  | .attempt m body clauses cleanup => whenReached (.stmt (.attempt m body clauses cleanup)) do
    let before ← cursor
    let after ← newBlock .join
    let cleanup ← cleanupOption facts targets cleanup
    let outer := cleanup.toList ++ targets
    let hs ← handlers facts clauses
    goOn before
    block facts (hs.map (fun (_, accepts, b) => .handler accepts b) ++ outer) body
    leaveAttempt cleanup after
    handlerList facts outer cleanup after [] (hs.map Prod.snd) clauses
    goOnIfEntered after

def stmtOption (facts : Facts) (targets : List Target) : Option Stmt → Builder Unit
  | none => return
  | some s => stmt facts targets s

def stmtList (facts : Facts) (targets : List Target) : List Stmt → Builder Unit
  | [] => return
  | s :: rest => do
    stmt facts targets s
    stmtList facts targets rest

/-- A block that is dead as a whole says so only through its statements. -/
def block (facts : Facts) (targets : List Target) : Block → Builder Unit
  | .mk m stmts _ => do
    markHere m
    stmtList facts targets stmts

/-- A `finally` block is built before what it cleans up after, so that the ways out of that can be
led through it. -/
def cleanupOption (facts : Facts) (targets : List Target) : Option Block → Builder (Option Target)
  | none => return none
  | some b => do
    let entry ← newBlock .cleanup
    goOn (some entry)
    block facts (.barrier :: targets) b
    return some (.cleanup entry (← cursor))

/-- The sections of a switch, each entered from the end of its tag. -/
def sectionList (facts : Facts) (targets : List Target) (tagEnd : Option BlockId)
    (after : BlockId) : List CaseClause → Builder Unit
  | [] => return
  | .mk m values isDefault body :: rest => do
    branch .branch tagEnd
    addNode facts targets (.caseClause (.mk m values isDefault body))
    stmtList facts targets body
    if (← cursor).isSome then
      report .error .missingBreak m.pos "missing break statement at end of switch section"
      connectHere after
    sectionList facts targets tagEnd after rest

/-- The handlers of a try statement, with the types of those before them. -/
def handlerList (facts : Facts) (targets : List Target) (cleanup : Option Target)
    (after : BlockId) (before : List ErrorType) :
    List (ErrorType × BlockId) → List CatchClause → Builder Unit
  | (accepts, b) :: hs, .mk m param body :: rest => do
    if before.contains accepts then
      report .error .doubleCatch m.pos "double catch clause of same error detected"
    if (← preds b).isEmpty then
      report .warning .unreachableCatch m.pos "unreachable catch clause detected"
      markTreeDead (.catchClause (.mk m param body))
    else
      goOn (some b)
      add (.catchClause (.mk m param body))
      block facts targets body
      leaveAttempt cleanup after
    handlerList facts targets cleanup after (accepts :: before) hs rest
  | _, _ => return

end

/-- The return block holds the body as a node, which stands for what the function reads when it
returns. -/
def function (facts : Facts) (d : FuncDecl) : Builder Unit := do
  let ret ← newBlock .ret
  let exit ← newBlock .exit
  modify fun s => { s with graph := { s.graph with ret := some ret, exit := some exit } }
  connect (some ret) exit
  goOn (some ret)
  add (.stmt (.block d.body))
  branch .plain (some 0)
  add (.func d)
  stmtList facts [.escape exit, .landing .functionEnd ret] d.body.stmts
  if (← cursor).isSome then
    modify fun s => { s with graph := { s.graph with endReachable := true } }
    if d.result.isSome then
      report .error .missingReturn d.body.close "missing return statement at end of subroutine body"
    else connectHere ret

end Build

/-- The outcome of building the graph of a function: the graph, or why there is none. -/
structure Construction where
  outcome : Except Aborted Graph
  diagnostics : List Diagnostic
  dead : List Nat

namespace Construction

def ofFunc (facts : Facts) (d : FuncDecl) : Construction :=
  match Build.function facts d { graph := .ofName d.name.text } with
  | .ok _ s => ⟨.ok s.graph, s.diagnostics, s.dead⟩
  | .error e s => ⟨.error e, s.diagnostics, s.dead⟩

end Construction

end FlowCheck
