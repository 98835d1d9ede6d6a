import FlowCheck.Flow.Builder

/-!
# Building graphs: jumps and errors

Jumps and raised errors leave the enclosing statements from the inside out. What they meet on the
way is a list of targets, innermost first. Passing a `finally` block means running it, so the way
leads through the block and goes on from its end.
-/
namespace FlowCheck

/-- What a jump asks for. -/
inductive Exit where
  | loopEnd
  | nextRound
  | functionEnd
  deriving DecidableEq, Repr

/-- What jumps and errors meet on their way out. -/
inductive Target where
  /-- Jumps of one kind land in the block. -/
  | landing (exit : Exit) (block : BlockId)
  /-- Errors leave the function through the block. -/
  | escape (block : BlockId)
  /-- Errors of a type are handled in the block. -/
  | handler (accepts : ErrorType) (block : BlockId)
  /-- A `finally` block runs from `entry` to `last`, or never completes. -/
  | cleanup (entry : BlockId) (last : Option BlockId)
  /-- The edge of a `finally` block, which no jump may cross. -/
  | barrier
  deriving DecidableEq, Repr

namespace Build

/-- Runs a `finally` block on the way out. -/
def passThrough (entry : BlockId) (last : Option BlockId) : Builder Unit := do
  connectHere entry
  moveTo last

/-- Jumps to the nearest landing of the wanted kind and says whether there is one. -/
def jump (pos : Pos) (wanted : Exit) : List Target → Builder Bool
  | [] => return false
  | .landing exit b :: rest =>
    if exit = wanted then do
      connectHere b
      goOn none
      return true
    else jump pos wanted rest
  | .cleanup entry last :: rest => do
    passThrough entry last
    jump pos wanted rest
  | .barrier :: _ => do
    report .error .jumpOutOfFinally pos "jump out of finally block not permitted"
    throw .jumpOutOfFinally
  | _ :: rest => jump pos wanted rest

/-- A handler takes errors that it covers for good; one that may match only some of them gets an
edge, and the rest goes on. -/
def raise (e : ErrorType) : List Target → Builder Unit
  | [] => return
  | .escape b :: _ => do
    connectHere b
    goOn none
  | .handler accepts b :: rest =>
    if accepts.covers e then do
      connectHere b
      goOn none
    else do
      if e.covers accepts then connectHere b
      raise e rest
  | .cleanup entry last :: rest => do
    passThrough entry last
    raise e rest
  | _ :: rest => raise e rest

/-- Raises every error type from the same block. -/
def raiseAll (targets : List Target) (fork : Option BlockId) (errors : List ErrorType) :
    Builder Unit :=
  errors.forM fun e => do
    moveTo fork
    raise e targets

/-- Adds a node that may raise errors. They leave from the block as it stood before the node, so no
error path sees what the node assigns, and the node opens a new block. -/
def addNode (facts : Facts) (targets : List Target) (n : Node) : Builder Unit := do
  match facts.raises n with
  | [] => add n
  | errors =>
    let fork ← cursor
    raiseAll targets fork errors
    branch .plain fork
    add n

/-- Adds a node that always raises an error; nothing follows it. -/
def addRaising (facts : Facts) (targets : List Target) (n : Node) : Builder Unit := do
  add n
  raiseAll targets (← cursor) (facts.raises n)
  goOn none

/-- Leaves the body or a handler of a try statement for what comes after it. -/
def leaveAttempt (cleanup : Option Target) (after : BlockId) : Builder Unit := do
  if (← cursor).isSome then
    if let some (.cleanup entry last) := cleanup then passThrough entry last
    connectHere after

end Build

end FlowCheck
