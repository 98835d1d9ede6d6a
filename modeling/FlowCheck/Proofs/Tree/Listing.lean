import FlowCheck.Tree.Node

/-!
# Statement lists

A function is made of statement lists: the statements of its body and of the parts of compound
statements. A block that stands in a list is not one of its own, its statements belong to the list;
an else part is one, even where it is a single statement.
-/
namespace FlowCheck

mutual

/-- What a statement contributes to the list that it stands in: those of a block its statements, and
an empty one nothing. -/
def Stmt.flat : Stmt → List Stmt
  | .empty _ => []
  | .block b => b.flat
  | x => [x]

def Stmt.flatList : List Stmt → List Stmt
  | [] => []
  | x :: xs => x.flat ++ Stmt.flatList xs

def Block.flat : Block → List Stmt
  | .mk _ xs _ => Stmt.flatList xs

end

/-- The number of the statement is among those of dead nodes. -/
def Stmt.deadIn (dead : List Nat) (x : Stmt) : Bool := dead.contains x.mark.id

mutual

/-- The lists that stand in a statement, each behind those within it. Dead statements and handlers
are not entered, and the `finally` block of a try statement comes first. -/
def Stmt.inner (dead : List Nat) : Stmt → List (List Stmt)
  | .block b => b.inner dead
  | .cond m _ yes no =>
    if dead.contains m.id then [] else
      (yes.inner dead ++ [yes.flat]) ++ (Stmt.innerOption dead no ++ [no.elim [] Stmt.flat])
  | .loop m _ _ _ body => if dead.contains m.id then [] else body.inner dead ++ [body.flat]
  | .foreach m _ _ body => if dead.contains m.id then [] else body.inner dead ++ [body.flat]
  | .switch m _ sections _ => if dead.contains m.id then [] else CaseClause.inner dead sections
  | .attempt m body clauses cleanup =>
    if dead.contains m.id then [] else
      Block.innerOption dead cleanup ++ (body.inner dead ++ [body.flat]) ++
        CatchClause.inner dead clauses
  | _ => []

def Stmt.innerOption (dead : List Nat) : Option Stmt → List (List Stmt)
  | none => []
  | some x => x.inner dead

def Stmt.innerList (dead : List Nat) : List Stmt → List (List Stmt)
  | [] => []
  | x :: xs => x.inner dead ++ Stmt.innerList dead xs

def Block.inner (dead : List Nat) : Block → List (List Stmt)
  | .mk _ xs _ => Stmt.innerList dead xs

def Block.innerOption (dead : List Nat) : Option Block → List (List Stmt)
  | none => []
  | some b => b.inner dead ++ [b.flat]

def CaseClause.inner (dead : List Nat) : List CaseClause → List (List Stmt)
  | [] => []
  | .mk _ _ _ body :: cs =>
    (Stmt.innerList dead body ++ [Stmt.flatList body]) ++ CaseClause.inner dead cs

def CatchClause.inner (dead : List Nat) : List CatchClause → List (List Stmt)
  | [] => []
  | .mk m _ body :: cs =>
    (if dead.contains m.id then [] else body.inner dead ++ [body.flat]) ++ CatchClause.inner dead cs

end

/-- The lists that a block is made of, itself the last. -/
def Block.lists (dead : List Nat) (b : Block) : List (List Stmt) := b.inner dead ++ [b.flat]

theorem Stmt.innerList_toList (dead : List Nat) (x : Option Stmt) :
    Stmt.innerList dead x.toList = Stmt.innerOption dead x := by
  cases x with
  | none => rfl
  | some x => simp [innerList, innerOption]

theorem Stmt.flatList_toList (x : Option Stmt) : Stmt.flatList x.toList = x.elim [] Stmt.flat := by
  cases x with
  | none => rfl
  | some x => simp [flatList]

end FlowCheck
