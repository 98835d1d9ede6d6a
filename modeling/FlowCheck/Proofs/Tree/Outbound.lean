import FlowCheck.Proofs.Execution.Trace
import FlowCheck.Proofs.Tree.Subtree

/-!
# Jumps that leave a part of a program

A jump is taken by the innermost loop, and one to the end also by a switch, if there is one around it;
a return is taken by nothing. The jumps that leave a part are those that nothing in it takes. Those in
`finally` blocks are left out, as they may not leave these in the first place.
-/
namespace FlowCheck

/-- What a jump or a return asks for. -/
def Stmt.exit? : Stmt → Option Exit
  | .jump _ kind => some kind.exit
  | .ret .. => some .functionEnd
  | _ => none

mutual

/-- The jumps and returns in a statement that ask for an exit and do not find it there. -/
def Stmt.outbound (k : Exit) : Stmt → List Stmt
  | .jump m kind => if kind.exit = k then [.jump m kind] else []
  | .ret m result => if k = .functionEnd then [.ret m result] else []
  | .block b => b.outbound k
  | .cond _ _ yes no => yes.outbound k ++ Stmt.outboundOption k no
  | .loop _ _ _ _ body | .foreach _ _ _ body => if k = .functionEnd then body.outbound k else []
  | .switch _ _ sections _ => if k = .loopEnd then [] else CaseClause.outbound k sections
  | .attempt _ body clauses _ => body.outbound k ++ CatchClause.outbound k clauses
  | _ => []

def Stmt.outboundOption (k : Exit) : Option Stmt → List Stmt
  | none => []
  | some x => x.outbound k

def Stmt.outboundList (k : Exit) : List Stmt → List Stmt
  | [] => []
  | x :: xs => x.outbound k ++ Stmt.outboundList k xs

def Block.outbound (k : Exit) : Block → List Stmt
  | .mk _ xs _ => Stmt.outboundList k xs

def CaseClause.outbound (k : Exit) : List CaseClause → List Stmt
  | [] => []
  | .mk _ _ _ body :: cs => Stmt.outboundList k body ++ CaseClause.outbound k cs

def CatchClause.outbound (k : Exit) : List CatchClause → List Stmt
  | [] => []
  | .mk _ _ body :: cs => body.outbound k ++ CatchClause.outbound k cs

end

def Block.outboundOption (k : Exit) : Option Block → List Stmt
  | none => []
  | some b => b.outbound k

section

variable {k : Exit} {y : Stmt}

theorem Stmt.outboundList_toList (x : Option Stmt) :
    Stmt.outboundList k x.toList = Stmt.outboundOption k x := by
  cases x with
  | none => rfl
  | some x => simp [outboundList, outboundOption]

/-! ### Where they stand -/

mutual

theorem Stmt.mem_walk_of_outbound (x : Stmt) (h : y ∈ x.outbound k) :
    Node.stmt y ∈ x.walk everywhere := by
  match x with
  | .jump m kind =>
    rw [Stmt.outbound] at h
    split_ifs at h
    · obtain rfl := List.mem_singleton.mp h
      exact (Node.stmt _).mem_subtree
    · cases h
  | .ret m result =>
    rw [Stmt.outbound] at h
    split_ifs at h
    · obtain rfl := List.mem_singleton.mp h
      exact (Node.stmt _).mem_subtree
    · cases h
  | .block b =>
    rw [Stmt.outbound] at h
    exact Block.mem_walk_of_outbound b h
  | .cond m test yes no =>
    rw [Stmt.outbound] at h
    rcases List.mem_append.mp h with h | h
    · exact List.mem_cons_of_mem _ (List.mem_append_left _ (List.mem_append_right _
        (Block.mem_walk_of_outbound yes h)))
    · exact List.mem_cons_of_mem _ (List.mem_append_right _ (Stmt.mem_walkOption_of_outbound no h))
  | .loop m init test post body =>
    rw [Stmt.outbound] at h
    split_ifs at h
    · exact List.mem_cons_of_mem _ (List.mem_append_right _ (Block.mem_walk_of_outbound body h))
    · cases h
  | .foreach m v operand body =>
    rw [Stmt.outbound] at h
    split_ifs at h
    · exact List.mem_cons_of_mem _ (List.mem_append_right _ (Block.mem_walk_of_outbound body h))
    · cases h
  | .switch m tag sections close =>
    rw [Stmt.outbound] at h
    split_ifs at h
    · cases h
    · exact List.mem_cons_of_mem _ (List.mem_append_right _
        (CaseClause.mem_walk_of_outbound sections h))
  | .attempt m body clauses cleanup =>
    rw [Stmt.outbound] at h
    rcases List.mem_append.mp h with h | h
    · exact List.mem_cons_of_mem _ (List.mem_append_left _ (List.mem_append_left _
        (Block.mem_walk_of_outbound body h)))
    · exact List.mem_cons_of_mem _ (List.mem_append_left _ (List.mem_append_right _
        (CatchClause.mem_walk_of_outbound clauses h)))
  | .empty m => cases h
  | .simple x => cases h
  | .var m d => cases h
  | .raise m x => cases h

theorem Stmt.mem_walkOption_of_outbound (x : Option Stmt) (h : y ∈ Stmt.outboundOption k x) :
    Node.stmt y ∈ Stmt.walkOption everywhere x := by
  match x with
  | none => cases h
  | some x => exact Stmt.mem_walk_of_outbound x h

theorem Stmt.mem_walkList_of_outbound (xs : List Stmt) (h : y ∈ Stmt.outboundList k xs) :
    Node.stmt y ∈ Stmt.walkList everywhere xs := by
  match xs with
  | [] => cases h
  | x :: xs =>
    rw [Stmt.outboundList] at h
    rcases List.mem_append.mp h with h | h
    · exact List.mem_append_left _ (Stmt.mem_walk_of_outbound x h)
    · exact List.mem_append_right _ (Stmt.mem_walkList_of_outbound xs h)

theorem Block.mem_walk_of_outbound (b : Block) (h : y ∈ b.outbound k) :
    Node.stmt y ∈ b.walk everywhere := by
  match b with
  | .mk m xs close => exact List.mem_cons_of_mem _ (Stmt.mem_walkList_of_outbound xs h)

theorem CaseClause.mem_walk_of_outbound (cs : List CaseClause) (h : y ∈ CaseClause.outbound k cs) :
    Node.stmt y ∈ CaseClause.walkList everywhere cs := by
  match cs with
  | [] => cases h
  | .mk m values isDefault body :: cs =>
    rw [CaseClause.outbound] at h
    rcases List.mem_append.mp h with h | h
    · exact List.mem_append_left _ (List.mem_cons_of_mem _ (List.mem_append_right _
        (Stmt.mem_walkList_of_outbound body h)))
    · exact List.mem_append_right _ (CaseClause.mem_walk_of_outbound cs h)

theorem CatchClause.mem_walk_of_outbound (cs : List CatchClause) (h : y ∈ CatchClause.outbound k cs) :
    Node.stmt y ∈ CatchClause.walkList everywhere cs := by
  match cs with
  | [] => cases h
  | .mk m param body :: cs =>
    rw [CatchClause.outbound] at h
    rcases List.mem_append.mp h with h | h
    · exact List.mem_append_left _ (List.mem_cons_of_mem _ (List.mem_append_right _
        (Block.mem_walk_of_outbound body h)))
    · exact List.mem_append_right _ (CatchClause.mem_walk_of_outbound cs h)

end

theorem Block.mem_walkOption_of_outbound (b : Option Block) (h : y ∈ Block.outboundOption k b) :
    Node.stmt y ∈ Block.walkOption everywhere b := by
  cases b with
  | none => cases h
  | some b => exact b.mem_walk_of_outbound h

end

end FlowCheck
