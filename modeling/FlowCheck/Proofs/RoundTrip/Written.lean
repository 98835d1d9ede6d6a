import FlowCheck.Tree.Basic
import FlowCheck.Token.Lexer

/-!
# Writing trees out

A tree is written as the sequence of words that its source text would scan to, every statement and
declaration with a semicolon of its own. `write` puts the words of a tree in front of those that
follow, so that what comes after a part can be read off the equation for the whole. `WellFormed`
says which trees can be written at all: operands bind tighter than their operators, and every part
that the grammar asks for is there. `bare` is a tree without its positions and numbers.
-/
namespace FlowCheck

/-- What the grammar sees of a lexeme: its token, and the text of a name or literal. -/
abbrev Word := Token × String

def Token.word (t : Token) : Word := (t, t.text)

def Lexeme.word (l : Lexeme) : Word :=
  match l.token with
  | .name | .literal _ => (l.token, l.text)
  | t => t.word

theorem Lexeme.word_fst (l : Lexeme) : l.word.1 = l.token := by
  unfold Lexeme.word
  split <;> simp_all [Token.word]

/-- The end of the file stands for the words after the last one. -/
def headToken : List Word → Token
  | [] => .eof
  | w :: _ => w.1

@[simp] theorem headToken_word (t : Token) (ws : List Word) : headToken (t.word :: ws) = t := rfl

def UnaryOp.token : UnaryOp → Token
  | not => .not
  | neg => .op .sub

def AssignOp.token : AssignOp → Token
  | set => .assign
  | define => .define

def Jump.token : Jump → Token
  | toEnd => .keyword .kwBreak
  | toNext => .keyword .kwContinue

namespace Ident

def write (name : Ident) (rest : List Word) : List Word := (.name, name.text) :: rest

def bare (name : Ident) : Ident := ⟨default, name.text⟩

/-- Names separated by commas. -/
def writeList : List Ident → List Word → List Word
  | [], rest => rest
  | [name], rest => name.write rest
  | name :: names, rest => name.write (Token.comma.word :: writeList names rest)

end Ident

namespace Expr

/-- How tight an operator before an operand binds. -/
def unaryLevel : Nat := 6

/-- How tight operands bind, and what follows one: arguments, an index or a selector. -/
def postfixLevel : Nat := 7

def level : Expr → Nat
  | binary _ op _ _ => op.precedence
  | unary .. => unaryLevel
  | _ => postfixLevel

theorem level_pos (x : Expr) : 0 < x.level := by
  cases x with
  | binary _ op _ _ => exact op.precedence_pos
  | _ => simp [level, unaryLevel, postfixLevel]

mutual

def write : Expr → List Word → List Word
  | .ident name, rest => name.write rest
  | .literal _ kind text, rest => (.literal kind, text) :: rest
  | .unary _ op x, rest => op.token.word :: x.write rest
  | .binary _ op x y, rest => x.write ((Token.op op).word :: y.write rest)
  | .call _ callee args, rest =>
    callee.write (Token.lparen.word :: writeList args (Token.rparen.word :: rest))
  | .index _ x i, rest => x.write (Token.lbrack.word :: i.write (Token.rbrack.word :: rest))
  | .select _ x sel, rest => x.write (Token.dot.word :: sel.write rest)
  | .paren _ x, rest => Token.lparen.word :: x.write (Token.rparen.word :: rest)
  | .sliceType _ elem, rest => Token.lbrack.word :: Token.rbrack.word :: elem.write rest

/-- Expressions separated by commas. -/
def writeList : List Expr → List Word → List Word
  | [], rest => rest
  | x :: xs, rest => x.write (writeTail xs rest)

/-- Each expression after a comma. -/
def writeTail : List Expr → List Word → List Word
  | [], rest => rest
  | x :: xs, rest => Token.comma.word :: x.write (writeTail xs rest)

end

def writeOption : Option Expr → List Word → List Word
  | none, rest => rest
  | some x, rest => x.write rest

mutual

def bare : Expr → Expr
  | .ident name => .ident name.bare
  | .literal _ kind text => .literal default kind text
  | .unary _ op x => .unary default op x.bare
  | .binary _ op x y => .binary default op x.bare y.bare
  | .call _ callee args => .call default callee.bare (bareList args)
  | .index _ x i => .index default x.bare i.bare
  | .select _ x sel => .select default x.bare sel.bare
  | .paren _ x => .paren default x.bare
  | .sliceType _ elem => .sliceType default elem.bare

def bareList : List Expr → List Expr
  | [] => []
  | x :: xs => x.bare :: bareList xs

end

mutual

/-- Looser operands stand in parentheses, and types stand nowhere in an expression. -/
def WellFormed : Expr → Prop
  | .ident _ | .literal .. => True
  | .unary _ _ x => unaryLevel ≤ x.level ∧ x.WellFormed
  | .binary _ op x y =>
    op.precedence ≤ x.level ∧ op.precedence < y.level ∧ x.WellFormed ∧ y.WellFormed
  | .call _ callee args => postfixLevel ≤ callee.level ∧ callee.WellFormed ∧ AllWellFormed args
  | .index _ x i => postfixLevel ≤ x.level ∧ x.WellFormed ∧ i.WellFormed
  | .select _ x _ => postfixLevel ≤ x.level ∧ x.WellFormed
  | .paren _ x => x.WellFormed
  | .sliceType .. => False

def AllWellFormed : List Expr → Prop
  | [] => True
  | x :: xs => x.WellFormed ∧ AllWellFormed xs

end

/-- Types are names and slices of types. -/
def IsType : Expr → Prop
  | ident _ => True
  | sliceType _ elem => elem.IsType
  | _ => False

/-- Error types are names, or names selected from one. -/
def IsQualified : Expr → Prop
  | ident _ => True
  | select _ (ident _) _ => True
  | _ => False

end Expr

namespace Simple

def write : Simple → List Word → List Word
  | expr _ x, rest => x.write rest
  | assign _ op target value, rest => target.write (op.token.word :: value.write rest)

def writeOption : Option Simple → List Word → List Word
  | none, rest => rest
  | some s, rest => s.write rest

def bare : Simple → Simple
  | expr _ x => .expr default x.bare
  | assign _ op target value => .assign default op target.bare value.bare

def WellFormed : Simple → Prop
  | expr _ x => x.WellFormed
  | assign _ _ target value => target.WellFormed ∧ value.WellFormed

end Simple

namespace VarDecl

/-- The first value of a variable, if it has one. -/
def writeValue : Option Expr → List Word → List Word
  | none, rest => rest
  | some x, rest => Token.assign.word :: x.write rest

def write (d : VarDecl) (rest : List Word) : List Word :=
  (Token.keyword .kwVar).word ::
    d.name.write (Expr.writeOption d.type (writeValue d.value rest))

def bare (d : VarDecl) : VarDecl :=
  ⟨default, d.name.bare, d.type.map Expr.bare, d.value.map Expr.bare⟩

structure WellFormed (d : VarDecl) : Prop where
  given : d.type.isSome ∨ d.value.isSome
  type : ∀ x ∈ d.type, x.IsType
  value : ∀ x ∈ d.value, x.WellFormed

end VarDecl

/-- The header of a loop: nothing, a condition, or three parts separated by semicolons. -/
def writeHeader : Option Simple → Option Expr → Option Simple → List Word → List Word
  | none, none, none, rest => rest
  | none, some test, none, rest => test.write rest
  | init, test, post, rest =>
    Simple.writeOption init (Token.semi.word ::
      Expr.writeOption test (Token.semi.word :: Simple.writeOption post rest))

/-- The labels of a switch section, `default` after the others. -/
def writeLabels (values : List Expr) (isDefault : Bool) (rest : List Word) : List Word :=
  let rest := if isDefault then (Token.keyword .kwDefault).word :: Token.colon.word :: rest else rest
  match values with
  | [] => rest
  | values => (Token.keyword .kwCase).word :: Expr.writeList values (Token.colon.word :: rest)

/-- The variable and type of a handler. -/
def writeParam : Option (Ident × Expr) → List Word → List Word
  | none, rest => rest
  | some (name, type), rest =>
    Token.lparen.word :: name.write (type.write (Token.rparen.word :: rest))

mutual

/-- A statement without the semicolon after it, which is all there is of an empty one. -/
def Stmt.write : Stmt → List Word → List Word
  | .empty _, rest => rest
  | .simple s, rest => s.write rest
  | .var _ d, rest => d.write rest
  | .block b, rest => b.write rest
  | .cond _ test yes no, rest =>
    (Token.keyword .kwIf).word :: test.write (yes.write (Stmt.writeElse no rest))
  | .loop _ init test post body, rest =>
    (Token.keyword .kwFor).word :: writeHeader init test post (body.write rest)
  | .foreach _ name operand body, rest =>
    (Token.keyword .kwFor).word :: name.write ((Token.keyword .kwIn).word ::
      operand.write (body.write rest))
  | .switch _ tag sections _, rest =>
    (Token.keyword .kwSwitch).word :: tag.write (Token.lbrace.word ::
      CaseClause.writeList sections (Token.rbrace.word :: rest))
  | .jump _ kind, rest => kind.token.word :: rest
  | .ret _ result, rest => (Token.keyword .kwReturn).word :: Expr.writeOption result rest
  | .raise _ x, rest => (Token.keyword .kwThrow).word :: x.write rest
  | .attempt _ body handlers cleanup, rest =>
    (Token.keyword .kwTry).word ::
      body.write (CatchClause.writeList handlers (Block.writeFinally cleanup rest))

def Stmt.writeElse : Option Stmt → List Word → List Word
  | none, rest => rest
  | some s, rest => (Token.keyword .kwElse).word :: s.write rest

def Stmt.writeList : List Stmt → List Word → List Word
  | [], rest => rest
  | s :: ss, rest => s.write (Token.semi.word :: Stmt.writeList ss rest)

def Block.write : Block → List Word → List Word
  | .mk _ stmts _, rest => Token.lbrace.word :: Stmt.writeList stmts (Token.rbrace.word :: rest)

def Block.writeFinally : Option Block → List Word → List Word
  | none, rest => rest
  | some b, rest => (Token.keyword .kwFinally).word :: b.write rest

def CaseClause.writeList : List CaseClause → List Word → List Word
  | [], rest => rest
  | .mk _ values isDefault body :: cs, rest =>
    writeLabels values isDefault (Stmt.writeList body (CaseClause.writeList cs rest))

def CatchClause.writeList : List CatchClause → List Word → List Word
  | [], rest => rest
  | .mk _ param body :: cs, rest =>
    (Token.keyword .kwCatch).word :: writeParam param (body.write (CatchClause.writeList cs rest))

end

mutual

def Stmt.bare : Stmt → Stmt
  | .empty _ => .empty default
  | .simple s => .simple s.bare
  | .var _ d => .var default d.bare
  | .block b => .block b.bare
  | .cond _ test yes no => .cond default test.bare yes.bare (Stmt.bareOption no)
  | .loop _ init test post body =>
    .loop default (init.map Simple.bare) (test.map Expr.bare) (post.map Simple.bare) body.bare
  | .foreach _ name operand body => .foreach default name.bare operand.bare body.bare
  | .switch _ tag sections _ => .switch default tag.bare (CaseClause.bareList sections) default
  | .jump _ kind => .jump default kind
  | .ret _ result => .ret default (result.map Expr.bare)
  | .raise _ x => .raise default x.bare
  | .attempt _ body handlers cleanup =>
    .attempt default body.bare (CatchClause.bareList handlers) (Block.bareOption cleanup)

def Stmt.bareOption : Option Stmt → Option Stmt
  | none => none
  | some s => some s.bare

def Stmt.bareList : List Stmt → List Stmt
  | [] => []
  | s :: ss => s.bare :: Stmt.bareList ss

def Block.bare : Block → Block
  | .mk _ stmts _ => .mk default (Stmt.bareList stmts) default

def Block.bareOption : Option Block → Option Block
  | none => none
  | some b => some b.bare

def CaseClause.bare : CaseClause → CaseClause
  | .mk _ values isDefault body => .mk default (Expr.bareList values) isDefault (Stmt.bareList body)

def CaseClause.bareList : List CaseClause → List CaseClause
  | [] => []
  | c :: cs => c.bare :: CaseClause.bareList cs

def CatchClause.bare : CatchClause → CatchClause
  | .mk _ none body => .mk default none body.bare
  | .mk _ (some (name, type)) body => .mk default (some (name.bare, type.bare)) body.bare

def CatchClause.bareList : List CatchClause → List CatchClause
  | [] => []
  | c :: cs => c.bare :: CatchClause.bareList cs

end

theorem CatchClause.bare_mk (m : Mark) (param : Option (Ident × Expr)) (body : Block) :
    (CatchClause.mk m param body).bare =
      .mk default (param.map fun p => (p.1.bare, p.2.bare)) body.bare := by
  cases param <;> simp [CatchClause.bare]

mutual

def Stmt.WellFormed : Stmt → Prop
  | .empty _ | .jump .. => True
  | .simple s => s.WellFormed
  | .var _ d => d.WellFormed
  | .block b => b.WellFormed
  | .cond _ test yes no => test.WellFormed ∧ yes.WellFormed ∧ Stmt.ElseWellFormed no
  | .loop _ init test post body =>
    (∀ s ∈ init, s.WellFormed) ∧ (∀ x ∈ test, x.WellFormed) ∧ (∀ s ∈ post, s.WellFormed) ∧
      body.WellFormed
  | .foreach _ _ operand body => operand.WellFormed ∧ body.WellFormed
  | .switch _ tag sections _ => tag.WellFormed ∧ CaseClause.AllWellFormed sections
  | .ret _ result => ∀ x ∈ result, x.WellFormed
  | .raise _ x => x.WellFormed
  | .attempt _ body handlers cleanup =>
    (handlers ≠ [] ∨ cleanup.isSome) ∧ body.WellFormed ∧ CatchClause.AllWellFormed handlers ∧
      Block.FinallyWellFormed cleanup

/-- After `else` stands another if statement or a block. -/
def Stmt.ElseWellFormed : Option Stmt → Prop
  | none => True
  | some (.cond m test yes no) => (Stmt.cond m test yes no).WellFormed
  | some (.block b) => b.WellFormed
  | some _ => False

def Stmt.AllWellFormed : List Stmt → Prop
  | [] => True
  | s :: ss => s.WellFormed ∧ Stmt.AllWellFormed ss

def Block.WellFormed : Block → Prop
  | .mk _ stmts _ => Stmt.AllWellFormed stmts

def Block.FinallyWellFormed : Option Block → Prop
  | none => True
  | some b => b.WellFormed

/-- A section has a label, and only the last one may have no statements. -/
def CaseClause.AllWellFormed : List CaseClause → Prop
  | [] => True
  | .mk _ values isDefault body :: cs =>
    (values ≠ [] ∨ isDefault = true) ∧ (cs ≠ [] → body ≠ []) ∧ Expr.AllWellFormed values ∧
      Stmt.AllWellFormed body ∧ CaseClause.AllWellFormed cs

def CatchClause.AllWellFormed : List CatchClause → Prop
  | [] => True
  | .mk _ param body :: cs =>
    (∀ p ∈ param, p.2.IsQualified) ∧ body.WellFormed ∧ CatchClause.AllWellFormed cs

end

namespace Param

def write (p : Param) (rest : List Word) : List Word :=
  let rest := p.name.write (p.type.write rest)
  if p.out then (Token.keyword .kwOut).word :: rest else rest

def writeTail : List Param → List Word → List Word
  | [], rest => rest
  | p :: ps, rest => Token.comma.word :: p.write (writeTail ps rest)

/-- Parameters separated by commas. -/
def writeList : List Param → List Word → List Word
  | [], rest => rest
  | p :: ps, rest => p.write (writeTail ps rest)

def bare (p : Param) : Param := ⟨default, p.out, p.name.bare, p.type.bare⟩

end Param

namespace FuncDecl

/-- The error types of a function, if it has any. -/
def writeThrows : List Expr → List Word → List Word
  | [], rest => rest
  | xs, rest => (Token.keyword .kwThrows).word :: Expr.writeList xs rest

def write (d : FuncDecl) (rest : List Word) : List Word :=
  (Token.keyword .kwFunc).word :: d.name.write (Token.lparen.word ::
    Param.writeList d.params (Token.rparen.word ::
      Expr.writeOption d.result (writeThrows d.throws (d.body.write rest))))

def bare (d : FuncDecl) : FuncDecl :=
  ⟨default, d.name.bare, d.params.map Param.bare, d.result.map Expr.bare,
    Expr.bareList d.throws, d.body.bare⟩

structure WellFormed (d : FuncDecl) : Prop where
  params : ∀ p ∈ d.params, p.type.IsType
  result : ∀ x ∈ d.result, x.IsType
  throws : ∀ x ∈ d.throws, x.IsQualified
  body : d.body.WellFormed

end FuncDecl

namespace ErrorDomainDecl

def write (d : ErrorDomainDecl) (rest : List Word) : List Word :=
  (Token.keyword .kwErrordomain).word :: d.name.write (Token.lbrace.word ::
    Ident.writeList d.codes (Token.rbrace.word :: rest))

def bare (d : ErrorDomainDecl) : ErrorDomainDecl :=
  ⟨default, d.name.bare, d.codes.map Ident.bare⟩

end ErrorDomainDecl

namespace Decl

def write : Decl → List Word → List Word
  | errorDomain d => d.write
  | var d => d.write
  | func d => d.write

def writeList : List Decl → List Word → List Word
  | [], rest => rest
  | d :: ds, rest => d.write (Token.semi.word :: writeList ds rest)

def bare : Decl → Decl
  | errorDomain d => .errorDomain d.bare
  | var d => .var d.bare
  | func d => .func d.bare

def WellFormed : Decl → Prop
  | errorDomain _ => True
  | var d => d.WellFormed
  | func d => d.WellFormed

end Decl

namespace File

/-- The words of a whole file, up to its end. -/
def words (f : File) : List Word :=
  (Token.keyword .kwPackage).word :: f.package.write (Token.semi.word ::
    Decl.writeList f.decls [Token.eof.word])

def bare (f : File) : File := ⟨default, f.package.bare, f.decls.map Decl.bare⟩

def WellFormed (f : File) : Prop := ∀ d ∈ f.decls, d.WellFormed

end File

/-! ### What follows the words of a tree stays in its place -/

mutual

theorem Expr.write_append (x : Expr) (ws vs : List Word) : x.write ws ++ vs = x.write (ws ++ vs) := by
  match x with
  | .ident _ | .literal .. => rfl
  | .unary m op y => simp [Expr.write, Expr.write_append y]
  | .binary m op y z => simp [Expr.write, Expr.write_append y, Expr.write_append z]
  | .call m y args => simp [Expr.write, Expr.write_append y, Expr.writeList_append args]
  | .index m y i => simp [Expr.write, Expr.write_append y, Expr.write_append i]
  | .select m y sel => simp [Expr.write, Expr.write_append y, Ident.write]
  | .paren m y => simp [Expr.write, Expr.write_append y]
  | .sliceType m y => simp [Expr.write, Expr.write_append y]

theorem Expr.writeList_append (xs : List Expr) (ws vs : List Word) :
    Expr.writeList xs ws ++ vs = Expr.writeList xs (ws ++ vs) := by
  match xs with
  | [] => rfl
  | x :: xs => simp [Expr.writeList, Expr.write_append x, Expr.writeTail_append xs]

theorem Expr.writeTail_append (xs : List Expr) (ws vs : List Word) :
    Expr.writeTail xs ws ++ vs = Expr.writeTail xs (ws ++ vs) := by
  match xs with
  | [] => rfl
  | x :: xs => simp [Expr.writeTail, Expr.write_append x, Expr.writeTail_append xs]

end

theorem Ident.write_append (name : Ident) (ws vs : List Word) :
    name.write ws ++ vs = name.write (ws ++ vs) := rfl

theorem Expr.writeOption_append (x : Option Expr) (ws vs : List Word) :
    Expr.writeOption x ws ++ vs = Expr.writeOption x (ws ++ vs) := by
  cases x with
  | none => rfl
  | some x => exact x.write_append ws vs

theorem Simple.write_append (s : Simple) (ws vs : List Word) :
    s.write ws ++ vs = s.write (ws ++ vs) := by
  cases s <;> simp [Simple.write, Expr.write_append]

theorem Simple.writeOption_append (s : Option Simple) (ws vs : List Word) :
    Simple.writeOption s ws ++ vs = Simple.writeOption s (ws ++ vs) := by
  cases s with
  | none => rfl
  | some s => exact s.write_append ws vs

theorem VarDecl.write_append (d : VarDecl) (ws vs : List Word) :
    d.write ws ++ vs = d.write (ws ++ vs) := by
  have hvalue : VarDecl.writeValue d.value ws ++ vs = VarDecl.writeValue d.value (ws ++ vs) := by
    cases d.value <;> simp [VarDecl.writeValue, Expr.write_append]
  simp [VarDecl.write, Ident.write_append, Expr.writeOption_append, hvalue]

theorem writeHeader_append (init : Option Simple) (test : Option Expr) (post : Option Simple)
    (ws vs : List Word) :
    writeHeader init test post ws ++ vs = writeHeader init test post (ws ++ vs) := by
  cases init <;> cases test <;> cases post <;>
    simp [writeHeader, Simple.writeOption_append, Expr.writeOption_append, Expr.write_append]

theorem writeLabels_append (values : List Expr) (isDefault : Bool) (ws vs : List Word) :
    writeLabels values isDefault ws ++ vs = writeLabels values isDefault (ws ++ vs) := by
  cases values <;> cases isDefault <;> simp [writeLabels, Expr.writeList_append]

theorem writeParam_append (param : Option (Ident × Expr)) (ws vs : List Word) :
    writeParam param ws ++ vs = writeParam param (ws ++ vs) := by
  cases param <;> simp [writeParam, Ident.write_append, Expr.write_append]

mutual

theorem Stmt.write_append (x : Stmt) (ws vs : List Word) : x.write ws ++ vs = x.write (ws ++ vs) := by
  match x with
  | .empty _ | .jump .. => rfl
  | .simple s => simp [Stmt.write, Simple.write_append]
  | .var m d => simp [Stmt.write, VarDecl.write_append]
  | .block b => simp [Stmt.write, Block.write_append b]
  | .cond m test yes no =>
    simp [Stmt.write, Expr.write_append, Block.write_append yes, Stmt.writeElse_append no]
  | .loop m init test post body => simp [Stmt.write, writeHeader_append, Block.write_append body]
  | .foreach m name operand body =>
    simp [Stmt.write, Ident.write_append, Expr.write_append, Block.write_append body]
  | .switch m tag sections close =>
    simp [Stmt.write, Expr.write_append, CaseClause.writeList_append sections]
  | .ret m result => simp [Stmt.write, Expr.writeOption_append]
  | .raise m y => simp [Stmt.write, Expr.write_append]
  | .attempt m body handlers cleanup =>
    simp [Stmt.write, Block.write_append body, CatchClause.writeList_append handlers,
      Block.writeFinally_append cleanup]

theorem Stmt.writeElse_append (x : Option Stmt) (ws vs : List Word) :
    Stmt.writeElse x ws ++ vs = Stmt.writeElse x (ws ++ vs) := by
  match x with
  | none => rfl
  | some x => simp [Stmt.writeElse, Stmt.write_append x]

theorem Stmt.writeList_append (xs : List Stmt) (ws vs : List Word) :
    Stmt.writeList xs ws ++ vs = Stmt.writeList xs (ws ++ vs) := by
  match xs with
  | [] => rfl
  | x :: xs => simp [Stmt.writeList, Stmt.write_append x, Stmt.writeList_append xs]

theorem Block.write_append (b : Block) (ws vs : List Word) :
    b.write ws ++ vs = b.write (ws ++ vs) := by
  match b with
  | .mk m stmts close => simp [Block.write, Stmt.writeList_append stmts]

theorem Block.writeFinally_append (b : Option Block) (ws vs : List Word) :
    Block.writeFinally b ws ++ vs = Block.writeFinally b (ws ++ vs) := by
  match b with
  | none => rfl
  | some b => simp [Block.writeFinally, Block.write_append b]

theorem CaseClause.writeList_append (cs : List CaseClause) (ws vs : List Word) :
    CaseClause.writeList cs ws ++ vs = CaseClause.writeList cs (ws ++ vs) := by
  match cs with
  | [] => rfl
  | .mk m values isDefault body :: cs =>
    simp [CaseClause.writeList, writeLabels_append, Stmt.writeList_append body,
      CaseClause.writeList_append cs]

theorem CatchClause.writeList_append (cs : List CatchClause) (ws vs : List Word) :
    CatchClause.writeList cs ws ++ vs = CatchClause.writeList cs (ws ++ vs) := by
  match cs with
  | [] => rfl
  | .mk m param body :: cs =>
    simp [CatchClause.writeList, writeParam_append, Block.write_append body,
      CatchClause.writeList_append cs]

end

theorem Ident.writeList_append (names : List Ident) (ws vs : List Word) :
    Ident.writeList names ws ++ vs = Ident.writeList names (ws ++ vs) := by
  match names with
  | [] => rfl
  | [name] => rfl
  | name :: name' :: names =>
    simp [Ident.writeList, Ident.write_append, Ident.writeList_append (name' :: names)]

theorem Param.write_append (p : Param) (ws vs : List Word) :
    p.write ws ++ vs = p.write (ws ++ vs) := by
  unfold Param.write
  split <;> simp [Ident.write_append, Expr.write_append]

theorem Param.writeTail_append (ps : List Param) (ws vs : List Word) :
    Param.writeTail ps ws ++ vs = Param.writeTail ps (ws ++ vs) := by
  induction ps with
  | nil => rfl
  | cons p ps ih => simp [Param.writeTail, Param.write_append, ih]

theorem FuncDecl.write_append (d : FuncDecl) (ws vs : List Word) :
    d.write ws ++ vs = d.write (ws ++ vs) := by
  have hparams (us : List Word) : Param.writeList d.params us ++ vs =
      Param.writeList d.params (us ++ vs) := by
    cases d.params <;> simp [Param.writeList, Param.write_append, Param.writeTail_append]
  have hthrows (us : List Word) : FuncDecl.writeThrows d.throws us ++ vs =
      FuncDecl.writeThrows d.throws (us ++ vs) := by
    cases d.throws <;> simp [FuncDecl.writeThrows, Expr.writeList_append]
  simp [FuncDecl.write, Ident.write_append, hparams, Expr.writeOption_append, hthrows,
    Block.write_append]

theorem Decl.write_append (d : Decl) (ws vs : List Word) : d.write ws ++ vs = d.write (ws ++ vs) := by
  cases d with
  | errorDomain d =>
    simp [Decl.write, ErrorDomainDecl.write, Ident.write_append, Ident.writeList_append]
  | var d => exact d.write_append ws vs
  | func d => exact d.write_append ws vs

theorem Decl.writeList_append (ds : List Decl) (ws vs : List Word) :
    Decl.writeList ds ws ++ vs = Decl.writeList ds (ws ++ vs) := by
  induction ds with
  | nil => rfl
  | cons d ds ih => simp [Decl.writeList, Decl.write_append, ih]

/-- The words of a file end with its end. -/
theorem File.exists_words_eq (f : File) : ∃ ws, f.words = ws ++ [Token.eof.word] := by
  refine ⟨(Token.keyword .kwPackage).word :: f.package.write (Token.semi.word ::
    Decl.writeList f.decls []), ?_⟩
  simp [File.words, Ident.write_append, Decl.writeList_append]

end FlowCheck
