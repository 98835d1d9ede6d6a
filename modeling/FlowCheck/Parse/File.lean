import FlowCheck.Parse.Stmt
import FlowCheck.Tree.Numbering

/-!
# Parsing files

`File.parse` reads a whole source file. It always returns a tree, in which placeholders stand for
what was missing, together with everything that was reported on the way.
-/
namespace FlowCheck

namespace Parse

/-- Codes separated by commas or ends of lines. -/
def codes : Parser (List Ident) := do
  let t ← token
  if t = .rbrace || t = .eof then return []
  else
    let code ← ident
    if ← got .comma then return code :: (← (codes.run ·))
    else if ← got .semi then return code :: (← (codes.run ·))
    else return [code]
partial_fixpoint

def errorDomainDecl : Parser ErrorDomainDecl := do
  let p ← pos
  want (.keyword .kwErrordomain)
  let name ← ident
  want .lbrace
  let codes ← codes
  want .rbrace
  semi
  return { mark := { pos := p }, name, codes }

/-- Parameters up to the closing parenthesis. -/
def paramList : Parser (List Param) := do
  let t ← token
  if t = .rparen || t = .eof then return []
  else
    let p ← pos
    let out ← got (.keyword .kwOut)
    let name ← ident
    let type ← type
    let param : Param := { mark := { pos := p }, out, name, type }
    if ← got .comma then return param :: (← (paramList.run ·))
    else return [param]
partial_fixpoint

def params : Parser (List Param) := do
  want .lparen
  let ps ← paramList
  want .rparen
  return ps

/-- One or more error types separated by commas. -/
def throws : Parser (List Expr) := do
  let x ← qualifiedName
  if ← got .comma then return x :: (← (throws.run ·))
  else return [x]
partial_fixpoint

def funcDecl : Parser FuncDecl := do
  let p ← pos
  want (.keyword .kwFunc)
  let name ← ident
  let params ← params
  let result ← unlessAt (fun t => t = .lbrace || t = .keyword .kwThrows) type
  let throws ← after (.keyword .kwThrows) throws
  let body ← block
  semi
  return { mark := { pos := p }, name, params, result, throws := throws.getD [], body }

/-- A declaration, or nothing after a fault. -/
def decl : Parser (Option Decl) := do
  match ← token with
  | .keyword .kwErrordomain => return some (.errorDomain (← errorDomainDecl))
  | .keyword .kwVar => return some (.var (← varDecl))
  | .keyword .kwFunc => return some (.func (← funcDecl))
  | _ =>
    fault .expectedDecl
    recover
    return none

def decls : Parser (List Decl) := do
  if (← isAborted) || (← token) = .eof then return []
  else if ← got .semi then (decls.run ·)
  else
    let d ← decl
    return d.toList ++ (← (decls.run ·))
partial_fixpoint

def file : Parser File := do
  let p ← pos
  want (.keyword .kwPackage)
  let package ← ident
  want .semi
  let decls ← decls
  return { mark := { pos := p }, package, decls }

end Parse

/-- What reading a file gave: its tree and everything reported, in order. -/
structure Parsed where
  file : File
  reports : List ParseReport
  /-- The number of faults of the grammar. -/
  faults : Nat
  first : Option ParseReport

namespace Parsed

/-- The outcome of a parse that came to an end in the given state. -/
def ofEnd (file : File) (s : Parse.State) : Parsed :=
  { file := file.numbered, reports := s.reports, faults := s.faults, first := s.first }

/-- The tree of an empty file stands in for that of a parse without an outcome; there is none. -/
def ofLexemes (lexemes : List Lexeme) : Parsed :=
  let start := Parse.State.ofLexemes lexemes
  (Parse.file.run start).elim (ofEnd ⟨default, default, []⟩ start) fun (file, s) => ofEnd file s

def ofSource (source : Source) : Parsed := ofLexemes (Lexer.scan source)

end Parsed

end FlowCheck
