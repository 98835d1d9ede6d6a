import FlowCheck.Parse.File
import FlowCheck.Proofs.RoundTrip.Statement
import FlowCheck.Proofs.Tree.Numbering

/-!
# Files are read back

Parsing the words of a well-formed file reports nothing and returns the file, up to positions.
-/
namespace FlowCheck

namespace Parse

open State

section

variable {ws : List Word}

theorem takes_codes (names : List Ident) {s : State}
    (h : At s (Ident.writeList names (Token.rbrace.word :: ws))) :
    Takes codes s (Token.rbrace.word :: ws) fun as => as.map Ident.bare = names.map Ident.bare := by
  rw [codes]
  refine .token h ?_
  match names with
  | [] => exact .pure h rfl
  | [name] =>
    refine (takes_ident h).bind fun a t ht ha => ?_
    refine (takes_got_other ht (by simp)).bind fun b t ht hb => ?_
    subst hb
    refine (takes_got_other ht (by simp)).bind fun b t ht hb => ?_
    subst hb
    exact .pure ht (by simp [ha.1])
  | name :: name' :: names =>
    refine (takes_ident h).bind fun a t ht ha => ?_
    refine (takes_got ht (by decide)).bind fun b t ht hb => ?_
    subst hb
    refine (takes_codes (name' :: names) ht).bind fun as t ht has => .pure ht ?_
    rw [List.map_cons, has, ha.1]
    rfl

theorem takes_errorDomainDecl (d : ErrorDomainDecl) {s : State}
    (h : At s (d.write (Token.semi.word :: ws))) :
    Takes errorDomainDecl s ws fun a => a.bare = d.bare := by
  unfold errorDomainDecl
  refine .pos ((takes_want h (by decide)).bind fun _ t ht _ => ?_)
  refine (takes_ident ht).bind fun name t ht hn => ?_
  refine (takes_want ht (by decide)).bind fun _ t ht _ => ?_
  refine (takes_codes d.codes ht).bind fun codes t ht hc => ?_
  refine (takes_want ht (by decide)).bind fun _ t ht _ => ?_
  refine (takes_semi ht).bind fun _ t ht _ => .pure ht ?_
  simp [ErrorDomainDecl.bare, hn.1, hc]

theorem takes_paramList (p : Param) (ps : List Param) (hp : ∀ q ∈ p :: ps, q.type.IsType)
    {s : State} (h : At s (Param.writeList (p :: ps) (Token.rparen.word :: ws))) :
    Takes paramList s (Token.rparen.word :: ws) fun qs =>
      qs.map Param.bare = (p :: ps).map Param.bare := by
  obtain ⟨m, out, name, type⟩ := p
  have htype : type.IsType := hp ⟨m, out, name, type⟩ (by simp)
  have hgo : headToken (Param.writeList (⟨m, out, name, type⟩ :: ps) (Token.rparen.word :: ws)) =
      if out then .keyword .kwOut else .name := by
    cases out <;> rfl
  rw [paramList]
  refine .token h ?_
  rw [if_neg (by rw [hgo]; cases out <;> decide)]
  have hout : Takes (got (.keyword .kwOut)) s (name.write (type.write (Param.writeTail ps
      (Token.rparen.word :: ws)))) (· = out) := by
    cases out with
    | true => exact takes_got h (by decide)
    | false => exact takes_got_other h (by simp [Ident.write, headToken])
  refine .pos (hout.bind fun out' t ht ho => ?_)
  refine (takes_ident ht).bind fun name' t ht hn => ?_
  refine (takes_type htype ht).bind fun type' t ht hty => ?_
  cases ps with
  | nil =>
    refine (takes_got_other ht (by simp [Param.writeTail])).bind fun b t ht hb => ?_
    subst hb
    exact .pure ht (by simp [Param.bare, ho, hn.1, hty])
  | cons q qs =>
    refine (takes_got ht (by decide)).bind fun b t ht hb => ?_
    subst hb
    have hq : ∀ r ∈ q :: qs, r.type.IsType := fun r hr => hp r (List.mem_cons_of_mem _ hr)
    refine (takes_paramList q qs hq ht).bind fun rs t ht hrs => .pure ht ?_
    rw [List.map_cons, hrs]
    simp [Param.bare, ho, hn.1, hty]
termination_by ps.length

theorem takes_params {ps : List Param} (hp : ∀ q ∈ ps, q.type.IsType) {s : State}
    (h : At s (Token.lparen.word :: Param.writeList ps (Token.rparen.word :: ws))) :
    Takes params s ws fun qs => qs.map Param.bare = ps.map Param.bare := by
  unfold params
  refine (takes_want h (by decide)).bind fun _ t ht _ => ?_
  have hlist : Takes paramList t (Token.rparen.word :: ws) fun qs =>
      qs.map Param.bare = ps.map Param.bare := by
    cases ps with
    | nil =>
      rw [paramList]
      exact .token ht (.pure ht rfl)
    | cons p ps => exact takes_paramList p ps hp ht
  refine hlist.bind fun qs t ht hqs => ?_
  exact (takes_want ht (by decide)).bind fun _ t ht _ => .pure ht hqs

theorem takes_throws (x : Expr) (xs : List Expr) (hx : ∀ y ∈ x :: xs, y.IsQualified) {s : State}
    (h : At s (x.write (Expr.writeTail xs ws))) (hf : headToken ws = .lbrace) :
    Takes throws s ws fun ys => Expr.bareList ys = Expr.bareList (x :: xs) := by
  rw [throws]
  cases xs with
  | nil =>
    refine (takes_qualifiedName (hx x (by simp)) h (by simp [Expr.writeTail, hf])).bind
      fun a t ht ha => ?_
    refine (takes_got_other ht (by simp [Expr.writeTail, hf])).bind fun b t ht hb => ?_
    subst hb
    exact .pure ht (by simp [Expr.bareList, ha])
  | cons y ys =>
    refine (takes_qualifiedName (hx x (by simp)) h (by simp [Expr.writeTail])).bind
      fun a t ht ha => ?_
    refine (takes_got ht (by decide)).bind fun b t ht hb => ?_
    subst hb
    have hy : ∀ z ∈ y :: ys, z.IsQualified := fun z hz => hx z (List.mem_cons_of_mem _ hz)
    refine (takes_throws y ys hy ht hf).bind fun as t ht has => .pure ht ?_
    simp [Expr.bareList, ha, has]
termination_by xs.length

theorem takes_funcDecl {d : FuncDecl} (hd : d.WellFormed) {s : State}
    (h : At s (d.write (Token.semi.word :: ws))) : Takes funcDecl s ws fun a => a.bare = d.bare := by
  obtain ⟨m, name, ps, result, errors, body⟩ := d
  have hbrace := headToken_block body (Token.semi.word :: ws)
  unfold funcDecl
  refine .pos ((takes_want h (by decide)).bind fun _ t ht _ => ?_)
  refine (takes_ident ht).bind fun name' t ht hn => ?_
  refine (takes_params hd.params ht).bind fun ps' t ht hps => ?_
  let rest := FuncDecl.writeThrows errors (body.write (Token.semi.word :: ws))
  refine (takes_optional rest Expr.bare result ht ?_ ?_).bind fun result' t ht hr => ?_
  · rintro rfl
    refine ⟨rfl, ?_⟩
    cases errors with
    | nil => simp [rest, FuncDecl.writeThrows, hbrace]
    | cons x xs => simp [rest, FuncDecl.writeThrows]
  · rintro x rfl
    have hx : x.IsType := hd.result x rfl
    refine ⟨?_, takes_type hx ht⟩
    rcases headToken_type hx rest with e | e <;> simp [Expr.writeOption, rest, e]
  have hthrows : Takes (after (.keyword .kwThrows) throws) t (body.write (Token.semi.word :: ws))
      fun a => Expr.bareList (a.getD []) = Expr.bareList errors := by
    cases errors with
    | nil =>
      refine (takes_after_other ht ?_).mono fun a ha => by rw [ha]; rfl
      simp [rest, FuncDecl.writeThrows, hbrace]
    | cons x xs =>
      refine (takes_after ht (by decide) fun v hv => takes_throws x xs hd.throws hv hbrace).mono ?_
      rintro _ ⟨a, rfl, ha⟩
      exact ha
  refine hthrows.bind fun errors' t ht he => ?_
  refine (takes_block body hd.body ht).bind fun body' t ht hb => ?_
  refine (takes_semi ht).bind fun _ t ht _ => .pure ht ?_
  simp [FuncDecl.bare, hn.1, hps, hr, he, hb]

theorem takes_decl {d : Decl} (hd : d.WellFormed) {s : State}
    (h : At s (d.write (Token.semi.word :: ws))) :
    Takes decl s ws fun a => a.map Decl.bare = some d.bare := by
  unfold decl
  refine .token h ?_
  cases d with
  | errorDomain d =>
    refine (takes_errorDomainDecl d h).bind fun a t ht ha => .pure ht ?_
    simp [Decl.bare, ha]
  | var d =>
    refine (takes_varDecl hd h).bind fun a t ht ha => .pure ht ?_
    simp [Decl.bare, ha]
  | func d =>
    refine (takes_funcDecl hd h).bind fun a t ht ha => .pure ht ?_
    simp [Decl.bare, ha]

theorem takes_decls (ds : List Decl) (hds : ∀ d ∈ ds, d.WellFormed) {s : State}
    (h : At s (Decl.writeList ds [Token.eof.word])) :
    Takes decls s [Token.eof.word] fun es => es.map Decl.bare = ds.map Decl.bare := by
  rw [decls]
  refine .isAborted h (.token h ?_)
  cases ds with
  | nil => exact .pure h rfl
  | cons d ds =>
    have hstart : headToken (Decl.writeList (d :: ds) [Token.eof.word]) ≠ .eof ∧
        headToken (Decl.writeList (d :: ds) [Token.eof.word]) ≠ .semi := by
      cases d <;> constructor <;> intro e <;> cases e
    rw [if_neg (by simpa using hstart.1)]
    refine (takes_got_other h hstart.2).bind fun b t ht hb => ?_
    subst hb
    refine (takes_decl (hds d (by simp)) ht).bind fun a t ht ha => ?_
    have hrest : ∀ e ∈ ds, e.WellFormed := fun e he => hds e (List.mem_cons_of_mem _ he)
    refine (takes_decls ds hrest ht).bind fun es t ht hes => .pure ht ?_
    cases a with
    | none => cases ha
    | some x => simpa using ⟨by simpa using ha, hes⟩
termination_by ds.length

theorem takes_file {f : File} (hf : f.WellFormed) {s : State} (h : At s f.words) :
    Takes file s [Token.eof.word] fun g => g.bare = f.bare := by
  unfold file
  refine .pos ((takes_want h (by decide)).bind fun _ t ht _ => ?_)
  refine (takes_ident ht).bind fun package t ht hp => ?_
  refine (takes_want ht (by decide)).bind fun _ t ht _ => ?_
  refine (takes_decls f.decls hf ht).bind fun ds t ht hds => .pure ht ?_
  simp [File.bare, hp.1, hds]

end

theorem at_ofLexemes {f : File} {ls : List Lexeme} (h : ls.map Lexeme.word = f.words) :
    At (State.ofLexemes ls) f.words := by
  obtain ⟨ws, hws⟩ := f.exists_words_eq
  rw [hws] at h ⊢
  exact .ofLexemes h

end Parse

open Parse

/-- The parser inverts writing: from the words of a well-formed file, and whatever their positions,
it reads the file itself and reports nothing. -/
theorem Parsed.ofLexemes_words {f : File} (hf : f.WellFormed) {ls : List Lexeme}
    (hw : ls.map Lexeme.word = f.words) (hr : ∀ l ∈ ls, l.reports = []) :
    (Parsed.ofLexemes ls).reports = [] ∧ (Parsed.ofLexemes ls).faults = 0 ∧
      (Parsed.ofLexemes ls).first = none ∧ (Parsed.ofLexemes ls).file.bare = f.bare := by
  obtain ⟨g, t, e, hquiet, -, hg⟩ := takes_file hf (at_ofLexemes hw)
  have hend : Parsed.ofLexemes ls = Parsed.ofEnd g t := by
    rw [Parsed.ofLexemes]
    exact congrArg (Option.elim · _ _) e
  obtain ⟨hreports, hfaults, hfirst⟩ := hquiet.silent_ofLexemes hr
  rw [hend]
  refine ⟨hreports, hfaults, hfirst, ?_⟩
  rw [Parsed.ofEnd, File.numbered_bare, hg]

/-- `package p; func f(n int) { for i := 0; i < n * 2; { g(i); }; };` -/
def countingFile : File :=
  let name (text : String) : Ident := ⟨default, text⟩
  let var (text : String) : Expr := .ident (name text)
  let start : Simple := .assign default .define (var "i") (.literal default .int "0")
  let limit : Expr := .binary default .mul (var "n") (.literal default .int "2")
  let call : Stmt := .simple (.expr default (.call default (var "g") [var "i"]))
  let loop : Stmt := .loop default (some start) (some (.binary default .lt (var "i") limit)) none
    (.mk default [call] default)
  ⟨default, name "p", [.func ⟨default, name "f", [⟨default, false, name "n", var "int"⟩], none, [],
    .mk default [loop] default⟩]⟩

theorem countingFile_wellFormed : countingFile.WellFormed := by
  simp [countingFile, File.WellFormed, Decl.WellFormed]
  constructor <;> simp [Expr.IsType, Block.WellFormed, Stmt.AllWellFormed, Stmt.WellFormed,
    Simple.WellFormed, Expr.WellFormed, Expr.AllWellFormed, Expr.level, BinaryOp.precedence,
    Expr.postfixLevel]

/-- Reading back a loop whose header starts with a name. -/
theorem Parsed.ofLexemes_words_counting :
    (Parsed.ofLexemes (countingFile.words.map fun w => ⟨w.1, w.2, default, []⟩)).file.bare =
      countingFile.bare :=
  (Parsed.ofLexemes_words countingFile_wellFormed rfl fun l hl => by
    obtain ⟨w, -, rfl⟩ := List.mem_map.1 hl
    rfl).2.2.2

end FlowCheck
