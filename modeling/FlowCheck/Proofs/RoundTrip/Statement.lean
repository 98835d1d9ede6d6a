import FlowCheck.Parse.Stmt
import FlowCheck.Proofs.RoundTrip.Expression

/-!
# Statements are read back

The productions for statements accept the words of a well-formed statement and give it back. A loop
header that starts with a name is read by a second entry into simple statements, once the name has
turned out not to be a foreach variable; both entries do the same.
-/
namespace FlowCheck.Parse

open State

/-- No assignment follows, nor anything that an expression goes on with. -/
def endsSimple : Token → Bool
  | .assign | .define => false
  | t => endsExpr 0 t

theorem endsExpr_of_endsSimple {t : Token} (h : endsSimple t = true) : endsExpr 0 t = true := by
  cases t <;> simp_all [endsSimple, endsExpr]

theorem assignOp?_of_endsSimple {t : Token} (h : endsSimple t = true) : assignOp? t = none := by
  cases t <;> simp_all [endsSimple, assignOp?]

/-! ### Simple statements and declarations of variables -/

section

variable {s : State} {ws : List Word}

theorem startsExpr_simple {y : Simple} (hy : y.WellFormed) (ws : List Word) :
    startsExpr (headToken (y.write ws)) = true := by
  cases y with
  | expr m x => exact startsExpr_write hy ws
  | assign m op x z => exact startsExpr_write hy.1 _

theorem takes_simple {y : Simple} (hy : y.WellFormed) (h : At s (y.write ws))
    (hf : endsSimple (headToken ws) = true) : Takes simple s ws fun a => a.bare = y.bare := by
  unfold simple
  refine .pos ?_
  cases y with
  | expr m x =>
    refine (takes_expr hy h (endsExpr_of_endsSimple hf)).bind fun a t ht ha => ?_
    unfold simpleFrom
    refine .token ht ?_
    rw [assignOp?_of_endsSimple hf]
    exact .pure ht (by simp [Simple.bare, ha])
  | assign m op x z =>
    refine (takes_expr hy.1 h (by cases op <;> rfl)).bind fun a t ht ha => ?_
    unfold simpleFrom
    refine .token ht ?_
    have hop : assignOp? (headToken (op.token.word :: z.write ws)) = some op := by cases op <;> rfl
    rw [hop]
    refine .next ht (by cases op <;> decide) fun t ht => ?_
    refine (takes_expr hy.2 ht (endsExpr_of_endsSimple hf)).bind fun b t ht hb => .pure ht ?_
    simp [Simple.bare, ha, hb]

/-- The second entry into simple statements, for one whose leading name has been consumed. -/
theorem simple_eq_exprFrom (h : s.current.token = .name) :
    simple s = (exprFrom (identOf s.current) >>= simpleFrom s.current.pos) s.next := by
  rw [simple, pos_bind]
  exact congrArg (Option.bind · fun x : Expr × State => simpleFrom s.current.pos x.1 x.2)
    (expr_eq_exprFrom h)

/-- A simple statement whose leading name `in` follows would end right there. -/
theorem token_next_ne_in {Q : Simple → Prop} (h : Takes simple s ws Q)
    (hname : s.current.token = .name) (hin : headToken ws ≠ .keyword .kwIn) :
    s.next.current.token ≠ .keyword .kwIn := by
  intro htoken
  have hstay : simple s = some (.expr { pos := s.current.pos } (.ident (identOf s.current)), s.next) := by
    rw [simple_eq_exprFrom hname, exprFrom]
    have ht : trailers (.ident (identOf s.current)) s.next =
        some (.ident (identOf s.current), s.next) := by
      rw [trailers, token_bind, htoken]
      rfl
    have hb : binaryFrom (.ident (identOf s.current)) 0 s.next =
        some (.ident (identOf s.current), s.next) := by
      rw [binaryFrom, token_bind, htoken]
      rfl
    rw [bind_eq_of_eq_some (bind_eq_of_eq_some ht |>.trans hb), simpleFrom, token_bind, htoken]
    rfl
  obtain ⟨a, t, e, -, ht, -⟩ := h
  rw [hstay] at e
  cases e
  exact hin (ht.token.symm.trans htoken)

theorem takes_varDecl {d : VarDecl} (hd : d.WellFormed) (h : At s (d.write (Token.semi.word :: ws))) :
    Takes varDecl s ws fun a => a.bare = d.bare := by
  obtain ⟨m, name, type, value⟩ := d
  unfold varDecl
  refine .pos ((takes_want h (by decide)).bind fun _ t ht _ => ?_)
  refine (takes_ident ht).bind fun name' t ht hn => ?_
  let rest := VarDecl.writeValue value (Token.semi.word :: ws)
  refine (takes_optional rest Expr.bare type ht ?_ ?_).bind fun type' t ht hty => ?_
  · rintro rfl
    cases value with
    | none => simpa using hd.given
    | some x => exact ⟨rfl, rfl⟩
  · rintro x rfl
    have hx : x.IsType := hd.type x rfl
    refine ⟨?_, takes_type hx ht⟩
    rcases headToken_type hx rest with e | e <;> simp [Expr.writeOption, rest, e]
  cases value with
  | none =>
    refine (takes_after_other ht (by simp [rest, VarDecl.writeValue])).bind fun value' t ht hv => ?_
    refine (takes_semi ht).bind fun _ t ht _ => .pure ht ?_
    simp [VarDecl.bare, hn.1, hty, hv]
  | some x =>
    refine (takes_after ht (by decide) fun v hv => takes_expr (hd.value x rfl) hv rfl).bind ?_
    rintro _ t ht ⟨y, rfl, hy⟩
    refine (takes_semi ht).bind fun _ t ht _ => .pure ht ?_
    simp [VarDecl.bare, hn.1, hty, hy]

end

/-! ### Loop headers, labels and handlers -/

section

variable {s : State} {ws : List Word}

/-- A loop header that starts with a simple statement gets to stand after it, whichever of the two
entries reads it: the one after a leading name, or the ordinary one. -/
theorem leads_first {β : Type} {y : Simple} (hy : y.WellFormed) (h : At s (y.write ws))
    (hf : endsSimple (headToken ws) = true) (hin : headToken ws ≠ .keyword .kwIn)
    {bare : Parser β} {each : Ident → Parser β} (rest : Option Simple → Parser β) :
    Leads (match headToken (y.write ws) with
      | .lbrace => bare
      | .name => do
        let name ← ident
        if ← got (.keyword .kwIn) then each name
        else
          let x ← exprFrom name
          let first ← simpleFrom name.mark.pos x
          rest (some first)
      | _ => do
        let first ← unlessAt (· = .semi) simple
        rest first) s rest ws fun o => ∃ a, o = some a ∧ a.bare = y.bare := by
  have hstart := startsExpr_simple hy ws
  have hsimple := takes_simple hy h hf
  split
  · rename_i e
    simp [e, startsExpr] at hstart
  · rename_i e
    have hname : s.current.token = .name := h.token.trans e
    have hother := token_next_ne_in hsimple hname hin
    obtain ⟨a, t, ha, r, ht, hlike⟩ := hsimple
    refine ⟨some a, t, ?_, r, ht, a, rfl, hlike⟩
    have hgot : got (.keyword .kwIn) s.next = some (false, s.next) := by
      rw [got, token_bind, if_neg hother]
      rfl
    rw [bind_eq_of_eq_some (ident_of_name hname), bind_eq_of_eq_some hgot]
    rw [simple_eq_exprFrom hname] at ha
    change (exprFrom _ >>= fun x => simpleFrom _ x >>= fun first => rest (some first)) s.next = _
    rw [← bind_assoc]
    exact bind_eq_of_eq_some ha
  · rename_i e _
    have hsemi : headToken (y.write ws) ≠ .semi := by
      intro e
      simp [e, startsExpr] at hstart
    exact (takes_unlessAt h (by simpa using hsemi) hsimple).first

theorem takes_loopHeader_test (h : At s ws) (hw : headToken ws = .lbrace) (p : Pos) (m : Mark)
    (x : Expr) :
    Takes (loopHeader p (some (.expr m x))) s ws (· = ⟨none, some x, none⟩) := by
  unfold loopHeader
  refine .token h ?_
  rw [if_pos hw]
  exact .pure h rfl

theorem takes_loopHeader {test : Option Expr} {post : Option Simple}
    (htest : ∀ x ∈ test, x.WellFormed) (hpost : ∀ y ∈ post, y.WellFormed)
    (hw : headToken ws = .lbrace) (p : Pos) (first : Option Simple)
    (h : At s (Token.semi.word ::
      Expr.writeOption test (Token.semi.word :: Simple.writeOption post ws))) :
    Takes (loopHeader p first) s ws fun a => a.init = first ∧
      a.test.map Expr.bare = test.map Expr.bare ∧ a.post.map Simple.bare = post.map Simple.bare := by
  unfold loopHeader
  refine .token h ?_
  rw [if_neg (by simp)]
  refine (takes_want h (by decide)).bind fun _ t ht _ => ?_
  let rest := Token.semi.word :: Simple.writeOption post ws
  refine (takes_optional rest Expr.bare test ht ?_ ?_).bind fun test' t ht htest' => ?_
  · rintro rfl
    exact ⟨rfl, rfl⟩
  · rintro x rfl
    have hstart := startsExpr_write (htest x rfl) rest
    refine ⟨?_, takes_expr (htest x rfl) ht rfl⟩
    rw [decide_eq_false_iff_not]
    intro e
    rw [Expr.writeOption] at e
    simp [rest, e, startsExpr] at hstart
  refine (takes_want ht (by decide)).bind fun _ t ht _ => ?_
  refine (takes_optional ws Simple.bare post ht ?_ ?_).bind fun post' t ht hpost' => .pure ht ?_
  · rintro rfl
    exact ⟨rfl, by simp [hw]⟩
  · rintro y rfl
    have hstart := startsExpr_simple (hpost y rfl) ws
    refine ⟨?_, takes_simple (hpost y rfl) ht (by rw [hw]; rfl)⟩
    rw [decide_eq_false_iff_not]
    intro e
    rw [Simple.writeOption] at e
    simp [e, startsExpr] at hstart
  exact ⟨rfl, htest', hpost'⟩

theorem takes_caseLabels_end (h : At s ws) (hc : headToken ws ≠ .keyword .kwCase)
    (hd : headToken ws ≠ .keyword .kwDefault) (values : List Expr) (isDefault : Bool) :
    Takes (caseLabels values isDefault) s ws (· = (values, isDefault)) := by
  rw [caseLabels]
  refine (takes_got_other h hd).bind fun b t ht hb => ?_
  subst hb
  refine (takes_got_other ht hc).bind fun b t ht hb => ?_
  subst hb
  exact .pure ht rfl

theorem takes_caseLabels {values : List Expr} {isDefault : Bool} (hv : Expr.AllWellFormed values)
    (h : At s (writeLabels values isDefault ws)) (hc : headToken ws ≠ .keyword .kwCase)
    (hd : headToken ws ≠ .keyword .kwDefault) :
    Takes (caseLabels [] false) s ws fun a =>
      Expr.bareList a.1 = Expr.bareList values ∧ a.2 = isDefault := by
  have hdefault : ∀ (t : State) (vs : List Expr),
      At t (if isDefault then (Token.keyword .kwDefault).word :: Token.colon.word :: ws else ws) →
      Takes (caseLabels vs false) t ws (· = (vs, isDefault)) := by
    intro t vs ht
    cases isDefault with
    | false => exact takes_caseLabels_end ht hc hd vs false
    | true =>
      rw [caseLabels]
      refine (takes_got ht (by decide)).bind fun b t ht hb => ?_
      subst hb
      refine (takes_want ht (by decide)).bind fun _ t ht _ => ?_
      exact takes_caseLabels_end ht hc hd vs true
  cases values with
  | nil => exact (hdefault s [] h).mono fun a ha => by simp [ha]
  | cons x xs =>
    rw [caseLabels]
    refine (takes_got_other h (by simp [writeLabels])).bind fun b t ht hb => ?_
    subst hb
    refine (takes_got ht (by decide)).bind fun b t ht hb => ?_
    subst hb
    refine (takes_exprs x hv.1 xs hv.2 ht rfl (by simp)).bind fun vs t ht hvs => ?_
    refine (takes_want ht (by decide)).bind fun _ t ht _ => ?_
    exact (hdefault t vs ht).mono fun a ha => by simp [ha, hvs]

theorem takes_catchParam {param : Option (Ident × Expr)} (hp : ∀ q ∈ param, q.2.IsQualified)
    (h : At s (writeParam param ws)) (hw : headToken ws = .lbrace) :
    Takes catchParam s ws fun a =>
      a.map (fun q => (q.1.bare, q.2.bare)) = param.map fun q => (q.1.bare, q.2.bare) := by
  unfold catchParam
  cases param with
  | none =>
    refine (takes_got_other h (by simp [writeParam, hw])).bind fun b t ht hb => ?_
    subst hb
    exact .pure ht rfl
  | some q =>
    refine (takes_got h (by decide)).bind fun b t ht hb => ?_
    subst hb
    refine (takes_ident ht).bind fun name t ht hn => ?_
    refine (takes_qualifiedName (hp q rfl) ht (by simp)).bind fun type t ht hty => ?_
    refine (takes_want ht (by decide)).bind fun _ t ht _ => .pure ht ?_
    simp [hn.1, hty]

end

/-! ### Statements -/

theorem headToken_block (b : Block) (ws : List Word) : headToken (b.write ws) = .lbrace := by
  cases b
  rfl

/-- A statement starts with no token that ends the list it stands in. -/
theorem endsList_stmt {x : Stmt} (hx : x.WellFormed) (inSwitch : Bool) (ws : List Word) :
    endsList inSwitch (headToken (x.write (Token.semi.word :: ws))) = false := by
  cases x with
  | simple y =>
    have hstart := startsExpr_simple (y := y) hx (Token.semi.word :: ws)
    revert hstart
    rw [Stmt.write]
    cases headToken (y.write (Token.semi.word :: ws)) <;> simp [startsExpr, endsList]
  | block b =>
    rw [Stmt.write, headToken_block]
    rfl
  | jump m kind => cases kind <;> rfl
  | _ => rfl

theorem takes_simpleStmt {y : Simple} (hy : y.WellFormed) {s : State} {ws : List Word}
    (h : At s (y.write (Token.semi.word :: ws))) :
    Takes stmt s ws fun z => z.bare = (Stmt.simple y).bare := by
  have hother : ∀ t, startsExpr t = false → headToken (y.write (Token.semi.word :: ws)) ≠ t := by
    rintro t ht rfl
    simp [startsExpr_simple hy] at ht
  rw [stmt]
  refine .pos (.token h ?_)
  split
  -- the tokens that start any other statement
  iterate 11 next e => exact absurd e (hother _ rfl)
  refine (takes_simple hy h rfl).bind fun a t ht ha => ?_
  refine (takes_semi ht).bind fun _ t ht _ => .pure ht ?_
  simp [Stmt.bare, ha]

/-- The first token of a list of sections that has any. -/
theorem headToken_sections {cs : List CaseClause} (hcs : CaseClause.AllWellFormed cs)
    (hne : cs ≠ []) (ws : List Word) :
    headToken (CaseClause.writeList cs ws) = .keyword .kwCase ∨
      headToken (CaseClause.writeList cs ws) = .keyword .kwDefault := by
  match cs, hcs, hne with
  | .mk m (x :: xs) isDefault body :: cs, _, _ => exact .inl rfl
  | .mk m [] true body :: cs, _, _ => exact .inr rfl
  | .mk m [] false body :: cs, hcs, _ => simp [CaseClause.AllWellFormed] at hcs

theorem endsList_sections {cs : List CaseClause} (hcs : CaseClause.AllWellFormed cs)
    (ws : List Word) :
    endsList true (headToken (CaseClause.writeList cs (Token.rbrace.word :: ws))) = true := by
  by_cases hne : cs = []
  · subst hne
    rfl
  · rcases headToken_sections hcs hne (Token.rbrace.word :: ws) with e | e <;> rw [e] <;> rfl

mutual

theorem takes_stmts (xs : List Stmt) (hxs : Stmt.AllWellFormed xs) (inSwitch : Bool) {s : State}
    {ws : List Word} (h : At s (Stmt.writeList xs ws))
    (hf : endsList inSwitch (headToken ws) = true) :
    Takes (stmts inSwitch) s ws fun ys => Stmt.bareList ys = Stmt.bareList xs := by
  rw [stmts]
  refine .token h (.isAborted h ?_)
  match xs with
  | [] =>
    rw [if_pos (by simpa [Stmt.writeList] using hf)]
    exact .pure h rfl
  | x :: xs =>
    have hgo : endsList inSwitch (headToken (Stmt.writeList (x :: xs) ws)) = false :=
      endsList_stmt hxs.1 inSwitch _
    rw [if_neg (by simp [hgo])]
    refine (takes_stmt x hxs.1 h).bind fun a t ht ha => ?_
    refine (takes_stmts xs hxs.2 inSwitch ht hf).bind fun as t ht has => .pure ht ?_
    simp [Stmt.bareList, ha, has]
termination_by (sizeOf xs, 0)

theorem takes_stmt (x : Stmt) (hx : x.WellFormed) {s : State} {ws : List Word}
    (h : At s (x.write (Token.semi.word :: ws))) : Takes stmt s ws fun y => y.bare = x.bare := by
  match x with
  | .empty m =>
    rw [stmt]
    exact .pos (.token h (.next h (by decide) fun t ht => .pure ht rfl))
  | .simple y => exact takes_simpleStmt hx h
  | .var m d =>
    rw [stmt]
    refine .pos (.token h ((takes_varDecl hx h).bind fun a t ht ha => .pure ht ?_))
    simp [Stmt.bare, ha]
  | .block b =>
    rw [stmt]
    have htoken := headToken_block b (Token.semi.word :: ws)
    refine .pos (.token h ?_)
    rw [Stmt.write, htoken]
    refine (takes_block b hx h).bind fun a t ht ha => ?_
    refine (takes_semi ht).bind fun _ t ht _ => .pure ht ?_
    simp [Stmt.bare, ha]
  | .cond m test yes no =>
    rw [stmt]
    refine .pos (.token h ((takes_cond m test yes no hx h (by simp)).bind fun a t ht ha => ?_))
    exact (takes_semi ht).bind fun _ t ht _ => .pure ht ha
  | .loop m init test post body =>
    rw [stmt]
    refine .pos (.token h ((takes_loop m init test post body hx h).bind fun a t ht ha => ?_))
    exact (takes_semi ht).bind fun _ t ht _ => .pure ht ha
  | .foreach m name operand body =>
    rw [stmt]
    refine .pos (.token h ((?_ : Takes loop s (Token.semi.word :: ws) fun y =>
      y.bare = (Stmt.foreach m name operand body).bare).bind fun a t ht ha => ?_))
    · rw [loop]
      refine .pos ((takes_want h (by decide)).bind fun _ t ht _ => .token ht ?_)
      refine (takes_ident ht).bind fun a t ht ha => ?_
      refine (takes_got ht (by decide)).bind fun b t ht hb => ?_
      subst hb
      refine (takes_expr hx.1 ht (by rw [headToken_block]; rfl)).bind fun b t ht hb => ?_
      refine (takes_block body hx.2 ht).bind fun c t ht hc => .pure ht ?_
      simp [Stmt.bare, ha.1, hb, hc]
    · exact (takes_semi ht).bind fun _ t ht _ => .pure ht ha
  | .switch m tag clauses close =>
    rw [stmt]
    refine .pos (.token h ?_)
    rw [switch]
    refine .pos ((takes_want h (by decide)).bind fun _ t ht _ => ?_)
    refine (takes_expr hx.1 ht rfl).bind fun a t ht ha => ?_
    refine (takes_want ht (by decide)).bind fun _ t ht _ => ?_
    refine (takes_sections clauses hx.2 ht).bind fun cs t ht hcs => ?_
    refine .pos ((takes_want ht (by decide)).bind fun _ t ht _ => ?_)
    refine (takes_semi ht).bind fun _ t ht _ => .pure ht ?_
    simp [Stmt.bare, ha, hcs]
  | .jump m kind =>
    rw [stmt]
    cases kind <;>
      refine .pos (.token h (.next h (by decide) fun t ht => ?_)) <;>
      exact (takes_semi ht).bind fun _ t ht _ => .pure ht rfl
  | .ret m result =>
    rw [stmt]
    refine .pos (.token h (.next h (by decide) fun t ht => ?_))
    let rest := Token.semi.word :: ws
    refine (takes_optional rest Expr.bare result ht ?_ ?_).bind fun a t ht ha => ?_
    · rintro rfl
      exact ⟨rfl, rfl⟩
    · rintro y rfl
      have hstart := startsExpr_write (hx y rfl) rest
      refine ⟨?_, takes_expr (hx y rfl) ht rfl⟩
      revert hstart
      rw [Expr.writeOption]
      cases headToken (y.write rest) <;> simp [startsExpr]
    · refine (takes_semi ht).bind fun _ t ht _ => .pure ht ?_
      simp [Stmt.bare, ha]
  | .raise m y =>
    rw [stmt]
    refine .pos (.token h (.next h (by decide) fun t ht => ?_))
    refine (takes_expr hx ht rfl).bind fun a t ht ha => ?_
    refine (takes_semi ht).bind fun _ t ht _ => .pure ht ?_
    simp [Stmt.bare, ha]
  | .attempt m body clauses last =>
    rw [stmt]
    refine .pos (.token h ?_)
    rw [attempt]
    refine .pos ((takes_want h (by decide)).bind fun _ t ht _ => ?_)
    refine (takes_block body hx.2.1 ht).bind fun a t ht ha => ?_
    have hcatch : headToken (Block.writeFinally last (Token.semi.word :: ws)) ≠
        .keyword .kwCatch := by
      cases last <;> simp [Block.writeFinally]
    refine (takes_handlers clauses hx.2.2.1 ht hcatch).bind fun cs t ht hcs => ?_
    refine (takes_cleanup last hx.2.2.2 ht (by simp)).bind fun c t ht hc => ?_
    have hguard : (cs.isEmpty && c.isNone) = false := by
      cases clauses <;> cases cs <;> cases last <;> cases c <;>
        simp_all [Stmt.WellFormed, CatchClause.bareList, Block.bareOption]
    unfold guarded
    rw [if_neg (by simp [hguard])]
    refine (Leads.pure ht trivial : Takes (pure ()) t _ fun _ => True).bind fun _ t ht _ => ?_
    refine (takes_semi ht).bind fun _ t ht _ => .pure ht ?_
    simp [Stmt.bare, ha, hcs, hc]
termination_by (sizeOf x, 1)

theorem takes_block (b : Block) (hb : b.WellFormed) {s : State} {ws : List Word}
    (h : At s (b.write ws)) : Takes block s ws fun c => c.bare = b.bare := by
  match b with
  | .mk m xs close =>
    rw [block]
    refine .pos ((takes_want h (by decide)).bind fun _ t ht _ => ?_)
    refine (takes_stmts xs hb false ht rfl).bind fun ys t ht hys => ?_
    refine .pos ((takes_want ht (by decide)).bind fun _ t ht _ => .pure ht ?_)
    simp [Block.bare, hys]
termination_by (sizeOf b, 1)

theorem takes_cond (m : Mark) (test : Expr) (yes : Block) (no : Option Stmt)
    (hx : (Stmt.cond m test yes no).WellFormed) {s : State} {ws : List Word}
    (h : At s ((Stmt.cond m test yes no).write ws)) (hf : headToken ws ≠ .keyword .kwElse) :
    Takes cond s ws fun y => y.bare = (Stmt.cond m test yes no).bare := by
  rw [cond]
  refine .pos ((takes_want h (by decide)).bind fun _ t ht _ => ?_)
  refine (takes_expr hx.1 ht (by rw [headToken_block]; rfl)).bind fun a t ht ha => ?_
  refine (takes_block yes hx.2.1 ht).bind fun b t ht hb => ?_
  match no with
  | none =>
    refine (takes_got_other ht hf).bind fun c t ht hc => ?_
    subst hc
    exact .pure ht (by simp [Stmt.bare, Stmt.bareOption, ha, hb])
  | some (.cond m' test' yes' no') =>
    refine (takes_got ht (by decide)).bind fun c t ht hc => ?_
    subst hc
    refine .token ht ((takes_cond m' test' yes' no' hx.2.2 ht hf).bind fun d t ht hd => .pure ht ?_)
    rw [Stmt.bare, Stmt.bare, Stmt.bareOption, Stmt.bareOption, ha, hb, hd]
  | some (.block b') =>
    refine (takes_got ht (by decide)).bind fun c t ht hc => ?_
    subst hc
    have htoken := headToken_block b' ws
    refine .token ht ?_
    rw [Stmt.write, htoken]
    refine (takes_block b' hx.2.2 ht).bind fun d t ht hd => .pure ht ?_
    simp [Stmt.bare, Stmt.bareOption, ha, hb, hd]
  | some (.empty _) | some (.simple _) | some (.var ..) | some (.loop ..) | some (.foreach ..)
  | some (.switch ..) | some (.jump ..) | some (.ret ..) | some (.raise ..) | some (.attempt ..) =>
    exact hx.2.2.elim
termination_by (sizeOf (Stmt.cond m test yes no), 0)

theorem takes_loop (m : Mark) (init : Option Simple) (test : Option Expr) (post : Option Simple)
    (body : Block) (hx : (Stmt.loop m init test post body).WellFormed) {s : State} {ws : List Word}
    (h : At s ((Stmt.loop m init test post body).write ws)) :
    Takes loop s ws fun y => y.bare = (Stmt.loop m init test post body).bare := by
  obtain ⟨hinit, htest, hpost, hbody⟩ := hx
  have hbrace := headToken_block body ws
  rw [loop]
  refine .pos ((takes_want h (by decide)).bind fun _ t ht _ => .token ht ?_)
  let rest (first : Option Simple) : Parser Stmt := do
    let header ← loopHeader s.current.pos first
    return .loop { pos := s.current.pos } header.init header.test header.post (← block)
  match init, test, post with
  | none, none, none =>
    rw [writeHeader, hbrace]
    refine (takes_block body hbody ht).bind fun b t ht hb => .pure ht ?_
    simp [Stmt.bare, hb]
  | none, some x, none =>
    refine (leads_first (y := .expr default x) (htest x rfl) ht (by rw [hbrace]; rfl)
      (by simp [hbrace]) rest).trans ?_
    rintro _ t ht ⟨a, rfl, ha⟩
    cases a with
    | assign => cases ha
    | expr m' x' =>
      refine (takes_loopHeader_test ht hbrace s.current.pos m' x').bind fun header t ht hh => ?_
      subst hh
      refine (takes_block body hbody ht).bind fun b t ht hb => .pure ht ?_
      simp_all [Stmt.bare, Simple.bare]
  | none, test, some z =>
    have hwords : writeHeader none test (some z) (body.write ws) = Token.semi.word ::
        Expr.writeOption test (Token.semi.word :: z.write (body.write ws)) := by
      cases test <;> rfl
    rw [hwords] at ht ⊢
    refine (takes_unlessAt_out ht rfl).bind fun first t ht hfirst => ?_
    refine (takes_loopHeader htest hpost hbrace _ first ht).bind fun header t ht hh => ?_
    refine (takes_block body hbody ht).bind fun b t ht hb => .pure ht ?_
    simp [Stmt.bare, hh, hfirst, hb]
  | some y, test, post =>
    refine (leads_first (hinit y rfl) ht rfl (by simp) rest).trans ?_
    rintro _ t ht ⟨a, rfl, ha⟩
    refine (takes_loopHeader htest hpost hbrace _ (some a) ht).bind fun header t ht hh => ?_
    refine (takes_block body hbody ht).bind fun b t ht hb => .pure ht ?_
    simp [Stmt.bare, hh, ha, hb]
termination_by (sizeOf (Stmt.loop m init test post body), 0)

theorem takes_sections (cs : List CaseClause) (hcs : CaseClause.AllWellFormed cs) {s : State}
    {ws : List Word} (h : At s (CaseClause.writeList cs (Token.rbrace.word :: ws))) :
    Takes sections s (Token.rbrace.word :: ws) fun ds =>
      CaseClause.bareList ds = CaseClause.bareList cs := by
  rw [sections]
  refine .token h ?_
  match cs with
  | [] => exact .pure h rfl
  | .mk m values isDefault body :: cs =>
    have hlabel := headToken_sections hcs (by simp) (Token.rbrace.word :: ws)
    rw [if_pos (by simpa using hlabel)]
    obtain ⟨-, hlast, hvalues, hbody, hrest⟩ := hcs
    -- what follows the labels is a statement or the end of the switch
    have hfollow : endsList true (headToken (Stmt.writeList body
        (CaseClause.writeList cs (Token.rbrace.word :: ws)))) = false ∨
        headToken (Stmt.writeList body (CaseClause.writeList cs (Token.rbrace.word :: ws))) =
          .rbrace := by
      cases body with
      | nil =>
        have hnil : cs = [] := by
          cases cs with
          | nil => rfl
          | cons c cs => exact absurd rfl (hlast (by simp))
        subst hnil
        exact .inr rfl
      | cons x xs => exact .inl (endsList_stmt hbody.1 true _)
    refine .pos ((takes_caseLabels hvalues h ?_ ?_).bind fun labels t ht hl => ?_)
    · intro e
      simp [e, endsList] at hfollow
    · intro e
      simp [e, endsList] at hfollow
    refine (takes_stmts body hbody true ht (endsList_sections hrest ws)).bind fun ys t ht hys => ?_
    refine (takes_sections cs hrest ht).bind fun ds t ht hds => .pure ht ?_
    simp [CaseClause.bareList, CaseClause.bare, hl, hys, hds]
termination_by (sizeOf cs, 0)

theorem takes_handlers (cs : List CatchClause) (hcs : CatchClause.AllWellFormed cs) {s : State}
    {ws : List Word} (h : At s (CatchClause.writeList cs ws))
    (hf : headToken ws ≠ .keyword .kwCatch) :
    Takes handlers s ws fun ds => CatchClause.bareList ds = CatchClause.bareList cs := by
  rw [handlers]
  refine .token h ?_
  match cs with
  | [] =>
    rw [if_neg (by simpa [CatchClause.writeList] using hf)]
    exact .pure h rfl
  | .mk m param body :: cs =>
    obtain ⟨hparam, hbody, hrest⟩ := hcs
    rw [if_pos (by simp [CatchClause.writeList])]
    refine .pos (.next h (by decide) fun t ht => ?_)
    refine (takes_catchParam hparam ht (headToken_block body _)).bind fun param' t ht hp => ?_
    refine (takes_block body hbody ht).bind fun b t ht hb => ?_
    refine (takes_handlers cs hrest ht hf).bind fun ds t ht hds => .pure ht ?_
    rw [CatchClause.bareList, CatchClause.bareList, hds, CatchClause.bare_mk, CatchClause.bare_mk,
      hp, hb]
termination_by (sizeOf cs, 0)

theorem takes_cleanup (last : Option Block) (hb : Block.FinallyWellFormed last) {s : State}
    {ws : List Word} (h : At s (Block.writeFinally last ws))
    (hf : headToken ws ≠ .keyword .kwFinally) :
    Takes cleanup s ws fun b => Block.bareOption b = Block.bareOption last := by
  rw [cleanup]
  match last with
  | none =>
    refine (takes_got_other h hf).bind fun c t ht hc => ?_
    subst hc
    exact .pure ht rfl
  | some b =>
    refine (takes_got h (by decide)).bind fun c t ht hc => ?_
    subst hc
    refine (takes_block b hb ht).bind fun b' t ht hb' => .pure ht ?_
    simp [Block.bareOption, hb']
termination_by (sizeOf last, 0)

end

end FlowCheck.Parse
