import FlowCheck.Parse.Expr
import FlowCheck.Proofs.RoundTrip.Reading

/-!
# Expressions are read back

The productions for expressions accept the words of a well-formed expression and give it back. The
words of a binary operation start with those of its left operand, and those of a call with its
callee's, so neither is read by a production of its own: what is proved of them is that the loop
which reads the leftmost operand gets to stand after them with their tree in its hand.
-/
namespace FlowCheck.Parse

open State

/-- No call, index or selector follows. -/
def endsOperand : Token → Bool
  | .lparen | .lbrack | .dot => false
  | _ => true

/-- No operator follows that binds tighter than `limit`, either. -/
def endsExpr (limit : Nat) : Token → Bool
  | .lparen | .lbrack | .dot => false
  | .op o => o.precedence ≤ limit
  | _ => true

theorem endsOperand_of_endsExpr {limit : Nat} {t : Token} (h : endsExpr limit t = true) :
    endsOperand t = true := by
  cases t <;> simp_all [endsExpr, endsOperand]

theorem endsExpr_mono {m n : Nat} {t : Token} (hmn : m ≤ n) (h : endsExpr m t = true) :
    endsExpr n t = true := by
  cases t <;> simp_all [endsExpr]
  omega

/-- The tokens that an expression can start with. -/
def startsExpr : Token → Bool
  | .name | .literal _ | .lparen | .not | .op .sub => true
  | _ => false

theorem startsExpr_write {x : Expr} (hx : x.WellFormed) (ws : List Word) :
    startsExpr (headToken (x.write ws)) = true := by
  cases x with
  | ident name => rfl
  | literal m k text => rfl
  | unary m op y => cases op <;> rfl
  | binary m op y z => exact startsExpr_write hx.2.2.1 _
  | call m callee args => exact startsExpr_write hx.2.1 _
  | index m y i => exact startsExpr_write hx.2.1 _
  | select m y sel => exact startsExpr_write hx.2 _
  | paren m y => rfl
  | sliceType m y => exact hx.elim

/-- What binds like an operand starts with none of the operators before one. -/
theorem unaryOp?_write {x : Expr} (hx : x.WellFormed) (hl : Expr.postfixLevel ≤ x.level)
    (ws : List Word) : unaryOp? (headToken (x.write ws)) = none := by
  cases x with
  | ident name => rfl
  | literal m k text => rfl
  | unary m op y => simp [Expr.level, Expr.unaryLevel, Expr.postfixLevel] at hl
  | binary m op y z => cases op <;> simp [Expr.level, Expr.postfixLevel, BinaryOp.precedence] at hl
  | call m callee args => exact unaryOp?_write hx.2.1 hx.1 _
  | index m y i => exact unaryOp?_write hx.2.1 hx.1 _
  | select m y sel => exact unaryOp?_write hx.2 hx.1 _
  | paren m y => rfl
  | sliceType m y => exact hx.elim

theorem headToken_type {x : Expr} (hx : x.IsType) (ws : List Word) :
    headToken (x.write ws) = .name ∨ headToken (x.write ws) = .lbrack := by
  cases x with
  | ident name => exact .inl rfl
  | sliceType m y => exact .inr rfl
  | _ => exact hx.elim

/-- What comes back looks like `x`. -/
abbrev Like (x y : Expr) : Prop := y.bare = x.bare

section

variable {s : State} {ws : List Word}

theorem takes_trailers_end (h : At s ws) (hf : endsOperand (headToken ws) = true) (x : Expr) :
    Takes (trailers x) s ws (· = x) := by
  rw [trailers]
  refine .token h ?_
  split
  · simp_all [endsOperand]
  · simp_all [endsOperand]
  · simp_all [endsOperand]
  · exact .pure h rfl

theorem takes_binaryFrom_end (h : At s ws) {limit : Nat}
    (hf : endsExpr limit (headToken ws) = true) (x : Expr) :
    Takes (binaryFrom x limit) s ws (· = x) := by
  rw [binaryFrom]
  refine .token h ?_
  split
  · rename_i o ho
    have hle : o.precedence ≤ limit := by simpa [endsExpr, ho] using hf
    rw [if_pos hle]
    exact .pure h rfl
  · exact .pure h rfl

theorem takes_selection {sel : Ident} (h : At s (Token.dot.word :: sel.write ws)) (x : Expr)
    {y : Expr} (hx : Like y x) (m : Mark) : Takes (selection x) s ws (Like (.select m y sel)) := by
  unfold selection
  refine (takes_want h (by decide)).bind fun _ t ht _ => ?_
  refine (takes_ident ht).bind fun name t ht hn => .pure ht ?_
  simp [Like, Expr.bare, hx, hn.1]

theorem takes_qualifiedName {x : Expr} (hx : x.IsQualified) (h : At s (x.write ws))
    (hf : headToken ws ≠ .dot) : Takes qualifiedName s ws (Like x) := by
  unfold qualifiedName
  match x, hx with
  | .ident name, _ =>
    refine (takes_ident h).bind fun a t ht ha => .token ht ?_
    rw [if_neg hf]
    exact .pure ht (by simp [Like, Expr.bare, ha.1])
  | .select m (.ident name) sel, _ =>
    refine (takes_ident h).bind fun a t ht ha => .token ht ?_
    rw [if_pos (show headToken (Token.dot.word :: sel.write ws) = .dot from rfl)]
    exact takes_selection ht _ (by simp [Like, Expr.bare, ha.1]) m

theorem takes_type {x : Expr} (hx : x.IsType) {s : State} (h : At s (x.write ws)) :
    Takes type s ws (Like x) := by
  match x, hx with
  | .ident name, _ =>
    rw [type]
    refine .token h ((takes_ident h).bind fun a t ht ha => .pure ht ?_)
    simp [Like, Expr.bare, ha.1]
  | .sliceType m elem, hx =>
    rw [type]
    refine .token h (.pos (.next h (by decide) fun t ht => ?_))
    refine (takes_want ht (by decide)).bind fun _ t ht _ => ?_
    refine (takes_type (x := elem) hx ht).bind fun a t ht ha => .pure ht ?_
    simp [Like, Expr.bare, ha]

end

mutual

/-- However it goes on, an operand and what follows it is in the hands of `trailers`. -/
theorem leads_trailers (x : Expr) (hx : x.WellFormed) (hl : Expr.postfixLevel ≤ x.level)
    {s : State} {ws : List Word} (h : At s (x.write ws)) :
    Leads (operand >>= trailers) s trailers ws (Like x) := by
  match x with
  | .ident name =>
    refine .first ?_
    rw [operand]
    refine .get ?_
    dsimp only
    rw [h.token]
    refine ((takes_ident h).bind fun a t ht ha => .pure ht ?_)
    simp [Like, Expr.bare, ha.1]
  | .literal m k text =>
    refine .first ?_
    rw [operand]
    refine .get ?_
    dsimp only
    rw [h.token]
    refine (.next h (by simp) fun t ht => .pure ht ?_)
    simp [Like, Expr.bare, h.text (.inr rfl)]
  | .paren m y =>
    refine .first ?_
    rw [operand]
    refine .get ?_
    dsimp only
    rw [h.token]
    refine (.next h (by decide) fun t ht => ?_)
    refine (takes_binary y hx 0 (Expr.level_pos y) ht rfl).bind fun a t ht ha => ?_
    refine (takes_want ht (by decide)).bind fun _ t ht _ => .pure ht ?_
    simp [Like, Expr.bare, ha]
  | .call m callee args =>
    refine (leads_trailers callee hx.2.1 hx.1 h).trans fun a t ht ha => ?_
    rw [trailers]
    refine .token ht (.next ht (by decide) fun t ht => ?_)
    refine (takes_arguments args hx.2.2 ht).bind fun as t ht has => ?_
    refine (takes_want ht (by decide)).bind fun _ t ht _ => .refl ht ?_
    simp [Like, Expr.bare, ha, has]
  | .index m y i =>
    refine (leads_trailers y hx.2.1 hx.1 h).trans fun a t ht ha => ?_
    rw [trailers]
    refine .token ht (.next ht (by decide) fun t ht => ?_)
    refine (takes_binary i hx.2.2 0 (Expr.level_pos i) ht rfl).bind fun b t ht hb => ?_
    refine (takes_want ht (by decide)).bind fun _ t ht _ => .refl ht ?_
    simp [Like, Expr.bare, ha, hb]
  | .select m y sel =>
    refine (leads_trailers y hx.2 hx.1 h).trans fun a t ht ha => ?_
    rw [trailers]
    exact .token ht ((takes_selection ht a ha m).first)
  | .unary m op y => simp [Expr.level, Expr.unaryLevel, Expr.postfixLevel] at hl
  | .binary m op y z => cases op <;> simp [Expr.level, Expr.postfixLevel, BinaryOp.precedence] at hl
  | .sliceType m y => exact hx.elim
termination_by (sizeOf x, 0)

theorem takes_unary (x : Expr) (hx : x.WellFormed) (hl : Expr.unaryLevel ≤ x.level) {s : State}
    {ws : List Word} (h : At s (x.write ws)) (hf : endsOperand (headToken ws) = true) :
    Takes unary s ws (Like x) := by
  rw [unary]
  refine .pos (.token h ?_)
  by_cases hpost : Expr.postfixLevel ≤ x.level
  · rw [unaryOp?_write hx hpost]
    refine (leads_trailers x hx hpost h).trans fun a t ht ha => ?_
    exact (takes_trailers_end ht hf a).mono fun b hb => by rw [hb]; exact ha
  · cases x with
    | unary m op y =>
      have hop : unaryOp? (headToken ((Expr.unary m op y).write ws)) = some op := by cases op <;> rfl
      rw [hop]
      refine .next h (by cases op <;> decide) fun t ht => ?_
      refine (takes_unary y hx.2 hx.1 ht hf).bind fun a t ht ha => .pure ht ?_
      simp [Like, Expr.bare, ha]
    | binary m op y z => cases op <;> simp [Expr.level, Expr.unaryLevel, BinaryOp.precedence] at hl
    | _ => exact absurd (Nat.le_refl _) hpost
termination_by (sizeOf x, 1)

/-- However it goes on, an expression that binds tighter than `limit` is in the hands of
`binaryFrom` as its first operand. -/
theorem leads_binary (x : Expr) (hx : x.WellFormed) (limit : Nat) (hl : limit < x.level) {s : State}
    {ws : List Word} (h : At s (x.write ws)) (hf : endsExpr x.level (headToken ws) = true) :
    Leads (binary limit) s (binaryFrom · limit) ws (Like x) := by
  by_cases hun : Expr.unaryLevel ≤ x.level
  · rw [binary]
    exact (takes_unary x hx hun h (endsOperand_of_endsExpr hf)).first
  · cases x with
    | binary m op y z =>
      refine (leads_binary y hx.2.2.1 limit (Nat.lt_of_lt_of_le hl hx.1) h ?_).trans
        fun a t ht ha => ?_
      · simpa [endsExpr] using hx.1
      · have hlt : ¬ op.precedence ≤ limit := Nat.not_le.2 hl
        rw [binaryFrom]
        refine .token ht ?_
        change Leads (if op.precedence ≤ limit then _ else _) _ _ _ _
        rw [if_neg hlt]
        refine .next ht (by simp [Token.word]) fun t ht => ?_
        refine (takes_binary z hx.2.2.2 op.precedence hx.2.1 ht hf).bind fun b t ht hb => ?_
        refine .refl (q := (binaryFrom · limit)) ht ?_
        simp [Like, Expr.bare, ha, hb]
    | _ => simp [Expr.level, Expr.unaryLevel, Expr.postfixLevel] at hun
termination_by (sizeOf x, 2)

theorem takes_binary (x : Expr) (hx : x.WellFormed) (limit : Nat) (hl : limit < x.level) {s : State}
    {ws : List Word} (h : At s (x.write ws)) (hf : endsExpr limit (headToken ws) = true) :
    Takes (binary limit) s ws (Like x) := by
  refine (leads_binary x hx limit hl h (endsExpr_mono (Nat.le_of_lt hl) hf)).trans
    fun a t ht ha => ?_
  exact (takes_binaryFrom_end ht hf a).mono fun b hb => by rw [hb]; exact ha
termination_by (sizeOf x, 3)

theorem takes_exprs (x : Expr) (hx : x.WellFormed) (xs : List Expr) (hxs : Expr.AllWellFormed xs)
    {s : State} {ws : List Word} (h : At s (x.write (Expr.writeTail xs ws)))
    (hf : endsExpr 0 (headToken ws) = true) (hc : headToken ws ≠ .comma) :
    Takes exprs s ws fun ys => Expr.bareList ys = Expr.bareList (x :: xs) := by
  rw [exprs]
  match xs with
  | [] =>
    refine (takes_binary x hx 0 (Expr.level_pos x) h hf).bind fun a t ht ha => ?_
    refine (takes_got_other ht hc).bind fun b t ht hb => ?_
    subst hb
    exact .pure ht (by simp [Expr.bareList, ha])
  | y :: ys =>
    refine (takes_binary x hx 0 (Expr.level_pos x) h rfl).bind fun a t ht ha => ?_
    refine (takes_got ht (by decide)).bind fun b t ht hb => ?_
    subst hb
    refine (takes_exprs y hxs.1 ys hxs.2 ht hf hc).bind fun as t ht has => .pure ht ?_
    simp [Expr.bareList, ha, has]
termination_by (sizeOf x + sizeOf xs, 4)

theorem takes_arguments (xs : List Expr) (hxs : Expr.AllWellFormed xs) {s : State} {ws : List Word}
    (h : At s (Expr.writeList xs (Token.rparen.word :: ws))) :
    Takes arguments s (Token.rparen.word :: ws) fun ys => Expr.bareList ys = Expr.bareList xs := by
  rw [arguments]
  refine .token h ?_
  match xs with
  | [] => exact .pure h rfl
  | x :: xs =>
    have hne : headToken (Expr.writeList (x :: xs) (Token.rparen.word :: ws)) ≠ .rparen := by
      intro e
      have := startsExpr_write hxs.1 (Expr.writeTail xs (Token.rparen.word :: ws))
      rw [Expr.writeList] at e
      simp [e, startsExpr] at this
    rw [if_neg hne]
    exact takes_exprs x hxs.1 xs hxs.2 h rfl (by simp)
termination_by (sizeOf xs, 5)

end

theorem takes_expr {x : Expr} (hx : x.WellFormed) {s : State} {ws : List Word}
    (h : At s (x.write ws)) (hf : endsExpr 0 (headToken ws) = true) : Takes expr s ws (Like x) :=
  takes_binary x hx 0 (Expr.level_pos x) h hf

theorem get_bind {β : Type} (f : State → Parser β) (s : State) : (get >>= f) s = f s s := rfl

theorem token_bind {β : Type} (f : Token → Parser β) (s : State) :
    (token >>= f) s = f s.current.token s := rfl

theorem pos_bind {β : Type} (f : Pos → Parser β) (s : State) :
    (pos >>= f) s = f s.current.pos s := rfl

theorem bind_eq_of_eq_some {α β : Type} {p : Parser α} {f : α → Parser β} {s t : State} {a : α}
    (h : p s = some (a, t)) : (p >>= f) s = f a t :=
  congrArg (Option.bind · fun x : α × State => f x.1 x.2) h

/-- A leading name may be consumed before it is known that an expression starts with it. -/
theorem expr_eq_exprFrom {s : State} (h : s.current.token = .name) :
    expr s = exprFrom (identOf s.current) s.next := by
  have hoperand : operand s = some (.ident (identOf s.current), s.next) := by
    rw [operand, get_bind]
    rw [h]
    exact bind_eq_of_eq_some (ident_of_name h)
  have hunary : unary s = trailers (.ident (identOf s.current)) s.next := by
    rw [unary, pos_bind, token_bind, h]
    exact bind_eq_of_eq_some hoperand
  rw [expr, binary, exprFrom]
  exact congrArg (Option.bind · fun x : Expr × State => binaryFrom x.1 0 x.2) hunary

end FlowCheck.Parse
