import FlowCheck.Parse.Stmt
import FlowCheck.Proofs.Parse.Expression

/-!
# Statements come from their lexemes

The productions for statements come to an end and cover what they consume, like those for
expressions. A list of statements gets on because every statement does: one that consumes nothing
by itself leaves its token to the recovery at its end, which skips it.
-/
namespace FlowCheck.Parse

open State

theorem operator_of_assignOp? {l : Lexeme} {op : AssignOp} (h : assignOp? l.token = some op) :
    l.token ≠ .eof ∧ l.leaf? = none := by
  unfold assignOp? at h
  split at h
  · rename_i ht
    exact ⟨by rw [ht]; decide, leaf?_eq_none ht⟩
  · rename_i ht
    exact ⟨by rw [ht]; decide, leaf?_eq_none ht⟩
  · cases h

theorem yields_simpleFrom {s : State} (hs : s.Sound) (p : Pos) (x : Expr) :
    Yields (simpleFrom p x) s fun y t u => t.faults = 0 → ∀ w, Covers w (x.walk everywhere) →
      p ∈ w.map Lexeme.pos → Covers (w ++ u) (y.walk everywhere) := by
  unfold simpleFrom
  refine .token ?_
  split
  · rename_i op hop
    obtain ⟨ht, hl⟩ := operator_of_assignOp? hop
    refine .next hs ht fun r _ => ?_
    refine (yields_expr r.sound).bind fun y t u r' hy => .pure r'.sound fun clean w hw hp => ?_
    refine Covers.above (by simpa using hw.append ((hy clean).skip hl)) rfl ?_
    rw [List.map_append]
    exact List.mem_append_left _ hp
  · refine .pure hs fun _ w hw hp => ?_
    rw [List.append_nil]
    exact Covers.above hw rfl hp

theorem yields_simple {s : State} (hs : s.Sound) :
    Yields simple s fun x t u => t.faults = 0 → Covers u (x.walk everywhere) := by
  unfold simple
  refine .pos ((yields_expr hs).bind fun x t u r hx => ?_)
  refine (yields_simpleFrom r.sound _ x).mono fun y v w r' hy clean => ?_
  have hc := hx (r'.clean clean)
  exact hy clean u hc (r.pos_mem (r'.clean clean) hc.ne_nil)

theorem covers_semi {u w : List Lexeme} {ns : List Node} {l : Lexeme} (h : Covers u ns)
    (hw : w = [] ∨ w = [l] ∧ l.token = .semi) : Covers (u ++ w) ns := by
  rcases hw with rfl | ⟨rfl, hl⟩
  · simpa using h
  · exact h.snoc (leaf?_eq_none hl)

/-- An optional part covers what it consumed. -/
theorem covers_option {α : Type} {a : Option α} {t : State} {u : List Lexeme}
    {walk : α → List Node} (h : (a = none → u = []) ∧
      ∀ x, a = some x → t.faults = 0 → Covers u (walk x)) (clean : t.faults = 0) :
    Covers u (a.elim [] walk) := by
  cases a with
  | none => exact h.1 rfl ▸ .nil
  | some x => exact h.2 x rfl clean

theorem yields_varDecl {s : State} (hs : s.Sound) :
    Yields varDecl s fun d t u =>
      (t.faults = 0 → Covers u (d.walk everywhere) ∧ d.mark.pos = s.current.pos) ∧
      (s.current.token ≠ .eof → t.size < s.size) := by
  unfold varDecl
  refine .pos ((yields_want hs (by decide)).bind fun _ t₁ u₁ r₁ h₁ => ?_)
  refine (yields_ident r₁.sound).bind fun name t₂ u₂ r₂ h₂ => ?_
  refine (yields_unlessAt r₂.sound _ (yields_type r₂.sound)).bind fun type t₃ u₃ r₃ h₃ => ?_
  refine (yields_after r₃.sound (by decide) fun v hv _ => yields_expr hv).bind
    fun value t₄ u₄ r₄ h₄ => ?_
  refine (yields_semi r₄.sound).bind fun _ t₅ u₅ r₅ h₅ => .pure r₅.sound ⟨fun clean => ?_, fun hne => ?_⟩
  · have c₄ := r₅.clean clean
    have c₃ := r₄.clean c₄
    have c₂ := r₃.clean c₃
    obtain ⟨rfl, hk⟩ := h₁.1 (r₂.clean c₂)
    obtain ⟨rfl, hn, rfl⟩ := h₂ c₂
    have hvalue : Covers u₄ (value.elim [] (·.walk everywhere)) := by
      cases value with
      | none => exact h₄.1 rfl ▸ .nil
      | some x =>
        obtain ⟨w, rfl, hc, hx⟩ := h₄.2 x rfl
        exact (hx c₄).skip (leaf?_eq_none hc)
    have hall := covers_semi ((Covers.ident hn).append ((covers_option h₃ c₃).append hvalue))
      (h₅.1 clean)
    refine ⟨Covers.above ?_ rfl ?_, rfl⟩
    · simpa [Ident.walk, Expr.walkOption] using hall.skip (leaf?_eq_none hk)
    · simp [Node.pos, Node.mark]
  · have := r₅.size_le
    have := r₄.size_le
    have := r₃.size_le
    have := r₂.size_le
    have := h₁.2 hne
    omega

/-- The labels of a section add their values to those before them. -/
theorem yields_caseLabels {s : State} (hs : s.Sound) (values : List Expr) (isDefault : Bool) :
    Yields (caseLabels values isDefault) s fun a t u =>
      (t.faults = 0 → ∀ w, Covers w (Expr.walkList everywhere values) →
        Covers (w ++ u) (Expr.walkList everywhere a.1)) ∧
      (s.current.token = .keyword .kwCase ∨ s.current.token = .keyword .kwDefault →
        t.size < s.size) := by
  rw [caseLabels]
  refine (yields_got hs (by decide)).bind fun b t₁ u₁ r₁ h₁ => ?_
  cases b with
  | true =>
    obtain ⟨rfl, hd, hz⟩ := h₁.1 rfl
    refine (yields_want r₁.sound (by decide)).bind fun _ t₂ u₂ r₂ h₂ => ?_
    have hz₂ := r₂.size_le
    refine (yields_caseLabels r₂.sound values true).mono fun a t₃ u₃ r₃ h₃ => ⟨fun clean w hw => ?_, ?_⟩
    · obtain ⟨rfl, hc⟩ := h₂.1 (r₃.clean clean)
      have hall := (hw.snoc (leaf?_eq_none hd)).snoc (leaf?_eq_none hc)
      simpa using h₃.1 clean _ hall
    · have := r₃.size_le
      exact fun _ => by omega
  | false =>
    obtain ⟨rfl, rfl, hd⟩ := h₁.2 rfl
    refine (yields_got hs (by decide)).bind fun b t₂ u₂ r₂ h₂ => ?_
    cases b with
    | true =>
      obtain ⟨rfl, hk, hz⟩ := h₂.1 rfl
      refine (yields_exprs r₂.sound).bind fun more t₃ u₃ r₃ h₃ => ?_
      refine (yields_want r₃.sound (by decide)).bind fun _ t₄ u₄ r₄ h₄ => ?_
      have hz₃ := r₃.size_le
      have hz₄ := r₄.size_le
      refine (yields_caseLabels r₄.sound (values ++ more) isDefault).mono
        fun a t₅ u₅ r₅ h₅ => ⟨fun clean w hw => ?_, ?_⟩
      · obtain ⟨rfl, hc⟩ := h₄.1 (r₅.clean clean)
        have hmore := (h₃ (r₄.clean (r₅.clean clean))).1.covers.snoc (leaf?_eq_none hc)
        have hall := hw.append (hmore.skip (leaf?_eq_none hk))
        rw [← Expr.walkList_append] at hall
        simpa using h₅.1 clean _ hall
      · have := r₅.size_le
        exact fun _ => by omega
    | false =>
      obtain ⟨rfl, rfl, hk⟩ := h₂.2 rfl
      exact .pure hs ⟨fun _ w hw => by simpa using hw, fun h => (h.elim hk hd).elim⟩
termination_by s.size

/-- The nodes of a loop's header, in order. -/
def LoopHeader.walk (h : LoopHeader) : List Node :=
  h.init.elim [] (·.walk everywhere) ++ Expr.walkOption everywhere h.test
    ++ h.post.elim [] (·.walk everywhere)

theorem yields_loopHeader {s : State} (hs : s.Sound) (p : Pos) (first : Option Simple) :
    Yields (loopHeader p first) s fun h t u => t.faults = 0 →
      ∀ w, Covers w (first.elim [] (·.walk everywhere)) → Covers (w ++ u) h.walk := by
  unfold loopHeader
  refine .token ?_
  split
  · split
    · rename_i m x
      refine .pure hs fun _ w hw => ?_
      simpa [LoopHeader.walk, Expr.walkOption] using hw.of_above rfl
    · refine (yields_faultAt hs p _).bind fun _ t u r ht => .pure r.sound fun clean => ?_
      exact absurd clean ht
  · refine (yields_want hs (by decide)).bind fun _ t₁ u₁ r₁ h₁ => ?_
    refine (yields_unlessAt r₁.sound _ (yields_expr r₁.sound)).bind fun test t₂ u₂ r₂ h₂ => ?_
    refine (yields_want r₂.sound (by decide)).bind fun _ t₃ u₃ r₃ h₃ => ?_
    refine (yields_unlessAt r₃.sound _ (yields_simple r₃.sound)).bind fun post t₄ u₄ r₄ h₄ => ?_
    refine .pure r₄.sound fun clean w hw => ?_
    have c₃ := r₄.clean clean
    obtain ⟨rfl, hk⟩ := h₁.1 (r₂.clean (r₃.clean c₃))
    obtain ⟨rfl, hk'⟩ := h₃.1 c₃
    have hall := hw.append (((covers_option h₂ (r₃.clean c₃)).skip (leaf?_eq_none hk)).append
      ((covers_option h₄ clean).skip (leaf?_eq_none hk')))
    simpa [LoopHeader.walk, Expr.walkOption] using hall

theorem yields_catchParam {s : State} (hs : s.Sound) :
    Yields catchParam s fun a t u => t.faults = 0 →
      Covers u (a.elim [] fun p => p.1.walk ++ p.2.walk everywhere) := by
  unfold catchParam
  refine (yields_got hs (by decide)).bind fun b t₁ u₁ r₁ h₁ => ?_
  cases b with
  | true =>
    obtain ⟨rfl, hl, -⟩ := h₁.1 rfl
    refine (yields_ident r₁.sound).bind fun name t₂ u₂ r₂ h₂ => ?_
    refine (yields_qualifiedName r₂.sound).bind fun type t₃ u₃ r₃ h₃ => ?_
    refine (yields_want r₃.sound (by decide)).bind fun _ t₄ u₄ r₄ h₄ => .pure r₄.sound fun clean => ?_
    have c₃ := r₄.clean clean
    obtain ⟨rfl, hn, rfl⟩ := h₂ (r₃.clean c₃)
    obtain ⟨rfl, hr⟩ := h₄.1 clean
    have hall := ((Covers.ident hn).append (h₃ c₃)).snoc (leaf?_eq_none hr)
    simpa [Ident.walk] using hall.skip (leaf?_eq_none hl)
  | false =>
    obtain ⟨rfl, rfl, -⟩ := h₁.2 rfl
    exact .pure hs fun _ => .nil

theorem yields_guarded {s : State} (hs : s.Sound) (p : Pos) (handlers : List CatchClause)
    (cleanup : Option Block) :
    Yields (guarded p handlers cleanup) s fun _ t u => t.faults = 0 → u = [] := by
  unfold guarded
  split
  · exact (yields_faultAt hs p _).mono fun _ t u r ht clean => absurd clean ht
  · exact .pure hs fun _ => rfl

/-- A block ends with the brace that its end is the place of. -/
def Enclosed (u : List Lexeme) (b : Block) : Prop :=
  ∃ w l, u = w ++ [l] ∧ l.token = .rbrace ∧ b.close = l.pos ∧ Covers w (b.walk everywhere)

theorem Enclosed.covers {u : List Lexeme} {b : Block} (h : Enclosed u b) :
    Covers u (b.walk everywhere) := by
  obtain ⟨w, l, rfl, hl, -, hw⟩ := h
  exact hw.snoc (leaf?_eq_none hl)

theorem covers_cond {k : Lexeme} {u u' w : List Lexeme} {test : Expr} {yes : Block}
    (no : Option Stmt) (hk : k.token = .keyword .kwIf) (ht : Covers u (test.walk everywhere))
    (hy : Enclosed u' yes) (hn : Covers w (Stmt.walkOption everywhere no)) :
    Covers (k :: (u ++ (u' ++ w))) ((Stmt.cond { pos := k.pos } test yes no).walk everywhere) := by
  refine Covers.above ?_ rfl (by simp [Node.pos, Node.mark, Stmt.mark])
  simpa using (ht.append (hy.covers.append hn)).skip (leaf?_eq_none hk)

theorem covers_loop {k : Lexeme} {u w : List Lexeme} {h : LoopHeader} {body : Block}
    (hk : k.token = .keyword .kwFor) (hh : Covers u h.walk) (hb : Enclosed w body) :
    Covers (k :: (u ++ w))
      ((Stmt.loop { pos := k.pos } h.init h.test h.post body).walk everywhere) := by
  refine Covers.above ?_ rfl (by simp [Node.pos, Node.mark, Stmt.mark])
  simpa [LoopHeader.walk] using (hh.append hb.covers).skip (leaf?_eq_none hk)

/-- A jump is made of its keyword. -/
theorem yields_jump {s : State} (hs : s.Sound) {kind : Jump} (hne : s.current.token ≠ .eof)
    (hl : s.current.leaf? = none) :
    Yields (do
      next
      semi
      return .jump { pos := s.current.pos } kind) s fun (x : Stmt) t u =>
        (t.faults = 0 → Covers u (x.walk everywhere)) ∧ t.size < s.size := by
  refine .next hs hne fun r hz => ?_
  refine (yields_semi r.sound).bind fun _ t u r' h => .pure r'.sound ⟨fun clean => ?_, ?_⟩
  · have hall := covers_semi (Covers.token hl) (h.1 clean)
    refine Covers.above (by simpa using hall) rfl ?_
    simp [Node.pos, Node.mark, Stmt.mark]
  · exact Nat.lt_of_le_of_lt r'.size_le hz

theorem stmts_of_eof {s : State} (h : s.current.token = .eof) (inSwitch : Bool) :
    stmts inSwitch s = some ([], s) := by
  rw [stmts]
  show (if endsList inSwitch s.current.token || s.aborted then pure [] else _ : Parser _) s = _
  rw [if_pos (by simp [h, endsList])]
  rfl

mutual

theorem yields_stmts {s : State} (hs : s.Sound) (inSwitch : Bool) :
    Yields (stmts inSwitch) s fun ss t u =>
      t.faults = 0 → Covers u (Stmt.walkList everywhere ss) := by
  rw [stmts]
  refine .token (.isAborted ?_)
  split
  · exact .pure hs fun _ => .nil
  · rename_i h
    have hends : endsList inSwitch s.current.token = false := by
      cases he : endsList inSwitch s.current.token
      · rfl
      · simp [he] at h
    refine (yields_stmt hs).bind fun x t u r hx => ?_
    have hz : t.size < s.size := hx.2 (by rintro e; simp [e, endsList] at hends)
      (by rintro e; simp [e, endsList] at hends)
    refine (yields_stmts r.sound inSwitch).bind fun xs t' u' r' hxs => .pure r'.sound fun clean => ?_
    simpa [Stmt.walkList] using (hx.1 (r'.clean clean)).append (hxs clean)
termination_by 8 * s.size + 5

theorem yields_stmt {s : State} (hs : s.Sound) :
    Yields stmt s fun x t u =>
      (t.faults = 0 → Covers u (x.walk everywhere)) ∧
      (s.current.token ≠ .eof → s.current.token ≠ .rbrace → t.size < s.size) := by
  rw [stmt]
  refine .pos (.token ?_)
  split
  · -- a block
    refine (yields_block hs).bind fun b t u r hb => ?_
    refine (yields_semi r.sound).bind fun _ t' u' r' h' => .pure r'.sound ⟨fun clean => ?_, fun hne _ => ?_⟩
    · simpa [Stmt.walk] using covers_semi (hb.1 (r'.clean clean)).covers (h'.1 clean)
    · exact Nat.lt_of_le_of_lt r'.size_le (hb.2 hne)
  · -- an if statement
    refine (yields_cond hs).bind fun x t u r hx => ?_
    refine (yields_semi r.sound).bind fun _ t' u' r' h' => .pure r'.sound ⟨fun clean => ?_, fun hne _ => ?_⟩
    · simpa using covers_semi (hx.1 (r'.clean clean)) (h'.1 clean)
    · exact Nat.lt_of_le_of_lt r'.size_le (hx.2 hne)
  · -- a loop
    refine (yields_loop hs).bind fun x t u r hx => ?_
    refine (yields_semi r.sound).bind fun _ t' u' r' h' => .pure r'.sound ⟨fun clean => ?_, fun hne _ => ?_⟩
    · simpa using covers_semi (hx.1 (r'.clean clean)) (h'.1 clean)
    · exact Nat.lt_of_le_of_lt r'.size_le (hx.2 hne)
  · exact (yields_switch hs).mono fun x t u r h => ⟨h.1, fun hne _ => h.2 hne⟩
  · exact (yields_attempt hs).mono fun x t u r h => ⟨h.1, fun hne _ => h.2 hne⟩
  · -- a return
    rename_i ht
    refine .next hs (by rw [ht]; decide) fun r hz => ?_
    refine (yields_unlessAt r.sound _ (yields_expr r.sound)).bind fun x t u r' hx => ?_
    refine (yields_semi r'.sound).bind fun _ t' u' r'' h' => .pure r''.sound ⟨fun clean => ?_, ?_⟩
    · have hall := covers_semi (covers_option hx (r''.clean clean)) (h'.1 clean)
      refine Covers.above (by simpa [Expr.walkOption] using hall.skip (leaf?_eq_none ht)) rfl ?_
      simp [Node.pos, Node.mark, Stmt.mark]
    · have := r'.size_le
      have := r''.size_le
      omega
  · -- a throw
    rename_i ht
    refine .next hs (by rw [ht]; decide) fun r hz => ?_
    refine (yields_expr r.sound).bind fun x t u r' hx => ?_
    refine (yields_semi r'.sound).bind fun _ t' u' r'' h' => .pure r''.sound ⟨fun clean => ?_, ?_⟩
    · have hall := covers_semi (hx (r''.clean clean)) (h'.1 clean)
      refine Covers.above (by simpa using hall.skip (leaf?_eq_none ht)) rfl ?_
      simp [Node.pos, Node.mark, Stmt.mark]
    · have := r'.size_le
      have := r''.size_le
      omega
  · -- break
    rename_i ht
    refine (yields_jump hs (by rw [ht]; decide) (leaf?_eq_none ht)).mono fun x t u r h => ?_
    exact ⟨h.1, fun _ _ => h.2⟩
  · -- continue
    rename_i ht
    refine (yields_jump hs (by rw [ht]; decide) (leaf?_eq_none ht)).mono fun x t u r h => ?_
    exact ⟨h.1, fun _ _ => h.2⟩
  · -- a variable
    refine (yields_varDecl hs).bind fun d t u r h => .pure r.sound ⟨fun clean => ?_, fun hne _ => h.2 hne⟩
    obtain ⟨hd, hp⟩ := h.1 clean
    refine Covers.above (by simpa using hd) rfl ?_
    have : Node.varDecl d ∈ d.walk everywhere := List.mem_cons_self
    simpa [Node.pos, Node.mark, Stmt.mark, hp] using hd.placed _ this
  · -- an empty statement
    rename_i ht
    refine .next hs (by rw [ht]; decide) fun r hz => .pure r.sound ⟨fun _ => ?_, fun _ _ => hz⟩
    refine Covers.above (Covers.token (leaf?_eq_none ht)) rfl ?_
    simp [Node.pos, Node.mark, Stmt.mark]
  · -- Whatever else stands here is skipped at the end if the statement did not consume it.
    refine (yields_simple hs).bind fun x t u r hx => ?_
    refine (yields_semi r.sound).bind fun _ t' u' r' h' => .pure r'.sound ⟨fun clean => ?_, fun hne hb => ?_⟩
    · simpa [Stmt.walk] using covers_semi (hx (r'.clean clean)) (h'.1 clean)
    · have := r'.size_le
      by_cases hz : s.size ≤ t.size
      · have hsame := r.run.token_eq hz
        exact Nat.lt_of_lt_of_le (h'.2 (hsame ▸ hne) (hsame ▸ hb)) r.size_le
      · omega
termination_by 8 * s.size + 4

theorem yields_block {s : State} (hs : s.Sound) :
    Yields block s fun b t u =>
      (t.faults = 0 → Enclosed u b) ∧ (s.current.token ≠ .eof → t.size < s.size) := by
  rw [block]
  refine .pos ((yields_want hs (by decide)).bind fun _ t₁ u₁ r₁ h₁ => ?_)
  have hz₁ := r₁.size_le
  -- At the end of the file there are no statements, anywhere else the brace has been consumed.
  have hbody : Yields (stmts false) t₁ fun ss t u =>
      t.faults = 0 → Covers u (Stmt.walkList everywhere ss) := by
    by_cases ht : s.current.token = .eof
    · have hend : t₁.current.token = .eof := by
        rw [← size_eq_zero] at ht ⊢
        omega
      exact ⟨[], t₁, [], stmts_of_eof hend false, .refl r₁.sound, fun _ => .nil⟩
    · have hz := h₁.2 ht
      exact yields_stmts r₁.sound false
  refine hbody.bind fun body t₂ u₂ r₂ h₂ => .pos ?_
  refine (yields_want r₂.sound (by decide)).bind fun _ t₃ u₃ r₃ h₃ => .pure r₃.sound ⟨fun clean => ?_, fun hne => ?_⟩
  · have c₂ := r₃.clean clean
    obtain ⟨rfl, hl⟩ := h₁.1 (r₂.clean c₂)
    obtain ⟨rfl, hr⟩ := h₃.1 clean
    refine ⟨s.current :: u₂, t₂.current, by simp, hr, rfl, ?_⟩
    refine Covers.above ((h₂ c₂).skip (leaf?_eq_none hl)) rfl ?_
    simp [Node.pos, Node.mark, Stmt.mark, Block.mark]
  · have := r₂.size_le
    have := r₃.size_le
    have := h₁.2 hne
    omega
termination_by 8 * s.size + 1

theorem yields_cond {s : State} (hs : s.Sound) :
    Yields cond s fun x t u =>
      (t.faults = 0 → Covers u (x.walk everywhere)) ∧
      (s.current.token ≠ .eof → t.size < s.size) := by
  rw [cond]
  refine .pos ((yields_want hs (by decide)).bind fun _ t₁ u₁ r₁ h₁ => ?_)
  have hz₁ := r₁.size_le
  refine (yields_expr r₁.sound).bind fun test t₂ u₂ r₂ h₂ => ?_
  have hz₂ := r₂.size_le
  refine (yields_block r₂.sound).bind fun yes t₃ u₃ r₃ h₃ => ?_
  have hz₃ := r₃.size_le
  refine (yields_got r₃.sound (by decide)).bind fun b t₄ u₄ r₄ h₄ => ?_
  have hz₄ := r₄.size_le
  have c₃ {t u} (r : Reads t₄ u t) (clean : t.faults = 0) := r₄.clean (r.clean clean)
  cases b with
  | true =>
    obtain ⟨rfl, hk, hz⟩ := h₄.1 rfl
    have hk' := leaf?_eq_none hk
    refine .token ?_
    split
    · refine (yields_cond r₄.sound).bind fun x t u r hx => .pure r.sound ⟨fun clean => ?_, fun hne => ?_⟩
      · obtain ⟨rfl, hw⟩ := h₁.1 (r₂.clean (r₃.clean (c₃ r clean)))
        simpa using covers_cond (some x) hw (h₂ (r₃.clean (c₃ r clean)))
          (h₃.1 (c₃ r clean)) ((hx.1 clean).skip hk')
      · have := r.size_le
        have := h₁.2 hne
        omega
    · refine (yields_block r₄.sound).bind fun x t u r hx => .pure r.sound ⟨fun clean => ?_, fun hne => ?_⟩
      · obtain ⟨rfl, hw⟩ := h₁.1 (r₂.clean (r₃.clean (c₃ r clean)))
        simpa using covers_cond (some (.block x)) hw (h₂ (r₃.clean (c₃ r clean)))
          (h₃.1 (c₃ r clean)) ((hx.1 clean).covers.skip hk')
      · have := r.size_le
        have := h₁.2 hne
        omega
    · refine (yields_fault r₄.sound _).bind fun _ t u r ht => ?_
      refine (yields_recover r.sound).bind fun _ t' u' r' _ => .pure r'.sound
        ⟨fun clean => absurd (r'.clean clean) ht, fun hne => ?_⟩
      have := r.size_le
      have := r'.size_le
      have := h₁.2 hne
      omega
  | false =>
    obtain ⟨rfl, rfl, -⟩ := h₄.2 rfl
    refine .pure r₄.sound ⟨fun clean => ?_, fun hne => ?_⟩
    · obtain ⟨rfl, hw⟩ := h₁.1 (r₂.clean (r₃.clean clean))
      simpa using covers_cond none hw (h₂ (r₃.clean clean)) (h₃.1 clean) .nil
    · have := h₁.2 hne
      omega
termination_by 8 * s.size + 3

theorem yields_loop {s : State} (hs : s.Sound) :
    Yields loop s fun x t u =>
      (t.faults = 0 → Covers u (x.walk everywhere)) ∧
      (s.current.token ≠ .eof → t.size < s.size) := by
  rw [loop]
  refine .pos ((yields_want hs (by decide)).bind fun _ t₁ u₁ r₁ h₁ => .token ?_)
  have hz₁ := r₁.size_le
  split
  · -- without a header
    refine (yields_block r₁.sound).bind fun b t u r hb => .pure r.sound ⟨fun clean => ?_, fun hne => ?_⟩
    · obtain ⟨rfl, hk⟩ := h₁.1 (r.clean clean)
      simpa using covers_loop (h := ⟨none, none, none⟩) hk .nil (hb.1 clean)
    · have := r.size_le
      have := h₁.2 hne
      omega
  · -- with a name first
    refine (yields_ident r₁.sound).bind fun name t₂ u₂ r₂ h₂ => ?_
    have hz₂ := r₂.size_le
    refine (yields_got r₂.sound (by decide)).bind fun b t₃ u₃ r₃ h₃ => ?_
    have hz₃ := r₃.size_le
    cases b with
    | true =>
      obtain ⟨rfl, hin, -⟩ := h₃.1 rfl
      refine (yields_expr r₃.sound).bind fun x t₄ u₄ r₄ h₄ => ?_
      have hz₄ := r₄.size_le
      refine (yields_block r₄.sound).bind fun body t₅ u₅ r₅ h₅ => .pure r₅.sound ⟨fun clean => ?_, fun hne => ?_⟩
      · have c₄ := r₅.clean clean
        have c₂ := r₃.clean (r₄.clean c₄)
        obtain ⟨rfl, hk⟩ := h₁.1 (r₂.clean c₂)
        obtain ⟨rfl, hn, rfl⟩ := h₂ c₂
        have hall := (Covers.ident hn).append
          (((h₄ c₄).append (h₅.1 clean).covers).skip (leaf?_eq_none hin))
        refine Covers.above (by simpa [Ident.walk] using hall.skip (leaf?_eq_none hk)) rfl ?_
        simp [Node.pos, Node.mark, Stmt.mark]
      · have := r₅.size_le
        have := h₁.2 hne
        omega
    | false =>
      obtain ⟨rfl, rfl, -⟩ := h₃.2 rfl
      refine (yields_exprFrom r₂.sound name).bind fun x t₄ u₄ r₄ h₄ => ?_
      have hz₄ := r₄.size_le
      refine (yields_simpleFrom r₄.sound _ x).bind fun first t₅ u₅ r₅ h₅ => ?_
      have hz₅ := r₅.size_le
      refine (yields_loopHeader r₅.sound _ _).bind fun header t₆ u₆ r₆ h₆ => ?_
      have hz₆ := r₆.size_le
      refine (yields_block r₆.sound).bind fun body t₇ u₇ r₇ h₇ => .pure r₇.sound ⟨fun clean => ?_, fun hne => ?_⟩
      · have c₆ := r₇.clean clean
        have c₅ := r₆.clean c₆
        have c₄ := r₅.clean c₅
        obtain ⟨rfl, hk⟩ := h₁.1 (r₂.clean (r₄.clean c₄))
        obtain ⟨rfl, hn, rfl⟩ := h₂ (r₄.clean c₄)
        have hfirst := h₅ c₅ _ (h₄ c₄ _ hn rfl) (by simp [identOf])
        simpa using covers_loop hk (h₆ c₆ _ hfirst) (h₇.1 clean)
      · have := r₇.size_le
        have := h₁.2 hne
        omega
  · -- with anything else first
    refine (yields_unlessAt r₁.sound _ (yields_simple r₁.sound)).bind fun first t₂ u₂ r₂ h₂ => ?_
    have hz₂ := r₂.size_le
    refine (yields_loopHeader r₂.sound _ _).bind fun header t₃ u₃ r₃ h₃ => ?_
    have hz₃ := r₃.size_le
    refine (yields_block r₃.sound).bind fun body t₄ u₄ r₄ h₄ => .pure r₄.sound ⟨fun clean => ?_, fun hne => ?_⟩
    · have c₃ := r₄.clean clean
      have c₂ := r₃.clean c₃
      obtain ⟨rfl, hk⟩ := h₁.1 (r₂.clean c₂)
      simpa using covers_loop hk (h₃ c₃ _ (covers_option h₂ c₂)) (h₄.1 clean)
    · have := r₄.size_le
      have := h₁.2 hne
      omega
termination_by 8 * s.size + 3

theorem yields_switch {s : State} (hs : s.Sound) :
    Yields switch s fun x t u =>
      (t.faults = 0 → Covers u (x.walk everywhere)) ∧
      (s.current.token ≠ .eof → t.size < s.size) := by
  rw [switch]
  refine .pos ((yields_want hs (by decide)).bind fun _ t₁ u₁ r₁ h₁ => ?_)
  refine (yields_expr r₁.sound).bind fun tag t₂ u₂ r₂ h₂ => ?_
  refine (yields_want r₂.sound (by decide)).bind fun _ t₃ u₃ r₃ h₃ => ?_
  have hz₁ := r₁.size_le
  have hz₂ := r₂.size_le
  have hz₃ := r₃.size_le
  refine (yields_sections r₃.sound).bind fun cs t₄ u₄ r₄ h₄ => .pos ?_
  refine (yields_want r₄.sound (by decide)).bind fun _ t₅ u₅ r₅ h₅ => ?_
  refine (yields_semi r₅.sound).bind fun _ t₆ u₆ r₆ h₆ => .pure r₆.sound ⟨fun clean => ?_, fun hne => ?_⟩
  · have c₅ := r₆.clean clean
    have c₄ := r₅.clean c₅
    have c₃ := r₄.clean c₄
    have c₂ := r₃.clean c₃
    obtain ⟨rfl, hk⟩ := h₁.1 (r₂.clean c₂)
    obtain ⟨rfl, hl⟩ := h₃.1 c₃
    obtain ⟨rfl, hr⟩ := h₅.1 c₅
    have hall := (h₂ c₂).append (((h₄ c₄).snoc (leaf?_eq_none hr)).skip (leaf?_eq_none hl))
    have hend := (covers_semi hall (h₆.1 clean)).skip (leaf?_eq_none hk)
    refine Covers.above (by simpa using hend) rfl ?_
    simp [Node.pos, Node.mark, Stmt.mark]
  · have := r₄.size_le
    have := r₅.size_le
    have := r₆.size_le
    have := h₁.2 hne
    omega
termination_by 8 * s.size + 3

theorem yields_sections {s : State} (hs : s.Sound) :
    Yields sections s fun cs t u => t.faults = 0 → Covers u (CaseClause.walkList everywhere cs) := by
  rw [sections]
  refine .token ?_
  split
  · rename_i h
    refine .pos ((yields_caseLabels hs [] false).bind fun labels t₁ u₁ r₁ h₁ => ?_)
    have hz : t₁.size < s.size := h₁.2 (by simpa using h)
    refine (yields_stmts r₁.sound true).bind fun body t₂ u₂ r₂ h₂ => ?_
    have hz₂ := r₂.size_le
    refine (yields_sections r₂.sound).bind fun cs t₃ u₃ r₃ h₃ => .pure r₃.sound fun clean => ?_
    have c₂ := r₃.clean clean
    have c₁ := r₂.clean c₂
    have hlabels : Covers u₁ (Expr.walkList everywhere labels.1) := by simpa using h₁.1 c₁ [] .nil
    have hclause := (hlabels.append (h₂ c₂)).above (n := .caseClause
      (.mk { pos := s.current.pos } labels.1 labels.2 body)) rfl (by
        rw [List.map_append]
        exact List.mem_append_left _ (r₁.pos_mem c₁ (r₁.ne_nil c₁ hz)))
    simpa [CaseClause.walkList, CaseClause.walk, Node.above] using hclause.append (h₃ clean)
  · exact .pure hs fun _ => .nil
termination_by 8 * s.size + 2

theorem yields_attempt {s : State} (hs : s.Sound) :
    Yields attempt s fun x t u =>
      (t.faults = 0 → Covers u (x.walk everywhere)) ∧
      (s.current.token ≠ .eof → t.size < s.size) := by
  rw [attempt]
  refine .pos ((yields_want hs (by decide)).bind fun _ t₁ u₁ r₁ h₁ => ?_)
  have hz₁ := r₁.size_le
  refine (yields_block r₁.sound).bind fun body t₂ u₂ r₂ h₂ => ?_
  have hz₂ := r₂.size_le
  refine (yields_handlers r₂.sound).bind fun hs t₃ u₃ r₃ h₃ => ?_
  have hz₃ := r₃.size_le
  refine (yields_cleanup r₃.sound).bind fun cleanup t₄ u₄ r₄ h₄ => ?_
  refine (yields_guarded r₄.sound _ _ _).bind fun _ t₅ u₅ r₅ h₅ => ?_
  refine (yields_semi r₅.sound).bind fun _ t₆ u₆ r₆ h₆ => .pure r₆.sound ⟨fun clean => ?_, fun hne => ?_⟩
  · have c₅ := r₆.clean clean
    have c₄ := r₅.clean c₅
    have c₃ := r₄.clean c₄
    have c₂ := r₃.clean c₃
    obtain ⟨rfl, hk⟩ := h₁.1 (r₂.clean c₂)
    have hu₅ := h₅ c₅
    subst hu₅
    have hall := (h₂.1 c₂).covers.append ((h₃ c₃).append (h₄ c₄))
    have hend := (covers_semi hall (h₆.1 clean)).skip (leaf?_eq_none hk)
    refine Covers.above (by simpa using hend) rfl ?_
    simp [Node.pos, Node.mark, Stmt.mark]
  · have := r₄.size_le
    have := r₅.size_le
    have := r₆.size_le
    have := h₁.2 hne
    omega
termination_by 8 * s.size + 3

theorem yields_cleanup {s : State} (hs : s.Sound) :
    Yields cleanup s fun b t u => t.faults = 0 → Covers u (Block.walkOption everywhere b) := by
  rw [cleanup]
  refine (yields_got hs (by decide)).bind fun b t₁ u₁ r₁ h₁ => ?_
  cases b with
  | true =>
    obtain ⟨rfl, hk, hz⟩ := h₁.1 rfl
    refine (yields_block r₁.sound).bind fun body t₂ u₂ r₂ h₂ => .pure r₂.sound fun clean => ?_
    simpa [Block.walkOption] using (h₂.1 clean).covers.skip (leaf?_eq_none hk)
  | false =>
    obtain ⟨rfl, rfl, -⟩ := h₁.2 rfl
    exact .pure hs fun _ => .nil
termination_by 8 * s.size + 2

theorem yields_handlers {s : State} (hs : s.Sound) :
    Yields handlers s fun cs t u => t.faults = 0 → Covers u (CatchClause.walkList everywhere cs) := by
  rw [handlers]
  refine .token ?_
  split
  · rename_i ht
    refine .pos (.next hs (by rw [ht]; decide) fun r hz => ?_)
    refine (yields_catchParam r.sound).bind fun param t₁ u₁ r₁ h₁ => ?_
    have hz₁ := r₁.size_le
    refine (yields_block r₁.sound).bind fun body t₂ u₂ r₂ h₂ => ?_
    have hz₂ := r₂.size_le
    refine (yields_handlers r₂.sound).bind fun cs t₃ u₃ r₃ h₃ => .pure r₃.sound fun clean => ?_
    have c₂ := r₃.clean clean
    have hall := ((h₁ (r₂.clean c₂)).append (h₂.1 c₂).covers).skip (leaf?_eq_none ht)
    have hclause := hall.above (n := .catchClause (.mk { pos := s.current.pos } param body)) rfl
      (by simp [Node.pos, Node.mark, CatchClause.mark])
    simpa [CatchClause.walkList, CatchClause.walk, Node.above] using hclause.append (h₃ clean)
  · exact .pure hs fun _ => .nil
termination_by 8 * s.size + 2

end

end FlowCheck.Parse
