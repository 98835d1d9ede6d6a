import FlowCheck.Parse.File
import FlowCheck.Proofs.Parse.Statement

/-!
# Files come from their lexemes

Parsing a file comes to an end. Without a fault its declarations stand one after the other in the
text, each made of the lexemes of its own stretch.
-/
namespace FlowCheck.Parse

open State

theorem yields_codes {s : State} (hs : s.Sound) :
    Yields codes s fun names t u => t.faults = 0 → Covers u (names.flatMap (·.walk)) := by
  rw [codes]
  refine .token ?_
  split
  · exact .pure hs fun _ => .nil
  · refine (yields_ident hs).bind fun name t₁ u₁ r₁ h₁ => ?_
    have hz₁ := r₁.size_le
    -- a comma and a semicolon lead to the next name alike
    have hmore {l : Lexeme} {t₂ : State} (r₂ : Reads t₁ [l] t₂) (hl : l.leaf? = none)
        (hz : t₂.size < t₁.size) :
        Yields (do return name :: (← (codes.run ·))) t₂ fun names t u => t.faults = 0 →
          Covers (u₁ ++ ([l] ++ u)) (names.flatMap (·.walk)) := by
      refine (yields_codes r₂.sound).bind fun names t₃ u₃ r₃ h₃ => .pure r₃.sound fun clean => ?_
      obtain ⟨rfl, hn, rfl⟩ := h₁ (r₂.clean (r₃.clean clean))
      simpa [Ident.walk] using (Covers.ident hn).append ((h₃ clean).skip hl)
    refine (yields_got r₁.sound (by decide)).bind fun b t₂ u₂ r₂ h₂ => ?_
    cases b with
    | true =>
      obtain ⟨rfl, hc, hz⟩ := h₂.1 rfl
      exact hmore r₂ (leaf?_eq_none hc) hz
    | false =>
      obtain ⟨rfl, rfl, -⟩ := h₂.2 rfl
      refine (yields_got r₁.sound (by decide)).bind fun b t₂ u₂ r₂ h₂ => ?_
      cases b with
      | true =>
        obtain ⟨rfl, hc, hz⟩ := h₂.1 rfl
        exact hmore r₂ (leaf?_eq_none hc) hz
      | false =>
        obtain ⟨rfl, rfl, -⟩ := h₂.2 rfl
        refine .pure r₁.sound fun clean => ?_
        obtain ⟨rfl, hn, rfl⟩ := h₁ clean
        simpa [Ident.walk] using Covers.ident hn
termination_by s.size

/-- What a production for declarations owes, `walk` being the nodes of its result. -/
abbrev Declared {α : Type} (walk : α → List Node) (s : State) (d : α) (t : State)
    (u : List Lexeme) : Prop :=
  (t.faults = 0 → Covers u (walk d)) ∧ (s.current.token ≠ .eof → t.size < s.size)

theorem yields_errorDomainDecl {s : State} (hs : s.Sound) :
    Yields errorDomainDecl s (Declared (ErrorDomainDecl.walk everywhere) s) := by
  unfold errorDomainDecl
  refine .pos ((yields_want hs (by decide)).bind fun _ t₁ u₁ r₁ h₁ => ?_)
  refine (yields_ident r₁.sound).bind fun name t₂ u₂ r₂ h₂ => ?_
  refine (yields_want r₂.sound (by decide)).bind fun _ t₃ u₃ r₃ h₃ => ?_
  refine (yields_codes r₃.sound).bind fun codes t₄ u₄ r₄ h₄ => ?_
  refine (yields_want r₄.sound (by decide)).bind fun _ t₅ u₅ r₅ h₅ => ?_
  refine (yields_semi r₅.sound).bind fun _ t₆ u₆ r₆ h₆ => .pure r₆.sound ⟨fun clean => ?_, fun hne => ?_⟩
  · have c₅ := r₆.clean clean
    have c₄ := r₅.clean c₅
    have c₃ := r₄.clean c₄
    have c₂ := r₃.clean c₃
    obtain ⟨rfl, hk⟩ := h₁.1 (r₂.clean c₂)
    obtain ⟨rfl, hn, rfl⟩ := h₂ c₂
    obtain ⟨rfl, hl⟩ := h₃.1 c₃
    obtain ⟨rfl, hr⟩ := h₅.1 c₅
    have hcodes := ((h₄ c₄).snoc (leaf?_eq_none hr)).skip (leaf?_eq_none hl)
    have hall := covers_semi ((Covers.ident hn).append hcodes) (h₆.1 clean)
    refine Covers.above (by simpa [Ident.walk] using hall.skip (leaf?_eq_none hk)) rfl ?_
    simp [Node.pos, Node.mark]
  · have := r₂.size_le
    have := r₃.size_le
    have := r₄.size_le
    have := r₅.size_le
    have := r₆.size_le
    have := h₁.2 hne
    omega

theorem yields_paramList {s : State} (hs : s.Sound) :
    Yields paramList s fun ps t u => t.faults = 0 → Covers u (ps.flatMap (·.walk everywhere)) := by
  rw [paramList]
  refine .token ?_
  split
  · exact .pure hs fun _ => .nil
  · refine .pos ((yields_got hs (by decide)).bind fun out t₁ u₁ r₁ h₁ => ?_)
    refine (yields_ident r₁.sound).bind fun name t₂ u₂ r₂ h₂ => ?_
    refine (yields_type r₂.sound).bind fun type t₃ u₃ r₃ h₃ => ?_
    have hz₁ := r₁.size_le
    have hz₂ := r₂.size_le
    have hz₃ := r₃.size_le
    have hparam : t₃.faults = 0 → Covers (u₁ ++ (u₂ ++ u₃))
        (Param.walk everywhere ⟨{ pos := s.current.pos }, out, name, type⟩) := by
      intro c₃
      obtain ⟨rfl, hn, rfl⟩ := h₂ (r₃.clean c₃)
      have hnamed := (Covers.ident hn).append (h₃ c₃)
      have hout : Covers (u₁ ++ ([t₁.current] ++ u₃))
          ([.expr (.ident (identOf t₁.current))] ++ type.walk everywhere) := by
        cases out with
        | true =>
          obtain ⟨rfl, hk, -⟩ := h₁.1 rfl
          exact hnamed.skip (leaf?_eq_none hk)
        | false =>
          obtain ⟨rfl, rfl, -⟩ := h₁.2 rfl
          simpa using hnamed
      refine Covers.above (by simpa [Ident.walk] using hout) rfl ?_
      simpa [Node.pos, Node.mark] using (r₁.trans (r₂.trans r₃)).pos_mem c₃ (by simp)
    refine (yields_got r₃.sound (by decide)).bind fun b t₄ u₄ r₄ h₄ => ?_
    cases b with
    | true =>
      obtain ⟨rfl, hc, hz⟩ := h₄.1 rfl
      refine (yields_paramList r₄.sound).bind fun ps t₅ u₅ r₅ h₅ => .pure r₅.sound fun clean => ?_
      have hall := (hparam (r₄.clean (r₅.clean clean))).append ((h₅ clean).skip (leaf?_eq_none hc))
      simpa using hall
    | false =>
      obtain ⟨rfl, rfl, -⟩ := h₄.2 rfl
      exact .pure r₃.sound fun clean => by simpa using hparam clean
termination_by s.size

theorem yields_params {s : State} (hs : s.Sound) :
    Yields params s fun ps t u => t.faults = 0 → Covers u (ps.flatMap (·.walk everywhere)) := by
  unfold params
  refine (yields_want hs (by decide)).bind fun _ t₁ u₁ r₁ h₁ => ?_
  refine (yields_paramList r₁.sound).bind fun ps t₂ u₂ r₂ h₂ => ?_
  refine (yields_want r₂.sound (by decide)).bind fun _ t₃ u₃ r₃ h₃ => .pure r₃.sound fun clean => ?_
  have c₂ := r₃.clean clean
  obtain ⟨rfl, hl⟩ := h₁.1 (r₂.clean c₂)
  obtain ⟨rfl, hr⟩ := h₃.1 clean
  simpa using ((h₂ c₂).snoc (leaf?_eq_none hr)).skip (leaf?_eq_none hl)

theorem yields_throws {s : State} (hs : s.Sound) :
    Yields throws s fun xs t u => t.faults = 0 → Covers u (Expr.walkList everywhere xs) := by
  rw [throws]
  refine (yields_qualifiedName hs).bind fun x t u r hx => ?_
  have hz := r.size_le
  refine (yields_got r.sound (by decide)).bind fun b v u' r' h => ?_
  cases b with
  | true =>
    obtain ⟨rfl, hc, hz'⟩ := h.1 rfl
    refine (yields_throws r'.sound).bind fun xs v' u'' r'' hxs => .pure r''.sound fun clean => ?_
    have hall := (hx (r'.clean (r''.clean clean))).append ((hxs clean).skip (leaf?_eq_none hc))
    simpa [Expr.walkList] using hall
  | false =>
    obtain ⟨rfl, rfl, -⟩ := h.2 rfl
    exact .pure r.sound fun clean => by simpa [Expr.walkList] using hx clean
termination_by s.size

/-- A function is made of the lexemes up to the brace that ends its body. -/
def Bounded (u : List Lexeme) (d : FuncDecl) : Prop :=
  ∃ w l v, u = w ++ l :: v ∧ l.token = .rbrace ∧ d.body.close = l.pos ∧
    Covers w (d.walk everywhere) ∧ v.filterMap Lexeme.leaf? = []

theorem Bounded.covers {u : List Lexeme} {d : FuncDecl} (h : Bounded u d) :
    Covers u (d.walk everywhere) := by
  obtain ⟨w, l, v, rfl, hl, -, hw, hv⟩ := h
  have hrest : Covers (l :: v) [] := by
    refine ⟨?_, by simp⟩
    rw [List.filterMap_nil, eq_comm, List.filterMap_eq_nil_iff]
    intro m hm
    refine Lexeme.spelled?_eq_none ?_
    rcases List.mem_cons.1 hm with rfl | hm
    · exact leaf?_eq_none hl
    · exact List.filterMap_eq_nil_iff.1 hv m hm
  simpa using hw.append hrest

theorem yields_funcDecl {s : State} (hs : s.Sound) :
    Yields funcDecl s fun d t u =>
      (t.faults = 0 → Bounded u d) ∧ (s.current.token ≠ .eof → t.size < s.size) := by
  unfold funcDecl
  refine .pos ((yields_want hs (by decide)).bind fun _ t₁ u₁ r₁ h₁ => ?_)
  refine (yields_ident r₁.sound).bind fun name t₂ u₂ r₂ h₂ => ?_
  refine (yields_params r₂.sound).bind fun params t₃ u₃ r₃ h₃ => ?_
  refine (yields_unlessAt r₃.sound _ (yields_type r₃.sound)).bind fun result t₄ u₄ r₄ h₄ => ?_
  refine (yields_after r₄.sound (by decide) fun v hv _ => yields_throws hv).bind
    fun throws t₅ u₅ r₅ h₅ => ?_
  refine (yields_block r₅.sound).bind fun body t₆ u₆ r₆ h₆ => ?_
  refine (yields_semi r₆.sound).bind fun _ t₇ u₇ r₇ h₇ => .pure r₇.sound ⟨fun clean => ?_, fun hne => ?_⟩
  · have c₆ := r₇.clean clean
    have c₅ := r₆.clean c₆
    have c₄ := r₅.clean c₅
    have c₃ := r₄.clean c₄
    have c₂ := r₃.clean c₃
    obtain ⟨rfl, hk⟩ := h₁.1 (r₂.clean c₂)
    obtain ⟨rfl, hn, rfl⟩ := h₂ c₂
    have hthrows : Covers u₅ (Expr.walkList everywhere (throws.getD [])) := by
      cases throws with
      | none => exact h₅.1 rfl ▸ .nil
      | some xs =>
        obtain ⟨w, rfl, hc, hx⟩ := h₅.2 xs rfl
        exact (hx c₅).skip (leaf?_eq_none hc)
    obtain ⟨w, l, rfl, hl, hclose, hbody⟩ := h₆.1 c₆
    have hhead := (Covers.ident hn).append ((h₃ c₃).append ((covers_option h₄ c₄).append hthrows))
    have hall := (hhead.append hbody).skip (leaf?_eq_none hk)
    refine ⟨_, l, u₇, ?_, hl, hclose, Covers.above (n := .func _) (by simpa [Ident.walk, Expr.walkOption] using hall) rfl ?_, ?_⟩
    · simp
    · simp [Node.pos, Node.mark]
    · rcases h₇.1 clean with rfl | ⟨rfl, hsemi⟩
      · rfl
      · simp [leaf?_eq_none hsemi]
  · have := r₂.size_le
    have := r₃.size_le
    have := r₄.size_le
    have := r₅.size_le
    have := r₆.size_le
    have := r₇.size_le
    have := h₁.2 hne
    omega

/-- A declaration is made of the lexemes `u`; a function ends with the brace of its body. -/
def DeclOf (u : List Lexeme) : Decl → Prop
  | .func d => Bounded u d
  | d => Covers u (d.walk everywhere)

theorem DeclOf.covers {u : List Lexeme} {d : Decl} (h : DeclOf u d) :
    Covers u (d.walk everywhere) := by
  cases d with
  | func d => exact Bounded.covers h
  | errorDomain d => exact h
  | var d => exact h

/-- After a fault there may be no declaration, but the token it was found at is consumed. -/
theorem yields_decl {s : State} (hs : s.Sound) :
    Yields decl s fun d t u =>
      (t.faults = 0 → ∃ x, d = some x ∧ DeclOf u x) ∧ (s.current.token ≠ .eof → t.size < s.size) := by
  unfold decl
  refine .token ?_
  split
  · refine (yields_errorDomainDecl hs).bind fun d t u r h => .pure r.sound ⟨fun clean => ?_, h.2⟩
    exact ⟨_, rfl, by simpa [DeclOf, Decl.walk] using h.1 clean⟩
  · refine (yields_varDecl hs).bind fun d t u r h => .pure r.sound ⟨fun clean => ?_, h.2⟩
    exact ⟨_, rfl, by simpa [DeclOf, Decl.walk] using (h.1 clean).1⟩
  · refine (yields_funcDecl hs).bind fun d t u r h => .pure r.sound ⟨fun clean => ?_, h.2⟩
    exact ⟨_, rfl, by simpa [DeclOf, Decl.walk] using h.1 clean⟩
  · refine (yields_fault hs _).bind fun _ t u r ht => ?_
    refine (yields_recover r.sound).bind fun _ t' u' r' h' => .pure r'.sound ⟨fun clean => ?_, fun hne => ?_⟩
    · exact absurd (r'.clean clean) ht
    · by_cases hend : t.current.token = .eof
      · have := r'.size_le
        rw [size_eq_zero.2 hend] at this
        exact Nat.lt_of_le_of_lt this (Nat.pos_of_ne_zero (mt size_eq_zero.1 hne))
      · exact Nat.lt_of_lt_of_le (h' hend) r.size_le

/-- Declarations stand one after the other, with nothing but semicolons between them. -/
inductive Sequence : List Lexeme → List Decl → Prop
  | nil {u : List Lexeme} : (∀ l ∈ u, l.token = .semi) → Sequence u []
  | cons {v u w : List Lexeme} {d : Decl} {ds : List Decl} : (∀ l ∈ v, l.token = .semi) →
      DeclOf u d → Sequence w ds → Sequence (v ++ (u ++ w)) (d :: ds)

theorem Sequence.semi {l : Lexeme} {u : List Lexeme} {ds : List Decl} (hl : l.token = .semi)
    (h : Sequence u ds) : Sequence (l :: u) ds := by
  cases h with
  | nil hu => exact .nil (by simpa [hl] using hu)
  | @cons v u w d ds hv hd hds => exact .cons (v := l :: v) (by simpa [hl] using hv) hd hds

/-- The declarations of a file go on up to its end. -/
theorem yields_decls {s : State} (hs : s.Sound) :
    Yields decls s fun ds t u => t.current.token = .eof ∧ (t.faults = 0 → Sequence u ds) := by
  rw [decls]
  refine .isAborted (.token ?_)
  split
  · rename_i h
    refine .pure hs ⟨?_, fun _ => .nil (by simp)⟩
    rw [Bool.or_eq_true, decide_eq_true_eq] at h
    exact h.elim hs.ended id
  · rename_i h
    have hne : s.current.token ≠ .eof := by
      intro e
      simp [e] at h
    refine (yields_got hs (by decide)).bind fun b t₁ u₁ r₁ h₁ => ?_
    cases b with
    | true =>
      obtain ⟨rfl, hk, hz⟩ := h₁.1 rfl
      exact (yields_decls r₁.sound).mono fun ds t u r h =>
        ⟨h.1, fun clean => (h.2 clean).semi hk⟩
    | false =>
      obtain ⟨rfl, rfl, -⟩ := h₁.2 rfl
      refine (yields_decl hs).bind fun d t₂ u₂ r₂ h₂ => ?_
      have hz := h₂.2 hne
      refine (yields_decls r₂.sound).bind fun ds t₃ u₃ r₃ h₃ => ?_
      refine .pure r₃.sound ⟨h₃.1, fun clean => ?_⟩
      obtain ⟨x, rfl, hx⟩ := h₂.1 (r₃.clean clean)
      simpa using Sequence.cons (v := []) (by simp) hx (h₃.2 clean)
termination_by s.size

/-- A file is made of the lexemes `u`: the name of its package, then its declarations. -/
def FileOf (u : List Lexeme) (f : File) : Prop :=
  ∃ k n m w, u = k :: n :: m :: w ∧ k.token = .keyword .kwPackage ∧ n.token = .name ∧
    m.token = .semi ∧ f.mark.pos = k.pos ∧ f.package = identOf n ∧ Sequence w f.decls

/-- A file goes on up to the end of the text. -/
theorem yields_file {s : State} (hs : s.Sound) :
    Yields file s fun f t u => t.current.token = .eof ∧ (t.faults = 0 → FileOf u f) := by
  unfold file
  refine .pos ((yields_want hs (by decide)).bind fun _ t₁ u₁ r₁ h₁ => ?_)
  refine (yields_ident r₁.sound).bind fun name t₂ u₂ r₂ h₂ => ?_
  refine (yields_want r₂.sound (by decide)).bind fun _ t₃ u₃ r₃ h₃ => ?_
  refine (yields_decls r₃.sound).bind fun ds t₄ u₄ r₄ h₄ => .pure r₄.sound ⟨h₄.1, fun clean => ?_⟩
  have c₃ := r₄.clean clean
  have c₂ := r₃.clean c₃
  obtain ⟨rfl, hk⟩ := h₁.1 (r₂.clean c₂)
  obtain ⟨rfl, hn, rfl⟩ := h₂ c₂
  obtain ⟨rfl, hm⟩ := h₃.1 c₃
  exact ⟨_, _, _, u₄, by simp, hk, hn, hm, rfl, rfl, h₄.2 clean⟩

end FlowCheck.Parse
