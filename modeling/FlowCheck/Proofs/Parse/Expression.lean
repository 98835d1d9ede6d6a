import FlowCheck.Parse.Expr
import FlowCheck.Proofs.Parse.Run
import FlowCheck.Proofs.RoundTrip.Written
import FlowCheck.Tree.Node

/-!
# Expressions come from their lexemes

Every production for expressions comes to an end, and without a fault its tree covers what it
consumed: the names and literals of the tree are those of the lexemes, in the same order, and every
node stands where some lexeme does. An expression is written as just those lexemes, and its operands
bind as tight as they must: precedence climbing holds on to an expression that binds tighter than
its limit and at least as tight as the operator that comes next. The measure is the number of
lexemes left: a production either consumes one before it calls itself again, or it hands on to a
production of lower rank.
-/
namespace FlowCheck

/-- A walk with this predicate leaves out nothing. -/
abbrev everywhere : Node → Bool := fun _ => true

theorem Node.above_everywhere (n : Node) (parts : List Node) :
    Node.above everywhere n parts = n :: parts := rfl

/-- The place and text of a name or literal. -/
def Node.leaf? : Node → Option (Pos × String)
  | .expr (.ident name) => some (name.mark.pos, name.text)
  | .expr (.literal m _ text) => some (m.pos, text)
  | _ => none

def Lexeme.leaf? (l : Lexeme) : Option (Pos × String) :=
  match l.token with
  | .name | .literal _ => some (l.pos, l.text)
  | _ => none

/-- The place and word of a name or literal. -/
def Node.spelled? : Node → Option (Pos × Word)
  | .expr (.ident name) => some (name.mark.pos, .name, name.text)
  | .expr (.literal m kind text) => some (m.pos, .literal kind, text)
  | _ => none

def Lexeme.spelled? (l : Lexeme) : Option (Pos × Word) :=
  match l.token with
  | .name | .literal _ => some (l.pos, l.token, l.text)
  | _ => none

theorem Node.leaf?_eq_map (n : Node) : n.leaf? = n.spelled?.map fun p => (p.1, p.2.2) := by
  unfold leaf? spelled?
  split <;> simp_all

theorem Lexeme.leaf?_eq_map (l : Lexeme) : l.leaf? = l.spelled?.map fun p => (p.1, p.2.2) := by
  unfold leaf? spelled?
  split <;> simp_all

theorem Node.spelled?_eq_none {n : Node} (h : n.leaf? = none) : n.spelled? = none := by
  rwa [leaf?_eq_map, Option.map_eq_none_iff] at h

theorem Lexeme.spelled?_eq_none {l : Lexeme} (h : l.leaf? = none) : l.spelled? = none := by
  rwa [leaf?_eq_map, Option.map_eq_none_iff] at h

theorem Expr.mem_walk_self (x : Expr) : Node.expr x ∈ x.walk everywhere := by
  cases x <;> simp [Expr.walk, Node.above]

theorem Expr.walkList_append (enter : Node → Bool) (xs ys : List Expr) :
    Expr.walkList enter (xs ++ ys) = Expr.walkList enter xs ++ Expr.walkList enter ys := by
  induction xs with
  | nil => rfl
  | cons x xs ih => simp [Expr.walkList, ih]

/-- The nodes are made of the lexemes `used`. -/
structure Covers (used : List Lexeme) (nodes : List Node) : Prop where
  spelled : nodes.filterMap Node.spelled? = used.filterMap Lexeme.spelled?
  placed : ∀ n ∈ nodes, n.pos ∈ used.map Lexeme.pos

namespace Covers

variable {u w : List Lexeme} {ns ms : List Node} {l : Lexeme}

theorem leaves (h : Covers u ns) : ns.filterMap Node.leaf? = u.filterMap Lexeme.leaf? := by
  simpa only [List.map_filterMap, ← Node.leaf?_eq_map, ← Lexeme.leaf?_eq_map] using
    congrArg (List.map fun p => (p.1, p.2.2)) h.spelled

theorem nil : Covers [] [] := ⟨rfl, by simp⟩

theorem append (h : Covers u ns) (h' : Covers w ms) : Covers (u ++ w) (ns ++ ms) := by
  refine ⟨by rw [List.filterMap_append, List.filterMap_append, h.spelled, h'.spelled], fun n hn => ?_⟩
  rw [List.map_append]
  rcases List.mem_append.1 hn with hn | hn
  · exact List.mem_append_left _ (h.placed n hn)
  · exact List.mem_append_right _ (h'.placed n hn)

/-- A token that is no name or literal adds nothing to the tree. -/
theorem skip (hl : l.leaf? = none) (h : Covers u ns) : Covers (l :: u) ns := by
  refine ⟨by rw [List.filterMap_cons_none (Lexeme.spelled?_eq_none hl), h.spelled], fun n hn => ?_⟩
  exact List.mem_cons_of_mem _ (h.placed n hn)

theorem token (hl : l.leaf? = none) : Covers [l] [] := nil.skip hl

theorem ident (hl : l.token = .name) : Covers [l] [.expr (.ident (Parse.identOf l))] := by
  refine ⟨?_, by simp [Node.pos, Node.mark, Expr.mark, Parse.identOf]⟩
  simp [Node.spelled?, Lexeme.spelled?, hl, Parse.identOf]

theorem literal {k : LitKind} (hl : l.token = .literal k) :
    Covers [l] [.expr (.literal { pos := l.pos } k l.text)] := by
  refine ⟨?_, by simp [Node.pos, Node.mark, Expr.mark]⟩
  simp [Node.spelled?, Lexeme.spelled?, hl]

/-- A node on top of others that stands where one of their lexemes does. -/
theorem above {n : Node} (h : Covers u ns) (hn : n.leaf? = none) (hp : n.pos ∈ u.map Lexeme.pos) :
    Covers u (n :: ns) := by
  refine ⟨by rw [List.filterMap_cons_none (Node.spelled?_eq_none hn), h.spelled], fun m hm => ?_⟩
  rcases List.mem_cons.1 hm with rfl | hm
  · exact hp
  · exact h.placed m hm

theorem of_above {n : Node} (h : Covers u (n :: ns)) (hn : n.leaf? = none) : Covers u ns :=
  ⟨by rw [← h.spelled, List.filterMap_cons_none (Node.spelled?_eq_none hn)], fun m hm => h.placed m (List.mem_cons_of_mem _ hm)⟩

theorem snoc (h : Covers u ns) (hl : l.leaf? = none) : Covers (u ++ [l]) ns := by
  simpa using h.append (token hl)

theorem pos_mem {x : Expr} (h : Covers u (x.walk everywhere)) : x.pos ∈ u.map Lexeme.pos :=
  h.placed _ x.mem_walk_self

theorem ne_nil {x : Expr} (h : Covers u (x.walk everywhere)) : u ≠ [] := by
  rintro rfl
  exact absurd h.pos_mem (by simp)

/-- A node that stands where the expression before it stands. -/
theorem extend {x : Expr} {n : Node} (h : Covers u (x.walk everywhere)) (h' : Covers w ms)
    (hn : n.leaf? = none) (hp : n.pos = x.pos) :
    Covers (u ++ w) (n :: (x.walk everywhere ++ ms)) := by
  refine (h.append h').above hn ?_
  rw [hp, List.map_append]
  exact List.mem_append_left _ h.pos_mem

end Covers

namespace Parse

open State

theorem leaf?_eq_none {l : Lexeme} {t : Token} (h : l.token = t)
    (ht : t ≠ .name ∧ ∀ k, t ≠ .literal k := by simp) : l.leaf? = none := by
  unfold Lexeme.leaf?
  split
  · rename_i e
    exact absurd (h.symm.trans e) ht.1
  · rename_i k e
    exact absurd (h.symm.trans e) (ht.2 k)
  · rfl

theorem word_eq {l : Lexeme} {t : Token} (h : l.token = t)
    (ht : t ≠ .name ∧ ∀ k, t ≠ .literal k := by simp) : l.word = t.word := by
  subst h
  unfold Lexeme.word
  split <;> simp_all

theorem operator_of_unaryOp? {l : Lexeme} {op : UnaryOp} (h : unaryOp? l.token = some op) :
    l.token ≠ .eof ∧ l.leaf? = none ∧ l.word = op.token.word := by
  unfold unaryOp? at h
  split at h
  · rename_i ht
    cases h
    exact ⟨by rw [ht]; decide, leaf?_eq_none ht, word_eq (t := .not) ht⟩
  · rename_i ht
    cases h
    exact ⟨by rw [ht]; decide, leaf?_eq_none ht, word_eq (t := .op .sub) ht⟩
  · cases h

/-! ### What an expression is made of -/

/-- The expression is made of the lexemes `used` and binds at least as tight as `level`. -/
structure Spans (level : Nat) (used : List Lexeme) (x : Expr) : Prop where
  covers : Covers used (x.walk everywhere)
  words : used.map Lexeme.word = x.write []
  wellFormed : x.WellFormed
  tight : level ≤ x.level

/-- The expressions are made of the lexemes `used`, commas included. -/
structure SpansAll (used : List Lexeme) (xs : List Expr) : Prop where
  covers : Covers used (Expr.walkList everywhere xs)
  words : used.map Lexeme.word = Expr.writeList xs []
  wellFormed : Expr.AllWellFormed xs

namespace Spans

variable {n : Nat} {l m : Lexeme} {u w : List Lexeme} {x y : Expr} {xs : List Expr}

theorem ident (hl : l.token = .name) : Spans Expr.postfixLevel [l] (.ident (identOf l)) := by
  refine ⟨by simpa [Expr.walk] using Covers.ident hl, ?_, trivial, Nat.le_refl _⟩
  simp [Lexeme.word, hl, Expr.write, Ident.write, identOf]

theorem literal {k : LitKind} (hl : l.token = .literal k) :
    Spans Expr.postfixLevel [l] (.literal { pos := l.pos } k l.text) := by
  refine ⟨by simpa [Expr.walk] using Covers.literal hl, ?_, trivial, Nat.le_refl _⟩
  simp [Lexeme.word, hl, Expr.write]

theorem paren (hl : l.token = .lparen) (h : Spans n u x) (hm : m.token = .rparen) :
    Spans Expr.postfixLevel (l :: (u ++ [m])) (.paren { pos := l.pos } x) := by
  have hparts := (h.covers.snoc (leaf?_eq_none hm)).skip (leaf?_eq_none hl)
  refine ⟨Covers.above hparts rfl (by simp [Node.pos, Node.mark, Expr.mark]), ?_, h.wellFormed,
    Nat.le_refl _⟩
  simp [word_eq hl, word_eq hm, h.words, Expr.write, Expr.write_append]

theorem unary {op : UnaryOp} (hl : unaryOp? l.token = some op) (h : Spans Expr.unaryLevel u x) :
    Spans Expr.unaryLevel (l :: u) (.unary { pos := l.pos } op x) := by
  obtain ⟨-, hleaf, hword⟩ := operator_of_unaryOp? hl
  refine ⟨Covers.above (h.covers.skip hleaf) rfl (by simp [Node.pos, Node.mark, Expr.mark]), ?_,
    ⟨h.tight, h.wellFormed⟩, Nat.le_refl _⟩
  simp [hword, h.words, Expr.write]

theorem binary {o : BinaryOp} (h : Spans n w x) (hl : l.token = .op o) (hn : n ≤ o.precedence)
    (hx : o.precedence ≤ x.level) (h' : Spans (o.precedence + 1) u y) :
    Spans n (w ++ l :: u) (.binary { pos := x.pos } o x y) := by
  refine ⟨h.covers.extend (h'.covers.skip (leaf?_eq_none hl)) rfl rfl, ?_,
    ⟨hx, h'.tight, h.wellFormed, h'.wellFormed⟩, hn⟩
  simp [word_eq hl, h.words, h'.words, Expr.write, Expr.write_append]

theorem call (h : Spans Expr.postfixLevel w x) (hl : l.token = .lparen) (h' : SpansAll u xs)
    (hm : m.token = .rparen) :
    Spans Expr.postfixLevel (w ++ l :: (u ++ [m])) (.call { pos := x.pos } x xs) := by
  have hparts := (h'.covers.snoc (leaf?_eq_none hm)).skip (leaf?_eq_none hl)
  refine ⟨h.covers.extend hparts rfl rfl, ?_, ⟨h.tight, h.wellFormed, h'.wellFormed⟩,
    Nat.le_refl _⟩
  simp [word_eq hl, word_eq hm, h.words, h'.words, Expr.write, Expr.write_append,
    Expr.writeList_append]

theorem index (h : Spans Expr.postfixLevel w x) (hl : l.token = .lbrack) (h' : Spans n u y)
    (hm : m.token = .rbrack) :
    Spans Expr.postfixLevel (w ++ l :: (u ++ [m])) (.index { pos := x.pos } x y) := by
  have hparts := (h'.covers.snoc (leaf?_eq_none hm)).skip (leaf?_eq_none hl)
  refine ⟨h.covers.extend hparts rfl rfl, ?_, ⟨h.tight, h.wellFormed, h'.wellFormed⟩,
    Nat.le_refl _⟩
  simp [word_eq hl, word_eq hm, h.words, h'.words, Expr.write, Expr.write_append]

theorem select (h : Spans Expr.postfixLevel w x) (hl : l.token = .dot) (hm : m.token = .name) :
    Spans Expr.postfixLevel (w ++ [l, m]) (.select { pos := x.pos } x (identOf m)) := by
  refine ⟨h.covers.extend ((Covers.ident hm).skip (leaf?_eq_none hl)) rfl rfl, ?_,
    ⟨h.tight, h.wellFormed⟩, Nat.le_refl _⟩
  have hname : m.word = (.name, m.text) := by simp [Lexeme.word, hm]
  simp [word_eq hl, hname, h.words, Expr.write, Expr.write_append, Ident.write, identOf]

theorem single (h : Spans n u x) : SpansAll u [x] := by
  refine ⟨by simpa [Expr.walkList] using h.covers, ?_, h.wellFormed, trivial⟩
  rw [h.words, Expr.writeList, Expr.writeTail]

theorem cons (h : Spans n w x) (hl : l.token = .comma) (h' : SpansAll u xs) (hne : xs ≠ []) :
    SpansAll (w ++ l :: u) (x :: xs) := by
  refine ⟨by simpa [Expr.walkList] using h.covers.append (h'.covers.skip (leaf?_eq_none hl)), ?_,
    h.wellFormed, h'.wellFormed⟩
  obtain ⟨y, ys, rfl⟩ := List.exists_cons_of_ne_nil hne
  simp [word_eq hl, h.words, h'.words, Expr.writeList, Expr.writeTail, Expr.write_append]

theorem mono {k : Nat} (h : Spans n u x) (hk : k ≤ n) : Spans k u x :=
  ⟨h.covers, h.words, h.wellFormed, Nat.le_trans hk h.tight⟩

end Spans

theorem SpansAll.nil : SpansAll [] [] := ⟨.nil, rfl, trivial⟩

/-- No operator that binds tighter than `limit` comes next. -/
def Loose (limit : Nat) (s : State) : Prop :=
  ∀ o, s.current.token = .op o → o.precedence ≤ limit

theorem loose_of_unaryLevel {n : Nat} (hn : Expr.unaryLevel ≤ n) (s : State) : Loose n s := by
  intro o _
  refine Nat.le_trans ?_ hn
  cases o <;> decide

/-! ### Productions -/

/-- What a production owes whose tree is no more than a list of nodes here: without a fault it
covers what was consumed. -/
abbrev Tree (x : Expr) (t : State) (u : List Lexeme) : Prop :=
  t.faults = 0 → Covers u (x.walk everywhere)

theorem yields_missing {s : State} (hs : s.Sound) (f : ParseFault) :
    Yields (missing f) s fun _ t _ => t.faults ≠ 0 := by
  unfold missing
  exact (yields_fault hs f).bind fun _ t u r ht => .pos (.pure r.sound ht)

theorem yields_selection {s : State} (hs : s.Sound) (x : Expr) :
    Yields (selection x) s fun y t u =>
      (t.faults = 0 → ∀ w, Spans Expr.postfixLevel w x → Spans Expr.postfixLevel (w ++ u) y) ∧
      (s.current.token ≠ .eof → t.size < s.size) := by
  unfold selection
  refine (yields_want hs (by decide)).bind fun _ t u r h => ?_
  refine (yields_ident r.sound).bind fun name v u' r' h' => .pure r'.sound ⟨fun clean w hw => ?_, ?_⟩
  · obtain ⟨rfl, hd⟩ := h.1 (r'.clean clean)
    obtain ⟨rfl, hn, rfl⟩ := h' clean
    exact hw.select hd hn
  · exact fun hne => Nat.lt_of_le_of_lt r'.size_le (h.2 hne)

theorem yields_qualifiedName {s : State} (hs : s.Sound) : Yields qualifiedName s Tree := by
  unfold qualifiedName
  refine (yields_ident hs).bind fun name t u r h => .token ?_
  split
  · refine (yields_selection r.sound _).mono fun y v w r' h' clean => ?_
    obtain ⟨rfl, hn, rfl⟩ := h (r'.clean clean)
    exact (h'.1 clean _ (.ident hn)).covers
  · refine .pure r.sound fun clean => ?_
    obtain ⟨rfl, hn, rfl⟩ := h clean
    exact (Spans.ident hn).covers

theorem yields_type {s : State} (hs : s.Sound) : Yields type s Tree := by
  rw [type]
  refine .token ?_
  split
  · refine (yields_ident hs).bind fun name t u r h => .pure r.sound fun clean => ?_
    obtain ⟨rfl, hn, rfl⟩ := h clean
    exact (Spans.ident hn).covers
  · rename_i hb
    refine .pos (.next hs (by rw [hb]; decide) fun r hz => ?_)
    refine (yields_want r.sound (by decide)).bind fun _ t u r' h => ?_
    have hsz := r'.size_le
    refine (yields_type r'.sound).bind fun x v w r'' hx => .pure r''.sound fun clean => ?_
    obtain ⟨rfl, hc⟩ := h.1 (r''.clean clean)
    have hall := ((hx clean).skip (leaf?_eq_none hc)).skip (leaf?_eq_none hb)
    refine Covers.above (by simpa using hall) rfl ?_
    simp [Node.pos, Node.mark, Expr.mark]
  · exact (yields_missing hs _).mono fun x t u r ht clean => absurd clean ht
termination_by s.size

mutual

theorem yields_binary {s : State} (hs : s.Sound) (limit : Nat) :
    Yields (binary limit) s fun x t u =>
      limit < Expr.unaryLevel → t.faults = 0 → Spans (limit + 1) u x ∧ Loose limit t := by
  rw [binary]
  refine (yields_unary hs).bind fun x t u r hx => ?_
  have hz := r.size_le
  refine (yields_binaryFrom r.sound x limit).mono fun y v w r' hy hl clean => ?_
  have htight := hx (r'.clean clean)
  exact hy clean u (htight.mono hl) (loose_of_unaryLevel htight.tight t)
termination_by 8 * s.size + 3

theorem yields_binaryFrom {s : State} (hs : s.Sound) (x : Expr) (limit : Nat) :
    Yields (binaryFrom x limit) s fun y t u => t.faults = 0 →
      ∀ w, Spans (limit + 1) w x → Loose x.level s →
        Spans (limit + 1) (w ++ u) y ∧ Loose limit t := by
  rw [binaryFrom]
  refine .token ?_
  split
  · rename_i o ho
    split
    · rename_i hle
      refine .pure hs fun _ w hw _ => ⟨by simpa using hw, fun o' ho' => ?_⟩
      cases ho.symm.trans ho'
      exact hle
    · rename_i hlt
      refine .next hs (by rw [ho]; simp) fun r hz => ?_
      refine (yields_binary r.sound o.precedence).bind fun y t u r' hy => ?_
      have hz' := r'.size_le
      refine (yields_binaryFrom r'.sound _ limit).mono fun z v u' r'' hz clean w hw hb => ?_
      have ho' : o.precedence < Expr.unaryLevel := by cases o <;> decide
      obtain ⟨hright, hbound⟩ := hy ho' (r''.clean clean)
      have hall := hw.binary ho (Nat.not_le.1 hlt) (hb o ho) hright
      simpa using hz clean _ hall hbound
  · rename_i hno
    exact .pure hs fun _ w hw _ => ⟨by simpa using hw, fun o ho => absurd ho (hno o)⟩
termination_by 8 * s.size + 1

theorem yields_unary {s : State} (hs : s.Sound) :
    Yields unary s fun x t u => t.faults = 0 → Spans Expr.unaryLevel u x := by
  rw [unary]
  refine .pos (.token ?_)
  split
  · rename_i op hop
    refine .next hs (operator_of_unaryOp? hop).1 fun r hz => ?_
    refine (yields_unary r.sound).bind fun x t u r' hx => .pure r'.sound fun clean => ?_
    simpa using (hx clean).unary hop
  · refine (yields_operand hs).bind fun x t u r hx => ?_
    have hz := r.size_le
    refine (yields_trailers r.sound x).mono fun y v w r' hy clean => ?_
    exact (hy clean u (hx (r'.clean clean))).mono (by decide)
termination_by 8 * s.size + 2

theorem yields_trailers {s : State} (hs : s.Sound) (x : Expr) :
    Yields (trailers x) s fun y t u =>
      t.faults = 0 → ∀ w, Spans Expr.postfixLevel w x → Spans Expr.postfixLevel (w ++ u) y := by
  rw [trailers]
  refine .token ?_
  split
  · rename_i ht
    refine .next hs (by rw [ht]; decide) fun r hz => ?_
    refine (yields_arguments r.sound).bind fun args t u r₂ ha => ?_
    refine (yields_want r₂.sound (by decide)).bind fun _ v u₂ r₃ h => ?_
    have hz₂ := r₂.size_le
    have hz₃ := r₃.size_le
    refine (yields_trailers r₃.sound _).mono fun y t₃ u₃ r₄ hy clean w hw => ?_
    obtain ⟨rfl, hc⟩ := h.1 (r₄.clean clean)
    have hcall := hw.call ht (ha (r₃.clean (r₄.clean clean))) hc
    simpa using hy clean _ hcall
  · rename_i ht
    refine .next hs (by rw [ht]; decide) fun r hz => ?_
    refine (yields_binary r.sound 0).bind fun i t u r₂ hi => ?_
    refine (yields_want r₂.sound (by decide)).bind fun _ v u₂ r₃ h => ?_
    have hz₂ := r₂.size_le
    have hz₃ := r₃.size_le
    refine (yields_trailers r₃.sound _).mono fun y t₃ u₃ r₄ hy clean w hw => ?_
    obtain ⟨rfl, hc⟩ := h.1 (r₄.clean clean)
    have hindex := hw.index ht (hi (by decide) (r₃.clean (r₄.clean clean))).1 hc
    simpa using hy clean _ hindex
  · rename_i ht
    refine (yields_selection hs x).bind fun y t u r h => ?_
    have hz := h.2 (by rw [ht]; decide)
    refine (yields_trailers r.sound y).mono fun z v u' r' hz clean w hw => ?_
    simpa using hz clean _ (h.1 (r'.clean clean) w hw)
  · exact .pure hs fun _ w hw => by simpa using hw
termination_by 8 * s.size + 1

theorem yields_operand {s : State} (hs : s.Sound) :
    Yields operand s fun x t u => t.faults = 0 → Spans Expr.postfixLevel u x := by
  rw [operand]
  refine .get ?_
  dsimp only
  split
  · refine (yields_ident hs).bind fun name t u r h => .pure r.sound fun clean => ?_
    obtain ⟨rfl, hn, rfl⟩ := h clean
    exact .ident hn
  · rename_i k hk
    exact .next hs (by rw [hk]; simp) fun r _ => .pure r.sound fun _ => .literal hk
  · rename_i ht
    refine .next hs (by rw [ht]; decide) fun r hz => ?_
    refine (yields_binary r.sound 0).bind fun x t u r' hx => ?_
    refine (yields_want r'.sound (by decide)).bind fun _ v u' r'' h => .pure r''.sound fun clean => ?_
    obtain ⟨rfl, hc⟩ := h.1 clean
    simpa using Spans.paren ht (hx (by decide) (r''.clean clean)).1 hc
  · exact (yields_missing hs _).mono fun x t u r ht clean => absurd clean ht
termination_by 8 * s.size + 1

theorem yields_arguments {s : State} (hs : s.Sound) :
    Yields arguments s fun xs t u => t.faults = 0 → SpansAll u xs := by
  rw [arguments]
  refine .token ?_
  split
  · exact .pure hs fun _ => .nil
  · exact (yields_exprs hs).mono fun xs t u r h clean => (h clean).1
termination_by 8 * s.size + 5

theorem yields_exprs {s : State} (hs : s.Sound) :
    Yields exprs s fun xs t u => t.faults = 0 → SpansAll u xs ∧ xs ≠ [] := by
  rw [exprs]
  refine (yields_binary hs 0).bind fun x t u r hx => ?_
  refine (yields_got r.sound (by decide)).bind fun b v u' r' h => ?_
  have hz := r.size_le
  cases b with
  | true =>
    obtain ⟨rfl, hc, hz'⟩ := h.1 rfl
    refine (yields_exprs r'.sound).bind fun xs v' u'' r'' hxs => .pure r''.sound fun clean => ?_
    have hfirst := (hx (by decide) (r'.clean (r''.clean clean))).1
    exact ⟨by simpa using hfirst.cons hc (hxs clean).1 (hxs clean).2, by simp⟩
  | false =>
    obtain ⟨rfl, rfl, -⟩ := h.2 rfl
    refine .pure r'.sound fun clean => ⟨?_, by simp⟩
    simpa using (hx (by decide) clean).1.single
termination_by 8 * s.size + 4

end

/-- An expression is made of what was consumed, and no operator follows it. -/
theorem yields_expr_spans {s : State} (hs : s.Sound) :
    Yields expr s fun x t u => t.faults = 0 → Spans 1 u x ∧ Loose 0 t :=
  (yields_binary hs 0).mono fun _ _ _ _ h => h (by decide)

theorem yields_expr {s : State} (hs : s.Sound) : Yields expr s Tree :=
  (yields_expr_spans hs).mono fun _ _ _ _ h clean => (h clean).1.covers

theorem yields_exprFrom {s : State} (hs : s.Sound) (name : Ident) :
    Yields (exprFrom name) s fun y t u => t.faults = 0 →
      ∀ l : Lexeme, l.token = .name → name = identOf l → Covers (l :: u) (y.walk everywhere) := by
  unfold exprFrom
  refine (yields_trailers hs _).bind fun x t u r hx => ?_
  refine (yields_binaryFrom r.sound x 0).mono fun y v u' r' hy clean l hl hname => ?_
  have hfirst := hx (r'.clean clean) [l] (hname ▸ Spans.ident hl)
  have htight : Expr.unaryLevel ≤ x.level := Nat.le_trans (by decide) hfirst.tight
  have hall := (hy clean _ (hfirst.mono (by decide)) (loose_of_unaryLevel htight t)).1.covers
  simpa using hall

end Parse

end FlowCheck
