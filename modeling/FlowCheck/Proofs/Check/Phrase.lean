import FlowCheck.Proofs.Parse.Position
import FlowCheck.Proofs.Token.Location

/-!
# Phrases in the texts of expressions

Messages quote expressions, and some phrases of theirs are looked for in whole messages. The texts of
names and numbers hold no blank and no bracket, and between the parts of an expression there is always
a sign that is no letter. So of all that an expression is made of only a string literal can say
` undefined (`, and only a name or literal `redeclared`.
-/
namespace FlowCheck

open Lexer

/-- The text is that of a word or number. -/
def Worded (text : List Char) : Prop := text ≠ [] ∧ ∀ x ∈ text, isNumeral x = true

def Node.Worded : Node → Prop
  | .expr (.ident name) => FlowCheck.Worded name.text.toList
  | .expr (.literal _ kind text) => kind ≠ .string → FlowCheck.Worded text.toList
  | _ => True

/-- A name or literal. -/
def Expr.IsLeaf : Expr → Prop
  | ident _ | literal .. => True
  | _ => False

theorem BinaryOp.exists_text (op : BinaryOp) :
    ∃ c more, op.text.toList = c :: more ∧ isLetter c = false ∧ c ≠ '(' ∧ c ≠ 'a' := by
  cases op <;> exact ⟨_, _, rfl, rfl, by decide, by decide⟩

/-! ### The parts of a text -/

namespace Expr

theorem toList_render_binary (m : Mark) (op : BinaryOp) (x y : Expr) :
    (binary m op x y).render.toList =
      x.render.toList ++ ' ' :: (op.text.toList ++ ' ' :: y.render.toList) := by
  simp [render]

theorem toList_render_call (m : Mark) (callee : Expr) (args : List Expr) :
    (call m callee args).render.toList =
      callee.render.toList ++ '(' :: ((renderList args).toList ++ [')']) := by
  simp [render]

theorem toList_render_index (m : Mark) (x i : Expr) :
    (index m x i).render.toList = x.render.toList ++ '[' :: (i.render.toList ++ [']']) := by
  simp [render]

theorem toList_render_select (m : Mark) (x : Expr) (sel : Ident) :
    (select m x sel).render.toList = x.render.toList ++ '.' :: sel.text.toList := by
  simp [render]

theorem toList_render_paren (m : Mark) (x : Expr) :
    (paren m x).render.toList = '(' :: (x.render.toList ++ [')']) := by
  simp [render]

theorem toList_render_sliceType (m : Mark) (x : Expr) :
    (sliceType m x).render.toList = '[' :: ']' :: x.render.toList := by
  simp [render]

theorem toList_renderList_cons (x y : Expr) (more : List Expr) :
    (renderList (x :: y :: more)).toList =
      x.render.toList ++ ',' :: ' ' :: (renderList (y :: more)).toList := by
  simp [renderList]

end Expr

namespace Check

/-- Words of the message about an unknown code. -/
def unknownPhrase : List Char := " undefined (".toList

/-- A word of the messages about names and codes that are declared twice. -/
def redeclaredPhrase : List Char := "redeclared".toList

/-! ### Phrases in texts -/

section

variable {p a b : List Char} {c : Char}

/-- A phrase without the sign lies to its left or to its right. -/
theorem infix_of_separator (hp : p ≠ []) (hc : c ∉ p) (h : p <:+: a ++ c :: b) :
    p <:+: a ∨ p <:+: b := by
  have hstart {v : List Char} (hv : v ≠ []) (hsub : v ⊆ p) : ¬v <+: c :: b := by
    intro h
    obtain ⟨d, v, rfl⟩ := List.exists_cons_of_ne_nil hv
    rw [List.cons_prefix_cons] at h
    exact hc (h.1 ▸ hsub List.mem_cons_self)
  rcases List.infix_append_iff_ne_nil.1 h with h | h | ⟨u, v, -, hv, rfl, -, h⟩
  · exact .inl h
  · exact .inr ((List.infix_cons_iff.1 h).resolve_left (hstart hp (List.Subset.refl p)))
  · exact absurd h (hstart hv (List.subset_append_right u v))

/-- A phrase that starts with a sign that the first part lacks lies in the second. -/
theorem infix_of_head (hc : c ∉ a) (h : c :: p <:+: a ++ b) : c :: p <:+: b := by
  induction a with
  | nil => exact h
  | cons d a ih =>
    obtain ⟨hd, ha⟩ := not_or.1 (List.mem_cons.not.1 hc)
    refine ih ha ((List.infix_cons_iff.1 h).resolve_left fun h => hd ?_)
    exact (List.cons_prefix_cons.1 h).1

end

/-! ### Texts of expressions -/

/-- What can come after an expression in a text: nothing, a sign, or a blank and something that no
phrase goes on with. -/
inductive Detached : List Char → Prop
  | nil : Detached []
  | sign {c : Char} {tail : List Char} (hc : c ∈ ['(', '[', ']', ')', ',', '.']) :
      Detached (c :: tail)
  | blank {c : Char} {tail : List Char} (hc : c ≠ '(' ∧ c ≠ 'a') : Detached (' ' :: c :: tail)

/-- The phrases that are looked for at the start of a message or, after a blank, of an expression,
parted where their first words end. -/
inductive Opening : List Char → List Char → Prop
  | undefined : Opening "undefined".toList ":".toList
  | unknown : Opening "undefined".toList " (".toList
  | assign : Opening "cannot".toList " assign".toList

variable {word rest text tail : List Char}

theorem Opening.letters (h : Opening word rest) : ∀ c ∈ word, isLetter c = true := by
  refine List.all_eq_true.1 ?_
  cases h <;> rfl

theorem Opening.exists_cons (h : Opening word rest) : ∃ c more, word = c :: more := by
  cases h <;> exact ⟨_, _, rfl⟩

/-- The first word ends where it seems to. -/
theorem Opening.exists_break (h : Opening word rest) :
    ∃ c more, rest = c :: more ∧ isNumeral c = false := by
  cases h <;> exact ⟨_, _, rfl, by decide⟩

/-- A phrase goes on with nothing that can come after an expression. -/
theorem Opening.not_detached (h : Opening word rest) : ¬Detached (rest ++ tail) := by
  intro ht
  cases h with
  | undefined =>
    cases ht with
    | sign hc => exact absurd hc (by decide)
  | unknown =>
    cases ht with
    | sign hc => exact absurd hc (by decide)
    | blank hc => exact hc.1 rfl
  | assign =>
    cases ht with
    | sign hc => exact absurd hc (by decide)
    | blank hc => exact hc.2 rfl

theorem Detached.not_letter {c : Char} (h : Detached (c :: tail)) : isLetter c = false := by
  cases h with
  | sign hc =>
    simp only [List.mem_cons, List.not_mem_nil, or_false] at hc
    rcases hc with rfl | rfl | rfl | rfl | rfl | rfl <;> rfl
  | blank _ => rfl

/-- A word or number in front of what can come after an expression starts no phrase. -/
theorem Opening.not_prefix_worded (h : Opening word rest) (hw : Worded text)
    (ht : Detached tail) : ¬word ++ rest <+: text ++ tail := by
  rintro ⟨more, he⟩
  rw [List.append_assoc, List.append_eq_append_iff] at he
  rcases he with ⟨beyond, rfl, he⟩ | ⟨missing, rfl, rfl⟩
  · cases beyond with
    | nil =>
      rw [List.nil_append] at he
      exact h.not_detached (he ▸ ht)
    | cons d beyond =>
      obtain ⟨c, r, rfl, hc⟩ := h.exists_break
      rw [List.cons_append, List.cons_append, List.cons.injEq] at he
      rw [he.1, hw.2 d (by simp)] at hc
      cases hc
  · cases missing with
    | nil => exact h.not_detached ht
    | cons c missing =>
      have hc := h.letters c (by simp)
      rw [ht.not_letter] at hc
      cases hc

/-- A phrase starts with a letter. -/
theorem Opening.not_prefix_of_head (h : Opening word rest) {c : Char} (hc : isLetter c = false) :
    ¬word ++ rest <+: c :: text := by
  obtain ⟨d, more, rfl⟩ := h.exists_cons
  intro hp
  have hd := h.letters d List.mem_cons_self
  rw [(List.cons_prefix_cons.1 hp).1, hc] at hd
  cases hd

/-- No text of an expression starts with a phrase. -/
theorem not_prefix_render (x : Expr) (hx : ∀ n ∈ x.walk everywhere, n.Worded) {tail : List Char}
    (ht : Detached tail) (ho : Opening word rest) :
    ¬word ++ rest <+: x.render.toList ++ tail := by
  match x with
  | .ident name => exact ho.not_prefix_worded (hx _ (Expr.mem_walk_self _)) ht
  | .literal m kind text =>
    by_cases hk : kind = .string
    · rw [Expr.render, if_pos hk, Quoted.text, String.toList_ofList]
      exact ho.not_prefix_of_head rfl
    · rw [Expr.render, if_neg hk]
      exact ho.not_prefix_worded (hx _ (Expr.mem_walk_self _) hk) ht
  | .unary m op y =>
    rw [Expr.render, String.toList_append]
    cases op <;> exact ho.not_prefix_of_head rfl
  | .binary m op y z =>
    obtain ⟨hy, -⟩ := List.forall_mem_append.1 (List.forall_mem_cons.1 hx).2
    obtain ⟨c, more, hc, -, hne⟩ := op.exists_text
    rw [Expr.toList_render_binary, hc, List.append_assoc]
    exact not_prefix_render y hy (.blank hne) ho
  | .call m callee args =>
    obtain ⟨hcallee, -⟩ := List.forall_mem_append.1 (List.forall_mem_cons.1 hx).2
    rw [Expr.toList_render_call, List.append_assoc]
    exact not_prefix_render callee hcallee (.sign (by decide)) ho
  | .index m y i =>
    obtain ⟨hy, -⟩ := List.forall_mem_append.1 (List.forall_mem_cons.1 hx).2
    rw [Expr.toList_render_index, List.append_assoc]
    exact not_prefix_render y hy (.sign (by decide)) ho
  | .select m y sel =>
    obtain ⟨hy, -⟩ := List.forall_mem_append.1 (List.forall_mem_cons.1 hx).2
    rw [Expr.toList_render_select, List.append_assoc]
    exact not_prefix_render y hy (.sign (by decide)) ho
  | .paren m y =>
    rw [Expr.toList_render_paren]
    exact ho.not_prefix_of_head rfl
  | .sliceType m y =>
    rw [Expr.toList_render_sliceType]
    exact ho.not_prefix_of_head rfl

theorem not_prefix_renderList (x : Expr) (xs : List Expr) (hx : ∀ n ∈ x.walk everywhere, n.Worded)
    (ht : Detached tail) (ho : Opening word rest) :
    ¬word ++ rest <+: (Expr.renderList (x :: xs)).toList ++ tail := by
  cases xs with
  | nil => exact not_prefix_render x hx ht ho
  | cons y ys =>
    rw [Expr.toList_renderList_cons, List.append_assoc]
    exact not_prefix_render x hx (.sign (by decide)) ho

/-- A string literal among the nodes says the words of the message about an unknown code. -/
def SaysUnknown (ns : List Node) : Prop :=
  ∃ m text, Node.expr (.literal m .string text) ∈ ns ∧
    unknownPhrase <:+: (Quoted.text text).toList

theorem SaysUnknown.mono {ns ms : List Node} (h : SaysUnknown ns) (hs : ns ⊆ ms) :
    SaysUnknown ms := by
  obtain ⟨m, text, hm, hp⟩ := h
  exact ⟨m, text, hs hm, hp⟩

/-- The nodes of a part are among those of an expression with two parts. -/
theorem subset_node_left (n : Node) (xs ys : List Node) : xs ⊆ n :: (xs ++ ys) :=
  List.subset_cons_of_subset _ (List.subset_append_left _ _)

theorem subset_node_right (n : Node) (xs ys : List Node) : ys ⊆ n :: (xs ++ ys) :=
  List.subset_cons_of_subset _ (List.subset_append_right _ _)

theorem blank_notMem (h : Worded text) : ' ' ∉ text := fun hb => by
  have := h.2 _ hb
  cases this

theorem unknown_of_unblanked {a : List Char} (ha : ' ' ∉ a) (h : unknownPhrase <:+: a ++ text) :
    unknownPhrase <:+: text := infix_of_head ha h

theorem unknown_of_sign {c : Char} (hc : c ≠ ' ') (h : unknownPhrase <:+: c :: text) :
    unknownPhrase <:+: text :=
  (List.infix_cons_iff.1 h).resolve_left fun hp => hc (List.cons_prefix_cons.1 hp).1.symm

/-- After a blank an expression does not go on with the phrase. -/
theorem unknown_of_blank (h : unknownPhrase <:+: ' ' :: text)
    (ht : ¬"undefined".toList ++ " (".toList <+: text) : unknownPhrase <:+: text := by
  refine (List.infix_cons_iff.1 h).resolve_left fun hp => ht ?_
  exact (List.cons_prefix_cons.1 hp).2

mutual

/-- In the text of an expression nothing but a string literal says the words of the message about an
unknown code. -/
theorem unknown_of_render (x : Expr) (hx : ∀ n ∈ x.walk everywhere, n.Worded) {tail : List Char}
    (ht : Detached tail) (h : unknownPhrase <:+: x.render.toList ++ tail) :
    unknownPhrase <:+: tail ∨ SaysUnknown (x.walk everywhere) := by
  match x with
  | .ident name => exact .inl (unknown_of_unblanked (blank_notMem (hx _ (Expr.mem_walk_self _))) h)
  | .literal m kind text =>
    by_cases hk : kind = .string
    · subst hk
      have hquote : (Expr.literal m .string text).render.toList ++ tail =
          ('"' :: text.toList.flatMap (Quoted.encodeChar '"')) ++ '"' :: tail := by
        simp [Expr.render, Quoted.text]
      rw [hquote] at h
      rcases infix_of_separator (by decide) (by decide) h with h | h
      · refine .inr ⟨m, text, Expr.mem_walk_self _, h.trans ?_⟩
        rw [Quoted.text, String.toList_ofList]
        exact (List.prefix_append _ _).isInfix
      · exact .inl h
    · rw [Expr.render, if_neg hk] at h
      exact .inl (unknown_of_unblanked (blank_notMem (hx _ (Expr.mem_walk_self _) hk)) h)
  | .unary m op y =>
    have hop : ' ' ∉ op.text.toList := by cases op <;> decide
    rw [Expr.render, String.toList_append, List.append_assoc] at h
    have h := unknown_of_unblanked hop h
    exact (unknown_of_render y (List.forall_mem_cons.1 hx).2 ht h).imp_right
      fun h => h.mono (List.subset_cons_self _ _)
  | .binary m op y z =>
    obtain ⟨hy, hz⟩ := List.forall_mem_append.1 (List.forall_mem_cons.1 hx).2
    have hop : ' ' ∉ op.text.toList := by cases op <;> decide
    obtain ⟨c, more, hc, hletter, hne⟩ := op.exists_text
    simp only [Expr.toList_render_binary, hc, List.append_assoc, List.cons_append] at h
    rcases unknown_of_render y hy (.blank hne) h with h | h
    · have h := unknown_of_blank h (Opening.unknown.not_prefix_of_head hletter)
      rw [← List.cons_append, ← hc] at h
      have h := unknown_of_blank (unknown_of_unblanked hop h) (not_prefix_render z hz ht .unknown)
      exact (unknown_of_render z hz ht h).imp_right fun h =>
        h.mono (subset_node_right ..)
    · exact .inr (h.mono (subset_node_left ..))
  | .call m callee args =>
    obtain ⟨hcallee, hargs⟩ := List.forall_mem_append.1 (List.forall_mem_cons.1 hx).2
    simp only [Expr.toList_render_call, List.append_assoc, List.cons_append, List.nil_append] at h
    rcases unknown_of_render callee hcallee (.sign (by decide)) h with h | h
    · have h := unknown_of_sign (by decide) h
      rcases unknown_of_renderList args hargs (.sign (by decide)) h with h | h
      · exact .inl (unknown_of_sign (by decide) h)
      · exact .inr (h.mono (subset_node_right ..))
    · exact .inr (h.mono (subset_node_left ..))
  | .index m y i =>
    obtain ⟨hy, hi⟩ := List.forall_mem_append.1 (List.forall_mem_cons.1 hx).2
    simp only [Expr.toList_render_index, List.append_assoc, List.cons_append, List.nil_append] at h
    rcases unknown_of_render y hy (.sign (by decide)) h with h | h
    · have h := unknown_of_sign (by decide) h
      rcases unknown_of_render i hi (.sign (by decide)) h with h | h
      · exact .inl (unknown_of_sign (by decide) h)
      · exact .inr (h.mono (subset_node_right ..))
    · exact .inr (h.mono (subset_node_left ..))
  | .select m y sel =>
    obtain ⟨hy, hsel⟩ := List.forall_mem_append.1 (List.forall_mem_cons.1 hx).2
    simp only [Expr.toList_render_select, List.append_assoc, List.cons_append] at h
    rcases unknown_of_render y hy (.sign (by decide)) h with h | h
    · have hname : Worded sel.text.toList := hsel _ List.mem_cons_self
      exact .inl (unknown_of_unblanked (blank_notMem hname) (unknown_of_sign (by decide) h))
    · exact .inr (h.mono (subset_node_left ..))
  | .paren m y =>
    simp only [Expr.toList_render_paren, List.append_assoc, List.cons_append, List.nil_append] at h
    have h := unknown_of_sign (by decide) h
    rcases unknown_of_render y (List.forall_mem_cons.1 hx).2 (.sign (by decide)) h with h | h
    · exact .inl (unknown_of_sign (by decide) h)
    · exact .inr (h.mono (List.subset_cons_self _ _))
  | .sliceType m y =>
    rw [Expr.toList_render_sliceType] at h
    have h := unknown_of_sign (by decide) (unknown_of_sign (by decide) h)
    exact (unknown_of_render y (List.forall_mem_cons.1 hx).2 ht h).imp_right
      fun h => h.mono (List.subset_cons_self _ _)

theorem unknown_of_renderList (xs : List Expr)
    (hx : ∀ n ∈ Expr.walkList everywhere xs, n.Worded) {tail : List Char} (ht : Detached tail)
    (h : unknownPhrase <:+: (Expr.renderList xs).toList ++ tail) :
    unknownPhrase <:+: tail ∨ SaysUnknown (Expr.walkList everywhere xs) := by
  match xs with
  | [] => exact .inl h
  | [x] =>
    obtain ⟨hx, -⟩ := List.forall_mem_append.1 hx
    exact (unknown_of_render x hx ht h).imp_right fun h => h.mono (List.subset_append_left _ _)
  | x :: y :: more =>
    obtain ⟨hx, hmore⟩ := List.forall_mem_append.1 hx
    simp only [Expr.toList_renderList_cons, List.append_assoc, List.cons_append] at h
    rcases unknown_of_render x hx (.sign (by decide)) h with h | h
    · have h := unknown_of_blank (unknown_of_sign (by decide) h)
        (not_prefix_renderList y more (List.forall_mem_append.1 hmore).1 ht .unknown)
      exact (unknown_of_renderList (y :: more) hmore ht h).imp_right fun h =>
        h.mono (List.subset_append_right _ _)
    · exact .inr (h.mono (List.subset_append_left _ _))

end

/-- A name or literal among the nodes holds the word of the messages about double declarations. -/
def SaysRedeclared (ns : List Node) : Prop :=
  ∃ x : Expr, .expr x ∈ ns ∧ x.IsLeaf ∧ redeclaredPhrase <:+: x.render.toList

theorem SaysRedeclared.mono {ns ms : List Node} (h : SaysRedeclared ns) (hs : ns ⊆ ms) :
    SaysRedeclared ms := by
  obtain ⟨x, hm, hleaf, hp⟩ := h
  exact ⟨x, hs hm, hleaf, hp⟩

theorem redeclared_of_separator {c : Char} {a b : List Char} (hc : isLetter c = false)
    (h : redeclaredPhrase <:+: a ++ c :: b) : redeclaredPhrase <:+: a ∨ redeclaredPhrase <:+: b := by
  refine infix_of_separator (by decide) (fun hmem => ?_) h
  have hletters : redeclaredPhrase.all isLetter = true := by decide
  rw [List.all_eq_true.1 hletters c hmem] at hc
  cases hc

theorem redeclared_of_sign {c : Char} (hc : isLetter c = false)
    (h : redeclaredPhrase <:+: c :: text) : redeclaredPhrase <:+: text :=
  (redeclared_of_separator (a := []) hc h).resolve_left (by decide)

mutual

/-- The signs between the names and literals of an expression are no letters. -/
theorem redeclared_of_render (x : Expr) (h : redeclaredPhrase <:+: x.render.toList) :
    SaysRedeclared (x.walk everywhere) := by
  match x with
  | .ident name => exact ⟨_, Expr.mem_walk_self _, trivial, h⟩
  | .literal m kind text => exact ⟨_, Expr.mem_walk_self _, trivial, h⟩
  | .unary m op y =>
    have h : redeclaredPhrase <:+: y.render.toList := by
      rw [Expr.render, String.toList_append] at h
      cases op <;> exact redeclared_of_sign rfl h
    exact (redeclared_of_render y h).mono (List.subset_cons_self _ _)
  | .binary m op y z =>
    have hop : ¬redeclaredPhrase <:+: op.text.toList := by cases op <;> decide
    rw [Expr.toList_render_binary] at h
    rcases redeclared_of_separator rfl h with h | h
    · exact (redeclared_of_render y h).mono (subset_node_left ..)
    · have h := (redeclared_of_separator rfl h).resolve_left hop
      exact (redeclared_of_render z h).mono (subset_node_right ..)
  | .call m callee args =>
    rw [Expr.toList_render_call] at h
    rcases redeclared_of_separator rfl h with h | h
    · exact (redeclared_of_render callee h).mono (subset_node_left ..)
    · have h := (redeclared_of_separator rfl h).resolve_right (by decide)
      exact (redeclared_of_renderList args h).mono (subset_node_right ..)
  | .index m y i =>
    rw [Expr.toList_render_index] at h
    rcases redeclared_of_separator rfl h with h | h
    · exact (redeclared_of_render y h).mono (subset_node_left ..)
    · have h := (redeclared_of_separator rfl h).resolve_right (by decide)
      exact (redeclared_of_render i h).mono (subset_node_right ..)
  | .select m y sel =>
    rw [Expr.toList_render_select] at h
    rcases redeclared_of_separator rfl h with h | h
    · exact (redeclared_of_render y h).mono (subset_node_left ..)
    · refine ⟨.ident sel, ?_, trivial, h⟩
      exact List.mem_cons_of_mem _ (List.mem_append_right _ List.mem_cons_self)
  | .paren m y =>
    rw [Expr.toList_render_paren] at h
    have h := (redeclared_of_separator rfl (redeclared_of_sign rfl h)).resolve_right (by decide)
    exact (redeclared_of_render y h).mono (List.subset_cons_self _ _)
  | .sliceType m y =>
    rw [Expr.toList_render_sliceType] at h
    exact (redeclared_of_render y (redeclared_of_sign rfl (redeclared_of_sign rfl h))).mono
      (List.subset_cons_self _ _)

theorem redeclared_of_renderList (xs : List Expr)
    (h : redeclaredPhrase <:+: (Expr.renderList xs).toList) :
    SaysRedeclared (Expr.walkList everywhere xs) := by
  match xs with
  | [] => exact absurd h (by decide)
  | [x] => exact (redeclared_of_render x h).mono (List.subset_append_left _ _)
  | x :: y :: more =>
    rw [Expr.toList_renderList_cons] at h
    rcases redeclared_of_separator rfl h with h | h
    · exact (redeclared_of_render x h).mono (List.subset_append_left _ _)
    · exact (redeclared_of_renderList (y :: more) (redeclared_of_sign rfl h)).mono
        (List.subset_append_right _ _)

end

/-- The phrase does not reach from one text into another with a word of its own. -/
theorem unknown_append_iff {a more : List Char} {c : Char} (hc : c ≠ '(')
    (hmore : ¬unknownPhrase <:+: ' ' :: c :: more) :
    unknownPhrase <:+: a ++ ' ' :: c :: more ↔ unknownPhrase <:+: a := by
  refine ⟨fun h => ?_, fun h => h.trans (List.prefix_append _ _).isInfix⟩
  rcases List.infix_append_iff_ne_nil.1 h with h | h | ⟨u, v, hu, hv, he, -, hp⟩
  · exact h
  · exact absurd h hmore
  · exfalso
    obtain ⟨d, u, rfl⟩ := List.exists_cons_of_ne_nil hu
    obtain ⟨e, v, rfl⟩ := List.exists_cons_of_ne_nil hv
    obtain ⟨rfl, hrest⟩ := List.cons_prefix_cons.1 hp
    have hword : "undefined".toList ++ ' ' :: "(".toList = u ++ ' ' :: v := (List.cons.inj he).2
    obtain ⟨-, -, rfl⟩ := (List.append_cons_inj_of_notMem (by decide) (by decide)).1 hword
    exact hc (List.cons_prefix_cons.1 hrest).1.symm

theorem redeclared_append_iff {a more : List Char} (hmore : ¬redeclaredPhrase <:+: more) :
    redeclaredPhrase <:+: a ++ ' ' :: more ↔ redeclaredPhrase <:+: a :=
  ⟨fun h => (redeclared_of_separator rfl h).resolve_right hmore,
    fun h => h.trans (List.prefix_append _ _).isInfix⟩

/-- Texts with different first characters. -/
theorem not_prefix_of_head?_ne {s a : List Char} (h : s ≠ [] ∧ a ≠ [] ∧ s.head? ≠ a.head?) :
    ¬s <+: a ++ text := by
  obtain ⟨hs, ha, hne⟩ := h
  obtain ⟨c, s, rfl⟩ := List.exists_cons_of_ne_nil hs
  obtain ⟨d, a, rfl⟩ := List.exists_cons_of_ne_nil ha
  exact fun hp => hne (congrArg some (List.cons_prefix_cons.1 hp).1)

theorem unknown_notMem {text : List Char} (h : Worded text) : ¬unknownPhrase <:+: text :=
  fun hp => blank_notMem h (hp.subset (by decide))

end Check

end FlowCheck
