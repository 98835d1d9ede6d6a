import FlowCheck.Proofs.Parse.Run
import FlowCheck.Proofs.RoundTrip.Written

/-!
# Reading words without a fault

`Leads p s q ws Q` says that the computation `p`, started in `s`, reads on without reporting
anything until it stands before the words `ws` and has become `q a`, for some `a` that satisfies
`Q`. Where `q` only returns this is what a production owes that accepts its words; where `q` is the
rest of a loop it says how far the loop has come, as precedence climbing and the calls, indices and
selectors after an operand need.
-/
namespace FlowCheck.Parse

open State

theorem State.ahead_ofLexemes {ls : List Lexeme} (h : ls ≠ []) :
    (State.ofLexemes ls).ahead = ls := by
  obtain ⟨l, ls, rfl⟩ := List.exists_cons_of_ne_nil h
  rfl

/-- A lexeme is read. -/
inductive Step : State → State → Prop
  | next {s : State} : s.rest ≠ [] → Step s s.next

abbrev Quiet : State → State → Prop := Relation.ReflTransGen Step

/-- The parser stands before the words `ws`. -/
structure At (s : State) (ws : List Word) : Prop where
  sound : s.Sound
  going : s.aborted = false
  words : s.ahead.map Lexeme.word = ws

namespace At

variable {s : State} {w : Word} {ws : List Word}

theorem token (h : At s ws) : s.current.token = headToken ws := by
  rw [← h.words, ahead, List.map_cons, headToken, Lexeme.word_fst]

theorem text (h : At s (w :: ws)) (hw : w.1 = .name ∨ w.1.isLiteral) : s.current.text = w.2 := by
  have hword : s.current.word = w := by
    have := h.words
    simp only [ahead, List.map_cons, List.cons.injEq] at this
    exact this.1
  rw [← hword] at hw ⊢
  unfold Lexeme.word at hw ⊢
  split at hw <;> simp_all [Token.word, Token.isLiteral]

theorem next (h : At s (w :: ws)) (hw : w.1 ≠ .eof) : Quiet s s.next ∧ At s.next ws := by
  have ht : s.current.token ≠ .eof := h.token ▸ hw
  have hr := h.sound.rest_ne_nil ht
  refine ⟨.single (.next hr), h.sound.next ht, by simpa using h.going, ?_⟩
  have hwords := h.words
  rw [ahead_next hr, List.map_cons, List.cons.injEq] at hwords
  exact hwords.2

theorem ofLexemes {ls : List Lexeme} (h : ls.map Lexeme.word = ws ++ [Token.eof.word]) :
    At (State.ofLexemes ls) (ws ++ [Token.eof.word]) := by
  cases ls with
  | nil => simp at h
  | cons l ls =>
    refine ⟨⟨?_, by simp [State.ofLexemes], by simp [State.ofLexemes]⟩, rfl, h⟩
    have hlast : (l :: ls).getLast?.map Lexeme.word = some Token.eof.word := by
      rw [← List.getLast?_map, h, List.getLast?_concat]
    obtain ⟨e, he, hw⟩ := Option.map_eq_some_iff.1 hlast
    exact ⟨e, he, by rw [← e.word_fst, hw]; rfl⟩

end At

/-- While lexemes without reports are read nothing is reported. -/
theorem Quiet.silent {s t : State} (h : Quiet s t) (hrest : ∀ l ∈ s.rest, l.reports = [])
    (hs : s.reports = []) : t.reports = [] ∧ t.faults = s.faults ∧ t.first = s.first := by
  have key : (∀ l ∈ t.rest, l.reports = []) ∧ t.reports = [] ∧ t.faults = s.faults ∧
      t.first = s.first := by
    induction h with
    | refl => exact ⟨hrest, hs, rfl, rfl⟩
    | @tail u v _ hstep ih =>
      obtain ⟨hr, hu, hfaults, hfirst⟩ := ih
      cases hstep with
      | next hne =>
        obtain ⟨l, r, e⟩ := List.exists_cons_of_ne_nil hne
        rw [e] at hr
        rw [next_cons e]
        refine ⟨fun m hm => hr m (List.mem_cons_of_mem _ hm), ?_, hfaults, hfirst⟩
        have hl := hr l (by simp)
        simp_all [State.reports, ParseEvent.reports]
  exact key.2

namespace Quiet

variable {s t : State} {ls : List Lexeme}

/-- A parser that starts with lexemes without reports has none while it only reads. -/
theorem silent_ofLexemes (h : Quiet (State.ofLexemes ls) t) (hr : ∀ l ∈ ls, l.reports = []) :
    t.reports = [] ∧ t.faults = 0 ∧ t.first = none := by
  cases ls with
  | nil => exact h.silent (by simp [State.ofLexemes]) rfl
  | cons l ls =>
    refine h.silent (fun m hm => hr m (List.mem_cons_of_mem l hm)) ?_
    simp [State.ofLexemes, State.reports, ParseEvent.reports, hr l]

/-- What is ahead later on was ahead before. -/
theorem suffix (h : Quiet s t) : t.ahead <:+ s.ahead := by
  induction h with
  | refl => exact List.suffix_refl _
  | tail _ hstep ih =>
    cases hstep with
    | next hne => exact (ahead_next hne ▸ List.suffix_cons _ _).trans ih

end Quiet

def Leads {α β : Type} (p : Parser β) (s : State) (q : α → Parser β) (ws : List Word)
    (Q : α → Prop) : Prop :=
  ∃ a t, p s = q a t ∧ Quiet s t ∧ At t ws ∧ Q a

/-- The computation returns what satisfies `Q`, before the words `ws`. -/
abbrev Takes {α : Type} (p : Parser α) (s : State) (ws : List Word) (Q : α → Prop) : Prop :=
  Leads p s Pure.pure ws Q

namespace Leads

variable {α β γ : Type} {s : State} {ws vs : List Word} {Q : α → Prop} {R : γ → Prop}

theorem refl {q : α → Parser β} {a : α} (h : At s ws) (ha : Q a) : Leads (q a) s q ws Q :=
  ⟨a, s, rfl, .refl, h, ha⟩

theorem pure {a : α} (h : At s ws) (ha : Q a) : Takes (Pure.pure a) s ws Q := refl h ha

theorem trans {p : Parser β} {q : α → Parser β} {q' : γ → Parser β} (h : Leads p s q ws Q)
    (k : ∀ a t, At t ws → Q a → Leads (q a) t q' vs R) : Leads p s q' vs R := by
  obtain ⟨a, t, e, r, ht, ha⟩ := h
  obtain ⟨b, v, e', r', hv, hb⟩ := k a t ht ha
  exact ⟨b, v, e.trans e', r.trans r', hv, hb⟩

/-- What runs first can be taken off. -/
theorem first {p : Parser α} {f : α → Parser β} (h : Takes p s ws Q) : Leads (p >>= f) s f ws Q := by
  obtain ⟨a, t, e, r, ht, ha⟩ := h
  refine ⟨a, t, ?_, r, ht, ha⟩
  exact congrArg (Option.bind · fun x : α × State => f x.1 x.2) e

theorem bind {p : Parser α} {f : α → Parser β} {q : γ → Parser β} (h : Takes p s ws Q)
    (k : ∀ a t, At t ws → Q a → Leads (f a) t q vs R) : Leads (p >>= f) s q vs R :=
  (first h).trans k

theorem mono {p : Parser β} {q : α → Parser β} {R : α → Prop} (h : Leads p s q ws Q)
    (k : ∀ a, Q a → R a) : Leads p s q ws R := by
  obtain ⟨a, t, e, r, ht, ha⟩ := h
  exact ⟨a, t, e, r, ht, k a ha⟩

theorem token {f : Token → Parser β} {q : α → Parser β} {us : List Word} (h : At s us)
    (k : Leads (f (headToken us)) s q ws Q) : Leads (Parse.token >>= f) s q ws Q := by
  rw [← h.token] at k
  exact k

theorem get {f : State → Parser β} {q : α → Parser β}
    (k : Leads (f s) s q ws Q) : Leads (MonadState.get >>= f) s q ws Q := k

theorem pos {f : Pos → Parser β} {q : α → Parser β} (k : Leads (f s.current.pos) s q ws Q) :
    Leads (Parse.pos >>= f) s q ws Q := k

theorem isAborted {f : Bool → Parser β} {q : α → Parser β} {us : List Word} (h : At s us)
    (k : Leads (f false) s q ws Q) : Leads (Parse.isAborted >>= f) s q ws Q := by
  rw [← h.going] at k
  exact k

theorem next {f : Unit → Parser β} {q : α → Parser β} {w : Word} {us : List Word}
    (h : At s (w :: us)) (hw : w.1 ≠ .eof) (k : ∀ t, At t us → Leads (f ()) t q ws Q) :
    Leads (Parse.next >>= f) s q ws Q := by
  obtain ⟨r, hn⟩ := h.next hw
  obtain ⟨a, t, e, r', ht, ha⟩ := k s.next hn
  exact ⟨a, t, e, r.trans r', ht, ha⟩

end Leads

/-! ### The steps that productions are made of -/

section

variable {s : State} {ws : List Word} {t : Token}

theorem takes_got (h : At s (t.word :: ws)) (ht : t ≠ .eof) : Takes (got t) s ws (· = true) := by
  unfold got
  refine .token h ?_
  rw [if_pos (show headToken (t.word :: ws) = t from rfl)]
  exact .next h ht fun v hv => .pure hv rfl

theorem takes_got_other (h : At s ws) (ht : headToken ws ≠ t) : Takes (got t) s ws (· = false) := by
  unfold got
  refine .token h ?_
  rw [if_neg ht]
  exact .pure h rfl

theorem takes_want (h : At s (t.word :: ws)) (ht : t ≠ .eof) :
    Takes (want t) s ws fun _ => True := by
  unfold want
  refine (takes_got h ht).bind fun b v hv hb => ?_
  subst hb
  exact .pure hv trivial

theorem takes_semi (h : At s (Token.semi.word :: ws)) : Takes semi s ws fun _ => True := by
  unfold semi
  exact .token h (takes_want h (by decide))

theorem ident_of_name (h : s.current.token = .name) :
    ident s = some (identOf s.current, s.next) := by
  change (if s.current.token = .name then _ else _ : Parser Ident) s = _
  rw [if_pos h]
  rfl

theorem takes_ident {name : Ident} (h : At s (name.write ws)) :
    Takes ident s ws fun a => a.bare = name.bare ∧ a.mark.pos = s.current.pos := by
  obtain ⟨r, hn⟩ := h.next (by simp)
  refine ⟨identOf s.current, s.next, ident_of_name h.token, r, hn, ?_, rfl⟩
  simp [Ident.bare, identOf, h.text]

theorem takes_unlessAt {α : Type} {p : Parser α} {Q : α → Prop} {out : Token → Bool}
    {us : List Word} (h : At s us) (hout : out (headToken us) = false) (hp : Takes p s ws Q) :
    Takes (unlessAt out p) s ws fun a => ∃ x, a = some x ∧ Q x := by
  unfold unlessAt
  refine .token h ?_
  rw [hout]
  exact hp.bind fun a v hv ha => .pure hv ⟨a, rfl, ha⟩

theorem takes_unlessAt_out {α : Type} {p : Parser α} {out : Token → Bool} (h : At s ws)
    (hout : out (headToken ws) = true) : Takes (unlessAt out p) s ws (· = none) := by
  unfold unlessAt
  refine .token h ?_
  rw [hout]
  exact .pure h rfl

/-- An optional part of a tree, by its two cases. -/
theorem takes_optional {α γ : Type} {p : Parser α} {out : Token → Bool} {us : List Word}
    (ws : List Word) (bare : α → γ) (o : Option α) (h : At s us)
    (hnone : o = none → us = ws ∧ out (headToken ws) = true)
    (hsome : ∀ x, o = some x → out (headToken us) = false ∧ Takes p s ws fun a => bare a = bare x) :
    Takes (unlessAt out p) s ws fun a => a.map bare = o.map bare := by
  cases o with
  | none =>
    obtain ⟨rfl, hout⟩ := hnone rfl
    exact (takes_unlessAt_out h hout).mono fun a ha => by rw [ha]
  | some x =>
    obtain ⟨hout, hp⟩ := hsome x rfl
    refine (takes_unlessAt h hout hp).mono ?_
    rintro _ ⟨a, rfl, ha⟩
    exact congrArg some ha

theorem takes_after {α : Type} {p : Parser α} {Q : α → Prop} {us : List Word}
    (h : At s (t.word :: us)) (ht : t ≠ .eof) (hp : ∀ v, At v us → Takes p v ws Q) :
    Takes (after t p) s ws fun a => ∃ x, a = some x ∧ Q x := by
  unfold after
  refine (takes_got h ht).bind fun b v hv hb => ?_
  subst hb
  exact (hp v hv).bind fun a v hv ha => .pure hv ⟨a, rfl, ha⟩

theorem takes_after_other {α : Type} {p : Parser α} (h : At s ws) (ht : headToken ws ≠ t) :
    Takes (after t p) s ws (· = none) := by
  unfold after
  refine (takes_got_other h ht).bind fun b v hv hb => ?_
  subst hb
  exact .pure hv rfl

end

end FlowCheck.Parse
