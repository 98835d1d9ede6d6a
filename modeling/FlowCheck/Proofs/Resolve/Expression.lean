import FlowCheck.Proofs.Resolve.Run
import FlowCheck.Proofs.Tree.Carrier

/-!
# What resolving an expression records

An expression binds some of its names and collects the reads of those that denote variables of the
function around it. Scopes, declarations and the reads and assignments recorded so far stay as they
are. A clean run is one that reports nothing.
-/
namespace FlowCheck

@[simp] theorem Expr.walkList_singleton (enter : Node → Bool) (x : Expr) :
    Expr.walkList enter [x] = x.walk enter :=
  List.append_nil _

@[simp] theorem Expr.walkList_toList (enter : Node → Bool) (x : Option Expr) :
    Expr.walkList enter x.toList = Expr.walkOption enter x := by
  cases x with
  | none => rfl
  | some x => exact Expr.walkList_singleton enter x

namespace Resolve

/-- The reads recorded so far, each with the number of its node, oldest first. -/
def State.readFacts (s : State) : List (Nat × Use) :=
  s.facts.reverse.filterMap fun
    | (i, .reads u) => some (i, u)
    | _ => none

/-- The assignments recorded so far. -/
def State.assignFacts (s : State) : List (Nat × Var) :=
  s.facts.reverse.filterMap fun
    | (i, .assigns v) => some (i, v)
    | _ => none

/-- The state is that of code which belongs to the function with the scope `F`, or to none. -/
structure Inside (F : Option ScopeId) (s : State) : Prop where
  valid : s.tree.Valid
  here_lt : s.here < s.tree.scopes.size
  function : s.tree.function? (some s.here) = F
  around : ∀ i ∈ s.tree.chain s.here,
    s.tree.function? (some i) = none ∨ s.tree.function? (some i) = F

/-- Nothing has changed but the names that are bound, and what is of no concern here. -/
structure Still (s t : State) : Prop where
  tree : t.tree = s.tree
  here : t.here = s.here
  defs : t.defs = s.defs
  funcs : t.funcs = s.funcs
  reads : t.readFacts = s.readFacts
  assigns : t.assignFacts = s.assignFacts
  clean : t.reports = [] → s.reports = []

theorem Still.refl (s : State) : Still s s := ⟨rfl, rfl, rfl, rfl, rfl, rfl, fun h => h⟩

theorem Still.trans {s t u : State} (h : Still s t) (h' : Still t u) : Still s u :=
  ⟨h'.tree.trans h.tree, h'.here.trans h.here, h'.defs.trans h.defs, h'.funcs.trans h.funcs,
    h'.reads.trans h.reads, h'.assigns.trans h.assigns, fun hc => h.clean (h'.clean hc)⟩

theorem Still.inside {F : Option ScopeId} {s t : State} (h : Still s t) (hs : Inside F s) :
    Inside F t := by
  obtain ⟨hv, hl, hf, ha⟩ := hs
  constructor <;> simpa only [h.tree, h.here]

/-! ### Recording effects -/

/-- The facts of a node have been recorded, and nothing else has happened. -/
structure Records (s t : State) (reads : List (Nat × Use)) (assigns : List (Nat × Var)) : Prop where
  tree : t.tree = s.tree
  here : t.here = s.here
  defs : t.defs = s.defs
  uses : t.uses = s.uses
  funcs : t.funcs = s.funcs
  reports : t.reports = s.reports
  reads : t.readFacts = s.readFacts ++ reads
  assigns : t.assignFacts = s.assignFacts ++ assigns

theorem Records.refl (s : State) : Records s s [] [] :=
  ⟨rfl, rfl, rfl, rfl, rfl, rfl, by simp, by simp⟩

theorem Records.trans {s t u : State} {rs rs' : List (Nat × Use)} {as as' : List (Nat × Var)}
    (h : Records s t rs as) (h' : Records t u rs' as') : Records s u (rs ++ rs') (as ++ as') := by
  refine ⟨h'.tree.trans h.tree, h'.here.trans h.here, h'.defs.trans h.defs, h'.uses.trans h.uses,
    h'.funcs.trans h.funcs, h'.reports.trans h.reports, ?_, ?_⟩
  · rw [h'.reads, h.reads, List.append_assoc]
  · rw [h'.assigns, h.assigns, List.append_assoc]

theorem Records.still {s t : State} (h : Records s t [] []) : Still s t :=
  ⟨h.tree, h.here, h.defs, h.funcs, by rw [h.reads, List.append_nil],
    by rw [h.assigns, List.append_nil], fun hc => h.reports ▸ hc⟩

theorem readFacts_addFact (s : State) (m : Mark) (f : Fact) :
    (s.after (addFact m f)).readFacts = s.readFacts ++
      match f with
      | .reads u => [(m.id, u)]
      | _ => [] := by
  change ((m.id, f) :: s.facts).reverse.filterMap _ = _
  rw [List.reverse_cons, List.filterMap_append]
  cases f <;> rfl

theorem assignFacts_addFact (s : State) (m : Mark) (f : Fact) :
    (s.after (addFact m f)).assignFacts = s.assignFacts ++
      match f with
      | .assigns v => [(m.id, v)]
      | _ => [] := by
  change ((m.id, f) :: s.facts).reverse.filterMap _ = _
  rw [List.reverse_cons, List.filterMap_append]
  cases f <;> rfl

theorem records_addFact (s : State) (m : Mark) (f : Fact) :
    Records s (s.after (addFact m f))
      (match f with
        | .reads u => [(m.id, u)]
        | _ => [])
      (match f with
        | .assigns v => [(m.id, v)]
        | _ => []) :=
  ⟨rfl, rfl, rfl, rfl, rfl, rfl, readFacts_addFact s m f, assignFacts_addFact s m f⟩

theorem records_reads (m : Mark) (us : List Use) (s : State) :
    Records s (s.after (us.forM fun u => addFact m (.reads u))) (us.map (m.id, ·)) [] := by
  induction us generalizing s with
  | nil => exact .refl s
  | cons u us ih => exact (records_addFact s m (.reads u)).trans (ih _)

theorem records_raised (m : Mark) (es : List ErrorType) (s : State) :
    Records s (s.after (es.forM fun e => addFact m (.raises e))) [] [] := by
  induction es generalizing s with
  | nil => exact .refl s
  | cons e es ih => exact (records_addFact s m (.raises e)).trans (ih _)

theorem records_record (s : State) (m : Mark) (a : Effects) :
    Records s (s.after (record m a)) (a.reads.map (m.id, ·)) [] := by
  have h := (records_reads m a.reads s).trans (records_raised m a.raised _)
  rw [List.append_nil, List.append_nil] at h
  exact h

/-! ### Binding names -/

/-- The names bound on the way from `s` to `t`, which are among the nodes `walk`, and the entities
that they denote. A variable among these belongs to the function with the scope `F`. -/
structure Looked (F : Option ScopeId) (s t : State) (walk : List Node)
    (bound : List (Ident × EntityId)) : Prop where
  uses : t.uses.reverse = s.uses.reverse ++ bound.map fun p => (p.1.mark.id, p.2)
  names : (bound.map Prod.fst).Sublist (idents walk)
  settled : ∀ p ∈ bound, s.tree.Settled p.2
  owned : ∀ p ∈ bound, s.tree.ownVar? p.2 ≠ none → s.tree.function? (s.tree.entity p.2).home = F

/-- The reads of the variables among some bound names. -/
def readsOf (t : ScopeTree) (bound : List (Ident × EntityId)) : List Use :=
  bound.filterMap fun p => (t.ownVar? p.2).map (⟨·, p.1.mark.pos⟩)

@[simp] theorem readsOf_nil (t : ScopeTree) : readsOf t [] = [] := rfl

@[simp] theorem readsOf_append (t : ScopeTree) (bs cs : List (Ident × EntityId)) :
    readsOf t (bs ++ cs) = readsOf t bs ++ readsOf t cs :=
  List.filterMap_append

namespace Looked

variable {F : Option ScopeId} {s t u : State} {w v : List Node} {bs cs : List (Ident × EntityId)}

theorem nil (F : Option ScopeId) (s : State) (w : List Node) : Looked F s s w [] :=
  ⟨by simp, by simp, by simp, by simp⟩

theorem append (h : Looked F s t w bs) (hst : Still s t) (h' : Looked F t u v cs) :
    Looked F s u (w ++ v) (bs ++ cs) := by
  refine ⟨?_, ?_, fun p hp => ?_, fun p hp => ?_⟩
  · rw [h'.uses, h.uses, List.append_assoc, List.map_append]
  · rw [List.map_append, idents_append]
    exact h.names.append h'.names
  · rcases List.mem_append.1 hp with hp | hp
    · exact h.settled p hp
    · exact hst.tree ▸ h'.settled p hp
  · rcases List.mem_append.1 hp with hp | hp
    · exact h.owned p hp
    · exact hst.tree ▸ h'.owned p hp

theorem widen {ns : List Node} (h : Looked F s t w bs) (hn : (idents w).Sublist (idents ns)) :
    Looked F s t ns bs :=
  ⟨h.uses, h.names.trans hn, h.settled, h.owned⟩

end Looked

/-- What a step owes that binds names among the nodes `walk`: a clean run has a list of them that
satisfies `Q`. -/
structure Binds (F : Option ScopeId) (s t : State) (walk : List Node)
    (Q : List (Ident × EntityId) → Prop) : Prop where
  still : Still s t
  bound : t.reports = [] → ∃ bs, Looked F s t walk bs ∧ Q bs

section

variable {F : Option ScopeId} {s : State}

theorem Binds.refl (F : Option ScopeId) (s : State) (w : List Node)
    {Q : List (Ident × EntityId) → Prop} (h : Q []) : Binds F s s w Q :=
  ⟨.refl s, fun _ => ⟨[], .nil F s w, h⟩⟩

/-- After a report there is nothing more to show. -/
theorem still_report (s : State) (p : Pos) (f : ResolveFault) :
    Still s (s.after (report p f)) ∧ (s.after (report p f)).reports ≠ [] :=
  ⟨⟨rfl, rfl, rfl, rfl, rfl, rfl, fun h => absurd h (List.cons_ne_nil _ _)⟩, List.cons_ne_nil _ _⟩

theorem Binds.reported {t : State} (h : Still s t) (hr : t.reports ≠ []) (w : List Node)
    (Q : List (Ident × EntityId) → Prop) : Binds F s t w Q :=
  ⟨h, fun hc => absurd hc hr⟩

theorem still_bindUse (s : State) (name : Ident) (e : EntityId) :
    Still s (s.after (bindUse name e)) ∧
      (s.after (bindUse name e)).uses.reverse = s.uses.reverse ++ [(name.mark.id, e)] :=
  ⟨⟨rfl, rfl, rfl, rfl, rfl, rfl, id⟩, List.reverse_cons⟩

theorem Inside.owned_of_resolve? (hs : Inside F s) {name : String} {e : EntityId} {i : ScopeId}
    (h : s.tree.resolve? (some s.here) name = some (e, i)) :
    s.tree.Settled e ∧
      (s.tree.ownVar? e ≠ none → s.tree.function? (s.tree.entity e).home = F) := by
  obtain ⟨hi, hlt, hh⟩ := ScopeTree.home_of_resolve? hs.valid hs.here_lt h
  refine ⟨⟨hlt, .inr ⟨i, hh⟩⟩, fun hv => ?_⟩
  rcases hs.around i hi with hn | hf
  · exact absurd (ScopeTree.ownVar?_of_home hh hn) hv
  · rw [hh, hf]

/-- A name is bound to what it denotes. -/
theorem LookupRun.binds {name : Ident} {e : EntityId} {t : State}
    (h : LookupRun name s (some e) t) (hs : Inside F s) :
    Binds F s t name.walk fun bs => bs = [(name, e)] := by
  cases h with
  | found h =>
    obtain ⟨hset, hown⟩ := hs.owned_of_resolve? h
    obtain ⟨hstill, huses⟩ := still_bindUse s name e
    refine ⟨hstill, fun _ => ⟨[(name, e)], ⟨huses, ?_, ?_, ?_⟩, rfl⟩⟩
    · exact List.Sublist.refl [name]
    · simpa using hset
    · simpa using hown

theorem LookupRun.reported {name : Ident} {t : State} (h : LookupRun name s none t) :
    Still s t ∧ t.reports ≠ [] := by
  cases h
  exact still_report s _ _

/-- What an expression owes: the names it binds, and their reads added to the effects `a`. -/
abbrev Evaluates (F : Option ScopeId) (s : State) (walk : List Node) (a b : Effects) (t : State) :
    Prop :=
  Binds F s t walk fun bs => b.reads = a.reads ++ readsOf s.tree bs

theorem Evaluates.trans {w v : List Node} {a b c : Effects} {t u : State}
    (h : Evaluates F s w a b t) (h' : Evaluates F t v b c u) : Evaluates F s (w ++ v) a c u := by
  refine ⟨h.still.trans h'.still, fun hc => ?_⟩
  obtain ⟨bs, hb, hbr⟩ := h.bound (h'.still.clean hc)
  obtain ⟨cs, hc, hcr⟩ := h'.bound hc
  refine ⟨bs ++ cs, hb.append h.still hc, ?_⟩
  rw [hcr, hbr, h.still.tree, readsOf_append, List.append_assoc]

theorem Binds.widen {w v : List Node} {t : State} {Q : List (Ident × EntityId) → Prop}
    (h : Binds F s t w Q) (hw : (idents w).Sublist (idents v)) : Binds F s t v Q :=
  ⟨h.still, fun hc => (h.bound hc).imp fun _ hb => ⟨hb.1.widen hw, hb.2⟩⟩

/-- A node above others adds no name. -/
theorem Binds.above {w : List Node} {n : Node} {t : State} {Q : List (Ident × EntityId) → Prop}
    (h : Binds F s t w Q) (hn : n.ident? = none) : Binds F s t (n :: w) Q :=
  h.widen (by rw [idents_cons_of_none hn])

theorem reads_reading (a : Effects) (t : ScopeTree) (name : Ident) (e : EntityId) :
    (a.reading t e name.mark.pos).reads = a.reads ++ readsOf t [(name, e)] := by
  unfold Effects.reading readsOf
  cases h : t.ownVar? e <;> simp [h, Effects.read]

theorem Binds.imp {w : List Node} {t : State} {Q Q' : List (Ident × EntityId) → Prop}
    (h : Binds F s t w Q) (k : ∀ bs, Q bs → Q' bs) : Binds F s t w Q' :=
  ⟨h.still, fun hc => (h.bound hc).imp fun _ hb => ⟨hb.1, k _ hb.2⟩⟩

/-- Nothing more is bound. -/
theorem Binds.andThen {w : List Node} {t u : State} {Q : List (Ident × EntityId) → Prop}
    (h : Binds F s t w Q) (hu : Records t u [] []) : Binds F s u w Q := by
  refine ⟨h.still.trans hu.still, fun hc => ?_⟩
  obtain ⟨bs, hb, hq⟩ := h.bound (hu.still.clean hc)
  exact ⟨bs, ⟨by rw [hu.uses, hb.uses], hb.names, hb.settled, hb.owned⟩, hq⟩

/-- A name that is read if it denotes a variable. -/
theorem Binds.read {w : List Node} {t : State} {name : Ident} {e : EntityId}
    (h : Binds F s t w fun bs => bs = [(name, e)]) (a : Effects) :
    Evaluates F s w a (a.reading t.tree e name.mark.pos) t := by
  refine h.imp fun bs hbs => ?_
  rw [reads_reading, hbs, h.still.tree]

theorem NameRun.evaluates {name : Ident} {a b : Effects} {t : State} (h : NameRun name a s b t)
    (hs : Inside F s) : Evaluates F s name.walk a b t := by
  cases h with
  | undefined h => exact .reported h.reported.1 h.reported.2 _ _
  | constant h _ =>
    exact ((h.binds hs).andThen (records_addFact _ name.mark (.constant _))).read a
  | value h _ => exact (h.binds hs).read a

theorem ownVar?_eq_none {t : ScopeTree} {e : EntityId} (h : asVar e (t.entity e) = none) :
    t.ownVar? e = none := by
  rw [ScopeTree.ownVar?, h]
  split <;> rfl

theorem foldl_raise_reads (es : List ErrorType) (a : Effects) :
    (es.foldl Effects.raise a).reads = a.reads := by
  induction es generalizing a with
  | nil => rfl
  | cons e es ih =>
    rw [List.foldl_cons, ih, Effects.raise]
    split <;> rfl

theorem CalleeRun.evaluates {name : Ident} {a b : Effects} {t : State}
    (h : CalleeRun name a s b t) (hs : Inside F s) : Evaluates F s name.walk a b t := by
  cases h with
  | undefined h => exact .reported h.reported.1 h.reported.2 _ _
  | @function e _ h hk =>
    have hbinds := h.binds hs
    have hnone : s.tree.ownVar? e = none := by
      apply ownVar?_eq_none
      apply asVar_eq_none
      rw [← hbinds.still.tree, hk]
      simp
    refine hbinds.imp fun bs hbs => ?_
    simp [hbs, readsOf, hnone, foldl_raise_reads]
  | value h _ => exact (h.binds hs).read a

/-- Where there is no code, nothing is bound or something is reported. -/
theorem CodeRun.none_cases {x : Expr} {sel : Ident} {t : State} (h : CodeRun x sel s none t) :
    t = s ∨ Still s t ∧ t.reports ≠ [] := by
  cases h with
  | @unknown name d _ _ _ _ _ =>
    obtain ⟨hstill, hr⟩ := still_report (s.after (bindUse name d)) sel.mark.pos
      (.unknownCode (s.tree.entity d).name sel.text)
    exact .inr ⟨(still_bindUse s name d).1.trans hstill, hr⟩
  | noDomain => exact .inl rfl

/-- A domain and its code are no variables. -/
theorem CodeRun.binds {x : Expr} {sel : Ident} {o : Option EntityId} {t : State}
    (h : CodeRun x sel s o t) (hs : Inside F s) :
    Binds F s t (x.walk everywhere ++ sel.walk) fun bs => readsOf s.tree bs = [] := by
  cases o with
  | none =>
    rcases h.none_cases with rfl | ⟨hstill, hr⟩
    · exact .refl F t _ rfl
    · exact .reported hstill hr _ _
  | some code =>
    cases h with
    | @code name d code _ hx h hd hc =>
    subst hx
    obtain ⟨hset, hown⟩ := hs.owned_of_resolve? h
    have hdomain : s.tree.ownVar? d = none := ownVar?_eq_none (hd.asVar d)
    obtain ⟨hlt, hvar⟩ := hs.valid.code d code (List.mem_of_find?_eq_some hc)
    have hcode := ownVar?_eq_none hvar
    obtain ⟨hstill, huses⟩ := still_bindUse s name d
    obtain ⟨hstill', huses'⟩ := still_bindUse (s.after (bindUse name d)) sel code
    refine ⟨hstill.trans hstill', fun _ => ⟨[(name, d), (sel, code)], ⟨?_, ?_, ?_, ?_⟩, ?_⟩⟩
    · rw [huses', huses, List.append_assoc]
      rfl
    · exact List.Sublist.refl [name, sel]
    · simpa using ⟨hset, hlt, .inl hvar⟩
    · simpa [hcode] using hown
    · simp [readsOf, hdomain, hcode]

end

theorem ExprRun.evaluates {F : Option ScopeId} {xs : List Expr} {a b : Effects} {s t : State}
    (h : ExprRun xs a s b t) (hs : Inside F s) :
    Evaluates F s (Expr.walkList everywhere xs) a b t := by
  induction h with
  | nil => exact .refl F _ _ (by simp)
  | cons _ _ ih ih' =>
    have hx := ih hs
    rw [Expr.walkList_singleton] at hx
    exact hx.trans (ih' (hx.still.inside hs))
  | name h =>
    rw [Expr.walkList_singleton]
    exact h.evaluates hs
  | literal => exact .refl F _ _ (by simp)
  | unary _ ih | paren _ ih =>
    rw [Expr.walkList_singleton] at ih ⊢
    exact (ih hs).above rfl
  | binary _ _ ih ih' | index _ _ ih ih' =>
    rw [Expr.walkList_singleton] at ih ih' ⊢
    have hx := ih hs
    exact (hx.trans (ih' (hx.still.inside hs))).above rfl
  | called h _ ih =>
    rw [Expr.walkList_singleton]
    have hname := h.evaluates hs
    exact (hname.trans (ih (hname.still.inside hs))).above rfl
  | call _ _ _ ih ih' =>
    rw [Expr.walkList_singleton] at ih ⊢
    have hcallee := ih hs
    exact (hcallee.trans (ih' (hcallee.still.inside hs))).above rfl
  | code h =>
    rw [Expr.walkList_singleton]
    exact Binds.above ((h.binds hs).imp fun bs hb => by simp [hb]) rfl
  | @select m x sel a b s t u h _ ih =>
    rw [Expr.walkList_singleton] at ih ⊢
    rcases h.none_cases with rfl | ⟨hstill, hr⟩
    · have hsel : (idents (x.walk everywhere)).Sublist (idents (x.walk everywhere ++ sel.walk)) := by
        simp
      exact Binds.above ((ih hs).widen hsel) rfl
    · have hx := (ih (hstill.inside hs)).still
      exact .reported (hstill.trans hx) (fun hc => hr (hx.clean hc)) _ _
  | sliceType =>
    obtain ⟨hstill, hr⟩ := still_report _ _ _
    exact .reported hstill hr _ _

/-! ### Types -/

section

variable {F : Option ScopeId} {s t : State}

/-- What a type owes: its names denote no variables. -/
abbrev Denotes (F : Option ScopeId) (s : State) (walk : List Node) (t : State) : Prop :=
  Binds F s t walk fun bs => readsOf s.tree bs = []

theorem Binds.denotes {w : List Node} {name : Ident} {e : EntityId}
    (h : Binds F s t w fun bs => bs = [(name, e)]) (he : asVar e (t.tree.entity e) = none) :
    Denotes F s w t := by
  have hnone : s.tree.ownVar? e = none := ownVar?_eq_none (h.still.tree ▸ he)
  refine h.imp fun bs hbs => ?_
  simp [hbs, readsOf, hnone]

theorem TypeNameRun.denotes {name : Ident} {fault : ResolveFault}
    (h : TypeNameRun name fault s t) (hs : Inside F s) : Denotes F s name.walk t := by
  cases h with
  | undefined h => exact .reported h.reported.1 h.reported.2 _ _
  | type h hv => exact (h.binds hs).denotes hv
  | @other e u h =>
    obtain ⟨hstill, hr⟩ := still_report u name.mark.pos fault
    exact .reported ((h.binds hs).still.trans hstill) hr _ _

theorem ErrorTypeRun.denotes {x : Expr} (h : ErrorTypeRun x s t) (hs : Inside F s) :
    Denotes F s (x.walk everywhere) t := by
  cases h with
  | name h => exact h.denotes hs
  | select h => exact (h.binds hs).above rfl
  | misplaced =>
    obtain ⟨hstill, hr⟩ := still_report s x.pos (.notAnErrorType x.render)
    exact .reported hstill hr _ _

theorem TypeRun.denotes {x : Expr} (h : TypeRun x s t) (hs : Inside F s) :
    Denotes F s (x.walk everywhere) t := by
  induction h with
  | name h => exact h.denotes hs
  | select h => exact h.denotes hs
  | slice _ ih => exact (ih hs).above rfl
  | @misplaced x s =>
    obtain ⟨hstill, hr⟩ := still_report s x.pos (.notAType x.render)
    exact .reported hstill hr _ _

theorem OptionRun.denotes {x : Option Expr} (h : OptionRun TypeRun x s t) (hs : Inside F s) :
    Denotes F s (Expr.walkOption everywhere x) t := by
  cases h with
  | none => exact .refl F s _ rfl
  | some h => exact h.denotes hs

end

end Resolve

end FlowCheck
