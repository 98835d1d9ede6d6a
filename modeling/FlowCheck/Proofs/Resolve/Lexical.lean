import FlowCheck.Proofs.Resolve.Log
import FlowCheck.Proofs.Scope.Lexical
import Mathlib.Data.List.Forall2

/-!
# Resolution follows the scopes of the tree

While a body is resolved, the scopes around the open one have as members what the frames of the
place declare. So what a name is found to denote is what it refers to by its frames, whatever has
been reported on the way.
-/
namespace FlowCheck

namespace ScopeTree

variable {t t' : ScopeTree} {s p e : Nat}

/-- The members of a scope and of the scopes around it, innermost first. -/
def view (t : ScopeTree) (s : ScopeId) : List (List (String × EntityId)) :=
  (t.chain s).map fun i => (t.scope i).members

theorem view_eq (ht : t.Valid) (s : ScopeId) :
    t.view s = (t.scope s).members :: (t.scope s).parent.elim [] t.view := by
  rw [view, chain_eq ht, List.map_cons]
  cases (t.scope s).parent <;> rfl

theorem resolve?_eq_view (ht : t.Valid) (hs : s < t.scopes.size) (text : String) :
    (t.resolve? (some s) text).map Prod.fst = (t.view s).findSome? (·.lookup text) := by
  rw [resolve?, enclosing_eq_chain ht hs, view, List.findSome?_map, List.map_findSome?]
  congr 1
  funext i
  simp [Scope.find?, Function.comp_def]

/-- What lies around a scope is told by the scopes alone. -/
theorem view_of_scopes (h : t'.scopes = t.scopes) (s : ScopeId) : t'.view s = t.view s := by
  have hscope (i : ScopeId) : t'.scope i = t.scope i := by rw [scope, scope, h]
  have hchain (fuel : Nat) (o : Option ScopeId) :
      t'.enclosingWith fuel o = t.enclosingWith fuel o := by
    induction fuel generalizing o with
    | zero => rfl
    | succ fuel ih =>
      cases o with
      | none => rfl
      | some i => rw [enclosingWith, enclosingWith, hscope, ih]
  rw [view, view, chain, hchain, ← chain]
  exact List.map_congr_left fun i _ => by rw [hscope]

theorem Extends.view (h : Extends t t') (ht : t.Valid) (ht' : t'.Valid) (hs : s < t.scopes.size)
    (hm : ∀ i ∈ t.chain s, (t'.scope i).members = (t.scope i).members) : t'.view s = t.view s := by
  rw [ScopeTree.view, ScopeTree.view, h.chain ht ht' hs]
  exact List.map_congr_left hm

theorem view_addScope (ht : t.Valid) {x : Scope} (hp : x.parent = some p) (hlt : p < t.scopes.size)
    (hm : x.members = []) : (t.addScope x).2.view t.scopes.size = [] :: t.view p := by
  have hvalid := ht.addScope hp hlt hm
  rw [view_eq hvalid, scope_addScope_self, hm, hp, Option.elim_some]
  refine congrArg _ ((extends_addScope t x).view ht hvalid hlt fun i hi => ?_)
  have hi := Nat.lt_of_le_of_lt (lt_of_mem_chain ht hi) hlt
  obtain ⟨_, h⟩ := scope_addScope (Nat.ne_of_lt hi) x
  rw [h]

theorem view_insert (ht : t.Valid) (he : e < t.entities.size) (hs : s < t.scopes.size)
    (hn : (t.entity e).home = none) (h : (t.scope s).find? (t.entity e).name = none) :
    (t.insert s e).2.view s =
      ((t.scope s).members ++ [((t.entity e).name, e)]) :: (t.view s).tail := by
  have hvalid := ht.insert he hs hn
  have hext := extends_insert hn s
  rw [view_eq hvalid, view_eq ht, hext.parent s hs, scope_insert h, if_pos ⟨rfl, hs⟩,
    List.tail_cons]
  refine congrArg _ ?_
  cases hp : (t.scope s).parent with
  | none => rfl
  | some p =>
    have hlt := ht.parent_lt s p hp
    refine hext.view ht hvalid (Nat.lt_trans hlt hs) fun i hi => ?_
    have hne : i ≠ s := Nat.ne_of_lt (Nat.lt_of_le_of_lt (lt_of_mem_chain ht hi) hlt)
    rw [scope_insert h, if_neg fun hi => hne hi.1]

end ScopeTree

namespace Resolve

/-! ### Scopes and frames -/

/-- A scope holds, under each text, the entity of the first declaration of that text. -/
structure Holds (defs : List (Nat × EntityId)) (members : List (String × EntityId))
    (frame : Frame) : Prop where
  found : ∀ text d, frame.find? (·.text == text) = some d →
    ∃ e, members.lookup text = some e ∧ (d.mark.id, e) ∈ defs
  missing : ∀ text, frame.find? (·.text == text) = none → members.lookup text = none

namespace Holds

variable {defs defs' : List (Nat × EntityId)} {members : List (String × EntityId)} {frame : Frame}
  {name : Ident} {e : EntityId}

theorem nil (defs : List (Nat × EntityId)) : Holds defs [] [] :=
  ⟨fun _ _ h => (by cases h), fun _ _ => rfl⟩

theorem mono (h : Holds defs members frame) (hd : defs ⊆ defs') : Holds defs' members frame := by
  refine ⟨fun text d hf => ?_, h.missing⟩
  obtain ⟨e, he, hm⟩ := h.found text d hf
  exact ⟨e, he, hd hm⟩

/-- A name that is taken changes nothing. -/
theorem again (h : Holds defs members frame) (ht : members.lookup name.text = some e) :
    Holds defs members (frame ++ [name]) := by
  have hfind (text : String) :
      (frame ++ [name]).find? (·.text == text) = frame.find? (·.text == text) := by
    cases hf : frame.find? (·.text == text) with
    | some d => simp [hf]
    | none =>
      have hne : name.text ≠ text := by
        rintro rfl
        rw [h.missing _ hf] at ht
        cases ht
      simp [hf, hne]
  exact ⟨fun text d hf => h.found text d (hfind text ▸ hf), fun text hf =>
    h.missing text (hfind text ▸ hf)⟩

theorem more (h : Holds defs members frame) (name : Ident) (e : EntityId) :
    Holds ((name.mark.id, e) :: defs) (members ++ [(name.text, e)]) (frame ++ [name]) := by
  have hnew {text : String} (hn : frame.find? (·.text == text) = none) :
      (members ++ [(name.text, e)]).lookup text = if name.text = text then some e else none := by
    rw [List.lookup_append, h.missing text hn, Option.none_or, List.lookup_cons]
    by_cases hne : name.text = text
    · simp [hne]
    · rw [if_neg hne, beq_eq_false_iff_ne.2 (Ne.symm hne)]
      rfl
  refine ⟨fun text d hf => ?_, fun text hf => ?_⟩
  · cases hold : frame.find? (·.text == text) with
    | some d' =>
      obtain ⟨e', he, hm⟩ := h.found text d' hold
      obtain rfl : d' = d := by simpa [hold] using hf
      exact ⟨e', by rw [List.lookup_append, he, Option.some_or], List.mem_cons_of_mem _ hm⟩
    | none =>
      obtain ⟨htext, rfl⟩ : name.text = text ∧ name = d := by simpa [hold] using hf
      exact ⟨e, by rw [hnew hold, if_pos htext], List.mem_cons_self⟩
  · simp only [List.find?_append, Option.or_eq_none_iff] at hf
    rw [hnew hf.1, if_neg]
    simpa using hf.2

end Holds

/-- The members of the scopes around the open one are what the frames declare. -/
structure Sees (s : State) (fs : Frames) : Prop where
  valid : s.tree.Valid
  here_lt : s.here < s.tree.scopes.size
  view : ∃ inner,
    s.tree.view s.here = inner ++ [(ScopeTree.initial.scope ScopeTree.root).members] ∧
      List.Forall₂ (Holds s.defs) inner fs

theorem lookup_frames {defs : List (Nat × EntityId)} {inner : List (List (String × EntityId))}
    {fs : Frames} (h : List.Forall₂ (Holds defs) inner fs) (text : String) :
    (∀ d, fs.findSome? (fun frame => frame.find? (·.text == text)) = some d →
      ∃ e, inner.findSome? (·.lookup text) = some e ∧ (d.mark.id, e) ∈ defs) ∧
    (fs.findSome? (fun frame => frame.find? (·.text == text)) = none →
      inner.findSome? (·.lookup text) = none) := by
  induction h with
  | nil => exact ⟨fun _ h => (by cases h), fun _ => rfl⟩
  | @cons members frame inner fs hfirst _ ih =>
    rw [List.findSome?_cons, List.findSome?_cons]
    cases hf : frame.find? (·.text == text) with
    | some d =>
      obtain ⟨e, he, hm⟩ := hfirst.found text d hf
      simpa [he] using hm
    | none =>
      rw [hfirst.missing text hf]
      exact ih

section

variable {s t u : State} {f : Frame} {fs : Frames} {os os' : List Occurrence}

/-- What is found under a name is what it refers to. -/
theorem Sees.found (h : Sees s fs) (name : Ident) (kind : OccurrenceKind) :
    (∃ e, (s.tree.resolve? (some s.here) name.text).map Prod.fst = some e ∧
      Occurrence.Denotes s.defs ⟨name, kind, fs⟩ e) ∨
    (s.tree.resolve? (some s.here) name.text).map Prod.fst = none ∧
      Occurrence.Undeclared ⟨name, kind, fs⟩ := by
  obtain ⟨inner, hview, hholds⟩ := h.view
  obtain ⟨hsome, hnone⟩ := lookup_frames hholds name.text
  rw [ScopeTree.resolve?_eq_view h.valid h.here_lt, hview, List.findSome?_append,
    List.findSome?_singleton]
  cases hdecl : Occurrence.declaration? ⟨name, kind, fs⟩ with
  | some d =>
    obtain ⟨e, he, hm⟩ := hsome d hdecl
    exact .inl ⟨e, by rw [he, Option.some_or], by rwa [Occurrence.Denotes, hdecl]⟩
  | none =>
    rw [hnone hdecl, Option.none_or]
    cases hpre : predeclared? name.text with
    | some e => exact .inl ⟨e, hpre, by rwa [Occurrence.Denotes, hdecl]⟩
    | none => exact .inr ⟨hpre, hdecl, hpre⟩

theorem Sees.denotes (h : Sees s fs) {name : Ident} {e : EntityId} {i : ScopeId}
    (hr : s.tree.resolve? (some s.here) name.text = some (e, i)) (kind : OccurrenceKind) :
    Occurrence.Denotes s.defs ⟨name, kind, fs⟩ e := by
  have hfound := h.found name kind
  rw [hr] at hfound
  obtain ⟨_, he, hden⟩ := hfound.resolve_right (by simp)
  cases he
  exact hden

theorem Sees.undeclared (h : Sees s fs) {name : Ident}
    (hr : s.tree.resolve? (some s.here) name.text = none) (kind : OccurrenceKind) :
    Occurrence.Undeclared ⟨name, kind, fs⟩ := by
  have hfound := h.found name kind
  rw [hr] at hfound
  exact (hfound.resolve_left (by simp)).2

/-- Only the scopes, the open one among them, and the declarations matter. -/
theorem Sees.congr (h : Sees s fs) (hv : t.tree.Valid) (hscopes : t.tree.scopes = s.tree.scopes)
    (hhere : t.here = s.here) (hdefs : s.defs ⊆ t.defs) : Sees t fs := by
  obtain ⟨inner, hview, hholds⟩ := h.view
  refine ⟨hv, ?_, inner, ?_, hholds.imp fun _ _ hm => hm.mono hdefs⟩
  · rw [hhere, hscopes]
    exact h.here_lt
  · rw [hhere, ScopeTree.view_of_scopes hscopes, hview]

/-! ### What happens to names -/

/-- What the occurrence refers to, if there is anything, is no error domain. -/
def NoDomain (t : State) (o : Occurrence) : Prop :=
  o.Undeclared ∨ ∃ e, o.Denotes t.defs e ∧ e < t.tree.entities.size ∧ ¬(t.tree.entity e).IsDomain

/-- What has been recorded about the occurrences `os` between two states. What is declared, found or
reported under other names stays out of it. -/
structure Accounted (os : List Occurrence) (s t : State) : Prop where
  grows : s.tree.Extends t.tree
  defs : ∃ new, t.defs = new ++ s.defs ∧
    (new.map Prod.fst).Subperm ((os.filter (·.kind = .declared)).map (·.name.mark.id))
  uses : ∃ new, t.uses = new ++ s.uses ∧ ∀ p ∈ new, ∃ o ∈ os, p.1 = o.name.mark.id ∧
    (o.kind = .selected ∨ (o.kind = .named ∨ o.kind = .qualifier) ∧ o.Denotes t.defs p.2)
  reports : s.reports ⊆ t.reports
  named : ∀ o ∈ os, o.kind = .named → (∃ e, (o.name.mark.id, e) ∈ t.uses) ∨
    o.Undeclared ∧ ⟨o.name.mark.pos, .undefined o.name.text⟩ ∈ t.reports
  qualifier : ∀ o ∈ os, o.kind = .qualifier →
    (∃ e, (o.name.mark.id, e) ∈ t.uses) ∨ NoDomain t o
  declared : t.reports = [] → ∀ o ∈ os, o.kind = .declared → ∃ e, (o.name.mark.id, e) ∈ t.defs
  misplaced : t.reports = [] → ∀ o ∈ os, o.kind ≠ .misplaced

namespace Accounted

theorem defs_subset (h : Accounted os s t) : s.defs ⊆ t.defs := by
  obtain ⟨new, hnew, -⟩ := h.defs
  rw [hnew]
  exact List.subset_append_right _ _

theorem uses_subset (h : Accounted os s t) : s.uses ⊆ t.uses := by
  obtain ⟨new, hnew, -⟩ := h.uses
  rw [hnew]
  exact List.subset_append_right _ _

theorem clean (h : Accounted os s t) (hc : t.reports = []) : s.reports = [] :=
  List.subset_nil.1 (hc ▸ h.reports)

theorem noDomain (h : Accounted os s t) {o : Occurrence} (ho : NoDomain s o) : NoDomain t o := by
  refine ho.imp_right fun ⟨e, hden, hlt, hkind⟩ => ⟨e, hden.mono h.defs_subset, ?_, ?_⟩
  · exact Nat.lt_of_lt_of_le hlt h.grows.entities_le
  · rwa [h.grows.domain e hlt]

/-- Nothing has been recorded, and nothing had to be. -/
theorem free (s : State) (hos : ∀ o ∈ os, o.kind = .selected ∨ o.kind = .beneath ∨
    o.kind = .qualifier ∧ NoDomain s o) : Accounted os s s := by
  have hkind {o : Occurrence} (ho : o ∈ os) {k : OccurrenceKind} (h : o.kind = k)
      (hk : k ≠ .selected ∧ k ≠ .beneath ∧ k ≠ .qualifier) : False := by
    rcases hos o ho with h' | h' | ⟨h', -⟩ <;> rw [h] at h'
    exacts [hk.1 h', hk.2.1 h', hk.2.2 h']
  refine ⟨.refl _, ⟨[], rfl, (List.nil_sublist _).subperm⟩, ⟨[], rfl, by simp⟩,
    List.Subset.refl _, fun o ho h => (hkind ho h (by decide)).elim, fun o ho h => ?_,
    fun _ o ho h => (hkind ho h (by decide)).elim, fun _ o ho h => hkind ho h (by decide)⟩
  rcases hos o ho with h' | h' | ⟨-, h'⟩
  · exact absurd (h'.symm.trans h) (by decide)
  · exact absurd (h'.symm.trans h) (by decide)
  · exact .inr h'

/-- A step that leaves the tables and the reports alone. -/
theorem same (hgrows : s.tree.Extends t.tree) (hdefs : t.defs = s.defs) (huses : t.uses = s.uses)
    (hreports : t.reports = s.reports) :
    Accounted [] s t := by
  refine ⟨hgrows, ⟨[], hdefs, (List.nil_sublist _).subperm⟩, ⟨[], huses, by simp⟩, ?_, by simp,
    by simp, by simp, by simp⟩
  rw [hreports]
  exact List.Subset.refl _

/-- A step that reports something about its occurrences. -/
theorem reported (s : State) (r : ResolveReport) (hos : ∀ o ∈ os, o.kind = .misplaced ∨
    o.kind = .declared ∨ o.kind = .named ∧ o.Undeclared ∧
      r = ⟨o.name.mark.pos, .undefined o.name.text⟩) :
    Accounted os s { s with reports := r :: s.reports } := by
  refine ⟨.refl _, ⟨[], rfl, (List.nil_sublist _).subperm⟩, ⟨[], rfl, by simp⟩,
    List.subset_cons_self _ _, fun o ho hk => ?_, fun o ho hk => ?_,
    fun hc => absurd hc (List.cons_ne_nil _ _), fun hc => absurd hc (List.cons_ne_nil _ _)⟩
  · rcases hos o ho with h | h | ⟨-, hun, rfl⟩
    · exact absurd (h.symm.trans hk) (by decide)
    · exact absurd (h.symm.trans hk) (by decide)
    · exact .inr ⟨hun, List.mem_cons_self⟩
  · rcases hos o ho with h | h | ⟨h, -⟩ <;> exact absurd (h.symm.trans hk) (by decide)

/-- A name has been declared. -/
theorem declares (s : State) {tree : ScopeTree} (hgrows : s.tree.Extends tree) (name : Ident)
    (e : EntityId) (gs : Frames) : Accounted [⟨name, .declared, gs⟩] s
      { s with tree, defs := (name.mark.id, e) :: s.defs } :=
  ⟨hgrows, ⟨[(name.mark.id, e)], rfl, by simp⟩, ⟨[], rfl, by simp⟩, List.Subset.refl _, by simp,
    by simp, by simp, by simp⟩

/-- A name has been bound. -/
theorem binds (s : State) {name : Ident} {e : EntityId} {k : OccurrenceKind}
    (hk : k = .selected ∨ (k = .named ∨ k = .qualifier) ∧
      Occurrence.Denotes s.defs ⟨name, k, fs⟩ e) :
    Accounted [⟨name, k, fs⟩] s { s with uses := (name.mark.id, e) :: s.uses } := by
  have hkind : k ≠ .declared ∧ k ≠ .misplaced := by
    rcases hk with rfl | ⟨rfl | rfl, -⟩ <;> decide
  refine ⟨.refl _, ⟨[], rfl, (List.nil_sublist _).subperm⟩, ⟨[(name.mark.id, e)], rfl, ?_⟩,
    List.Subset.refl _, ?_, ?_, fun _ => ?_, fun _ => ?_⟩
  · simp only [List.mem_singleton, forall_eq, exists_eq_left, true_and]
    exact hk
  · simp
  · simp
  · simp [hkind.1]
  · simpa using hkind.2

theorem trans (h : Accounted os s t) (h' : Accounted os' t u) : Accounted (os ++ os') s u := by
  obtain ⟨ds, hds, hdsub⟩ := h.defs
  obtain ⟨ds', hds', hdsub'⟩ := h'.defs
  obtain ⟨us, hus, huses⟩ := h.uses
  obtain ⟨us', hus', huses'⟩ := h'.uses
  refine ⟨h.grows.trans h'.grows, ⟨ds' ++ ds, by rw [hds', hds, List.append_assoc], ?_⟩,
    ⟨us' ++ us, by rw [hus', hus, List.append_assoc], fun p hp => ?_⟩,
    List.Subset.trans h.reports h'.reports, fun o ho hk => ?_, fun o ho hk => ?_,
    fun hc o ho hk => ?_, fun hc o ho => ?_⟩
  · rw [List.map_append, List.filter_append, List.map_append]
    exact (hdsub'.append hdsub).trans List.perm_append_comm.subperm
  · rcases List.mem_append.1 hp with hp | hp
    · obtain ⟨o, ho, hid⟩ := huses' p hp
      exact ⟨o, List.mem_append_right _ ho, hid⟩
    · obtain ⟨o, ho, hid, hk⟩ := huses p hp
      exact ⟨o, List.mem_append_left _ ho, hid,
        hk.imp_right fun hk => ⟨hk.1, hk.2.mono h'.defs_subset⟩⟩
  · rcases List.mem_append.1 ho with ho | ho
    · rcases h.named o ho hk with ⟨e, he⟩ | ⟨hun, hr⟩
      · exact .inl ⟨e, h'.uses_subset he⟩
      · exact .inr ⟨hun, h'.reports hr⟩
    · exact h'.named o ho hk
  · rcases List.mem_append.1 ho with ho | ho
    · rcases h.qualifier o ho hk with ⟨e, he⟩ | hno
      · exact .inl ⟨e, h'.uses_subset he⟩
      · exact .inr (h'.noDomain hno)
    · exact h'.qualifier o ho hk
  · rcases List.mem_append.1 ho with ho | ho
    · obtain ⟨e, he⟩ := h.declared (h'.clean hc) o ho hk
      exact ⟨e, h'.defs_subset he⟩
    · exact h'.declared hc o ho hk
  · rcases List.mem_append.1 ho with ho | ho
    · exact h.misplaced (h'.clean hc) o ho
    · exact h'.misplaced hc o ho

theorem perm (h : Accounted os s t) (hp : os.Perm os') : Accounted os' s t := by
  obtain ⟨ds, hds, hdsub⟩ := h.defs
  obtain ⟨us, hus, huses⟩ := h.uses
  refine ⟨h.grows, ⟨ds, hds, hdsub.trans ((hp.filter _).map _).subperm⟩,
    ⟨us, hus, fun p hin => ?_⟩, h.reports, fun o ho => h.named o (hp.mem_iff.2 ho),
    fun o ho => h.qualifier o (hp.mem_iff.2 ho),
    fun hc o ho => h.declared hc o (hp.mem_iff.2 ho),
    fun hc o ho => h.misplaced hc o (hp.mem_iff.2 ho)⟩
  obtain ⟨o, ho, hk⟩ := huses p hin
  exact ⟨o, hp.mem_iff.1 ho, hk⟩

/-- Occurrences whose names are looked up once more, if they have been at all. -/
theorem absorb {qs : List Occurrence} (h : Accounted (qs ++ os) s t)
    (hqs : ∀ o ∈ qs, o.kind = .beneath ∨ o.kind = .qualifier ∧ ⟨o.name, .named, o.frames⟩ ∈ os) :
    Accounted os s t := by
  have hmem {o : Occurrence} (ho : o ∈ os) : o ∈ qs ++ os := List.mem_append_right _ ho
  have hfilter : qs.filter (·.kind = .declared) = [] := by
    refine List.filter_eq_nil_iff.2 fun o ho => ?_
    rcases hqs o ho with hk | ⟨hk, -⟩ <;> simp [hk]
  obtain ⟨us, hus, huses⟩ := h.uses
  refine ⟨h.grows, by simpa [List.filter_append, hfilter] using h.defs, ⟨us, hus, fun p hp => ?_⟩,
    h.reports, fun o ho => h.named o (hmem ho), fun o ho => h.qualifier o (hmem ho),
    fun hc o ho => h.declared hc o (hmem ho), fun hc o ho => h.misplaced hc o (hmem ho)⟩
  obtain ⟨o, ho, hid, hk⟩ := huses p hp
  rcases List.mem_append.1 ho with ho | ho
  · rcases hqs o ho with hb | ⟨hq, hin⟩
    · simp [hb] at hk
    · simp only [hq, reduceCtorEq, or_true, true_and, false_or] at hk
      exact ⟨_, hin, hid, .inr ⟨.inl rfl, hk⟩⟩
  · exact ⟨o, ho, hid, hk⟩

end Accounted

/-- What a part of the tree owes that has the occurrences `os` and leaves the frames `fs`. -/
structure Follows (fs : Frames) (os : List Occurrence) (s t : State) : Prop
    extends Accounted os s t where
  sees : Sees t fs

namespace Follows

variable {fs' : Frames}

theorem refl (h : Sees s fs) : Follows fs [] s s := ⟨.free s (by simp), h⟩

theorem trans (h : Follows fs os s t) (h' : Follows fs' os' t u) : Follows fs' (os ++ os') s u :=
  ⟨h.toAccounted.trans h'.toAccounted, h'.sees⟩

theorem perm (h : Follows fs os s t) (hp : os.Perm os') : Follows fs os' s t :=
  ⟨h.toAccounted.perm hp, h.sees⟩

/-- Two parts that stand in the other order in the source. -/
theorem swap (h : Follows fs os s t) (h' : Follows fs' os' t u) : Follows fs' (os' ++ os) s u :=
  (h.trans h').perm List.perm_append_comm

/-- A step without occurrences. -/
theorem andThen (h : Follows fs os s t) (h' : Follows fs' [] t u) : Follows fs' os s u := by
  simpa using h.trans h'

/-- A statement that declares nothing. -/
theorem plain (h : Follows (f :: fs) os s t) : Follows ((f ++ []) :: fs) os s t := by
  rwa [List.append_nil]

theorem of_plain (h : Follows ((f ++ []) :: fs) os s t) : Follows (f :: fs) os s t := by
  rwa [List.append_nil] at h

theorem records (h : Follows fs os s t) {rs : List (Nat × Use)} {as : List (Nat × Var)}
    (hu : Records t u rs as) : Follows fs os s u := by
  refine h.andThen ⟨.same (hu.tree ▸ .refl _) hu.defs hu.uses hu.reports, ?_⟩
  exact h.sees.congr (hu.tree ▸ h.sees.valid) (by rw [hu.tree]) hu.here (by rw [hu.defs]; simp)

theorem record (h : Follows fs os s t) (m : Mark) (a : Effects) :
    Follows fs os s (t.after (record m a)) := h.records (records_record t m a)

end Follows

/-! ### Names and scopes -/

theorem follows_report (h : Sees s fs) (p : Pos) (fault : ResolveFault)
    (hos : ∀ o ∈ os, o.kind = .misplaced) : Follows fs os s (s.after (report p fault)) :=
  ⟨.reported s _ fun o ho => .inl (hos o ho), h.congr h.valid rfl rfl (List.Subset.refl _)⟩

/-- An expression that is reported as a whole. -/
theorem follows_misplaced (h : Sees s fs) (x : Expr) (p : Pos) (fault : ResolveFault) :
    Follows fs (x.throughout .misplaced fs) s (s.after (report p fault)) := by
  refine follows_report h _ _ fun o ho => ?_
  obtain ⟨name, -, rfl⟩ := List.mem_map.1 ho
  rfl

/-- A report about no name. -/
theorem Follows.fault (h : Follows fs os s t) (p : Pos) (fault : ResolveFault) :
    Follows fs os s (t.after (report p fault)) :=
  h.andThen (follows_report h.sees p fault (by simp))

theorem follows_bindUse (h : Sees s fs) {name : Ident} {e : EntityId} {k : OccurrenceKind}
    (hk : k = .selected ∨ (k = .named ∨ k = .qualifier) ∧
      Occurrence.Denotes s.defs ⟨name, k, fs⟩ e) :
    Follows fs [⟨name, k, fs⟩] s (s.after (bindUse name e)) :=
  ⟨.binds s hk, h.congr h.valid rfl rfl (List.Subset.refl _)⟩

theorem follows_newEntity (h : Sees s fs) {x : Entity} (hx : x.home = none) (hc : x.codes = []) :
    Follows fs [] s (s.after (newEntity x)) := by
  have ht := created_newEntity h.valid hx hc
  exact ⟨.same ht.step.grows rfl rfl rfl, h.congr ht.step.valid rfl rfl (List.Subset.refl _)⟩

/-- A declaration: the first one of its text in the scope counts. -/
theorem follows_declare (h : Sees s (f :: fs)) (gs : Frames) {name : Ident} {e : EntityId}
    (he : e < s.tree.entities.size) (hn : (s.tree.entity e).home = none)
    (hname : (s.tree.entity e).name = name.text) :
    Follows ((f ++ [name]) :: fs) [⟨name, .declared, gs⟩] s (s.after (declare name e)) := by
  change Resolves (declare name e) s fun _ t =>
    Follows ((f ++ [name]) :: fs) [⟨name, .declared, gs⟩] s t
  obtain ⟨inner, hview, hholds⟩ := h.view
  cases hholds with
  | @cons members _ inner _ hfirst hrest =>
  have hmembers : members = (s.tree.scope s.here).members := by
    rw [ScopeTree.view_eq h.valid] at hview
    exact (List.cons.inj hview).1.symm
  unfold declare
  refine .get ?_
  cases hfree : (s.tree.scope s.here).find? (s.tree.entity e).name with
  | some x =>
    rw [ScopeTree.insert_taken hfree]
    have htaken : members.lookup name.text = some x := by
      rw [hmembers, ← hname]
      exact hfree
    exact ⟨.reported s _ (by simp), h.valid, h.here_lt, members :: inner, hview,
      .cons (hfirst.again htaken) hrest⟩
  | none =>
    have hvalid := h.valid.insert he h.here_lt hn
    have hsize := ScopeTree.size_scopes_insert s.tree s.here e
    have hnew := ScopeTree.view_insert h.valid he h.here_lt hn hfree
    have hgrows := ScopeTree.extends_insert hn s.here
    rw [ScopeTree.insert_eq hfree] at hvalid hsize hnew hgrows ⊢
    refine ⟨.declares s hgrows name e gs, hvalid, ?_, (members ++ [(name.text, e)]) :: inner, ?_, ?_⟩
    · exact Nat.lt_of_lt_of_le h.here_lt (Nat.le_of_eq hsize.symm)
    · refine hnew.trans ?_
      rw [hview, ← hmembers, hname]
      rfl
    · exact .cons (hfirst.more name e) (hrest.imp fun _ _ hm => hm.mono (List.subset_cons_self _ _))

/-- A new entity under its own name in the open scope. -/
theorem follows_created (h : Sees s (f :: fs)) (gs : Frames) (name : Ident) {x : Entity}
    (hx : x.home = none) (hc : x.codes = []) (hname : x.name = name.text) :
    Follows ((f ++ [name]) :: fs) [⟨name, .declared, gs⟩] s
      ((s.after (newEntity x)).after (declare name s.tree.entities.size)) := by
  have ht := created_newEntity h.valid hx hc
  have hentity : (s.after (newEntity x)).tree.entity s.tree.entities.size = x := ht.entity
  have hnew := follows_newEntity h hx hc
  exact hnew.trans (follows_declare hnew.sees gs ht.known (by rwa [hentity])
    (by rwa [hentity]))

/-- A new variable of the open scope, which may be assigned at once. -/
theorem follows_introduce (h : Sees s (f :: fs)) (gs : Frames) (m : Mark) (name : Ident)
    (type : Option Typ) (assigned : Bool) :
    Follows ((f ++ [name]) :: fs) [⟨name, .declared, gs⟩] s
      (s.after (introduce m name type assigned)) := by
  have ht := follows_created h gs name
    (x := { kind := .var .local, name := name.text, type, pos := name.mark.pos }) rfl rfl rfl
  cases assigned with
  | false => exact ht
  | true => exact ht.records (records_assigns _ m _)

theorem follows_openScope (h : Sees s fs) (m : Mark) (stop : Pos) (kind : ScopeKind)
    (name : String) : Follows ([] :: fs) [] s (s.after (openScope m stop kind name)) := by
  obtain ⟨inner, hview, hholds⟩ := h.view
  let x : Scope := { kind, name, parent := some s.here, pos := m.pos, stop }
  have hvalid : (s.tree.addScope x).2.Valid := h.valid.addScope rfl h.here_lt rfl
  have hnew := ScopeTree.view_addScope (x := x) h.valid rfl h.here_lt rfl
  have hlt : s.tree.scopes.size < (s.tree.addScope x).2.scopes.size := by
    rw [ScopeTree.size_addScope]
    exact Nat.lt_succ_self _
  refine ⟨.same (ScopeTree.extends_addScope s.tree x) rfl rfl rfl, hvalid, hlt, [] :: inner, ?_,
    .cons (.nil _) hholds⟩
  rw [List.cons_append, ← hview]
  exact hnew

theorem Follows.openScope (h : Follows fs os s t) (m : Mark) (stop : Pos) (kind : ScopeKind) :
    Follows ([] :: fs) os s (t.after (openScope m stop kind)) :=
  h.andThen (follows_openScope h.sees m stop kind "")

theorem Follows.closeScope (h : Follows (f :: fs) os s t) :
    Follows fs os s (t.after closeScope) := by
  obtain ⟨inner, hview, hholds⟩ := h.sees.view
  cases hholds with
  | @cons members _ inner _ _ hrest =>
  rw [ScopeTree.view_eq h.sees.valid, List.cons_append] at hview
  have hrestview := (List.cons.inj hview).2
  cases hp : (t.tree.scope t.here).parent with
  | none => simp [hp] at hrestview
  | some p =>
    have hhere : (t.after Resolve.closeScope).here = p := by
      change (t.tree.scope t.here).parent.getD ScopeTree.root = p
      rw [hp, Option.getD_some]
    have hlt := Nat.lt_trans (h.sees.valid.parent_lt _ p hp) h.sees.here_lt
    refine h.andThen ⟨.same (.refl _) rfl rfl rfl, h.sees.valid, hhere ▸ hlt, inner, ?_, hrest⟩
    rw [hp, Option.elim_some] at hrestview
    rw [hhere]
    exact hrestview

/-! ### Expressions -/

theorem LookupRun.follows {name : Ident} {o : Option EntityId} (h : LookupRun name s o t)
    (hs : Sees s fs) : Follows fs [⟨name, .named, fs⟩] s t := by
  cases h with
  | found h => exact follows_bindUse hs (.inr ⟨.inl rfl, hs.denotes h .named⟩)
  | undefined h =>
    refine ⟨.reported s ⟨name.mark.pos, .undefined name.text⟩ fun o ho => ?_,
      hs.congr hs.valid rfl rfl (List.Subset.refl _)⟩
    obtain rfl := List.mem_singleton.1 ho
    exact .inr (.inr ⟨rfl, hs.undeclared h .named, rfl⟩)

theorem NameRun.follows {name : Ident} {a b : Effects} (h : NameRun name a s b t) (hs : Sees s fs) :
    Follows fs [⟨name, .named, fs⟩] s t := by
  cases h with
  | undefined h | value h => exact h.follows hs
  | constant h => exact (h.follows hs).records (records_addFact _ _ _)

theorem CalleeRun.follows {name : Ident} {a b : Effects} (h : CalleeRun name a s b t)
    (hs : Sees s fs) : Follows fs [⟨name, .named, fs⟩] s t := by
  cases h with
  | undefined h | function h | value h => exact h.follows hs

/-- What a code is selected from, if there turns out to be no code. -/
theorem follows_noCode (h : Sees s fs) {x : Expr} (hx : ∀ name d i, x = .ident name →
      s.tree.resolve? (some s.here) name.text = some (d, i) → ¬(s.tree.entity d).IsDomain) :
    Follows fs (x.qualifierOccurrences fs) s s := by
  refine ⟨.free s fun o ho => ?_, h⟩
  unfold Expr.qualifierOccurrences at ho
  split at ho
  · rename_i name
    obtain rfl := List.mem_singleton.1 ho
    refine .inr (.inr ⟨rfl, ?_⟩)
    cases hr : s.tree.resolve? (some s.here) name.text with
    | none => exact .inl (h.undeclared hr .qualifier)
    | some p =>
      exact .inr ⟨p.1, h.denotes hr .qualifier,
        (ScopeTree.home_of_resolve? h.valid h.here_lt hr).2.1, hx name p.1 p.2 rfl hr⟩
  · obtain ⟨name, -, rfl⟩ := List.mem_map.1 ho
    exact .inr (.inl rfl)

/-- The name of a domain is bound before the code is reported. -/
theorem CodeRun.follows_none {x : Expr} {sel : Ident} (h : CodeRun x sel s none t)
    (hs : Sees s fs) : Follows fs (x.qualifierOccurrences fs) s t := by
  cases h with
  | unknown hx h =>
    subst hx
    exact (follows_bindUse hs (.inr ⟨.inr rfl, hs.denotes h .qualifier⟩)).fault _ _
  | noDomain h => exact follows_noCode hs h

/-- The name of a domain is bound with the code selected from it. -/
theorem CodeRun.follows_some {x : Expr} {sel : Ident} {e : EntityId}
    (h : CodeRun x sel s (some e) t) (hs : Sees s fs) {k : OccurrenceKind}
    (hk : k = .named ∨ k = .qualifier) :
    ∃ name, x = .ident name ∧ Follows fs [⟨name, k, fs⟩, ⟨sel, .selected, fs⟩] s t := by
  cases h with
  | @code name d _ i hx h =>
    have hd := follows_bindUse hs (.inr ⟨hk, hs.denotes h k⟩)
    exact ⟨name, hx, hd.trans (follows_bindUse hd.sees (.inl rfl))⟩

/-- A name that may be selected need not be bound. -/
theorem Follows.selected (h : Follows fs os s t) (sel : Ident) :
    Follows fs (os ++ [⟨sel, .selected, fs⟩]) s t :=
  h.trans ⟨.free t (by simp), h.sees⟩

theorem ExprRun.follows {xs : List Expr} {a b : Effects} (h : ExprRun xs a s b t)
    (hs : Sees s fs) : Follows fs (Expr.occurrencesList fs xs) s t := by
  induction h with
  | nil => exact .refl hs
  | cons _ _ ih ih' =>
    have hx := ih hs
    rw [Expr.occurrencesList_singleton] at hx
    exact hx.trans (ih' hx.sees)
  | name h =>
    rw [Expr.occurrencesList_singleton]
    exact h.follows hs
  | literal => exact .refl hs
  | unary _ ih | paren _ ih =>
    rw [Expr.occurrencesList_singleton] at ih ⊢
    exact ih hs
  | binary _ _ ih ih' | index _ _ ih ih' =>
    rw [Expr.occurrencesList_singleton] at ih ih' ⊢
    have hx := ih hs
    exact hx.trans (ih' hx.sees)
  | called h _ ih =>
    rw [Expr.occurrencesList_singleton]
    have hname := h.follows hs
    exact hname.trans (ih hname.sees)
  | call _ _ _ ih ih' =>
    rw [Expr.occurrencesList_singleton] at ih ⊢
    have hcallee := ih hs
    exact hcallee.trans (ih' hcallee.sees)
  | code h =>
    rw [Expr.occurrencesList_singleton]
    obtain ⟨name, rfl, ht⟩ := h.follows_some hs (.inl rfl)
    exact ht
  | @select m x sel a b s t u h _ ih =>
    rw [Expr.occurrencesList_singleton] at ih ⊢
    have ht := h.follows_none hs
    have hall := ht.trans ((ih ht.sees).selected sel)
    refine ⟨hall.toAccounted.absorb fun o ho => ?_, hall.sees⟩
    unfold Expr.qualifierOccurrences at ho
    split at ho
    · obtain rfl := List.mem_singleton.1 ho
      exact .inr ⟨rfl, List.mem_cons_self⟩
    · obtain ⟨name, -, rfl⟩ := List.mem_map.1 ho
      exact .inl rfl
  | sliceType =>
    rw [Expr.occurrencesList_singleton]
    exact follows_misplaced hs _ _ _

/-! ### Types -/

theorem TypeNameRun.follows {name : Ident} {fault : ResolveFault} (h : TypeNameRun name fault s t)
    (hs : Sees s fs) : Follows fs [⟨name, .named, fs⟩] s t := by
  cases h with
  | undefined h | type h => exact h.follows hs
  | other h => exact (h.follows hs).fault _ _

theorem ErrorTypeRun.follows {x : Expr} (h : ErrorTypeRun x s t) (hs : Sees s fs) :
    Follows fs (x.errorOccurrences fs) s t := by
  cases h with
  | name h => exact h.follows hs
  | @select m y sel o _ _ h =>
    cases o with
    | none => exact (h.follows_none hs).selected sel
    | some code =>
      obtain ⟨name, rfl, ht⟩ := h.follows_some hs (.inr rfl)
      exact ht
  | misplaced hi hsel =>
    rw [Expr.errorOccurrences.eq_3 fs x (fun name => hi name) fun m y sel => hsel m y sel]
    exact follows_misplaced hs _ _ _

theorem TypeRun.follows {x : Expr} (h : TypeRun x s t) (hs : Sees s fs) :
    Follows fs (x.typeOccurrences fs) s t := by
  induction h with
  | name h => exact h.follows hs
  | select h => exact h.follows hs
  | slice _ ih => exact ih hs
  | misplaced hi hsel ht =>
    rename_i x _
    have hx : x.typeOccurrences fs = x.throughout .misplaced fs := by
      cases x with
      | ident name => exact absurd rfl (hi name)
      | select m y sel => exact absurd rfl (hsel m y sel)
      | sliceType m y => exact absurd rfl (ht m y)
      | _ => rfl
    rw [hx]
    exact follows_misplaced hs _ _ _

theorem follows_type {type : Option Expr} (h : OptionRun TypeRun type s t) (hs : Sees s fs) :
    Follows fs (Expr.typeOccurrencesOption fs type) s t := by
  cases h with
  | none => exact .refl hs
  | some h => exact h.follows hs

/-! ### Simple statements -/

theorem CondRun.follows {x : Expr} (h : CondRun x s t) (hs : Sees s fs) :
    Follows fs (x.occurrences fs) s t := by
  cases h with
  | mk h =>
    have hx := h.follows hs
    rw [Expr.occurrencesList_singleton] at hx
    exact hx.records (records_record _ _ _)

theorem SimpleRun.follows {x : Simple} (h : SimpleRun x s t) (hs : Sees s (f :: fs)) :
    Follows ((f ++ x.declares) :: fs) (x.occurrences (f :: fs)) s t := by
  have hvalue {y : Expr} {a b : Effects} {s t : State} (h : ExprRun [y] a s b t)
      (hs : Sees s (f :: fs)) : Follows (f :: fs) (y.occurrences (f :: fs)) s t := by
    simpa using h.follows hs
  cases h with
  | expr h => exact ((hvalue h hs).record _ _).plain
  | @define m name value a _ t h =>
    have hx := (hvalue h hs).record m a
    exact hx.swap (follows_introduce hx.sees _ _ _ _ _)
  | @undefinable m target value a _ t hn h =>
    have hx := (hvalue h hs).record m a
    have ht := (hx.swap (follows_misplaced hx.sees target target.pos
      (.nonNameDefined target.render))).plain
    cases target with
    | ident name => exact absurd rfl (hn name)
    | _ => exact ht
  | set h hn =>
    have hx := hvalue h hs
    exact (((hx.swap (hn.follows hx.sees)).records (records_assigns _ _ _)).record _ _).plain
  | setUndefined h hn =>
    have hx := hvalue h hs
    exact ((hx.swap (hn.follows hx.sees)).record _ _).plain
  | setOther h hn =>
    have hx := hvalue h hs
    exact (((hx.swap (hn.follows hx.sees)).fault _ _).record _ _).plain
  | element h hi =>
    have hx := hvalue h hs
    exact ((hx.swap (hvalue hi hx.sees)).record _ _).plain
  | @unassignable m target value a _ t hn hi h =>
    have hx := hvalue h hs
    have ht := ((hx.swap (follows_misplaced hx.sees target target.pos
      (.notAssignable target.render))).record m a).plain
    cases target with
    | ident name => exact absurd rfl (hn name)
    | index k x i => exact absurd rfl (hi k x i)
    | _ => exact ht

theorem PostRun.follows {x : Simple} (h : PostRun x s t) (hs : Sees s (f :: fs)) :
    Follows ((f ++ x.declares) :: fs) (x.occurrences (f :: fs)) s t := by
  cases h with
  | plain _ h => exact h.follows hs
  | @define m target value _ _ h =>
    have hfault := (Follows.refl hs).fault m.pos .defineInPost
    exact hfault.trans (h.follows hfault.sees)

theorem follows_condOption {x : Option Expr} (h : OptionRun CondRun x s t) (hs : Sees s fs) :
    Follows fs (Expr.occurrencesOption fs x) s t := by
  cases h with
  | none => exact .refl hs
  | some h => exact h.follows hs

theorem follows_simpleOption {R : Simple → State → State → Prop} {x : Option Simple}
    (h : OptionRun R x s t) (hs : Sees s (f :: fs))
    (hR : ∀ {y : Simple} {t : State}, R y s t →
      Follows ((f ++ y.declares) :: fs) (y.occurrences (f :: fs)) s t) :
    Follows ((f ++ Simple.declaresOption x) :: fs) (Simple.occurrencesOption (f :: fs) x) s t := by
  cases h with
  | none => exact (Follows.refl hs).plain
  | some h => exact hR h

/-- A variable is declared after its value and its type. -/
theorem Follows.variable {d : VarDecl}
    (h : Follows (f :: fs) (Expr.occurrencesList (f :: fs) d.value.toList) s t)
    (htype : OptionRun TypeRun d.type t u) (m : Mark) (type : Option Typ) (assigned : Bool) :
    Follows ((f ++ [d.name]) :: fs) (d.occurrences (f :: fs)) s
      (u.after (introduce m d.name type assigned)) := by
  rw [Expr.occurrencesList_toList] at h
  have hboth := h.swap (follows_type htype h.sees)
  exact hboth.swap (follows_introduce hboth.sees _ _ _ _ _)

end

/-! ### Compound statements -/

/-- What a part declares in the scope where it stands. -/
def Part.declares : Part → List Ident
  | .stmt x => x.declares
  | .stmtOption x => Stmt.declaresOption x
  | .stmts xs => xs.flatMap Stmt.declares
  | _ => []

def Part.occurrences (fs : Frames) : Part → List Occurrence
  | .stmt x => x.occurrences fs
  | .stmtOption x => Stmt.occurrencesOption x fs
  | .stmts xs => Stmt.occurrencesList xs fs
  | .block b => b.occurrences fs
  | .blockOption b => Block.occurrencesOption b fs
  | .sections _ cs => CaseClause.occurrencesList cs fs
  | .handlers cs => CatchClause.occurrencesList cs fs

theorem Run.follows {p : Part} {s t : State} (h : Run p s t) {f : Frame} {fs : Frames}
    (hs : Sees s (f :: fs)) :
    Follows ((f ++ p.declares) :: fs) (p.occurrences (f :: fs)) s t := by
  induction h generalizing f fs with
  | empty | jump | noStmt | nil | noBlock | noSections | noHandlers => exact (Follows.refl hs).plain
  | simple h => exact h.follows hs
  | @var m d type a _ _ _ hvalue htype =>
    exact ((hvalue.follows hs).record m a).variable htype m type d.value.isSome
  | braces _ ih | someStmt _ ih | someBlock _ ih => exact ih hs
  | cond htest _ _ ihyes ihno =>
    have ht := htest.follows hs
    have hboth := ht.trans (ihyes ht.sees).of_plain
    exact hboth.trans (ihno hboth.sees)
  | @loop m init post test body _ _ _ _ _ hinit htest hpost _ ih =>
    have ho := (Follows.refl hs).openScope m body.close .loop
    have hi := follows_simpleOption hinit ho.sees fun h => h.follows ho.sees
    have ht := follows_condOption htest hi.sees
    have hp := follows_simpleOption hpost ht.sees fun h => h.follows ht.sees
    have hbody := ((hi.trans ht).trans hp).trans (ih hp.sees)
    exact (ho.trans hbody).closeScope.plain
  | @foreach m name operand body _ _ _ hoperand _ ih =>
    have ho := (hoperand.follows hs).openScope m body.close .foreach
    have hv := ho.swap (follows_introduce ho.sees ([] :: f :: fs) m name none true)
    exact (hv.trans (ih hv.sees)).closeScope.plain
  | switch htag _ ih =>
    have ht := htag.follows hs
    exact ht.trans (ih ht.sees)
  | @ret m x a _ _ h =>
    have hx := h.follows hs
    rw [Expr.occurrencesList_toList] at hx
    exact (hx.record m a).plain
  | @raise m x a e _ _ h =>
    have hx := h.follows hs
    rw [Expr.occurrencesList_singleton] at hx
    exact (hx.record m (a.raise e)).plain
  | attempt _ _ _ ihbody ihhandlers ihcleanup =>
    have hb := (ihbody hs).of_plain
    have hboth := hb.trans (ihhandlers hb.sees).of_plain
    exact hboth.trans (ihcleanup hboth.sees)
  | cons _ _ ih ih' =>
    have hx := ih hs
    have hxs := ih' hx.sees
    rw [List.append_assoc] at hxs
    exact hx.trans hxs
  | @block m body close _ _ _ ih =>
    have ho := (Follows.refl hs).openScope m close .block
    exact (ho.trans (ih ho.sees)).closeScope.plain
  | @sections close m values isDefault body cs a _ _ _ _ hvalues _ _ ihbody ihcs =>
    have ho := ((hvalues.follows hs).record m a).openScope m close .case
    have hclause := (ho.trans (ihbody ho.sees)).closeScope
    exact hclause.trans (ihcs hclause.sees)
  | @bareHandler m bodyMark body close cs _ u _ _ _ ihbody ihcs =>
    have hfact := (Follows.refl hs).records (records_addFact _ m (.catches .any))
    have ho := hfact.openScope m close .handler
    have hbody := (ho.trans (ihbody ho.sees)).records (records_shareScope u bodyMark)
    exact hbody.closeScope.trans (ihcs hbody.closeScope.sees)
  | @namedHandler m bodyMark name type accepted body close cs _ t u _ htype _ _ ihbody ihcs =>
    have ht := (htype.follows hs).records (records_addFact t m (.catches accepted))
    have ho := ht.openScope m close .handler
    have hv := ho.swap (follows_introduce ho.sees ([] :: f :: fs) m name
      (some (.error accepted)) true)
    have hbody := (hv.trans (ihbody hv.sees)).records (records_shareScope u bodyMark)
    exact hbody.closeScope.trans (ihcs hbody.closeScope.sees)

end Resolve

end FlowCheck
