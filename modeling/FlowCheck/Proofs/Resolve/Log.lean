import FlowCheck.Proofs.Resolve.Expression
import Mathlib.Data.List.Perm.Subperm

/-!
# The log of resolution

Every name that resolution binds is entered in a log together with its role and with the node that
control flow visits around it. The tables of names and the facts about nodes are readings of the
log, so what resolution and the construction of graphs have to agree on is said about logs.
-/
namespace FlowCheck

/-- What a name is to the node that it belongs to. -/
inductive Role where
  | read
  /-- The target of an assignment that introduces nothing. -/
  | set
  /-- Declared and assigned at once. -/
  | init
  | declare
  /-- Declared as a parameter that is read where the body ends. -/
  | out (close : Pos)
  deriving DecidableEq

structure Binding where
  role : Role
  carrier : Node
  name : Ident
  entity : EntityId

namespace Binding

def entry (b : Binding) : Nat × EntityId := (b.name.mark.id, b.entity)

def place (b : Binding) : Node × Ident := (b.carrier, b.name)

/-- The name denotes something that has been declared before. -/
def isUse (b : Binding) : Bool := b.role = .read ∨ b.role = .set

def isAssign (b : Binding) : Bool := b.role = .set ∨ b.role = .init

/-- Where the variable is read. -/
def readPos? (b : Binding) : Option Pos :=
  match b.role with
  | .read => some b.name.mark.pos
  | .out close => some close
  | _ => none

def read? (t : ScopeTree) (b : Binding) : Option (Nat × Use) :=
  b.readPos?.bind fun p => (t.ownVar? b.entity).map fun v => (b.carrier.id, ⟨v, p⟩)

def assigned? (t : ScopeTree) (b : Binding) : Option (Nat × Var) :=
  if b.isAssign then (t.ownVar? b.entity).map (b.carrier.id, ·) else none

/-- A name that is set without a declaration is the whole target of its statement, and parameters
are declared in no statement. -/
def Sound (b : Binding) : Prop :=
  match b.role with
  | .set => ∃ m value, b.carrier = .stmt (.simple (.assign m .set (.ident b.name) value))
  | .out _ => False
  | _ => True

end Binding

namespace ScopeTree

variable {t t' : ScopeTree} {e : Nat}

/-- The function that holds a variable goes on to do so. -/
theorem Settled.function?_eq (h : t.Settled e) (hx : Extends t t') (ht : t.Valid) (ht' : t'.Valid)
    (hv : t.ownVar? e ≠ none) :
    t'.function? (t'.entity e).home = t.function? (t.entity e).home := by
  rcases h.held with hn | ⟨s, hs⟩
  · exact absurd (Resolve.ownVar?_eq_none hn) hv
  · rw [hs, hx.home e s hs, hx.function? ht ht' (ht.home_lt e s hs)]

end ScopeTree

namespace Resolve

variable {F : Option ScopeId} {s t u : State} {ids : List EntityId}

/-- The entries made on the way from `s` to `t`. -/
structure Entries (s t : State) (log : List Binding) : Prop where
  uses : t.uses.reverse = s.uses.reverse ++ (log.filter Binding.isUse).map Binding.entry
  defs : t.defs.reverse = s.defs.reverse ++ (log.filter fun b => !b.isUse).map Binding.entry
  reads : t.readFacts = s.readFacts ++ log.filterMap (Binding.read? t.tree)
  assigns : t.assignFacts = s.assignFacts ++ log.filterMap (Binding.assigned? t.tree)
  settled : ∀ b ∈ log, t.tree.Settled b.entity

/-- The variables among the entries belong to the function with the scope `F`. -/
def Owned (F : Option ScopeId) (t : ScopeTree) (log : List Binding) : Prop :=
  ∀ b ∈ log, t.ownVar? b.entity ≠ none → t.function? (t.entity b.entity).home = F

/-- The entries made by a part of the function with the scope `F`. -/
structure Logged (F : Option ScopeId) (s t : State) (log : List Binding) : Prop
    extends Entries s t log where
  owned : Owned F t.tree log

theorem Entries.nil (s : State) : Entries s s [] := by
  constructor <;> simp

theorem Entries.append {log log' : List Binding} (h : Entries s t log) (h' : Entries t u log')
    (hx : t.tree.Extends u.tree) (ht : t.tree.Valid) (hu : u.tree.Valid) :
    Entries s u (log ++ log') := by
  have hvar (b : Binding) (hb : b ∈ log) : u.tree.ownVar? b.entity = t.tree.ownVar? b.entity :=
    (h.settled b hb).ownVar?_eq hx ht hu
  refine ⟨?_, ?_, ?_, ?_, fun b hb => ?_⟩
  · rw [h'.uses, h.uses, List.append_assoc, List.filter_append, List.map_append]
  · rw [h'.defs, h.defs, List.append_assoc, List.filter_append, List.map_append]
  · rw [h'.reads, h.reads, List.append_assoc, List.filterMap_append]
    congr 2
    apply List.filterMap_congr
    intro b hb
    rw [Binding.read?, Binding.read?, hvar b hb]
  · rw [h'.assigns, h.assigns, List.append_assoc, List.filterMap_append]
    congr 2
    apply List.filterMap_congr
    intro b hb
    rw [Binding.assigned?, Binding.assigned?, hvar b hb]
  · rcases List.mem_append.1 hb with hb | hb
    · exact (h.settled b hb).extends hx
    · exact h'.settled b hb

/-- Only the tables and facts of the first state matter. -/
theorem Entries.congr {log : List Binding} (h : Entries t u log) (huses : t.uses = s.uses)
    (hdefs : t.defs = s.defs) (hreads : t.readFacts = s.readFacts)
    (hassigns : t.assignFacts = s.assignFacts) : Entries s u log :=
  ⟨huses ▸ h.uses, hdefs ▸ h.defs, hreads ▸ h.reads, hassigns ▸ h.assigns, h.settled⟩

/-- Variables stay with their function. -/
theorem Owned.extends {log : List Binding} {T T' : ScopeTree} (h : Owned F T log)
    (hset : ∀ b ∈ log, T.Settled b.entity) (hx : T.Extends T') (hT : T.Valid) (hT' : T'.Valid) :
    Owned F T' log := by
  intro b hb hv
  rw [(hset b hb).ownVar?_eq hx hT hT'] at hv
  rw [(hset b hb).function?_eq hx hT hT' hv, h b hb hv]

theorem Logged.nil (F : Option ScopeId) (s : State) : Logged F s s [] :=
  ⟨.nil s, by simp [Owned]⟩

theorem Logged.append {log log' : List Binding} (h : Logged F s t log) (h' : Logged F t u log')
    (hx : t.tree.Extends u.tree) (ht : t.tree.Valid) (hu : u.tree.Valid) :
    Logged F s u (log ++ log') := by
  refine ⟨h.toEntries.append h'.toEntries hx ht hu, fun b hb => ?_⟩
  rcases List.mem_append.1 hb with hb | hb
  · exact h.owned.extends h.settled hx ht hu b hb
  · exact h'.owned b hb

theorem Inside.extends (hs : Inside F s) (hx : s.tree.Extends t.tree) (ht : t.tree.Valid)
    (hh : t.here = s.here) : Inside F t := by
  refine ⟨ht, ?_, ?_, fun i hi => ?_⟩
  · rw [hh]
    exact Nat.lt_of_lt_of_le hs.here_lt hx.scopes_le
  · rw [hh, hx.function? hs.valid ht hs.here_lt, hs.function]
  · rw [hh, hx.chain hs.valid ht hs.here_lt] at hi
    have hlt := Nat.lt_of_le_of_lt (ScopeTree.lt_of_mem_chain hs.valid hi) hs.here_lt
    rw [hx.function? hs.valid ht hlt]
    exact hs.around i hi

/-- What a part of a function leaves as it was, and that the tree of scopes only grows. No entity
that was there before gets a home, but for those in `ids`. -/
structure Step (ids : List EntityId) (s t : State) : Prop where
  valid : t.tree.Valid
  grows : s.tree.Extends t.tree
  here : t.here = s.here
  funcs : t.funcs = s.funcs
  homes : ∀ e : Nat, e < s.tree.entities.size → e ∉ ids →
    (t.tree.entity e).home = (s.tree.entity e).home
  clean : t.reports = [] → s.reports = []

theorem Step.refl (hs : s.tree.Valid) : Step [] s s :=
  ⟨hs, .refl _, rfl, rfl, fun _ _ _ => rfl, fun h => h⟩

theorem Step.trans (h : Step ids s t) (h' : Step ids t u) : Step ids s u := by
  refine ⟨h'.valid, h.grows.trans h'.grows, h'.here.trans h.here, h'.funcs.trans h.funcs,
    fun e he hn => ?_, fun hc => h.clean (h'.clean hc)⟩
  rw [h'.homes e (Nat.lt_of_lt_of_le he h.grows.entities_le) hn, h.homes e he hn]

theorem Step.mono {ids' : List EntityId} (h : Step ids s t) (hi : ids ⊆ ids') : Step ids' s t :=
  ⟨h.valid, h.grows, h.here, h.funcs, fun e he hn => h.homes e he fun hm => hn (hi hm), h.clean⟩

theorem Step.inside (h : Step ids s t) (hs : Inside F s) : Inside F t :=
  hs.extends h.grows h.valid h.here

theorem Still.step (h : Still s t) (hs : s.tree.Valid) : Step [] s t :=
  ⟨h.tree ▸ hs, h.tree ▸ .refl _, h.here, h.funcs, fun _ _ _ => by rw [h.tree], h.clean⟩

theorem Records.step {rs : List (Nat × Use)} {as : List (Nat × Var)} (h : Records s t rs as)
    (hs : s.tree.Valid) : Step [] s t :=
  ⟨h.tree ▸ hs, h.tree ▸ .refl _, h.here, h.funcs, fun _ _ _ => by rw [h.tree],
    fun hc => h.reports ▸ hc⟩

/-- What a part of a function body owes: a clean run has a log that satisfies `P`. -/
structure Logs (ids : List EntityId) (F : Option ScopeId) (s t : State)
    (P : List Binding → Prop) : Prop where
  step : Step ids s t
  logged : t.reports = [] → ∃ log, Logged F s t log ∧ P log

namespace Logs

variable {P Q R : List Binding → Prop}

theorem refl (hs : s.tree.Valid) (h : P []) : Logs [] F s s P :=
  ⟨.refl hs, fun _ => ⟨[], .nil F s, h⟩⟩

theorem mono {ids' : List EntityId} (h : Logs ids F s t P) (hi : ids ⊆ ids') : Logs ids' F s t P :=
  ⟨h.step.mono hi, h.logged⟩

theorem imp (h : Logs ids F s t P) (k : ∀ log, P log → Q log) : Logs ids F s t Q :=
  ⟨h.step, fun hc => (h.logged hc).imp fun log hl => ⟨hl.1, k log hl.2⟩⟩

/-- Two parts, one after the other. -/
theorem trans (h : Logs ids F s t P) (h' : Logs ids F t u Q)
    (k : ∀ log log', P log → Q log' → R (log ++ log')) : Logs ids F s u R := by
  refine ⟨h.step.trans h'.step, fun hc => ?_⟩
  obtain ⟨log, hl, hp⟩ := h.logged (h'.step.clean hc)
  obtain ⟨log', hl', hq⟩ := h'.logged hc
  exact ⟨log ++ log', hl.append hl' h'.step.grows h.step.valid h'.step.valid, k _ _ hp hq⟩

/-- Nothing more is entered. -/
theorem andThen (h : Logs ids F s t P) (hu : Records t u [] []) : Logs ids F s u P := by
  refine ⟨h.step.trans ((hu.step h.step.valid).mono (List.nil_subset ids)), fun hc => ?_⟩
  obtain ⟨log, hl, hp⟩ := h.logged (hu.reports ▸ hc)
  refine ⟨log, ⟨⟨?_, ?_, ?_, ?_, hu.tree ▸ hl.settled⟩, hu.tree ▸ hl.owned⟩, hp⟩
  · rw [hu.uses, hl.uses]
  · rw [hu.defs, hl.defs]
  · rw [hu.reads, hl.reads, hu.tree, List.append_nil]
  · rw [hu.assigns, hl.assigns, hu.tree, List.append_nil]

theorem reported (h : Step ids s t) (hr : t.reports ≠ []) : Logs ids F s t P :=
  ⟨h, fun hc => absurd hc hr⟩

end Logs

/-! ### Reads -/

/-- The names that were looked up, as entries of the node `n`. -/
def readLog (n : Node) (bound : List (Ident × EntityId)) : List Binding :=
  bound.map fun p => ⟨.read, n, p.1, p.2⟩

/-- All entries are reads by the node `n` of names among the nodes `walk`. -/
structure ReadBy (n : Node) (walk : List Node) (log : List Binding) : Prop where
  reads : ∀ b ∈ log, b.role = .read ∧ b.carrier = n
  names : (log.map Binding.name).Subperm (idents walk)

theorem readBy_readLog {n : Node} {w : List Node} {bs : List (Ident × EntityId)}
    (h : (bs.map Prod.fst).Sublist (idents w)) : ReadBy n w (readLog n bs) := by
  refine ⟨List.forall_mem_map.2 fun _ _ => ⟨rfl, rfl⟩, ?_⟩
  simpa [readLog, Function.comp_def] using h.subperm

theorem ReadBy.append {n : Node} {w v : List Node} {log log' : List Binding}
    (h : ReadBy n w log) (h' : ReadBy n v log') : ReadBy n (w ++ v) (log ++ log') := by
  refine ⟨fun b hb => ?_, ?_⟩
  · exact (List.mem_append.1 hb).elim (h.reads b) (h'.reads b)
  · rw [List.map_append, idents_append]
    exact h.names.append h'.names

theorem ReadBy.perm {n : Node} {w v : List Node} {log : List Binding} (h : ReadBy n w log)
    (hp : (idents w).Perm (idents v)) : ReadBy n v log :=
  ⟨h.reads, h.names.trans hp.subperm⟩

theorem filter_readLog (n : Node) (bs : List (Ident × EntityId)) :
    (readLog n bs).filter Binding.isUse = readLog n bs ∧
      ((readLog n bs).filter fun b => !b.isUse) = [] := by
  constructor
  · rw [List.filter_eq_self]
    exact List.forall_mem_map.2 fun _ _ => rfl
  · rw [List.filter_eq_nil_iff]
    exact List.forall_mem_map.2 fun _ _ => Bool.false_ne_true

theorem read?_readLog (t : ScopeTree) (n : Node) (bs : List (Ident × EntityId)) :
    (readLog n bs).filterMap (Binding.read? t) = (readsOf t bs).map (n.id, ·) := by
  simp [readLog, readsOf, List.filterMap_map, List.map_filterMap, Function.comp_def, Binding.read?,
    Binding.readPos?]

theorem assigned?_readLog (t : ScopeTree) (n : Node) (bs : List (Ident × EntityId)) :
    (readLog n bs).filterMap (Binding.assigned? t) = [] := by
  simp [readLog, Binding.assigned?, Binding.isAssign]

/-- Names that have been looked up, once the node they belong to has recorded the reads. -/
theorem Looked.logged {w : List Node} {n : Node} {bs : List (Ident × EntityId)}
    (h : Looked F s t w bs) (hst : Still s t)
    (hr : Records t u ((readsOf s.tree bs).map (n.id, ·)) []) :
    Logged F s u (readLog n bs) := by
  have htree : u.tree = s.tree := hr.tree.trans hst.tree
  refine ⟨⟨?_, ?_, ?_, ?_, ?_⟩, ?_⟩
  · rw [hr.uses, h.uses, (filter_readLog n bs).1]
    simp [readLog, Binding.entry, Function.comp_def]
  · rw [hr.defs, hst.defs, (filter_readLog n bs).2]
    simp
  · rw [hr.reads, hst.reads, read?_readLog, htree]
  · rw [hr.assigns, hst.assigns, assigned?_readLog]
  · exact List.forall_mem_map.2 (htree ▸ h.settled)
  · exact List.forall_mem_map.2 (htree ▸ h.owned)

/-- Names of which none is read. -/
theorem Binds.logs {w : List Node} (h : Denotes F s w t) (hs : Inside F s) (n : Node) :
    Logs [] F s t (ReadBy n w) := by
  refine ⟨h.still.step hs.valid, fun hc => ?_⟩
  obtain ⟨bs, hb, hreads⟩ := h.bound hc
  have hr : Records t t ((readsOf s.tree bs).map (n.id, ·)) [] := by
    rw [hreads]
    exact .refl t
  exact ⟨readLog n bs, hb.logged h.still hr, readBy_readLog hb.names⟩

/-- An expression whose effects are attached to the node `n`. -/
theorem Binds.logs_record {w : List Node} {a : Effects} (h : Evaluates F s w {} a t)
    (hs : Inside F s) (n : Node) : Logs [] F s (t.after (record n.mark a)) (ReadBy n w) := by
  have hu := records_record t n.mark a
  have ht := h.still.step hs.valid
  refine ⟨ht.trans (hu.step ht.valid), fun hc => ?_⟩
  obtain ⟨bs, hb, hreads⟩ := h.bound (hu.reports ▸ hc)
  rw [hreads] at hu
  exact ⟨readLog n bs, hb.logged h.still hu, readBy_readLog hb.names⟩

/-! ### Declarations -/

/-- An entity has been put into the open scope under a name, unless the name was taken. -/
structure Declared (s t : State) (name : Ident) (e : EntityId) : Prop where
  valid : t.tree.Valid
  grows : s.tree.Extends t.tree
  here : t.here = s.here
  funcs : t.funcs = s.funcs
  homes : ∀ i : Nat, i ≠ e → (t.tree.entity i).home = (s.tree.entity i).home
  uses : t.uses = s.uses
  reads : t.readFacts = s.readFacts
  assigns : t.assignFacts = s.assignFacts
  clean : t.reports = [] → s.reports = []
  defs : t.reports = [] → t.defs.reverse = s.defs.reverse ++ [(name.mark.id, e)]
  home : t.reports = [] → (t.tree.entity e).home = some s.here

theorem declared_declare (hs : Inside F s) (name : Ident) {e : EntityId}
    (he : e < s.tree.entities.size) (hn : (s.tree.entity e).home = none) :
    Declared s (s.after (declare name e)) name e := by
  change Resolves (declare name e) s fun _ t => Declared s t name e
  unfold declare
  refine .get ?_
  cases h : (s.tree.scope s.here).find? (s.tree.entity e).name with
  | some x =>
    rw [ScopeTree.insert_taken h]
    have hne {P : Prop} (hc : ⟨name.mark.pos, .redeclared name.text⟩ :: s.reports = []) : P :=
      absurd hc (List.cons_ne_nil _ _)
    exact (⟨hs.valid, .refl _, rfl, rfl, fun _ _ => rfl, rfl, rfl, rfl, hne, hne, hne⟩ :
      Declared s { s with reports := ⟨name.mark.pos, .redeclared name.text⟩ :: s.reports } name e)
  | none =>
    have hvalid := hs.valid.insert he hs.here_lt hn
    have hext := ScopeTree.extends_insert hn s.here
    have hentity := ScopeTree.entity_insert h
    rw [ScopeTree.insert_eq h] at hvalid hext hentity ⊢
    change Declared s { s with tree := _, defs := (name.mark.id, e) :: s.defs } name e
    refine ⟨hvalid, hext, rfl, rfl, fun i hi => ?_, rfl, rfl, rfl, id, fun _ => ?_, fun _ => ?_⟩
    · rw [hentity, if_neg fun h => hi h.1]
    · exact List.reverse_cons
    · rw [hentity, if_pos ⟨rfl, he⟩]

/-- What a declared entity is to the function around. -/
theorem Declared.held {name : Ident} {e : EntityId} (h : Declared s t name e) (hs : Inside F s)
    (he : e < s.tree.entities.size) (hc : t.reports = []) :
    t.tree.Settled e ∧ t.tree.function? (t.tree.entity e).home = F := by
  refine ⟨⟨Nat.lt_of_lt_of_le he h.grows.entities_le, .inr ⟨s.here, h.home hc⟩⟩, ?_⟩
  rw [h.home hc, h.grows.function? hs.valid h.valid hs.here_lt, hs.function]

theorem filterMap_singleton {α β : Type} (f : α → Option β) (a : α) :
    [a].filterMap f = (f a).toList := by
  cases h : f a <;> simp [h]

theorem Declared.logged {name : Ident} {e : EntityId} (h : Declared s t name e) (hs : Inside F s)
    (he : e < s.tree.entities.size) (hc : t.reports = []) {b : Binding} (hb : b.entry = (name.mark.id, e))
    (huse : b.isUse = false) (hr : Records t u ((b.read? t.tree).toList) ((b.assigned? t.tree).toList)) :
    Logged F s u [b] := by
  obtain ⟨hset, hfun⟩ := h.held hs he hc
  obtain rfl : b.entity = e := congrArg Prod.snd hb
  refine ⟨⟨?_, ?_, ?_, ?_, ?_⟩, ?_⟩
  · simp [hr.uses, h.uses, huse]
  · simp [hr.defs, h.defs hc, huse, hb]
  · rw [hr.reads, h.reads, hr.tree]
    exact congrArg _ (filterMap_singleton _ _).symm
  · rw [hr.assigns, h.assigns, hr.tree]
    exact congrArg _ (filterMap_singleton _ _).symm
  · simpa [hr.tree] using hset
  · simpa [Owned, hr.tree] using fun _ => hfun

/-- An entity has been made that no scope holds. -/
structure Created (x : Entity) (s t : State) (e : EntityId) : Prop where
  step : Step [] s t
  fresh : e = s.tree.entities.size
  known : e < t.tree.entities.size
  entity : t.tree.entity e = x
  uses : t.uses = s.uses
  defs : t.defs = s.defs
  reads : t.readFacts = s.readFacts
  assigns : t.assignFacts = s.assignFacts
  reports : t.reports = s.reports

theorem created_newEntity (hs : s.tree.Valid) {x : Entity} (hx : x.home = none)
    (hcodes : x.codes = []) : Created x s (s.after (newEntity x)) (newEntity x s).1 := by
  have hentity := ScopeTree.entity_addEntity s.tree x
  refine ⟨⟨hs.addEntity hx hcodes, ScopeTree.extends_addEntity _ _, rfl, rfl, fun e he _ => ?_, id⟩,
    rfl, ?_, ?_, rfl, rfl, rfl, rfl, rfl⟩
  · exact congrArg Entity.home ((hentity e).trans (if_neg (Nat.ne_of_lt he)))
  · change s.tree.entities.size < (s.tree.entities.push x).size
    rw [Array.size_push]
    exact Nat.lt_succ_self _
  · exact (hentity s.tree.entities.size).trans (if_pos rfl)

/-- A new entity under a name in the open scope. -/
theorem Created.declared {x : Entity} {name : Ident} {e : EntityId} (h : Created x s t e)
    (h' : Declared t u name e) : Step [] s u := by
  refine ⟨h'.valid, h.step.grows.trans h'.grows, h'.here.trans h.step.here,
    h'.funcs.trans h.step.funcs, fun i hi _ => ?_, fun hc => h.step.clean (h'.clean hc)⟩
  have hne : i ≠ e := by
    rw [h.fresh]
    exact Nat.ne_of_lt hi
  rw [h'.homes i hne, h.step.homes i hi List.not_mem_nil]

theorem Created.logged {x : Entity} {e : EntityId} {log : List Binding} (h : Created x s t e)
    (h' : Logged F t u log) : Logged F s u log :=
  ⟨h'.toEntries.congr h.uses h.defs h.reads h.assigns, h'.owned⟩

theorem records_assigns (s : State) (m : Mark) (e : EntityId) :
    Records s (s.after (assigns m e)) [] ((s.tree.ownVar? e).map (m.id, ·)).toList := by
  change Resolves (assigns m e) s fun _ t => Records s t [] _
  unfold assigns
  refine .followed ?_
  cases h : s.tree.ownVar? e with
  | none => exact .pure (.refl s)
  | some v => exact records_addFact s m (.assigns v)

/-- A new variable of the open scope, which may be assigned at once. -/
theorem logs_introduce (hs : Inside F s) (n : Node) (name : Ident) (type : Option Typ)
    (assigned : Bool) : Logs [] F s (s.after (introduce n.mark name type assigned)) fun log =>
      ∃ e, log = [⟨if assigned then .init else .declare, n, name, e⟩] := by
  let x : Entity := { kind := .var .local, name := name.text, type, pos := name.mark.pos }
  have ht : Created x s (s.after (newEntity x)) (newEntity x s).1 :=
    created_newEntity hs.valid rfl rfl
  have hin := ht.step.inside hs
  have hu := declared_declare hin name ht.known (by rw [ht.entity])
  cases assigned with
  | false =>
    refine ⟨ht.declared hu, fun hc => ?_⟩
    have hlog := hu.logged hin ht.known hc (b := ⟨.declare, n, name, _⟩) rfl rfl (.refl _)
    exact ⟨_, ht.logged hlog, _, rfl⟩
  | true =>
    have hv := records_assigns ((s.after (newEntity x)).after (declare name (newEntity x s).1)) n.mark
      (newEntity x s).1
    refine ⟨(ht.declared hu).trans (hv.step hu.valid), fun hc => ?_⟩
    have hlog := hu.logged hin ht.known (hv.reports ▸ hc) (b := ⟨.init, n, name, _⟩) rfl rfl hv
    exact ⟨_, ht.logged hlog, _, rfl⟩

/-! ### Scopes -/

/-- A scope has been opened inside that of `s`. -/
structure Opened (F : Option ScopeId) (s t : State) : Prop where
  inside : Inside F t
  grows : s.tree.Extends t.tree
  entities : t.tree.entities = s.tree.entities
  parent : (t.tree.scope t.here).parent = some s.here
  funcs : t.funcs = s.funcs
  uses : t.uses = s.uses
  defs : t.defs = s.defs
  reads : t.readFacts = s.readFacts
  assigns : t.assignFacts = s.assignFacts
  reports : t.reports = s.reports

/-- A new scope belongs to the function around it, or begins one. -/
theorem opened_openScope (hs : Inside F s) (m : Mark) (stop : Pos) (kind : ScopeKind)
    (name : String) {G : Option ScopeId}
    (hG : if kind = .function then F = none ∧ G = some s.tree.scopes.size else G = F) :
    Opened G s (s.after (openScope m stop kind name)) := by
  let x : Scope := { kind, name, parent := some s.here, pos := m.pos, stop }
  have hvalid : (s.tree.addScope x).2.Valid := hs.valid.addScope rfl hs.here_lt rfl
  have hgrows := ScopeTree.extends_addScope s.tree x
  have hself := ScopeTree.scope_addScope_self s.tree x
  have hlt : s.tree.scopes.size < (s.tree.addScope x).2.scopes.size := by
    rw [ScopeTree.size_addScope]
    exact Nat.lt_succ_self _
  have hparent : ((s.tree.addScope x).2.scope s.tree.scopes.size).parent = some s.here := by
    rw [hself]
  have hold (i : ScopeId) (hi : i < s.tree.scopes.size) :
      (s.tree.addScope x).2.function? (some i) = s.tree.function? (some i) :=
    hgrows.function? hs.valid hvalid hi
  have hfunction : (s.tree.addScope x).2.function? (some s.tree.scopes.size) = G := by
    split at hG
    · rw [hG.2]
      exact ScopeTree.function?_self hvalid hlt (by rw [hself]; assumption)
    · rw [ScopeTree.function?_parent hvalid hlt (by rw [hself]; assumption) hparent,
        hold s.here hs.here_lt, hs.function, hG]
  refine ⟨⟨hvalid, hlt, hfunction, fun i hi => ?_⟩, hgrows, rfl, hparent, rfl, rfl, rfl, rfl, rfl,
    rfl⟩
  change i ∈ (s.tree.addScope x).2.chain s.tree.scopes.size at hi
  rw [ScopeTree.chain_eq hvalid, hparent] at hi
  rcases List.mem_cons.1 hi with rfl | hi
  · exact .inr hfunction
  · rw [Option.elim_some, hgrows.chain hs.valid hvalid hs.here_lt] at hi
    have hi_lt := Nat.lt_of_le_of_lt (ScopeTree.lt_of_mem_chain hs.valid hi) hs.here_lt
    change (s.tree.addScope x).2.function? (some i) = none ∨
      (s.tree.addScope x).2.function? (some i) = G
    rw [hold i hi_lt]
    have haround := hs.around i hi
    split at hG
    · rw [hG.1, or_self] at haround
      exact .inl haround
    · rwa [hG]

/-- A scope inside a function belongs to it. -/
theorem opened_inner (hs : Inside F s) (m : Mark) (stop : Pos) (kind : ScopeKind)
    (hk : kind ≠ .function) : Opened F s (s.after (openScope m stop kind)) :=
  opened_openScope hs m stop kind "" (by rw [if_neg hk])

theorem records_shareScope (s : State) (m : Mark) : Records s (s.after (shareScope m)) [] [] :=
  ⟨rfl, rfl, rfl, rfl, rfl, rfl, (List.append_nil _).symm, (List.append_nil _).symm⟩

theorem Opened.close {P : List Binding → Prop} (ho : Opened F s t) (h : Logs ids F t u P) :
    Logs ids F s (u.after closeScope) P := by
  have hhere : ((u.tree.scope u.here).parent.getD ScopeTree.root) = s.here := by
    rw [h.step.here, h.step.grows.parent _ ho.inside.here_lt, ho.parent]
    rfl
  refine ⟨⟨h.step.valid, ho.grows.trans h.step.grows, hhere, h.step.funcs.trans ho.funcs,
    fun e he hn => ?_, fun hc => ?_⟩, fun hc => ?_⟩
  · rw [← ho.entities] at he
    exact (h.step.homes e he hn).trans (by rw [ScopeTree.entity, ScopeTree.entity, ho.entities])
  · rw [← ho.reports]
    exact h.step.clean hc
  · obtain ⟨log, hl, hp⟩ := h.logged hc
    have hentries := hl.toEntries.congr ho.uses ho.defs ho.reads ho.assigns
    exact ⟨log, ⟨⟨hentries.uses, hentries.defs, hentries.reads, hentries.assigns, hl.settled⟩,
      hl.owned⟩, hp⟩

end Resolve

end FlowCheck
