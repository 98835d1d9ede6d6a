import FlowCheck.Resolve.Basic
import Mathlib.Data.List.Find

/-!
# How scopes grow

Resolution only adds to the tree of scopes: what a scope is and where it stands never changes, an
entity keeps its name, and once a scope holds an entity it goes on to do so. `Valid` is what all
trees on the way have in common: a scope is younger than the one around it, and the members of a
scope are entities that know it as their home. So the variable that an entity is, and the function
that holds it, can be read off any later tree as well.
-/
namespace FlowCheck

/-- The codes of an entity that is a domain. -/
def Entity.codes (e : Entity) : List EntityId :=
  match e.kind with
  | .errorDomain codes => codes
  | _ => []

/-- An error domain, whatever its codes are. -/
def Entity.IsDomain (e : Entity) : Prop := ∃ codes, e.kind = .errorDomain codes

theorem Entity.IsDomain.asVar {x : Entity} (h : x.IsDomain) (e : EntityId) :
    Resolve.asVar e x = none := by
  obtain ⟨codes, h⟩ := h
  simp [Resolve.asVar, Entity.varKind?, h]

namespace ScopeTree

variable {t t' u : ScopeTree} {s p e : Nat}

structure Valid (t : ScopeTree) : Prop where
  parent_lt : ∀ s p : Nat, (t.scope s).parent = some p → p < s
  member : ∀ (s : Nat) (m : String × Nat), m ∈ (t.scope s).members → m.2 < t.entities.size ∧ (t.entity m.2).home = some s
  home_lt : ∀ e s : Nat, (t.entity e).home = some s → s < t.scopes.size
  code : ∀ d c : Nat, c ∈ (t.entity d).codes →
    c < t.entities.size ∧ Resolve.asVar c (t.entity c) = none

/-- What stays the same when a tree grows. -/
structure Extends (t t' : ScopeTree) : Prop where
  scopes_le : t.scopes.size ≤ t'.scopes.size
  entities_le : t.entities.size ≤ t'.entities.size
  kind : ∀ s : Nat, s < t.scopes.size → (t'.scope s).kind = (t.scope s).kind
  parent : ∀ s : Nat, s < t.scopes.size → (t'.scope s).parent = (t.scope s).parent
  asVar : ∀ e : Nat, e < t.entities.size → Resolve.asVar e (t'.entity e) = Resolve.asVar e (t.entity e)
  domain : ∀ e : Nat, e < t.entities.size → ((t'.entity e).IsDomain ↔ (t.entity e).IsDomain)
  home : ∀ e s : Nat, (t.entity e).home = some s → (t'.entity e).home = some s

theorem Extends.refl (t : ScopeTree) : Extends t t :=
  ⟨Nat.le_refl _, Nat.le_refl _, fun _ _ => rfl, fun _ _ => rfl, fun _ _ => rfl, fun _ _ => .rfl,
    fun _ _ h => h⟩

theorem Extends.trans (h : Extends t t') (h' : Extends t' u) : Extends t u where
  scopes_le := Nat.le_trans h.scopes_le h'.scopes_le
  entities_le := Nat.le_trans h.entities_le h'.entities_le
  kind s hs := (h'.kind s (Nat.lt_of_lt_of_le hs h.scopes_le)).trans (h.kind s hs)
  parent s hs := (h'.parent s (Nat.lt_of_lt_of_le hs h.scopes_le)).trans (h.parent s hs)
  asVar e he := (h'.asVar e (Nat.lt_of_lt_of_le he h.entities_le)).trans (h.asVar e he)
  domain e he := (h'.domain e (Nat.lt_of_lt_of_le he h.entities_le)).trans (h.domain e he)
  home e s hs := h'.home e s (h.home e s hs)

/-! ### The scopes around a scope -/

/-- A scope and the scopes around it, with fuel that is enough by its number. -/
def chain (t : ScopeTree) (s : ScopeId) : List ScopeId := t.enclosingWith (s + 1) (some s)

theorem enclosingWith_eq_chain (ht : t.Valid) {fuel : Nat} (hf : s + 1 ≤ fuel) :
    t.enclosingWith fuel (some s) = t.chain s := by
  induction s using Nat.strongRecOn generalizing fuel with
  | ind s ih =>
    obtain ⟨fuel, rfl⟩ : ∃ n, fuel = n + 1 := ⟨fuel - 1, by omega⟩
    rw [chain, enclosingWith, enclosingWith]
    cases hp : (t.scope s).parent with
    | none => cases fuel <;> cases s <;> simp [enclosingWith]
    | some p =>
      have hlt := ht.parent_lt s p hp
      rw [ih p hlt (by omega), ih p hlt (by omega)]

theorem chain_eq (ht : t.Valid) (s : ScopeId) :
    t.chain s = s :: ((t.scope s).parent.elim [] t.chain) := by
  rw [chain, enclosingWith]
  cases hp : (t.scope s).parent with
  | none => cases s <;> simp [enclosingWith]
  | some p => rw [enclosingWith_eq_chain ht (ht.parent_lt s p hp)]; rfl

theorem enclosing_eq_chain (ht : t.Valid) (hs : s < t.scopes.size) :
    t.enclosing (some s) = t.chain s := enclosingWith_eq_chain ht hs

theorem lt_of_mem_chain (ht : t.Valid) {i : ScopeId} (h : i ∈ t.chain s) : i ≤ s := by
  induction s using Nat.strongRecOn with
  | ind s ih =>
    rw [chain_eq ht] at h
    rcases List.mem_cons.1 h with rfl | h
    · exact Nat.le_refl _
    · cases hp : (t.scope s).parent with
      | none => simp [hp] at h
      | some p =>
        rw [hp] at h
        have hlt := ht.parent_lt s p hp
        exact Nat.le_trans (ih p hlt h) (Nat.le_of_lt hlt)

theorem Extends.chain (h : Extends t t') (ht : t.Valid) (ht' : t'.Valid) (hs : s < t.scopes.size) :
    t'.chain s = t.chain s := by
  induction s using Nat.strongRecOn with
  | ind s ih =>
    rw [chain_eq ht, chain_eq ht', h.parent s hs]
    cases hp : (t.scope s).parent with
    | none => rfl
    | some p =>
      have hlt := ht.parent_lt s p hp
      exact congrArg (List.cons s) (ih p hlt (Nat.lt_trans hlt hs))

theorem function?_eq (ht : t.Valid) (hs : s < t.scopes.size) :
    t.function? (some s) = (t.chain s).find? fun i => (t.scope i).kind = .function := by
  rw [function?, enclosing_eq_chain ht hs]

/-- A scope that belongs to no function by itself belongs to that of the scope around it. -/
theorem function?_parent (ht : t.Valid) (hs : s < t.scopes.size) (hk : (t.scope s).kind ≠ .function)
    (hp : (t.scope s).parent = some p) : t.function? (some s) = t.function? (some p) := by
  have hlt := ht.parent_lt s p hp
  rw [function?_eq ht hs, function?_eq ht (Nat.lt_trans hlt hs), chain_eq ht, hp]
  simp [hk]

theorem function?_self (ht : t.Valid) (hs : s < t.scopes.size) (hk : (t.scope s).kind = .function) :
    t.function? (some s) = some s := by
  rw [function?_eq ht hs, chain_eq ht]
  simp [hk]

theorem Extends.function? (h : Extends t t') (ht : t.Valid) (ht' : t'.Valid)
    (hs : s < t.scopes.size) : t'.function? (some s) = t.function? (some s) := by
  rw [function?_eq ht hs, function?_eq ht' (Nat.lt_of_lt_of_le hs h.scopes_le), h.chain ht ht' hs]
  apply List.find?_congr
  intro i hi
  rw [h.kind i (Nat.lt_of_le_of_lt (lt_of_mem_chain ht hi) hs)]

/-! ### Variables -/

/-- The variable that an entity is, if a function holds it. -/
def ownVar? (t : ScopeTree) (e : EntityId) : Option Var :=
  if (t.function? (t.entity e).home).isSome then Resolve.asVar e (t.entity e) else none

/-- It is settled whether an entity is a variable of a function: it is no variable at all, or some
scope holds it. -/
structure Settled (t : ScopeTree) (e : EntityId) : Prop where
  known : e < t.entities.size
  held : Resolve.asVar e (t.entity e) = none ∨ ∃ s, (t.entity e).home = some s

theorem Settled.extends (h : t.Settled e) (hx : Extends t t') : t'.Settled e := by
  refine ⟨Nat.lt_of_lt_of_le h.known hx.entities_le, ?_⟩
  rcases h.held with hn | ⟨s, hs⟩
  · exact .inl (by rw [hx.asVar e h.known, hn])
  · exact .inr ⟨s, hx.home e s hs⟩

theorem Settled.ownVar?_eq (h : t.Settled e) (hx : Extends t t') (ht : t.Valid) (ht' : t'.Valid) :
    t'.ownVar? e = t.ownVar? e := by
  rw [ownVar?, ownVar?, hx.asVar e h.known]
  rcases h.held with hn | ⟨s, hs⟩
  · rw [hn]
    split <;> split <;> rfl
  · rw [hs, hx.home e s hs, hx.function? ht ht' (ht.home_lt e s hs)]

theorem ownVar?_of_home (hs : (t.entity e).home = some s) (hf : t.function? (some s) = none) :
    t.ownVar? e = none := by
  rw [ownVar?, hs, hf]
  rfl

theorem ownVar?_of_function {f : ScopeId} (hs : (t.entity e).home = some s)
    (hf : t.function? (some s) = some f) : t.ownVar? e = Resolve.asVar e (t.entity e) := by
  rw [ownVar?, hs, hf]
  rfl

/-! ### What the operations do -/

theorem entity_of_size_le (h : t.entities.size ≤ e) : t.entity e = { kind := .typeName, name := "" } := by
  simp [entity, Array.getD_eq_getD_getElem?, h]

theorem lt_size_of_home (h : (t.entity e).home = some s) : e < t.entities.size := by
  by_cases he : e < t.entities.size
  · exact he
  · simp [entity_of_size_le (Nat.le_of_not_lt he)] at h

theorem entity_addEntity (t : ScopeTree) (x : Entity) (e : Nat) :
    (t.addEntity x).2.entity e = if e = t.entities.size then x else t.entity e := by
  simp only [addEntity, entity, Array.getD_eq_getD_getElem?, Array.getElem?_push]
  split <;> rfl

theorem entity_setEntity (t : ScopeTree) (i : Nat) (f : Entity → Entity) (e : Nat) :
    (t.setEntity i f).entity e =
      if e = i ∧ e < t.entities.size then f (t.entity e) else t.entity e := by
  simp only [setEntity, entity, Array.getD_eq_getD_getElem?, Array.getElem?_modify]
  by_cases he : e < t.entities.size
  · by_cases hi : i = e
    · subst hi
      simp [he]
    · simp [hi, Ne.symm hi]
  · simp [he]

theorem Valid.addEntity (ht : t.Valid) {x : Entity} (hx : x.home = none) (hc : x.codes = []) :
    (t.addEntity x).2.Valid where
  parent_lt := ht.parent_lt
  member s m hm := by
    obtain ⟨hlt, hh⟩ := ht.member s m hm
    refine ⟨by simp [ScopeTree.addEntity]; omega, ?_⟩
    rw [entity_addEntity, if_neg (Nat.ne_of_lt hlt), hh]
  home_lt e s hs := by
    rw [entity_addEntity] at hs
    split at hs
    · simp [hx] at hs
    · exact ht.home_lt e s hs
  code d c h := by
    rw [entity_addEntity] at h
    split at h
    · simp [hc] at h
    · obtain ⟨hlt, hv⟩ := ht.code d c h
      refine ⟨by simp [ScopeTree.addEntity]; omega, ?_⟩
      rw [entity_addEntity, if_neg (Nat.ne_of_lt hlt), hv]

theorem extends_addEntity (t : ScopeTree) (x : Entity) : Extends t (t.addEntity x).2 where
  scopes_le := Nat.le_refl _
  entities_le := by simp [addEntity]
  kind _ _ := rfl
  parent _ _ := rfl
  asVar e he := by rw [entity_addEntity, if_neg (Nat.ne_of_lt he)]
  domain e he := by rw [entity_addEntity, if_neg (Nat.ne_of_lt he)]
  home e s hs := by rw [entity_addEntity, if_neg (Nat.ne_of_lt (lt_size_of_home hs)), hs]

/-- A change that keeps what an entity is called and where it is. -/
theorem extends_setEntity (t : ScopeTree) (i : Nat) {f : Entity → Entity}
    (hv : Resolve.asVar i (f (t.entity i)) = Resolve.asVar i (t.entity i))
    (hd : (f (t.entity i)).IsDomain ↔ (t.entity i).IsDomain)
    (hh : ∀ s, (t.entity i).home = some s → (f (t.entity i)).home = some s) :
    Extends t (t.setEntity i f) where
  scopes_le := Nat.le_refl _
  entities_le := by simp [setEntity]
  kind _ _ := rfl
  parent _ _ := rfl
  asVar e _ := by
    rw [entity_setEntity]
    split
    · rename_i h
      rw [h.1, hv]
    · rfl
  domain e _ := by
    rw [entity_setEntity]
    split
    · rename_i h
      rw [h.1, hd]
    · rfl
  home e s hs := by
    rw [entity_setEntity]
    split
    · rename_i h
      exact h.1 ▸ hh s (h.1 ▸ hs)
    · exact hs

theorem Valid.setEntity (ht : t.Valid) (i : Nat) {f : Entity → Entity}
    (hv : Resolve.asVar i (f (t.entity i)) = Resolve.asVar i (t.entity i))
    (hd : (f (t.entity i)).IsDomain ↔ (t.entity i).IsDomain)
    (hh : (f (t.entity i)).home = (t.entity i).home)
    (hc : ∀ c ∈ (f (t.entity i)).codes,
      c < t.entities.size ∧ Resolve.asVar c (t.entity c) = none) : (t.setEntity i f).Valid := by
  have hhome (e : Nat) : ((t.setEntity i f).entity e).home = (t.entity e).home := by
    rw [entity_setEntity]
    split
    · rename_i h
      rw [h.1, hh]
    · rfl
  have hsize : (t.setEntity i f).entities.size = t.entities.size := by simp [ScopeTree.setEntity]
  have hext : Extends t (t.setEntity i f) := extends_setEntity t i hv hd fun s hs => hh.trans hs
  refine ⟨ht.parent_lt, fun s m hm => ?_, fun e s hs => ?_, fun d c h => ?_⟩
  · rw [hhome, hsize]
    exact ht.member s m hm
  · rw [hhome] at hs
    exact ht.home_lt e s hs
  · have hold : c < t.entities.size ∧ Resolve.asVar c (t.entity c) = none := by
      rw [entity_setEntity] at h
      split at h
      · rename_i hd
        exact hc c (hd.1 ▸ h)
      · exact ht.code d c h
    rw [hsize, hext.asVar c hold.1]
    exact hold

theorem size_addScope (t : ScopeTree) (x : Scope) :
    (t.addScope x).2.scopes.size = t.scopes.size + 1 := by
  unfold addScope
  cases x.parent <;> simp

theorem scope_addScope_self (t : ScopeTree) (x : Scope) :
    (t.addScope x).2.scope t.scopes.size = x := by
  unfold addScope scope
  cases x.parent <;> simp [Array.getD_eq_getD_getElem?, Array.getElem_push]

/-- The scopes that are there already get at most one more child. -/
theorem scope_addScope {i : Nat} (hi : i ≠ t.scopes.size) (x : Scope) :
    ∃ children, (t.addScope x).2.scope i = { t.scope i with children } := by
  unfold addScope scope
  cases x.parent with
  | none => exact ⟨(t.scope i).children, by simp [scope, Array.getD_eq_getD_getElem?,
      Array.getElem?_push, hi]⟩
  | some p =>
    by_cases hp : p = i ∧ i < t.scopes.size
    · refine ⟨(t.scope i).children ++ [t.scopes.size], ?_⟩
      simp [scope, Array.getD_eq_getD_getElem?, Array.getElem?_push, Array.getElem_modify, hi, hp]
    · refine ⟨(t.scope i).children, ?_⟩
      by_cases hlt : i < t.scopes.size
      · have hne : p ≠ i := fun e => hp ⟨e, hlt⟩
        simp [scope, Array.getD_eq_getD_getElem?, Array.getElem?_push, Array.getElem?_modify, hi, hne]
      · simp [scope, Array.getD_eq_getD_getElem?, Array.getElem?_push, hi, hlt]

theorem extends_addScope (t : ScopeTree) (x : Scope) : Extends t (t.addScope x).2 where
  scopes_le := by simp [size_addScope]
  entities_le := Nat.le_refl _
  kind s hs := by
    obtain ⟨_, h⟩ := scope_addScope (Nat.ne_of_lt hs) x
    rw [h]
  parent s hs := by
    obtain ⟨_, h⟩ := scope_addScope (Nat.ne_of_lt hs) x
    rw [h]
  asVar _ _ := rfl
  domain _ _ := .rfl
  home _ _ h := h

theorem Valid.addScope (ht : t.Valid) {x : Scope} (hp : x.parent = some p)
    (hlt : p < t.scopes.size) (hm : x.members = []) : (t.addScope x).2.Valid where
  parent_lt s q hq := by
    by_cases hs : s = t.scopes.size
    · rw [hs, scope_addScope_self, hp] at hq
      cases hq
      exact hs ▸ hlt
    · obtain ⟨_, h⟩ := scope_addScope hs x
      rw [h] at hq
      exact ht.parent_lt s q hq
  member s m h := by
    by_cases hs : s = t.scopes.size
    · rw [hs, scope_addScope_self, hm] at h
      cases h
    · obtain ⟨_, e⟩ := scope_addScope hs x
      rw [e] at h
      exact ht.member s m h
  home_lt e s hs := by
    rw [size_addScope]
    exact Nat.lt_succ_of_lt (ht.home_lt e s hs)
  code := ht.code

/-- What is left of a tree when an entity is put into a scope. -/
theorem insert_eq (h : (t.scope s).find? (t.entity e).name = none) :
    t.insert s e = (none,
      { t.setEntity e fun x => { x with home := some s } with
        scopes := t.scopes.modify s fun x =>
          { x with members := x.members ++ [((t.entity e).name, e)] } }) := by
  rw [insert, h]
  rfl

section

variable (h : (t.scope s).find? (t.entity e).name = none)

include h

theorem entity_insert (i : Nat) :
    (t.insert s e).2.entity i =
      if i = e ∧ i < t.entities.size then { t.entity i with home := some s } else t.entity i := by
  rw [insert_eq h]
  exact entity_setEntity t e _ i

theorem scope_insert (i : Nat) :
    (t.insert s e).2.scope i = if i = s ∧ i < t.scopes.size then
      { t.scope i with members := (t.scope i).members ++ [((t.entity e).name, e)] }
      else t.scope i := by
  rw [insert_eq h]
  simp only [scope, Array.getD_eq_getD_getElem?, Array.getElem?_modify]
  by_cases hi : i < t.scopes.size
  · by_cases hs : s = i
    · subst hs
      simp [hi]
    · simp [hs, Ne.symm hs]
  · simp [hi]

end

theorem insert_taken {x : EntityId} (h : (t.scope s).find? (t.entity e).name = some x) :
    t.insert s e = (some x, t) := by
  rw [insert, h]

theorem size_entities_insert (t : ScopeTree) (s e : Nat) :
    (t.insert s e).2.entities.size = t.entities.size := by
  cases h : (t.scope s).find? (t.entity e).name with
  | some x => rw [insert_taken h]
  | none =>
    rw [insert_eq h]
    simp [setEntity]

theorem size_scopes_insert (t : ScopeTree) (s e : Nat) :
    (t.insert s e).2.scopes.size = t.scopes.size := by
  cases h : (t.scope s).find? (t.entity e).name with
  | some x => rw [insert_taken h]
  | none => simp [insert_eq h]

/-- Putting an entity into a scope changes nothing about the entities that a scope holds. -/
theorem extends_insert (hn : (t.entity e).home = none) (s : Nat) : Extends t (t.insert s e).2 := by
  cases h : (t.scope s).find? (t.entity e).name with
  | some x =>
    rw [insert_taken h]
    exact .refl t
  | none =>
    refine ⟨Nat.le_of_eq (size_scopes_insert t s e).symm,
      Nat.le_of_eq (size_entities_insert t s e).symm, fun i _ => ?_, fun i _ => ?_, fun i _ => ?_,
      fun i _ => ?_, fun i j hj => ?_⟩
    · rw [scope_insert h]
      split <;> rfl
    · rw [scope_insert h]
      split <;> rfl
    · rw [entity_insert h]
      split <;> rfl
    · rw [entity_insert h]
      split <;> rfl
    · rw [entity_insert h, if_neg ?_, hj]
      rintro ⟨rfl, -⟩
      rw [hn] at hj
      cases hj

theorem Valid.insert (ht : t.Valid) (he : e < t.entities.size) (hs : s < t.scopes.size)
    (hn : (t.entity e).home = none) : (t.insert s e).2.Valid := by
  cases h : (t.scope s).find? (t.entity e).name with
  | some x =>
    rw [insert_taken h]
    exact ht
  | none =>
    refine ⟨fun i p hp => ?_, fun i m hm => ?_, fun i j hj => ?_, fun d c hc => ?_⟩
    · rw [scope_insert h] at hp
      split at hp <;> exact ht.parent_lt i p hp
    · have hold (hm : m ∈ (t.scope i).members) :
          m.2 < t.entities.size ∧ ((t.insert s e).2.entity m.2).home = some i := by
        obtain ⟨hlt, hh⟩ := ht.member i m hm
        exact ⟨hlt, (extends_insert hn s).home m.2 i hh⟩
      rw [size_entities_insert]
      rw [scope_insert h] at hm
      split at hm
      · rename_i hi
        rcases List.mem_append.1 hm with hm | hm
        · exact hold hm
        · obtain rfl := List.mem_singleton.1 hm
          exact ⟨he, by rw [entity_insert h, if_pos ⟨rfl, he⟩, hi.1]⟩
      · exact hold hm
    · rw [size_scopes_insert]
      rw [entity_insert h] at hj
      split at hj
      · cases hj
        exact hs
      · exact ht.home_lt i j hj
    · have hcodes : ((t.insert s e).2.entity d).codes = (t.entity d).codes := by
        rw [entity_insert h]
        split <;> rfl
      rw [hcodes] at hc
      obtain ⟨hlt, hv⟩ := ht.code d c hc
      rw [size_entities_insert, (extends_insert hn s).asVar c hlt]
      exact ⟨hlt, hv⟩

/-- What a name is found to denote is held by one of the scopes around. -/
theorem home_of_resolve? (ht : t.Valid) (hs : s < t.scopes.size) {name : String} {i : ScopeId}
    (h : t.resolve? (some s) name = some (e, i)) :
    i ∈ t.chain s ∧ e < t.entities.size ∧ (t.entity e).home = some i := by
  rw [resolve?, enclosing_eq_chain ht hs] at h
  obtain ⟨j, hj, hf⟩ := List.exists_of_findSome?_eq_some h
  obtain ⟨e', he, hp⟩ := Option.map_eq_some_iff.1 hf
  cases hp
  obtain ⟨before, after, hm, -⟩ := List.lookup_eq_some_iff.1 he
  exact ⟨hj, ht.member i (name, e) (by simp [hm])⟩

/-- A code is added to a domain. -/
theorem Valid.addCode (ht : t.Valid) {d : Nat} (hd : d < t.entities.size)
    (hv : (t.entity d).IsDomain) (pos : Pos) (name : String) :
    (t.addCode d pos name).2.2.Valid ∧ Extends t (t.addCode d pos name).2.2 ∧
      ∀ e : Nat, e < t.entities.size →
        ((t.addCode d pos name).2.2.entity e).home = (t.entity e).home := by
  unfold ScopeTree.addCode
  split
  · exact ⟨ht, .refl t, fun _ _ => rfl⟩
  · let x : Entity :=
      { kind := .errorCode, name, pos, type := some (.error (.code ⟨d, (t.entity d).name⟩ name)) }
    have hmore := ht.addEntity (x := x) rfl rfl
    have hgrown := extends_addEntity t x
    have hentity := entity_addEntity t x
    let f : Entity → Entity := fun e =>
      { e with kind := .errorDomain ((t.addEntity x).2.codes d ++ [t.entities.size]) }
    have hold : ((t.addEntity x).2.entity d).IsDomain := (hgrown.domain d hd).2 hv
    have hnew : (f ((t.addEntity x).2.entity d)).IsDomain := ⟨_, rfl⟩
    have hvar : Resolve.asVar d (f ((t.addEntity x).2.entity d)) =
        Resolve.asVar d ((t.addEntity x).2.entity d) := (hnew.asVar d).trans (hold.asVar d).symm
    have hboth := iff_of_true hnew hold
    have hsame := extends_setEntity (t.addEntity x).2 d hvar hboth fun _ h => h
    refine ⟨hmore.setEntity d hvar hboth rfl fun c hc => ?_, hgrown.trans hsame, fun e he => ?_⟩
    · rcases List.mem_append.1 hc with hc | hc
      · exact hmore.code d c hc
      · obtain rfl := List.mem_singleton.1 hc
        refine ⟨by simp [ScopeTree.addEntity], ?_⟩
        exact congrArg (Resolve.asVar _) ((hentity _).trans (if_pos rfl))
    · refine Eq.trans ?_ (congrArg Entity.home ((hentity e).trans (if_neg (Nat.ne_of_lt he))))
      rw [entity_setEntity]
      split <;> rfl

/-- Entities that are added and put into a scope at once, as the predeclared ones are. -/
theorem valid_foldl {s : Nat} (es : List Entity)
    (hes : ∀ e ∈ es, e.home = none ∧ e.codes = []) (t : ScopeTree)
    (ht : t.Valid) (hs : s < t.scopes.size) :
    (es.foldl (fun t e => ((t.addEntity e).2.insert s (t.addEntity e).1).2) t).Valid := by
  induction es generalizing t with
  | nil => exact ht
  | cons e es ih =>
    rw [List.forall_mem_cons] at hes
    apply ih hes.2
    · apply (ht.addEntity hes.1.1 hes.1.2).insert _ hs
      · simp [addEntity, entity, hes.1.1]
      · simp [addEntity]
    · rw [size_scopes_insert]
      exact hs

theorem valid_initial : initial.Valid := by
  have hroot : (({} : ScopeTree).addScope { kind := .root }).2.Valid := by
    refine ⟨fun s p hp => ?_, fun s m hm => ?_, fun e s hs => ?_, fun d c hc => ?_⟩
    · cases s <;> simp [addScope, scope] at hp
    · cases s <;> simp [addScope, scope] at hm
    · simp [addScope, entity] at hs
    · simp [addScope, entity, Entity.codes] at hc
  apply valid_foldl predeclared _ _ hroot (by decide)
  simp [predeclared, Entity.codes]

end ScopeTree

end FlowCheck
