import FlowCheck.Proofs.Build.Steps

/-!
# Building the ways out

A jump or an error leaves the block at the cursor along edges that lead through every `finally`
block on its way. Only the block at the cursor and the ends of `finally` blocks get edges by this.
-/
namespace FlowCheck.Build

/-- The ends of the `finally` blocks among targets. -/
def lasts (T : List Target) : List BlockId :=
  T.filterMap fun
    | .cleanup _ last => last
    | _ => none

/-- A target is made of blocks that edges may enter and leave. -/
def Fits (g : Graph) : Target → Prop
  | .landing _ b | .escape b | .handler _ b => Goal g b
  | .cleanup entry last => Goal g entry ∧ ∀ l, last = some l → Source g l
  | .barrier => True

/-- Errors find a place to go among the targets, and returns either do or are refused. -/
structure Grounded (T : List Target) : Prop where
  escape : ∃ b, Target.escape b ∈ T
  ret : Target.barrier ∈ T ∨ ∃ b, Target.landing .functionEnd b ∈ T

theorem Grounded.append {T : List Target} (h : Grounded T) (T' : List Target) :
    Grounded (T' ++ T) := by
  obtain ⟨⟨b, hb⟩, hr⟩ := h
  refine ⟨⟨b, List.mem_append_right _ hb⟩, ?_⟩
  rcases hr with hr | ⟨c, hc⟩
  · exact .inl (List.mem_append_right _ hr)
  · exact .inr ⟨c, List.mem_append_right _ hc⟩

theorem Fits.later {s s' : State} {a : Target} (h : Later s s') (ha : Fits s.graph a) :
    Fits s'.graph a := by
  cases a with
  | landing exit b => exact h.goal ha
  | escape b => exact h.goal ha
  | handler accepts b => exact h.goal ha
  | cleanup entry last => exact ⟨h.goal ha.1, fun l hl => h.source (ha.2 l hl)⟩
  | barrier => trivial

theorem lasts_cons_cleanup (entry : BlockId) (last : Option BlockId) (T : List Target)
    {c : BlockId} :
    c ∈ lasts (.cleanup entry last :: T) ↔ last = some c ∨ c ∈ lasts T := by
  simp [lasts]

theorem mem_lasts_cons {a : Target} {T : List Target} {c : BlockId} (h : c ∈ lasts T) :
    c ∈ lasts (a :: T) := by
  obtain ⟨x, hx, hc⟩ := List.mem_filterMap.mp h
  exact List.mem_filterMap.mpr ⟨x, List.mem_cons_of_mem a hx, hc⟩

theorem lasts_append (T T' : List Target) : lasts (T ++ T') = lasts T ++ lasts T' :=
  List.filterMap_append

theorem source_of_mem_lasts {g : Graph} {T : List Target} {c : BlockId}
    (hT : ∀ a ∈ T, Fits g a) (hc : c ∈ lasts T) : Source g c := by
  obtain ⟨x, hx, hlast⟩ := List.mem_filterMap.mp hc
  cases x with
  | cleanup entry last => exact (hT _ hx).2 c hlast
  | landing exit b => cases hlast
  | escape b => cases hlast
  | handler accepts b => cases hlast
  | barrier => cases hlast

/-- The blocks that a departure under targets may add edges to. -/
def Leaving (c₀ : Option BlockId) (T : List Target) (c : BlockId) : Prop :=
  c₀ = some c ∨ c ∈ lasts T

section

variable {s : State} {T : List Target}

/-- One edge from the cursor, after which the cursor may be anywhere. -/
theorem wired_connectHere {c : Option BlockId} {b : BlockId} (hs : Safe s) (hb : Goal s.graph b)
    (w : Bool) : Wired (Leaving s.cursor T) s
      { s.withEdge s.cursor b with cursor := c, warned := w } := by
  have h : Wired (Leaving s.cursor T) s (s.withEdge s.cursor b) :=
    (wired_withEdge hs.sane hs.cursor hb).mono fun _ => .inl
  exact h.trans (.of_graph_eq h.sane rfl List.prefix_rfl)

theorem safe_passThrough {entry : BlockId} {last : Option BlockId} (hs : Safe s)
    (ha : Fits s.graph (.cleanup entry last)) :
    Safe { s.withEdge s.cursor entry with cursor := last } := by
  have h := wired_withEdge hs.sane hs.cursor ha.1
  exact ⟨h.sane, fun b hb => h.later.source (ha.2 b hb)⟩

theorem leaving_passThrough {entry : BlockId} {last : Option BlockId} {c : BlockId}
    (h : Leaving last T c) (c₀ : Option BlockId) : Leaving c₀ (.cleanup entry last :: T) c :=
  .inr ((lasts_cons_cleanup entry last T).mpr h)

/-! ### Jumps -/

/-- What a jump leaves behind: if it found a landing, the way to it. -/
structure Jumped (wanted : Exit) (T : List Target) (s : State) (found : Bool) (s' : State) :
    Prop where
  safe : Safe s'
  wired : Wired (Leaving s.cursor T) s s'
  landed : found = true → s'.cursor = none ∧
    ∀ b, s.cursor = some b → s'.graph.Leads (.jump wanted) b T

namespace Jumped

variable {s' : State} {a : Target} {wanted : Exit} {found : Bool}

theorem past (h : Jumped wanted T s found s') (hignores : a.ignores (.jump wanted) = true) :
    Jumped wanted (a :: T) s found s' := by
  refine ⟨h.safe, h.wired.mono fun c => Or.imp_right mem_lasts_cons, fun hfound => ?_⟩
  obtain ⟨hc, hl⟩ := h.landed hfound
  exact ⟨hc, fun b hb => .past hignores (hl b hb)⟩

theorem through {entry : BlockId} {last : Option BlockId} (hs : Safe s)
    (ha : Fits s.graph (.cleanup entry last))
    (h : Jumped wanted T { s.withEdge s.cursor entry with cursor := last } found s') :
    Jumped wanted (.cleanup entry last :: T) s found s' := by
  have hwired := wired_connectHere (T := .cleanup entry last :: T) (c := last) hs ha.1 s.warned
  refine ⟨h.safe, hwired.trans (h.wired.mono fun c hc => leaving_passThrough hc s.cursor), ?_⟩
  intro hfound
  obtain ⟨hc, hl⟩ := h.landed hfound
  exact ⟨hc, fun b hb => .through (h.wired.later.succs (edge_withCursor hs hb)) hl⟩

end Jumped

theorem runs_jump (pos : Pos) (wanted : Exit) (hs : Safe s) (hT : ∀ a ∈ T, Fits s.graph a) :
    Runs (jump pos wanted T) s fun found s' => Jumped wanted T s found s' := by
  induction T generalizing s with
  | nil => exact ⟨hs, .refl hs.sane, by simp⟩
  | cons a rest ih =>
    have hrest : ∀ x ∈ rest, Fits s.graph x := fun x hx => hT x (List.mem_cons_of_mem a hx)
    have ha : Fits s.graph a := hT a List.mem_cons_self
    cases a with
    | landing exit b =>
      by_cases hexit : exit = wanted
      · subst hexit
        rw [jump, if_pos rfl]
        refine ⟨⟨?_, by simp⟩, wired_connectHere hs ha false, ?_⟩
        · exact (wired_withEdge hs.sane hs.cursor ha).sane
        · intro _
          refine ⟨rfl, fun c hc => .taken (b := b) (by simp [Target.takes]) ?_⟩
          exact edge_withCursor hs hc
      · rw [jump, if_neg hexit]
        refine (ih hs hrest).mono fun _ _ h => h.past ?_
        simp [Target.ignores, Target.takes, hexit]
    | escape b =>
      rw [jump]
      · exact (ih hs hrest).mono fun _ _ h => h.past rfl
      all_goals simp
    | handler accepts b =>
      rw [jump]
      · exact (ih hs hrest).mono fun _ _ h => h.past rfl
      all_goals simp
    | barrier =>
      rw [jump]
      exact trivial
    | cleanup entry last =>
      rw [jump]
      have hfits : ∀ x ∈ rest, Fits (s.withEdge s.cursor entry).graph x := fun x hx =>
        (hrest x hx).later (wired_withEdge hs.sane hs.cursor ha.1).later
      exact (ih (safe_passThrough hs ha) hfits).mono fun _ _ h => h.through hs ha

/-! ### Errors -/

/-- Two error types that share an error are nested. -/
theorem nested_of_is {x : Execution.Failure} {a e : ErrorType} (ha : x.Is a) (he : x.Is e) :
    a.covers e = true ∨ e.covers a = true := by
  cases a <;> cases e <;> simp_all [Execution.Failure.Is, ErrorType.covers]

/-- What a raised error type leaves behind: a way out for each of its errors, if there is an end to
all ways out. -/
structure Raised (e : ErrorType) (T : List Target) (s s' : State) : Prop where
  safe : Safe s'
  wired : Wired (Leaving s.cursor T) s s'
  leads : (∃ b, Target.escape b ∈ T) → ∀ x : Execution.Failure, x.Is e →
    ∀ b, s.cursor = some b → s'.graph.Leads (.error x) b T

namespace Raised

variable {s' : State} {a : Target} {e : ErrorType}

theorem past (h : Raised e T s s')
    (hignores : ∀ x : Execution.Failure, x.Is e → a.ignores (.error x) = true)
    (hne : ∀ b, a ≠ .escape b) : Raised e (a :: T) s s' := by
  refine ⟨h.safe, h.wired.mono fun c => Or.imp_right mem_lasts_cons, ?_⟩
  rintro ⟨b, hb⟩ x hx c hc
  have hb' := (List.mem_cons.mp hb).resolve_left (hne b).symm
  exact .past (hignores x hx) (h.leads ⟨b, hb'⟩ x hx c hc)

theorem taken {b : BlockId} (hs : Safe s) (hb : Goal s.graph b) (w : Bool)
    (htakes : ∀ x : Execution.Failure, x.Is e → a.takes (.error x) = some b) :
    Raised e (a :: T) s { s.withEdge s.cursor b with cursor := none, warned := w } := by
  refine ⟨⟨(wired_withEdge hs.sane hs.cursor hb).sane, by simp⟩, wired_connectHere hs hb w, ?_⟩
  intro _ x hx c hc
  exact .taken (htakes x hx) (edge_withCursor hs hc)

theorem handled {accepts : ErrorType} {b : BlockId} (hs : Safe s) (hb : Goal s.graph b)
    (h : Raised e T (s.withEdge s.cursor b) s') : Raised e (.handler accepts b :: T) s s' := by
  have hwired : Wired (Leaving s.cursor (.handler accepts b :: T)) s (s.withEdge s.cursor b) :=
    (wired_withEdge hs.sane hs.cursor hb).mono fun _ => .inl
  refine ⟨h.safe, hwired.trans (h.wired.mono fun c => Or.imp_right mem_lasts_cons), ?_⟩
  rintro ⟨d, hd⟩ x hx c hc
  have hd' := (List.mem_cons.mp hd).resolve_left (by simp)
  by_cases hacc : x.Is accepts
  · refine .taken (b := b) (by simp [Target.takes, hacc]) (h.wired.later.succs ?_)
    exact edge_withCursor hs hc
  · exact .past (by simp [Target.ignores, Target.takes, hacc]) (h.leads ⟨d, hd'⟩ x hx c hc)

theorem through {entry : BlockId} {last : Option BlockId} (hs : Safe s)
    (ha : Fits s.graph (.cleanup entry last))
    (h : Raised e T { s.withEdge s.cursor entry with cursor := last } s') :
    Raised e (.cleanup entry last :: T) s s' := by
  have hwired := wired_connectHere (T := .cleanup entry last :: T) (c := last) hs ha.1 s.warned
  refine ⟨h.safe, hwired.trans (h.wired.mono fun c hc => leaving_passThrough hc s.cursor), ?_⟩
  rintro ⟨d, hd⟩ x hx c hc
  have hd' := (List.mem_cons.mp hd).resolve_left (by simp)
  exact .through (h.wired.later.succs (edge_withCursor hs hc)) (h.leads ⟨d, hd'⟩ x hx)

end Raised

theorem runs_raise (e : ErrorType) (hs : Safe s) (hT : ∀ a ∈ T, Fits s.graph a) :
    Runs (raise e T) s fun _ s' => Raised e T s s' := by
  induction T generalizing s with
  | nil => exact ⟨hs, .refl hs.sane, by simp⟩
  | cons a rest ih =>
    have hrest : ∀ x ∈ rest, Fits s.graph x := fun x hx => hT x (List.mem_cons_of_mem a hx)
    have ha : Fits s.graph a := hT a List.mem_cons_self
    cases a with
    | landing exit b =>
      exact (ih hs hrest).mono fun _ _ h => h.past (fun _ _ => rfl) (by simp)
    | barrier => exact (ih hs hrest).mono fun _ _ h => h.past (fun _ _ => rfl) (by simp)
    | escape b =>
      rw [raise]
      exact Raised.taken hs ha false fun _ _ => rfl
    | handler accepts b =>
      rw [raise]
      split_ifs with hcovers hpart
      · refine Raised.taken hs ha false fun x hx => ?_
        have hacc : x.Is accepts := ErrorType.covers_trans hcovers hx
        simp [Target.takes, hacc]
      · have hwired := wired_withEdge hs.sane hs.cursor ha
        have hsafe : Safe (s.withEdge s.cursor b) :=
          ⟨hwired.sane, fun c hc => hwired.later.source (hs.cursor c hc)⟩
        refine (ih hsafe fun x hx => (hrest x hx).later hwired.later).mono ?_
        exact fun _ _ h => h.handled hs ha
      · refine (ih hs hrest).mono fun _ _ h => h.past (fun x hx => ?_) (by simp)
        have hacc : ¬ x.Is accepts := fun hacc => (nested_of_is hacc hx).elim hcovers hpart
        simp [Target.ignores, Target.takes, hacc]
    | cleanup entry last =>
      rw [raise]
      have hfits : ∀ x ∈ rest, Fits (s.withEdge s.cursor entry).graph x := fun x hx =>
        (hrest x hx).later (wired_withEdge hs.sane hs.cursor ha.1).later
      exact (ih (safe_passThrough hs ha) hfits).mono fun _ _ h => h.through hs ha

/-- Raising an error never fails. -/
theorem exists_ok_raise (e : ErrorType) (T : List Target) (s : State) :
    ∃ s', raise e T s = .ok () s' := by
  induction T generalizing s with
  | nil => exact ⟨s, rfl⟩
  | cons t T ih =>
    cases t with
    | escape b => exact ⟨_, rfl⟩
    | handler accepts b =>
      rw [raise]
      split_ifs
      · exact ⟨_, rfl⟩
      · exact ih (s.withEdge s.cursor b)
      · exact ih s
    | cleanup entry last => exact ih { s.withEdge s.cursor entry with cursor := last }
    | landing exit b => exact ih s
    | barrier => exact ih s

theorem raiseAll_cons (T : List Target) (fork : Option BlockId) (e : ErrorType)
    (errors : List ErrorType) : raiseAll T fork (e :: errors) =
      ((moveTo fork >>= fun _ => raise e T) >>= fun _ => raiseAll T fork errors) := rfl

theorem runs_raiseAll {b : BlockId} (errors : List ErrorType) (hs : Sane s.graph)
    (hb : Source s.graph b) (hT : ∀ a ∈ T, Fits s.graph a) :
    Runs (raiseAll T (some b) errors) s fun _ s' =>
      Wired (Leaving (some b) T) s s' ∧
      ((∃ c, Target.escape c ∈ T) → ∀ e ∈ errors, ∀ x : Execution.Failure, x.Is e →
        s'.graph.Leads (.error x) b T) := by
  induction errors generalizing s with
  | nil => exact ⟨.refl hs, by simp⟩
  | cons e errors ih =>
    have hstart : Wired (Leaving (some b) T) s { s with cursor := some b } :=
      .of_graph_eq hs rfl List.prefix_rfl
    have hsafe : Safe { s with cursor := some b } := ⟨hs, fun c hc => by cases hc; exact hb⟩
    have hraise := runs_raise e hsafe hT
    rw [raiseAll_cons, runs_bind, runs_bind, runs_moveTo]
    refine hraise.mono ?_
    rintro _ s₁ ⟨hsafe₁, hwired₁, hlead₁⟩
    refine (ih hsafe₁.sane (hwired₁.later.source hb) fun a ha =>
      (hT a ha).later hwired₁.later).mono ?_
    rintro _ s₂ ⟨hwired₂, hlead₂⟩
    refine ⟨(hstart.trans hwired₁).trans hwired₂, ?_⟩
    intro hescape e' he' x hx
    rcases List.mem_cons.mp he' with rfl | he'
    · exact (hlead₁ hescape x hx b rfl).mono hwired₂.later.succs
    · exact hlead₂ hescape e' he' x hx

theorem completes_raiseAll (T : List Target) (fork : Option BlockId) (errors : List ErrorType)
    (s : State) : Completes (raiseAll T fork errors) s := by
  induction errors generalizing s with
  | nil => exact completes_pure () s
  | cons e errors ih =>
    rw [raiseAll_cons]
    refine Completes.bind ?_ fun _ s₁ _ => ih s₁
    obtain ⟨s₁, h⟩ := exists_ok_raise e T { s with cursor := fork }
    exact ⟨(), s₁, h⟩

end

end FlowCheck.Build
