import FlowCheck.Parse.State
import Mathlib.Logic.Relation

/-!
# Runs of the parser

The parser does two things to its state: it reads a lexeme, or it reports a fault. `Run` is a
sequence of such moves. Whatever holds of every production because of its moves is proved here once
for `Run`: nothing happens after a parse has been given up, the number of lexemes left never grows,
and a run without a fault has consumed exactly the lexemes between its two states.
-/
namespace FlowCheck.Parse

namespace State

/-- The lexemes that are still to be consumed, the current one first. -/
def ahead (s : State) : List Lexeme := s.current :: s.rest

/-- How many lexemes can still be consumed. At the end of the file nothing can. -/
def size (s : State) : Nat := if s.current.token = .eof then 0 else s.rest.length + 1

/-- The lexemes end with the end of the file, where a parse that was given up stands at once. -/
structure Sound (s : State) : Prop where
  closed : ∃ l, s.ahead.getLast? = some l ∧ l.token = .eof
  ended : s.aborted = true → s.current.token = .eof
  blamed : s.aborted = true → s.faults ≠ 0

theorem size_eq_zero {s : State} : s.size = 0 ↔ s.current.token = .eof := by
  unfold size
  split <;> simp_all

theorem size_congr {s t : State} (h : s.ahead = t.ahead) : s.size = t.size := by
  simp only [ahead, List.cons.injEq] at h
  rw [size, size, h.1, h.2]

theorem next_cons {s : State} {l : Lexeme} {r : List Lexeme} (h : s.rest = l :: r) :
    s.next = { s with current := l, rest := r, history := .read l :: s.history } := by
  unfold next
  rw [h]

theorem ahead_next {s : State} (h : s.rest ≠ []) : s.ahead = s.current :: s.next.ahead := by
  obtain ⟨l, r, hr⟩ := List.exists_cons_of_ne_nil h
  rw [next_cons hr, ahead, ahead, hr]

theorem size_next {s : State} (h : s.rest ≠ []) (ht : s.current.token ≠ .eof) :
    s.next.size < s.size := by
  obtain ⟨l, r, hr⟩ := List.exists_cons_of_ne_nil h
  rw [next_cons hr, size, size, if_neg ht, hr]
  split <;> simp

@[simp] theorem faults_next (s : State) : s.next.faults = s.faults := by
  unfold next
  split <;> rfl

@[simp] theorem aborted_next (s : State) : s.next.aborted = s.aborted := by
  unfold next
  split <;> rfl

theorem fault_of_aborted {s : State} (h : s.aborted = true) (p : Pos) (f : ParseFault) :
    s.fault p f = s := by
  simp [fault, h]

theorem faults_fault {s : State} (h : s.aborted = false) (p : Pos) (f : ParseFault) :
    (s.fault p f).faults = s.faults + 1 := by
  simp only [fault, h, Bool.false_eq_true, if_false]
  split <;> rfl

@[simp] theorem rest_fault (s : State) (p : Pos) (f : ParseFault) : (s.fault p f).rest = s.rest := by
  unfold fault
  split
  · rfl
  · dsimp only
    split <;> rfl

/-- A fault leaves the current lexeme alone, or it is the last one allowed. -/
theorem current_fault (s : State) (p : Pos) (f : ParseFault) :
    (s.fault p f).current = s.current ∨
      (s.fault p f).current = { s.current with token := .eof } := by
  unfold fault
  split
  · exact .inl rfl
  · dsimp only
    split
    · exact .inl rfl
    · exact .inr rfl

theorem ended_fault {s : State} (hs : s.aborted = true → s.current.token = .eof) (p : Pos)
    (f : ParseFault) : (s.fault p f).aborted = true → (s.fault p f).current.token = .eof := by
  unfold fault
  split
  · exact hs
  · dsimp only
    split <;> simp_all

namespace Sound

theorem rest_ne_nil {s : State} (hs : s.Sound) (h : s.current.token ≠ .eof) : s.rest ≠ [] := by
  intro hr
  obtain ⟨l, hl, ht⟩ := hs.closed
  rw [ahead, hr, List.getLast?_singleton, Option.some.injEq] at hl
  exact h (hl ▸ ht)

theorem next {s : State} (hs : s.Sound) (h : s.current.token ≠ .eof) : s.next.Sound := by
  have hr := hs.rest_ne_nil h
  obtain ⟨l, hl, ht⟩ := hs.closed
  refine ⟨⟨l, ?_, ht⟩, fun ha => ?_, fun ha => ?_⟩
  · rw [ahead_next hr, ahead, List.getLast?_cons_cons] at hl
    exact hl
  · exact absurd (hs.ended (by simpa using ha)) h
  · simpa using hs.blamed (by simpa using ha)

theorem faults_fault_ne_zero {s : State} (hs : s.Sound) (p : Pos) (f : ParseFault) :
    (s.fault p f).faults ≠ 0 := by
  cases ha : s.aborted with
  | true =>
    rw [fault_of_aborted ha]
    exact hs.blamed ha
  | false =>
    rw [faults_fault ha]
    exact Nat.succ_ne_zero _

theorem fault {s : State} (hs : s.Sound) (p : Pos) (f : ParseFault) : (s.fault p f).Sound := by
  refine ⟨?_, ended_fault hs.ended p f, fun _ => hs.faults_fault_ne_zero p f⟩
  obtain ⟨l, hl, ht⟩ := hs.closed
  rw [ahead, List.getLast?_cons, Option.some.injEq] at hl
  rw [ahead, rest_fault, List.getLast?_cons]
  refine ⟨_, rfl, ?_⟩
  cases hr : s.rest.getLast? with
  | some m => simpa [hr, ← hl] using ht
  | none =>
    have hc : s.current.token = .eof := by simpa [hr, ← hl] using ht
    rcases current_fault s p f with h | h <;> simp [h, hc]

end Sound

end State

open State

/-- One thing that the parser does. -/
inductive Move : State → State → Prop
  | read {s : State} : s.current.token ≠ .eof → s.rest ≠ [] → Move s s.next
  | fault {s : State} (p : Pos) (f : ParseFault) : s.aborted = false → Move s (s.fault p f)

abbrev Run : State → State → Prop := Relation.ReflTransGen Move

namespace Run

variable {s t : State}

theorem read (hs : s.Sound) (h : s.current.token ≠ .eof) : Run s s.next :=
  .single (.read h (hs.rest_ne_nil h))

theorem fault (s : State) (p : Pos) (f : ParseFault) : Run s (s.fault p f) := by
  cases h : s.aborted with
  | true => rw [fault_of_aborted h]
  | false => exact .single (.fault p f h)

theorem sound (h : Run s t) (hs : s.Sound) : t.Sound := by
  induction h with
  | refl => exact hs
  | tail _ hm ih =>
    cases hm with
    | read ht _ => exact ih.next ht
    | fault p f _ => exact ih.fault p f

/-- Nothing happens after a parse has been given up. -/
theorem eq_of_aborted (h : Run s t) (hs : s.Sound) (ha : s.aborted = true) : t = s := by
  induction h with
  | refl => rfl
  | tail _ hm ih =>
    subst ih
    cases hm with
    | read ht _ => exact absurd (hs.ended ha) ht
    | fault _ _ hf => simp [ha] at hf

theorem faults_le (h : Run s t) : s.faults ≤ t.faults := by
  induction h with
  | refl => exact Nat.le_refl _
  | tail _ hm ih =>
    cases hm with
    | read _ _ => simpa using ih
    | fault p f ha => exact Nat.le_trans ih (by rw [faults_fault ha]; exact Nat.le_succ _)

/-- Either something was consumed, or the parser still stands where it stood. -/
theorem size_lt_or_ahead_eq (h : Run s t) : t.size < s.size ∨ t.ahead = s.ahead := by
  induction h with
  | refl => exact .inr rfl
  | @tail u v _ hm ih =>
    have step : v.size < u.size ∨ v.ahead = u.ahead := by
      cases hm with
      | read ht hr => exact .inl (size_next hr ht)
      | fault p f _ =>
        rcases current_fault u p f with hc | hc
        · exact .inr (by rw [ahead, ahead, hc, rest_fault])
        · by_cases ht : u.current.token = .eof
          · refine .inr ?_
            rw [ahead, ahead, hc, rest_fault, ← ht]
          · refine .inl ?_
            rw [size_eq_zero.2 (by rw [hc])]
            exact Nat.pos_of_ne_zero (mt size_eq_zero.1 ht)
    rcases ih with ih | ih <;> rcases step with hv | hv
    · exact .inl (Nat.lt_trans hv ih)
    · exact .inl (by rw [size_congr hv]; exact ih)
    · exact .inl (by rw [← size_congr ih]; exact hv)
    · exact .inr (hv.trans ih)

theorem size_le (h : Run s t) : t.size ≤ s.size := by
  rcases h.size_lt_or_ahead_eq with h | h
  · exact Nat.le_of_lt h
  · exact Nat.le_of_eq (size_congr h)

/-- A run that does not move past its token stands on it. -/
theorem token_eq (h : Run s t) (hz : s.size ≤ t.size) : t.current.token = s.current.token := by
  rcases h.size_lt_or_ahead_eq with h | h
  · omega
  · simp only [ahead, List.cons.injEq] at h
    rw [h.1]

end Run

/-- A run from `s` to `t` that, as long as there are no faults, consumes `used`. -/
structure Reads (s : State) (used : List Lexeme) (t : State) : Prop where
  run : Run s t
  sound : t.Sound
  consumed : t.faults = 0 → s.ahead = used ++ t.ahead

namespace Reads

variable {s t v : State} {u w : List Lexeme}

theorem refl (hs : s.Sound) : Reads s [] s := ⟨.refl, hs, fun _ => rfl⟩

theorem clean (h : Reads s u t) (ht : t.faults = 0) : s.faults = 0 :=
  Nat.le_zero.1 (ht ▸ h.run.faults_le)

theorem trans (h : Reads s u t) (h' : Reads t w v) : Reads s (u ++ w) v :=
  ⟨h.run.trans h'.run, h'.sound, fun hv => by
    rw [h.consumed (h'.clean hv), h'.consumed hv, List.append_assoc]⟩

theorem size_le (h : Reads s u t) : t.size ≤ s.size := h.run.size_le

theorem ne_nil (h : Reads s u t) (ht : t.faults = 0) (hz : t.size < s.size) : u ≠ [] := by
  rintro rfl
  exact absurd (size_congr (h.consumed ht)) (Nat.ne_of_gt hz)

/-- The first lexeme consumed is the current one. -/
theorem pos_mem (h : Reads s u t) (ht : t.faults = 0) (hu : u ≠ []) :
    s.current.pos ∈ u.map Lexeme.pos := by
  obtain ⟨l, u, rfl⟩ := List.exists_cons_of_ne_nil hu
  have hc := h.consumed ht
  simp only [ahead, List.cons_append, List.cons.injEq] at hc
  simp [hc.1]

theorem next (hs : s.Sound) (h : s.current.token ≠ .eof) : Reads s [s.current] s.next :=
  ⟨.read hs h, hs.next h, fun _ => ahead_next (hs.rest_ne_nil h)⟩

theorem fault (hs : s.Sound) (p : Pos) (f : ParseFault) : Reads s [] (s.fault p f) :=
  ⟨.fault s p f, hs.fault p f, fun h => absurd h (hs.faults_fault_ne_zero p f)⟩

end Reads

/-- The computation `p` comes to an end from `s`, and its outcome satisfies `Q`. -/
def Yields {α : Type} (p : Parser α) (s : State) (Q : α → State → List Lexeme → Prop) : Prop :=
  ∃ a t u, p s = some (a, t) ∧ Reads s u t ∧ Q a t u

namespace Yields

variable {α β : Type} {p : Parser α} {s : State} {Q : α → State → List Lexeme → Prop}

theorem pure {a : α} (hs : s.Sound) (h : Q a s []) : Yields (Pure.pure a) s Q :=
  ⟨a, s, [], rfl, .refl hs, h⟩

theorem bind {f : α → Parser β} {R : β → State → List Lexeme → Prop} (h : Yields p s Q)
    (k : ∀ a t u, Reads s u t → Q a t u → Yields (f a) t fun b v w => R b v (u ++ w)) :
    Yields (p >>= f) s R := by
  obtain ⟨a, t, u, e, r, q⟩ := h
  obtain ⟨b, v, w, e', r', q'⟩ := k a t u r q
  refine ⟨b, v, u ++ w, ?_, r.trans r', q'⟩
  rw [← e']
  exact congrArg (Option.bind · fun x => f x.1 x.2) e

theorem mono {R : α → State → List Lexeme → Prop} (h : Yields p s Q)
    (k : ∀ a t u, Reads s u t → Q a t u → R a t u) : Yields p s R := by
  obtain ⟨a, t, u, e, r, q⟩ := h
  exact ⟨a, t, u, e, r, k a t u r q⟩

theorem token {f : Token → Parser α} (h : Yields (f s.current.token) s Q) :
    Yields (Parse.token >>= f) s Q := h

theorem pos {f : Pos → Parser α} (h : Yields (f s.current.pos) s Q) :
    Yields (Parse.pos >>= f) s Q := h

theorem isAborted {f : Bool → Parser α} (h : Yields (f s.aborted) s Q) :
    Yields (Parse.isAborted >>= f) s Q := h

theorem get {f : State → Parser α} (h : Yields (f s) s Q) :
    Yields (MonadState.get >>= f) s Q := h

theorem next {f : Unit → Parser α} (hs : s.Sound) (h : s.current.token ≠ .eof)
    (k : Reads s [s.current] s.next → s.next.size < s.size →
      Yields (f ()) s.next fun a t u => Q a t (s.current :: u)) :
    Yields (Parse.next >>= f) s Q := by
  obtain ⟨a, t, u, e, r, q⟩ := k (.next hs h) (size_next (hs.rest_ne_nil h) h)
  exact ⟨a, t, s.current :: u, e, (Reads.next hs h).trans r, q⟩

end Yields

/-! ### The steps that productions are made of -/

section

variable {s : State}

theorem yields_faultAt (hs : s.Sound) (p : Pos) (f : ParseFault) :
    Yields (faultAt p f) s fun _ t _ => t.faults ≠ 0 :=
  ⟨(), s.fault p f, [], rfl, .fault hs p f, hs.faults_fault_ne_zero p f⟩

theorem yields_fault (hs : s.Sound) (f : ParseFault) :
    Yields (fault f) s fun _ t _ => t.faults ≠ 0 :=
  yields_faultAt hs s.current.pos f

theorem yields_got (hs : s.Sound) {t : Token} (ht : t ≠ .eof) :
    Yields (got t) s fun b v u =>
      (b = true → u = [s.current] ∧ s.current.token = t ∧ v.size < s.size) ∧
      (b = false → u = [] ∧ v = s ∧ s.current.token ≠ t) := by
  unfold got
  refine .token ?_
  split
  · rename_i h
    exact .next hs (h ▸ ht) fun r hz => .pure r.sound (by simp [h, hz])
  · rename_i h
    exact .pure hs (by simp [h])

theorem yields_skipToStop {s : State} (hs : s.Sound) :
    Yields skipToStop s fun _ t _ => isStop t.current.token = true := by
  rw [skipToStop]
  refine .token ?_
  split
  · rename_i h
    exact .pure hs h
  · rename_i h
    have ht : s.current.token ≠ .eof := fun e => h (by rw [e]; rfl)
    exact .next hs ht fun r hz => yields_skipToStop r.sound
termination_by s.size

/-- Recovery moves past at least one token, unless there is none. -/
theorem yields_recover (hs : s.Sound) :
    Yields recover s fun _ t _ => s.current.token ≠ .eof → t.size < s.size := by
  unfold recover
  refine (yields_skipToStop hs).bind fun _ t u r hstop => .token ?_
  split
  · rename_i ht
    have hlt := size_next (r.sound.rest_ne_nil ht) ht
    exact ⟨(), t.next, [t.current], rfl, .next r.sound ht, fun _ => Nat.lt_of_lt_of_le hlt r.size_le⟩
  · rename_i ht
    refine .pure r.sound fun hne => ?_
    rw [size_eq_zero.2 (Decidable.not_not.1 ht)]
    exact Nat.pos_of_ne_zero (mt size_eq_zero.1 hne)

/-- A wanted token is consumed; whatever stands in its place is, too. -/
theorem yields_want (hs : s.Sound) {t : Token} (ht : t ≠ .eof) :
    Yields (want t) s fun _ v u =>
      (v.faults = 0 → u = [s.current] ∧ s.current.token = t) ∧
      (s.current.token ≠ .eof → v.size < s.size) := by
  unfold want
  refine (yields_got hs ht).bind fun b v u r h => ?_
  cases b with
  | true =>
    obtain ⟨hu, hc, hz⟩ := h.1 rfl
    exact .pure r.sound (by simp [hu, hc, hz])
  | false =>
    obtain ⟨rfl, rfl, -⟩ := h.2 rfl
    refine (yields_fault hs _).bind fun _ w u' r' hw => (yields_recover r'.sound).mono ?_
    intro _ v u'' r'' hv
    refine ⟨fun clean => absurd (r''.clean clean) hw, fun hne => ?_⟩
    by_cases hwt : w.current.token = .eof
    · have := r''.size_le
      rw [size_eq_zero.2 hwt] at this
      exact Nat.lt_of_le_of_lt this (Nat.pos_of_ne_zero (mt size_eq_zero.1 hne))
    · exact Nat.lt_of_lt_of_le (hv hwt) r'.size_le

/-- The end of a statement is a semicolon, or nothing before a closing brace. -/
theorem yields_semi (hs : s.Sound) :
    Yields semi s fun _ v u =>
      (v.faults = 0 → u = [] ∨ u = [s.current] ∧ s.current.token = .semi) ∧
      (s.current.token ≠ .eof → s.current.token ≠ .rbrace → v.size < s.size) := by
  unfold semi
  refine .token ?_
  split
  · exact (yields_want hs (by decide)).mono fun _ v u r h => ⟨fun c => .inr (h.1 c), fun ht _ => h.2 ht⟩
  · rename_i h
    exact .pure hs ⟨fun _ => .inl rfl, fun _ hb => absurd (Decidable.not_not.1 h) hb⟩

/-- The name that a lexeme spells. -/
def identOf (l : Lexeme) : Ident := ⟨{ pos := l.pos }, l.text⟩

theorem yields_ident (hs : s.Sound) :
    Yields ident s fun name v u =>
      v.faults = 0 → u = [s.current] ∧ s.current.token = .name ∧ name = identOf s.current := by
  unfold ident
  refine .get ?_
  dsimp only
  split
  · rename_i h
    refine .next hs (by rw [h]; decide) fun r _ => .pure r.sound ?_
    exact fun _ => ⟨rfl, h, rfl⟩
  · refine (yields_fault hs _).bind fun _ v u r hv => .pure r.sound ?_
    exact fun clean => absurd clean hv

theorem yields_unlessAt {α : Type} {p : Parser α} {Q : α → State → List Lexeme → Prop}
    (hs : s.Sound) (out : Token → Bool) (h : Yields p s Q) :
    Yields (unlessAt out p) s fun a t u => (a = none → u = []) ∧ ∀ x, a = some x → Q x t u := by
  unfold unlessAt
  refine .token ?_
  split
  · exact .pure hs (by simp)
  · refine h.bind fun x t u r q => .pure r.sound ?_
    simpa using q

theorem yields_after {α : Type} {p : Parser α} {Q : α → State → List Lexeme → Prop}
    (hs : s.Sound) {tok : Token} (ht : tok ≠ .eof)
    (h : ∀ v : State, v.Sound → v.size < s.size → Yields p v Q) :
    Yields (after tok p) s fun a t u => (a = none → u = []) ∧
      ∀ x, a = some x → ∃ w, u = s.current :: w ∧ s.current.token = tok ∧ Q x t w := by
  unfold after
  refine (yields_got hs ht).bind fun b v u r hb => ?_
  cases b with
  | true =>
    obtain ⟨rfl, hc, hz⟩ := hb.1 rfl
    refine (h v r.sound hz).bind fun x t w r' q => .pure r'.sound ?_
    simpa [hc] using q
  | false =>
    obtain ⟨rfl, rfl, -⟩ := hb.2 rfl
    exact .pure r.sound (by simp)

end

end FlowCheck.Parse
