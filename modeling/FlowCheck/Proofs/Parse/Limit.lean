import FlowCheck.Proofs.Parse.Declaration
import FlowCheck.Proofs.Token.Order

/-!
# The limit on faults

What has been reported always fits the number of faults that were counted: below the limit the
parser has reported its faults and nothing else, and at the limit the last fault is followed by the
message that the parse is given up, which is the last thing to happen. The productions that are
still pending then return one after the other without touching the state.
-/
namespace FlowCheck

/-- Reported by the parser, not by the scanner. -/
def ParseEvent.isOwn : ParseEvent → Bool
  | .report _ => true
  | .read _ => false

def ParseEvent.isFault : ParseEvent → Bool
  | .report ⟨_, .grammatical _⟩ => true
  | _ => false

namespace Parse

open State

/-- The parser has reported `n` faults of the grammar, and nothing else. -/
structure Counted (h : List ParseEvent) (n : Nat) : Prop where
  plain : ∀ e ∈ h, e.isOwn = e.isFault
  count : h.countP ParseEvent.isFault = n

namespace Counted

variable {h : List ParseEvent} {n : Nat}

theorem read (hc : Counted h n) (l : Lexeme) : Counted (.read l :: h) n := by
  refine ⟨?_, by simpa [ParseEvent.isFault] using hc.count⟩
  simpa [ParseEvent.isOwn, ParseEvent.isFault] using hc.plain

theorem fault (hc : Counted h n) (p : Pos) (f : ParseFault) :
    Counted (.report ⟨p, .grammatical f⟩ :: h) (n + 1) := by
  refine ⟨?_, by rw [List.countP_cons_of_pos rfl, hc.count]⟩
  simpa [ParseEvent.isOwn, ParseEvent.isFault] using hc.plain

theorem countP_isOwn (hc : Counted h n) : h.countP ParseEvent.isOwn = n := by
  rw [← hc.count]
  apply List.countP_congr
  intro e he
  rw [hc.plain e he]

theorem tooMany_notMem (hc : Counted h n) (p : Pos) : .report ⟨p, .tooMany⟩ ∉ h := by
  intro hm
  simpa [ParseEvent.isOwn, ParseEvent.isFault] using hc.plain _ hm

end Counted

/-- The history fits the number of faults, below the limit or at it. -/
inductive Tallied (s : State) : Prop
  | going : s.aborted = false → s.faults < faultLimit → Counted s.history s.faults → Tallied s
  | stopped (p : Pos) (f : ParseFault) (h : List ParseEvent) : s.aborted = true →
      s.faults = faultLimit →
      s.history = .report ⟨p, .tooMany⟩ :: .report ⟨p, .grammatical f⟩ :: h →
      Counted h (faultLimit - 1) → Tallied s

namespace Tallied

variable {s t : State}

theorem ofLexemes (ls : List Lexeme) : Tallied (State.ofLexemes ls) := by
  have hempty : Counted [] 0 := ⟨by simp, rfl⟩
  cases ls with
  | nil => exact .going rfl (by decide) hempty
  | cons l ls => exact .going rfl (Nat.succ_pos 9) (hempty.read l)

theorem read (ht : Tallied s) (ha : s.aborted = false) (hr : s.rest ≠ []) : Tallied s.next := by
  obtain ⟨l, r, hr⟩ := List.exists_cons_of_ne_nil hr
  cases ht with
  | going _ hlt hc =>
    rw [next_cons hr]
    exact .going ha hlt (hc.read l)
  | stopped p f h ha' => simp [ha] at ha'

theorem fault (ht : Tallied s) (ha : s.aborted = false) (p : Pos) (f : ParseFault) :
    Tallied (s.fault p f) := by
  cases ht with
  | going _ hlt hc =>
    simp only [State.fault, ha, Bool.false_eq_true, if_false]
    split
    · rename_i hnext
      exact .going rfl hnext (hc.fault p f)
    · rename_i hnext
      have hlast : s.faults = faultLimit - 1 := by omega
      exact .stopped p f s.history rfl (by dsimp only; omega) rfl (hlast ▸ hc)
  | stopped q g h ha' => simp [ha] at ha'

theorem move (hm : Move s t) (hs : s.Sound) (ht : Tallied s) : Tallied t := by
  cases hm with
  | read hne hr =>
    apply ht.read _ hr
    cases ha : s.aborted with
    | true => exact absurd (hs.ended ha) hne
    | false => rfl
  | fault p f ha => exact ht.fault ha p f

theorem run (hr : Run s t) (hs : s.Sound) (ht : Tallied s) : Tallied t := by
  induction hr with
  | refl => exact ht
  | tail hr hm ih => exact ih.move hm (Run.sound hr hs)

theorem faults_le (ht : Tallied s) : s.faults ≤ 10 := by
  cases ht with
  | going _ hlt _ => exact Nat.le_of_lt hlt
  | stopped p f h _ he _ _ => exact Nat.le_of_eq he

theorem countP_isOwn_le (ht : Tallied s) : s.history.countP ParseEvent.isOwn ≤ 11 := by
  cases ht with
  | going _ hlt hc =>
    rw [hc.countP_isOwn]
    exact Nat.le_trans (Nat.le_of_lt hlt) (by decide)
  | stopped p f h _ _ hh hc =>
    rw [hh, List.countP_cons_of_pos rfl, List.countP_cons_of_pos rfl, hc.countP_isOwn]
    decide

/-- The message that the parse is given up stands right after the tenth fault, at the end. -/
theorem after_tenth (ht : Tallied s) {after before : List ParseEvent} {e : ParseEvent}
    (hh : s.history = after ++ e :: before) (he : e.isFault = true)
    (hn : before.countP ParseEvent.isFault = 9) :
    s.aborted = true ∧ ∃ p f, e = .report ⟨p, .grammatical f⟩ ∧ after = [.report ⟨p, .tooMany⟩] := by
  have hten : (e :: before).countP ParseEvent.isFault = 10 := by
    rw [List.countP_cons_of_pos he, hn]
  cases ht with
  | going _ hlt hc =>
    have := hc.count
    rw [hh, List.countP_append, hten] at this
    simp only [faultLimit] at hlt
    omega
  | stopped p f h ha _ hs hc =>
    refine ⟨ha, p, f, ?_⟩
    rw [hh] at hs
    match after, hs with
    | [], hs =>
      obtain ⟨rfl, -⟩ := List.cons.inj hs
      cases he
    | [x], hs =>
      simp only [List.cons_append, List.nil_append, List.cons.injEq] at hs
      obtain ⟨rfl, rfl, -⟩ := hs
      exact ⟨rfl, rfl⟩
    | x :: y :: rest, hs =>
      simp only [List.cons_append, List.cons.injEq] at hs
      have := hc.count
      rw [← hs.2.2, List.countP_append, hten] at this
      simp only [faultLimit] at this
      omega

/-- It is said only once, after ten faults, that the parse is given up. -/
theorem before_tooMany (ht : Tallied s) {after before : List ParseEvent} {p : Pos}
    (hh : s.history = after ++ .report ⟨p, .tooMany⟩ :: before) :
    after = [] ∧ before.countP ParseEvent.isFault = 10 := by
  cases ht with
  | going _ _ hc => exact absurd (by simp [hh]) (hc.tooMany_notMem p)
  | stopped q f h _ _ hs hc =>
    rw [hh] at hs
    cases after with
    | nil =>
      simp only [List.nil_append, List.cons.injEq] at hs
      rw [hs.2, List.countP_cons_of_pos rfl, hc.count]
      decide
    | cons x rest =>
      simp only [List.cons_append, List.cons.injEq] at hs
      have hmem : ParseEvent.report ⟨p, .tooMany⟩ ∈ .report ⟨q, .grammatical f⟩ :: h := by
        simp [← hs.2]
      exact absurd hmem ((hc.fault q f).tooMany_notMem p)

end Tallied

/-- What can be pending when a parse is given up: the productions of the grammar, the steps that
they share, and whatever is put together from them. -/
inductive Production : {α : Type} → Parser α → Prop
  | pure {α : Type} (a : α) : Production (Pure.pure a : Parser α)
  | bind {α β : Type} {p : Parser α} {f : α → Parser β} :
      Production p → (∀ a, Production (f a)) → Production (p >>= f)
  | token : Production token
  | pos : Production pos
  | isAborted : Production isAborted
  | fault (f : ParseFault) : Production (fault f)
  | faultAt (p : Pos) (f : ParseFault) : Production (faultAt p f)
  | got {t : Token} : t ≠ .eof → Production (got t)
  | skipToStop : Production skipToStop
  | recover : Production recover
  | want {t : Token} : t ≠ .eof → Production (want t)
  | semi : Production semi
  | ident : Production ident
  | missing (f : ParseFault) : Production (missing f)
  | selection (x : Expr) : Production (selection x)
  | qualifiedName : Production qualifiedName
  | type : Production type
  | binary (limit : Nat) : Production (binary limit)
  | binaryFrom (x : Expr) (limit : Nat) : Production (binaryFrom x limit)
  | unary : Production unary
  | trailers (x : Expr) : Production (trailers x)
  | operand : Production operand
  | arguments : Production arguments
  | exprs : Production exprs
  | expr : Production expr
  | exprFrom (name : Ident) : Production (exprFrom name)
  | simpleFrom (p : Pos) (x : Expr) : Production (simpleFrom p x)
  | simple : Production simple
  | varDecl : Production varDecl
  | caseLabels (values : List Expr) (isDefault : Bool) : Production (caseLabels values isDefault)
  | loopHeader (p : Pos) (first : Option Simple) : Production (loopHeader p first)
  | catchParam : Production catchParam
  | guarded (p : Pos) (handlers : List CatchClause) (cleanup : Option Block) :
      Production (guarded p handlers cleanup)
  | stmts (inSwitch : Bool) : Production (stmts inSwitch)
  | stmt : Production stmt
  | block : Production block
  | cond : Production cond
  | loop : Production loop
  | switch : Production switch
  | sections : Production sections
  | attempt : Production attempt
  | cleanup : Production cleanup
  | handlers : Production handlers
  | codes : Production codes
  | errorDomainDecl : Production errorDomainDecl
  | paramList : Production paramList
  | params : Production params
  | throws : Production throws
  | funcDecl : Production funcDecl
  | decl : Production decl
  | decls : Production decls
  | file : Production file

/-- Comes to an end by moves alone. -/
abbrev Ends {α : Type} (p : Parser α) (s : State) : Prop := Yields p s fun _ _ _ => True

theorem Yields.ends {α : Type} {p : Parser α} {s : State} {Q : α → State → List Lexeme → Prop}
    (h : Yields p s Q) : Ends p s :=
  h.mono fun _ _ _ _ _ => trivial

theorem Production.ends {α : Type} {p : Parser α} (hp : Production p) {s : State} (hs : s.Sound) :
    Ends p s := by
  induction hp generalizing s with
  | pure a => exact .pure hs trivial
  | bind _ _ ih ih' => exact (ih hs).bind fun a t u r _ => ih' a r.sound
  | token => exact ⟨_, s, [], rfl, .refl hs, trivial⟩
  | pos => exact ⟨_, s, [], rfl, .refl hs, trivial⟩
  | isAborted => exact ⟨_, s, [], rfl, .refl hs, trivial⟩
  | fault f => exact (yields_fault hs f).ends
  | faultAt p f => exact (yields_faultAt hs p f).ends
  | got ht => exact (yields_got hs ht).ends
  | skipToStop => exact (yields_skipToStop hs).ends
  | recover => exact (yields_recover hs).ends
  | want ht => exact (yields_want hs ht).ends
  | semi => exact (yields_semi hs).ends
  | ident => exact (yields_ident hs).ends
  | missing f => exact (yields_missing hs f).ends
  | selection x => exact (yields_selection hs x).ends
  | qualifiedName => exact (yields_qualifiedName hs).ends
  | type => exact (yields_type hs).ends
  | binary limit => exact (yields_binary hs limit).ends
  | binaryFrom x limit => exact (yields_binaryFrom hs x limit).ends
  | unary => exact (yields_unary hs).ends
  | trailers x => exact (yields_trailers hs x).ends
  | operand => exact (yields_operand hs).ends
  | arguments => exact (yields_arguments hs).ends
  | exprs => exact (yields_exprs hs).ends
  | expr => exact (yields_expr hs).ends
  | exprFrom name => exact (yields_exprFrom hs name).ends
  | simpleFrom p x => exact (yields_simpleFrom hs p x).ends
  | simple => exact (yields_simple hs).ends
  | varDecl => exact (yields_varDecl hs).ends
  | caseLabels values isDefault => exact (yields_caseLabels hs values isDefault).ends
  | loopHeader p first => exact (yields_loopHeader hs p first).ends
  | catchParam => exact (yields_catchParam hs).ends
  | guarded p handlers cleanup => exact (yields_guarded hs p handlers cleanup).ends
  | stmts inSwitch => exact (yields_stmts hs inSwitch).ends
  | stmt => exact (yields_stmt hs).ends
  | block => exact (yields_block hs).ends
  | cond => exact (yields_cond hs).ends
  | loop => exact (yields_loop hs).ends
  | switch => exact (yields_switch hs).ends
  | sections => exact (yields_sections hs).ends
  | attempt => exact (yields_attempt hs).ends
  | cleanup => exact (yields_cleanup hs).ends
  | handlers => exact (yields_handlers hs).ends
  | codes => exact (yields_codes hs).ends
  | errorDomainDecl => exact (yields_errorDomainDecl hs).ends
  | paramList => exact (yields_paramList hs).ends
  | params => exact (yields_params hs).ends
  | throws => exact (yields_throws hs).ends
  | funcDecl => exact (yields_funcDecl hs).ends
  | decl => exact (yields_decl hs).ends
  | decls => exact (yields_decls hs).ends
  | file => exact (yields_file hs).ends

/-- After a parse has been given up, whatever is pending returns and leaves everything as it is. -/
theorem Production.unwinds {α : Type} {p : Parser α} (hp : Production p) {s : State} (hs : s.Sound)
    (ha : s.aborted = true) : ∃ a, p s = some (a, s) := by
  obtain ⟨a, t, u, e, r, -⟩ := hp.ends hs
  exact ⟨a, by rw [e, r.run.eq_of_aborted hs ha]⟩

theorem sound_scan (source : Source) : (State.ofLexemes (Lexer.scan source)).Sound := by
  obtain ⟨l, hl, ht⟩ := (Lexer.scan_ordered source).1
  cases hs : Lexer.scan source with
  | nil => simp [hs] at hl
  | cons m ms =>
    rw [hs] at hl
    exact ⟨⟨l, hl, ht⟩, by simp [State.ofLexemes], by simp [State.ofLexemes]⟩

end Parse

open Parse

/-- The outcome of a source is that of its parse, which always comes to an end. -/
theorem Parsed.exists_end (source : Source) :
    ∃ file s, Parse.file (State.ofLexemes (Lexer.scan source)) = some (file, s) ∧
      Parsed.ofSource source = Parsed.ofEnd file s ∧
      Run (State.ofLexemes (Lexer.scan source)) s := by
  obtain ⟨f, s, u, e, r, -⟩ := yields_file (sound_scan source)
  refine ⟨f, s, e, ?_, r.run⟩
  rw [Parsed.ofSource, Parsed.ofLexemes]
  exact congrArg (Option.elim · _ _) e

/-- Parsing ends on every source and stops cleanly at the limit: there are at most ten faults and
one report more, the tenth fault is followed by that report and by nothing else, and from then on
the current token is the end of the file and every production that is pending returns with the
state as it found it. -/
theorem Parsed.ofSource_stops_at_limit (source : Source) :
    ∃ file s, Parse.file (State.ofLexemes (Lexer.scan source)) = some (file, s) ∧
      Parsed.ofSource source = Parsed.ofEnd file s ∧
      s.faults ≤ 10 ∧ s.history.countP ParseEvent.isOwn ≤ 11 ∧
      (∀ after e before, s.history = after ++ e :: before → e.isFault = true →
        before.countP ParseEvent.isFault = 9 →
        s.current.token = .eof ∧
          ∃ p f, e = .report ⟨p, .grammatical f⟩ ∧ after = [.report ⟨p, .tooMany⟩]) ∧
      (∀ after p before, s.history = after ++ .report ⟨p, .tooMany⟩ :: before →
        after = [] ∧ before.countP ParseEvent.isFault = 10) ∧
      Run (State.ofLexemes (Lexer.scan source)) s ∧
      ∀ t, Run (State.ofLexemes (Lexer.scan source)) t → t.aborted = true →
        t.current.token = .eof ∧
          ∀ (α : Type) (p : Parser α), Production p → ∃ a, p t = some (a, t) := by
  obtain ⟨f, s, e, ho, hr⟩ := Parsed.exists_end source
  have hsound := sound_scan source
  have htally := (Tallied.ofLexemes (Lexer.scan source)).run hr hsound
  refine ⟨f, s, e, ho, htally.faults_le, htally.countP_isOwn_le, ?_, ?_, hr, ?_⟩
  · intro after e before hh he hn
    obtain ⟨ha, hafter⟩ := htally.after_tenth hh he hn
    exact ⟨(hr.sound hsound).ended ha, hafter⟩
  · intro after p before hh
    exact htally.before_tooMany hh
  · intro t ht ha
    have hsound' := ht.sound hsound
    exact ⟨hsound'.ended ha, fun α p hp => hp.unwinds hsound' ha⟩

end FlowCheck
