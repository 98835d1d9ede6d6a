import FlowCheck.Proofs.Check.Phrase
import FlowCheck.Proofs.Check.Schedule
import FlowCheck.Proofs.Resolve.Report

/-!
# The codes of resolution errors

A check reads the code of a resolution error off the words of its message, and the message quotes the
program. What a name or a literal says can pass for the words of another message; nothing else in a
program can.
-/
namespace FlowCheck

open Lexer

/-- The code of the check that failed. -/
def ResolveFault.code : ResolveFault → Code
  | undefined _ | unknownCode .. => .undefined
  | redeclared _ | redeclaredCode .. => .redeclared
  | notAssignable _ => .notAssignable
  | notAnErrorType _ => .notAnErrorType
  | notAType _ | notAnExpr _ | nonNameDefined _ | defineInPost => .invalidStatement

/-- The expression that the message quotes. Messages about names that are undefined or redeclared say
so in words of their own. -/
def ResolveFault.quoted? : ResolveFault → Option String
  | notAssignable text | notAnErrorType text | notAType text | notAnExpr text
  | nonNameDefined text => some text
  | undefined _ | unknownCode .. | redeclared _ | redeclaredCode .. | defineInPost => none

namespace Check

theorem mentions_iff (part text : List Char) : mentions part text = true ↔ part <:+: text := by
  induction text with
  | nil => rw [mentions, List.isEmpty_iff, List.infix_nil]
  | cons c text ih =>
    rw [mentions, Bool.or_eq_true, ih, List.isPrefixOf_iff_prefix, List.infix_cons_iff]

theorem resolveCode_eq (message : String) : resolveCode message =
    if "undefined:".toList <+: message.toList ∨ unknownPhrase <:+: message.toList then .undefined
    else if redeclaredPhrase <:+: message.toList then .redeclared
    else if "cannot assign".toList <+: message.toList then .notAssignable
    else if "is not an error type".toList <:+ message.toList then .notAnErrorType
    else .invalidStatement := by
  unfold unknownPhrase redeclaredPhrase
  simp only [resolveCode, Bool.or_eq_true, mentions_iff, List.isPrefixOf_iff_prefix,
    List.isSuffixOf_iff_suffix]

/-! ### Messages -/

/-- The code that is read off a message with the quotation `text`, if without one it would be `code`. -/
def verdict (text : List Char) (code : Code) : Code :=
  if unknownPhrase <:+: text then .undefined
  else if redeclaredPhrase <:+: text then .redeclared
  else code

theorem resolveCode_of_quotation {message : String} (text : List Char)
    (hopen : ¬"undefined:".toList <+: message.toList)
    (hunknown : unknownPhrase <:+: message.toList ↔ unknownPhrase <:+: text)
    (hredeclared : redeclaredPhrase <:+: message.toList ↔ redeclaredPhrase <:+: text) :
    resolveCode message = verdict text
      (if "cannot assign".toList <+: message.toList then .notAssignable
        else if "is not an error type".toList <:+ message.toList then .notAnErrorType
        else .invalidStatement) := by
  simp only [resolveCode_eq, verdict, hunknown, hredeclared, or_iff_right hopen]

/-- A message that says of an expression what is wrong with it. -/
theorem resolveCode_of_tail (message : String) {x : Expr} (hx : ∀ n ∈ x.walk everywhere, n.Worded)
    {c : Char} {more : List Char} (hm : message.toList = x.render.toList ++ ' ' :: c :: more)
    (hc : c ≠ '(' ∧ c ≠ 'a') (hunknown : ¬unknownPhrase <:+: ' ' :: c :: more)
    (hredeclared : ¬redeclaredPhrase <:+: c :: more) :
    resolveCode message = verdict x.render.toList
      (if "is not an error type".toList <:+ x.render.toList ++ ' ' :: c :: more
        then .notAnErrorType else .invalidStatement) := by
  have hopen {word rest : List Char} (ho : Opening word rest) :
      ¬word ++ rest <+: message.toList := by
    rw [hm]
    exact not_prefix_render x hx (.blank hc) ho
  have hassign : ¬"cannot assign".toList <+: message.toList := hopen .assign
  rw [resolveCode_of_quotation x.render.toList (hopen .undefined)
    (hm ▸ unknown_append_iff hc.1 hunknown) (hm ▸ redeclared_append_iff hredeclared),
    if_neg hassign, hm]

/-- A text that ends in one way does not end in another. -/
theorem not_suffix_append {s a tail : List Char} (hlong : tail.length ≤ s.length)
    (h : ¬tail <:+ s) : ¬s <:+ a ++ tail :=
  fun hs => h (List.suffix_of_suffix_length_le (List.suffix_append a tail) hs hlong)

variable {x : Expr}

theorem resolveCode_notAType (hx : ∀ n ∈ x.walk everywhere, n.Worded) :
    resolveCode (ResolveFault.notAType x.render).message =
      verdict x.render.toList .invalidStatement := by
  rw [resolveCode_of_tail (ResolveFault.notAType x.render).message hx (String.toList_append ..)
    (by decide) (by decide) (by decide), if_neg]
  exact not_suffix_append (by decide) (by decide)

theorem resolveCode_notAnErrorType (hx : ∀ n ∈ x.walk everywhere, n.Worded) :
    resolveCode (ResolveFault.notAnErrorType x.render).message =
      verdict x.render.toList .notAnErrorType := by
  rw [resolveCode_of_tail (ResolveFault.notAnErrorType x.render).message hx (String.toList_append ..)
    (by decide) (by decide) (by decide), if_pos]
  exact .trans (by decide) (List.suffix_append _ _)

theorem resolveCode_notAnExpr (hx : ∀ n ∈ x.walk everywhere, n.Worded) :
    resolveCode (ResolveFault.notAnExpr x.render).message =
      verdict x.render.toList .invalidStatement := by
  rw [resolveCode_of_tail (ResolveFault.notAnExpr x.render).message hx (String.toList_append ..)
    (by decide) (by decide) (by decide), if_neg]
  exact fun hs => absurd (List.suffix_of_suffix_length_le hs (List.suffix_append _ _) (by decide))
    (by decide)

theorem resolveCode_notAssignable (hx : ∀ n ∈ x.walk everywhere, n.Worded) :
    resolveCode (ResolveFault.notAssignable x.render).message =
      verdict x.render.toList .notAssignable := by
  have hmessage : (ResolveFault.notAssignable x.render).message.toList =
      "cannot assign to ".toList ++ x.render.toList := String.toList_append ..
  have hend : x.render.toList <:+ (ResolveFault.notAssignable x.render).message.toList :=
    hmessage ▸ List.suffix_append _ _
  have hm : (ResolveFault.notAssignable x.render).message.toList =
      "cannot".toList ++ ' ' ::
        ("assign".toList ++ ' ' :: ("to".toList ++ ' ' :: x.render.toList)) := by
    have hwords : "cannot assign to ".toList =
        "cannot".toList ++ ' ' :: ("assign".toList ++ ' ' :: ("to".toList ++ [' '])) := by decide
    rw [hmessage, hwords]
    simp only [List.append_assoc, List.cons_append, List.nil_append]
  rw [resolveCode_of_quotation x.render.toList, if_pos]
  · rw [hmessage]
    exact .trans (by decide) (List.prefix_append _ _)
  · rw [hm]
    exact not_prefix_of_head?_ne (by decide)
  · refine ⟨fun h => ?_, fun h => h.trans hend.isInfix⟩
    rw [hm] at h
    have h :=
      unknown_of_blank (unknown_of_unblanked (by decide) h) (not_prefix_of_head?_ne (by decide))
    have h :=
      unknown_of_blank (unknown_of_unblanked (by decide) h) (not_prefix_of_head?_ne (by decide))
    have hstart := not_prefix_render x hx .nil .unknown
    rw [List.append_nil] at hstart
    exact unknown_of_blank (unknown_of_unblanked (by decide) h) hstart
  · refine ⟨fun h => ?_, fun h => h.trans hend.isInfix⟩
    rw [hm] at h
    have h := (redeclared_of_separator rfl h).resolve_left (by decide)
    have h := (redeclared_of_separator rfl h).resolve_left (by decide)
    exact (redeclared_of_separator rfl h).resolve_left (by decide)

theorem resolveCode_nonNameDefined (hx : ∀ n ∈ x.walk everywhere, n.Worded) :
    resolveCode (ResolveFault.nonNameDefined x.render).message =
      verdict x.render.toList .invalidStatement := by
  have hmessage : (ResolveFault.nonNameDefined x.render).message.toList =
      "non-name ".toList ++ x.render.toList ++ " on left side of :=".toList :=
    (String.toList_append ..).trans (congrArg (· ++ _) (String.toList_append ..))
  have hinside : x.render.toList <:+: (ResolveFault.nonNameDefined x.render).message.toList :=
    hmessage ▸ List.infix_append _ _ _
  have hm : (ResolveFault.nonNameDefined x.render).message.toList =
      "non-name".toList ++ ' ' ::
        (x.render.toList ++ ' ' :: 'o' :: "n left side of :=".toList) := by
    have hfirst : "non-name ".toList = "non-name".toList ++ [' '] := by decide
    have hlast : " on left side of :=".toList = ' ' :: 'o' :: "n left side of :=".toList := by
      decide
    rw [hmessage, hfirst, hlast]
    simp only [List.append_assoc, List.cons_append, List.nil_append]
  have hassign : ¬"cannot assign".toList <+:
      (ResolveFault.nonNameDefined x.render).message.toList := by
    rw [hm]
    exact not_prefix_of_head?_ne (by decide)
  have herror : ¬"is not an error type".toList <:+
      (ResolveFault.nonNameDefined x.render).message.toList := by
    rw [hmessage]
    exact not_suffix_append (by decide) (by decide)
  rw [resolveCode_of_quotation x.render.toList, if_neg hassign, if_neg herror]
  · rw [hm]
    exact not_prefix_of_head?_ne (by decide)
  · refine ⟨fun h => ?_, fun h => h.trans hinside⟩
    rw [hm] at h
    have h := unknown_of_blank (unknown_of_unblanked (by decide) h)
      (not_prefix_render x hx (.blank (by decide)) .unknown)
    exact (unknown_append_iff (by decide) (by decide)).1 h
  · refine ⟨fun h => ?_, fun h => h.trans hinside⟩
    rw [hm] at h
    have h := (redeclared_of_separator rfl h).resolve_left (by decide)
    exact (redeclared_append_iff (by decide)).1 h

/-! Messages about names -/

theorem resolveCode_undefined (name : String) :
    resolveCode (ResolveFault.undefined name).message = .undefined := by
  have hm : (ResolveFault.undefined name).message.toList = "undefined: ".toList ++ name.toList :=
    String.toList_append ..
  rw [resolveCode_eq, if_pos]
  rw [hm]
  exact .inl (.trans (by decide) (List.prefix_append _ _))

theorem resolveCode_unknownCode (domain code : String) :
    resolveCode (ResolveFault.unknownCode domain code).message = .undefined := by
  let before := domain ++ "." ++ code ++ " undefined ("
  let after := "errordomain " ++ domain ++ " has no code " ++ code ++ ")"
  have hwords : " undefined (errordomain " = " undefined (" ++ "errordomain " := by decide
  have hm : (ResolveFault.unknownCode domain code).message = before ++ after := by
    change domain ++ "." ++ code ++ " undefined (errordomain " ++ domain ++ " has no code " ++ code
      ++ ")" = _
    rw [hwords]
    simp only [before, after, String.append_assoc]
  rw [resolveCode_eq, hm, if_pos]
  refine .inr ?_
  rw [String.toList_append, String.toList_append]
  exact (List.suffix_append _ _).isInfix.trans (List.prefix_append _ _).isInfix

/-- A message that says of a name that it is declared twice. -/
theorem resolveCode_of_name (more : List Char) {name message : String} (hn : Worded name.toList)
    (hm : message.toList = name.toList ++ ' ' :: (redeclaredPhrase ++ more))
    (hunknown : ¬unknownPhrase <:+: message.toList) : resolveCode message = .redeclared := by
  have hopen : ¬"undefined:".toList <+: message.toList := by
    rw [hm]
    exact Opening.undefined.not_prefix_worded hn (.blank (by decide))
  rw [resolveCode_eq, if_neg (not_or.2 ⟨hopen, hunknown⟩), if_pos]
  refine ⟨name.toList ++ [' '], more, ?_⟩
  simp only [hm, List.append_assoc, List.cons_append, List.nil_append]

theorem resolveCode_redeclared {name : String} (hn : Worded name.toList) :
    resolveCode (ResolveFault.redeclared name).message = .redeclared := by
  have hm : (ResolveFault.redeclared name).message.toList =
      name.toList ++ ' ' :: 'r' :: "edeclared in this block".toList := String.toList_append ..
  refine resolveCode_of_name " in this block".toList hn (String.toList_append ..) fun h => ?_
  rw [hm, unknown_append_iff (by decide) (by decide)] at h
  exact unknown_notMem hn h

theorem resolveCode_redeclaredCode {code domain : String} (hc : Worded code.toList)
    (hd : Worded domain.toList) :
    resolveCode (ResolveFault.redeclaredCode code domain).message = .redeclared := by
  have hmessage : (ResolveFault.redeclaredCode code domain).message.toList =
      code.toList ++ " redeclared in errordomain ".toList ++ domain.toList :=
    (String.toList_append ..).trans (congrArg (· ++ _) (String.toList_append ..))
  have hm : (ResolveFault.redeclaredCode code domain).message.toList =
      (code.toList ++ ' ' :: 'r' :: "edeclared in errordomain".toList) ++ ' ' :: domain.toList := by
    have hwords : " redeclared in errordomain ".toList =
        ' ' :: 'r' :: "edeclared in errordomain".toList ++ [' '] := by decide
    rw [hmessage, hwords]
    simp only [List.append_assoc, List.cons_append, List.nil_append]
  refine resolveCode_of_name (" in errordomain ".toList ++ domain.toList) hc ?_ fun h => ?_
  · have hwords : " redeclared in errordomain ".toList =
        ' ' :: (redeclaredPhrase ++ " in errordomain ".toList) := by decide
    rw [hmessage, hwords]
    simp only [List.append_assoc, List.cons_append]
  have hlast : ¬unknownPhrase <:+: ' ' :: domain.toList := by
    intro h
    have hstart := Opening.unknown.not_prefix_worded hd .nil
    rw [List.append_nil] at hstart
    exact unknown_notMem hd (unknown_of_blank h hstart)
  obtain ⟨c, more, hcons⟩ := List.exists_cons_of_ne_nil hd.1
  have hbracket : c ≠ '(' := by
    rintro rfl
    have := hd.2 '(' (by simp [hcons])
    cases this
  rw [hcons] at hm hlast
  rw [hm, unknown_append_iff hbracket hlast, unknown_append_iff (by decide) (by decide)] at h
  exact unknown_notMem hc h

theorem resolveCode_defineInPost :
    resolveCode ResolveFault.defineInPost.message = .invalidStatement := by
  decide

/-! ### Reports of a check -/

/-- How the code of a report on a file comes about. Words of the program that pass for words of a
message take the place of the check that failed; without them the code is that of the check. -/
structure Coded (f : File) (r : ResolveReport) : Prop where
  settled : r.fault.quoted? = none → (ofResolve r).code = r.fault.code
  read : ∀ text ∈ r.fault.quoted?, (ofResolve r).code = verdict text.toList r.fault.code
  unknown : ∀ text ∈ r.fault.quoted?, unknownPhrase <:+: text.toList → SaysUnknown f.nodes
  redeclared : ∀ text ∈ r.fault.quoted?, redeclaredPhrase <:+: text.toList →
    SaysRedeclared f.nodes
  faithful : ¬SaysUnknown f.nodes → ¬SaysRedeclared f.nodes → (ofResolve r).code = r.fault.code

variable {f : File} {r : ResolveReport}

theorem Coded.of_settled (hq : r.fault.quoted? = none)
    (hc : (ofResolve r).code = r.fault.code) : Coded f r := by
  have hnone {text : String} (h : text ∈ r.fault.quoted?) : False := by
    rw [hq] at h
    cases h
  exact ⟨fun _ => hc, fun _ h => (hnone h).elim, fun _ h => (hnone h).elim,
    fun _ h => (hnone h).elim, fun _ _ => hc⟩

theorem Coded.of_quoted (hs : x.walk everywhere ⊆ f.nodes)
    (hx : ∀ n ∈ x.walk everywhere, n.Worded) (hq : r.fault.quoted? = some x.render)
    (hc : (ofResolve r).code = verdict x.render.toList r.fault.code) : Coded f r := by
  have hunknown (h : unknownPhrase <:+: x.render.toList) : SaysUnknown f.nodes := by
    rw [← List.append_nil x.render.toList] at h
    exact ((unknown_of_render x hx .nil h).resolve_left (by decide)).mono hs
  have hredeclared (h : redeclaredPhrase <:+: x.render.toList) : SaysRedeclared f.nodes :=
    (redeclared_of_render x h).mono hs
  refine ⟨fun h => ?_, ?_, ?_, ?_, fun hu hr => ?_⟩
  · rw [hq] at h
    cases h
  · rw [hq]
    rintro text ⟨⟩
    exact hc
  · rw [hq]
    rintro text ⟨⟩
    exact hunknown
  · rw [hq]
    rintro text ⟨⟩
    exact hredeclared
  · rw [hc, verdict, if_neg (mt hunknown hu), if_neg (mt hredeclared hr)]

theorem coded_of_quotes (hf : ∀ n ∈ f.nodes, n.Worded) (h : r.fault.Quotes f.nodes) :
    Coded f r := by
  obtain ⟨pos, fault⟩ := r
  have hname {name : Ident} (h : name.walk ⊆ f.nodes) : Worded name.text.toList :=
    hf _ (h List.mem_cons_self)
  have hexpr {x : Expr} (h : x.walk everywhere ⊆ f.nodes) : ∀ n ∈ x.walk everywhere, n.Worded :=
    fun n hn => hf n (h hn)
  cases h with
  | undefined h => exact .of_settled rfl (resolveCode_undefined _)
  | unknownCode domain h => exact .of_settled rfl (resolveCode_unknownCode _ _)
  | redeclared h => exact .of_settled rfl (resolveCode_redeclared (hname h))
  | redeclaredCode h h' => exact .of_settled rfl (resolveCode_redeclaredCode (hname h) (hname h'))
  | notAType h => exact .of_quoted h (hexpr h) rfl (resolveCode_notAType (hexpr h))
  | notAnErrorType h => exact .of_quoted h (hexpr h) rfl (resolveCode_notAnErrorType (hexpr h))
  | notAnExpr h => exact .of_quoted h (hexpr h) rfl (resolveCode_notAnExpr (hexpr h))
  | notAssignable h => exact .of_quoted h (hexpr h) rfl (resolveCode_notAssignable (hexpr h))
  | nonNameDefined h => exact .of_quoted h (hexpr h) rfl (resolveCode_nonNameDefined (hexpr h))
  | defineInPost =>
    refine .of_settled rfl ?_
    rw [ofResolve, resolveCode_defineInPost, ResolveFault.code]

/-- The names and numbers of a file that is read without a report are those that were scanned. -/
theorem worded_of_clean {source : Source} (h : (Parsed.ofSource source).reports = []) :
    ∀ n ∈ (Parsed.ofSource source).file.nodes, n.Worded := by
  obtain ⟨f, u, last, hscan, -, hfile, e⟩ := Parsed.exists_fileOf (Parsed.faults_eq_zero h)
  obtain ⟨_, hcount, -, -⟩ := f.numbered_spec
  have hspelled := (hfile.covers.recounted hcount).spelled
  have hscanned {n : Node} (hn : n ∈ (Parsed.ofSource source).file.nodes) {p : Pos} {w : Word}
      (hw : n.spelled? = some (p, w)) (hv : w.1.isVerbatim = true) : Worded w.2.toList := by
    rw [e] at hn
    have hmem := List.mem_filterMap.2 ⟨n, hn, hw⟩
    rw [hspelled] at hmem
    obtain ⟨l, hl, hlw⟩ := List.mem_filterMap.1 hmem
    have hl : l ∈ scan source := hscan ▸ List.mem_append_left _ hl
    have hall : Punctuated none (Cursor.start source) (scan source) :=
      lexemes_punctuated (.inl (Nat.le_refl _)) rfl
    unfold Lexeme.spelled? at hlw
    split at hlw
    · cases hlw
      exact hall.numerals l hl hv
    · cases hlw
      exact hall.numerals l hl hv
    · cases hlw
  intro n hn
  match n with
  | .expr (.ident name) => exact hscanned hn rfl rfl
  | .expr (.literal m .int text) => exact fun _ => hscanned hn rfl rfl
  | .expr (.literal m .float text) => exact fun _ => hscanned hn rfl rfl
  | .expr (.literal m .string text) => exact fun h => absurd rfl h
  | .expr (.unary ..) | .expr (.binary ..) | .expr (.call ..) | .expr (.index ..)
  | .expr (.select ..) | .expr (.paren ..) | .expr (.sliceType ..) | .file _ | .errorDomain _
  | .varDecl _ | .func _ | .param _ | .stmt _ | .caseClause _ | .catchClause _ => trivial

/-- What a check finds in a file whose names do not resolve. -/
theorem items_of_unresolved (options : CheckOptions) {source : Source}
    (hparse : (Parsed.ofSource source).reports = [])
    (hresolve : (Resolution.ofFile (Parsed.ofSource source).file).reports ≠ []) :
    (ofSource options source).bag.items =
      (Resolution.ofFile (Parsed.ofSource source).file).reports.map ofResolve := by
  obtain ⟨first, more, hreports⟩ := List.exists_cons_of_ne_nil hresolve
  have hpromote (b : Bag) : b.promote ∘ ofResolve = ofResolve := by
    funext r
    simp [Bag.promote, ofResolve]
  simp only [ofSource, hparse, List.map_nil]
  split
  · rename_i herrors
    exact absurd herrors (Nat.not_lt_zero 0)
  · simp only [resolve, log, report, hreports, Bag.items_reportAll, List.map_map, hpromote]
    rfl

/-- The code of a resolution error that a check reports: it is that of the check that failed, unless
a name or literal of the file says the words of another message. -/
theorem coded_of_mem_reports (options : CheckOptions) {source : Source}
    (hparse : (Parsed.ofSource source).reports = []) {r : ResolveReport}
    (hr : r ∈ (Resolution.ofFile (Parsed.ofSource source).file).reports) :
    ofResolve r ∈ (ofSource options source).bag.items ∧ Coded (Parsed.ofSource source).file r := by
  refine ⟨?_, coded_of_quotes (worded_of_clean hparse) (Resolution.quotes_of_mem_reports hr)⟩
  rw [items_of_unresolved options hparse (List.ne_nil_of_mem hr)]
  exact List.mem_map_of_mem hr

end Check

/-- A function whose name says what messages about names say is taken for a variable. -/
def misnamedSource : Source :=
  .ofText "" "package p\nfunc redeclared() \x7b \x7d\nfunc f() \x7b redeclared = 1 \x7d".toList

theorem misnamedSource_reports : (Parsed.ofSource misnamedSource).reports = [] ∧
    (Resolution.ofFile (Parsed.ofSource misnamedSource).file).reports =
      [⟨⟨"", 3, 12⟩, .notAssignable "redeclared"⟩] := by
  cbv

/-- The report on the assignment quotes a name that says the word. -/
theorem Check.coded_misnamedSource : (Parsed.ofSource misnamedSource).reports = [] ∧
    ∃ r ∈ (Resolution.ofFile (Parsed.ofSource misnamedSource).file).reports,
      ofResolve r ∈ (ofSource {} misnamedSource).bag.items ∧
      Coded (Parsed.ofSource misnamedSource).file r ∧
      SaysRedeclared (Parsed.ofSource misnamedSource).file.nodes := by
  obtain ⟨hparse, hresolve⟩ := misnamedSource_reports
  have hr : ⟨⟨"", 3, 12⟩, .notAssignable "redeclared"⟩ ∈
      (Resolution.ofFile (Parsed.ofSource misnamedSource).file).reports := by
    rw [hresolve]
    exact List.mem_singleton_self _
  obtain ⟨hitem, hcoded⟩ := coded_of_mem_reports {} hparse hr
  exact ⟨hparse, _, hr, hitem, hcoded, hcoded.redeclared _ rfl (by decide)⟩

/-- The check that fails is about an assignment, the code that is reported about a declaration. -/
theorem Check.misread_misnamedSource : (Parsed.ofSource misnamedSource).reports = [] ∧
    ∃ r ∈ (Resolution.ofFile (Parsed.ofSource misnamedSource).file).reports,
      ofResolve r ∈ (ofSource {} misnamedSource).bag.items ∧
      r.fault.code = .notAssignable ∧ (ofResolve r).code = .redeclared := by
  obtain ⟨hparse, hresolve⟩ := misnamedSource_reports
  have hitems := items_of_unresolved {} hparse (by rw [hresolve]; exact List.cons_ne_nil _ _)
  rw [hresolve] at hitems ⊢
  refine ⟨hparse, _, List.mem_singleton_self _, ?_, rfl, by decide⟩
  rw [hitems]
  exact List.mem_singleton_self _

end FlowCheck
