import Mathlib
import FlowCheck.Proofs.Parse.Limit
import FlowCheck.Proofs.Source.Encoding
import FlowCheck.Proofs.Tree.Carrier

/-!
# Where the nodes of a file stand

A walk over a file comes to the names and literals that were scanned, each of them once and in the
order of the text. The lexemes come in order, and the brace that ends a function comes before
everything that follows it. So no two names of a file that parses stand at one position, none stands
where a function ends, and the nodes of different functions have no position in common.
-/
namespace FlowCheck

/-- The positions that belong to a function: those of its nodes and the end of its body. -/
def FuncDecl.places (d : FuncDecl) : List Pos :=
  (d.walk everywhere).map Node.pos ++ [d.body.close]

def Decl.places : Decl → List Pos
  | .func d => d.places
  | _ => []

namespace Parse

variable {u w : List Lexeme} {ds : List Decl}

theorem covers_semis (h : ∀ l ∈ u, l.token = .semi) : Covers u [] := by
  refine ⟨?_, by simp⟩
  rw [List.filterMap_nil, eq_comm, List.filterMap_eq_nil_iff]
  intro l hl
  exact Lexeme.spelled?_eq_none (leaf?_eq_none (h l hl))

theorem Sequence.covers (h : Sequence u ds) : Covers u (ds.flatMap (·.walk everywhere)) := by
  induction h with
  | nil hu => exact covers_semis hu
  | cons hv hd _ ih =>
    rw [List.flatMap_cons]
    exact (covers_semis hv).append (hd.covers.append ih)

/-- The places of a function are those of the lexemes up to the brace that ends it. -/
theorem Bounded.places {d : FuncDecl} (h : Bounded u d) :
    ∃ a l b, u = a ++ l :: b ∧ l.token = .rbrace ∧ d.body.close = l.pos ∧
      ∀ p ∈ d.places, p = l.pos ∨ ∃ m ∈ a, p = m.pos := by
  obtain ⟨a, l, b, rfl, hl, hclose, hcov, -⟩ := h
  refine ⟨a, l, b, rfl, hl, hclose, fun p hp => ?_⟩
  rw [FuncDecl.places, List.mem_append, List.mem_singleton] at hp
  rcases hp with hp | rfl
  · obtain ⟨n, hn, rfl⟩ := List.mem_map.1 hp
    obtain ⟨m, hm, e⟩ := List.mem_map.1 (hcov.placed n hn)
    exact .inr ⟨m, hm, e.symm⟩
  · exact .inl hclose

theorem DeclOf.places_subset {d : Decl} (h : DeclOf u d) : d.places ⊆ u.map Lexeme.pos := by
  cases d with
  | func d =>
    obtain ⟨a, l, b, rfl, -, -, hplaces⟩ := Bounded.places h
    intro p hp
    rcases hplaces p hp with rfl | ⟨m, hm, rfl⟩
    · simp
    · exact List.mem_map_of_mem (List.mem_append_left _ hm)
  | errorDomain d => exact List.nil_subset _
  | var d => exact List.nil_subset _

theorem Sequence.places_subset (h : Sequence u ds) : ds.flatMap Decl.places ⊆ u.map Lexeme.pos := by
  induction h with
  | nil _ => exact List.nil_subset _
  | cons _ hd _ ih =>
    intro p hp
    rw [List.flatMap_cons, List.mem_append] at hp
    rw [List.map_append, List.map_append, List.mem_append, List.mem_append]
    exact .inr (hp.imp (fun h => hd.places_subset h) fun h => ih h)

/-- A function ends before the next declaration starts. -/
theorem DeclOf.precedes {d : Decl} (h : DeclOf u d) (ho : (u ++ w).Pairwise Lexer.Ordered) :
    ∀ p ∈ d.places, ∀ q ∈ w.map Lexeme.pos, Pos.Precedes p q := by
  cases d with
  | func d =>
    obtain ⟨a, l, b, rfl, hl, -, hplaces⟩ := Bounded.places h
    intro p hp q hq
    obtain ⟨m, hm, rfl⟩ := List.mem_map.1 hq
    rw [List.append_assoc, List.pairwise_append] at ho
    have hlm : Pos.Precedes l.pos m.pos := by
      refine ((List.pairwise_cons.1 ho.2.1).1 m (List.mem_append_right _ hm)).2 ?_
      rw [hl]
      decide
    rcases hplaces p hp with rfl | ⟨k, hk, rfl⟩
    · exact hlm
    · exact (ho.2.2 k hk l List.mem_cons_self).1.trans_precedes hlm
  | errorDomain d => exact fun p hp => absurd hp List.not_mem_nil
  | var d => exact fun p hp => absurd hp List.not_mem_nil

theorem Sequence.apart (h : Sequence u ds) (ho : u.Pairwise Lexer.Ordered) :
    (ds.map Decl.places).Pairwise List.Disjoint := by
  induction h with
  | nil _ => exact .nil
  | @cons v u w d ds hv hd hds ih =>
    have ho' := (List.pairwise_append.1 ho).2.1
    refine List.pairwise_cons.2 ⟨?_, ih (List.pairwise_append.1 ho').2.1⟩
    refine List.forall_mem_map.2 fun e he p hp hq => ?_
    have hlater := hds.places_subset (List.mem_flatMap.2 ⟨e, he, hq⟩)
    exact (hd.precedes ho' p hp p hlater).ne rfl

theorem Sequence.closes (h : Sequence u ds) {d : Decl} (hd : d ∈ ds) {p : Pos}
    (hp : d.close? = some p) : ∃ l ∈ u, l.token = .rbrace ∧ p = l.pos := by
  induction h with
  | nil _ => cases hd
  | @cons v u w e ds hv he hds ih =>
    rcases List.mem_cons.1 hd with rfl | hd
    · cases d with
      | func d =>
        obtain ⟨a, l, b, rfl, hl, hclose, -⟩ := Bounded.places he
        cases hp
        exact ⟨l, by simp, hl, hclose⟩
      | errorDomain d => cases hp
      | var d => cases hp
    · obtain ⟨l, hl, hrest⟩ := ih hd
      exact ⟨l, by simp [hl], hrest⟩

/-- Lexemes other than semicolons have positions of their own. -/
theorem pos_ne_of_ordered (ho : u.Pairwise Lexer.Ordered) {l m : Lexeme} (hl : l ∈ u) (hm : m ∈ u)
    (hne : l ≠ m) (hls : l.token ≠ .semi) (hms : m.token ≠ .semi) : l.pos ≠ m.pos := by
  let R (a b : Lexeme) : Prop := a.token ≠ .semi → b.token ≠ .semi → a.pos ≠ b.pos
  have hsymm : Std.Symm R := ⟨fun _ _ h ha hb => (h hb ha).symm⟩
  have hpair : u.Pairwise R := ho.imp fun hab ha _ => (hab.2 ha).ne
  exact hpair.forall hl hm hne hls hms

theorem token_of_leaf? {l : Lexeme} {x : Pos × String} (h : l.leaf? = some x) :
    l.token ≠ .semi ∧ l.token ≠ .rbrace ∧ x.1 = l.pos := by
  unfold Lexeme.leaf? at h
  split at h
  · rename_i ht
    cases h
    simp [ht]
  · rename_i ht
    cases h
    simp [ht]
  · cases h

/-- The leaves of a tree have positions of their own. -/
theorem leaves_apart {ns : List Node} (h : Covers u ns) (ho : u.Pairwise Lexer.Ordered) :
    ns.Pairwise fun a b => ∀ x ∈ a.leaf?, ∀ y ∈ b.leaf?, x.1 ≠ y.1 := by
  have hleaves : (u.filterMap Lexeme.leaf?).Pairwise fun x y => x.1 ≠ y.1 := by
    rw [List.pairwise_filterMap]
    refine ho.imp fun {l m} hlm x hx y hy => ?_
    obtain ⟨hl, -, hxl⟩ := token_of_leaf? hx
    obtain ⟨-, -, hym⟩ := token_of_leaf? hy
    rw [hxl, hym]
    exact (hlm.2 hl).ne
  rw [← h.leaves, List.pairwise_filterMap] at hleaves
  exact hleaves

theorem Tallied.faults_eq_zero {s : State} (ht : Tallied s) (hr : s.reports = []) :
    s.faults = 0 := by
  have hnone : ∀ e ∈ s.history, e.reports = [] := by
    intro e he
    rw [State.reports, List.flatMap_eq_nil_iff] at hr
    exact hr e (List.mem_reverse.2 he)
  cases ht with
  | going _ _ hc =>
    rw [← hc.count, List.countP_eq_zero]
    intro e he hf
    have := hnone e he
    unfold ParseEvent.isFault at hf
    split at hf
    · cases this
    · cases hf
  | stopped p f h _ _ hh _ =>
    have := hnone (.report ⟨p, .tooMany⟩) (by simp [hh])
    cases this

end Parse

open Parse

/-- How the nodes of a file lie in its text. -/
structure File.Laid (f : File) : Prop where
  names : ∀ a ∈ idents f.nodes, ∀ b ∈ idents f.nodes, a.mark.pos = b.mark.pos → a = b
  closes : ∀ d ∈ f.funcs, ∀ name ∈ idents f.nodes, name.mark.pos ≠ d.body.close
  apart : (f.funcs.map FuncDecl.places).Pairwise List.Disjoint

theorem File.mem_funcs {f : File} {d : FuncDecl} : d ∈ f.funcs ↔ .func d ∈ f.decls := by
  rw [File.funcs, List.mem_filterMap]
  constructor
  · rintro ⟨e, he, h⟩
    cases e with
    | func e =>
      cases h
      exact he
    | errorDomain e => cases h
    | var e => cases h
  · exact fun h => ⟨_, h, rfl⟩

theorem File.funcs_places (f : File) :
    (f.funcs.map FuncDecl.places).Sublist (f.decls.map Decl.places) := by
  rw [File.funcs]
  induction f.decls with
  | nil => exact .slnil
  | cons d ds ih =>
    cases d with
    | func d => exact ih.cons_cons d.places
    | errorDomain d => exact ih.cons _
    | var d => exact ih.cons _

theorem Decl.Alike.places {d e : Decl} (h : d.Alike e) : e.places = d.places := by
  have hpos : (e.walk everywhere).map Node.pos = (d.walk everywhere).map Node.pos := by
    simpa [Node.view, Function.comp_def] using congrArg (List.map Prod.fst) h.views
  have hclose := h.close
  cases d <;> cases e <;> simp_all [Decl.close?, Decl.places, FuncDecl.places, Decl.walk]

theorem Parse.FileOf.covers {u : List Lexeme} {f : File} (h : FileOf u f) : Covers u f.nodes := by
  obtain ⟨k, n, m, w, rfl, hk, hn, hm, hpos, hpackage, hw⟩ := h
  have hparts := (Covers.ident hn).append (hw.covers.skip (leaf?_eq_none hm))
  rw [File.nodes, File.walk, hpackage]
  refine Covers.above (hparts.skip (leaf?_eq_none hk)) rfl ?_
  simp [Node.pos, Node.mark, hpos]

/-- A file that is made of lexemes in order. -/
theorem Parse.FileOf.laid {u : List Lexeme} {f : File} (h : FileOf u f) (ho : u.Pairwise Lexer.Ordered) :
    f.numbered.Laid := by
  obtain ⟨_, hcount, -, halike⟩ := f.numbered_spec
  have hnew := h.covers.recounted hcount
  obtain ⟨k, n, m, w, rfl, hk, hn, hm, hpos, hpackage, hw⟩ := h
  refine ⟨fun a ha b hb e => ?_, fun d hd name hname e => ?_, ?_⟩
  · let R (x y : Node) : Prop := ∀ p ∈ x.leaf?, ∀ q ∈ y.leaf?, p.1 ≠ q.1
    have hsymm : Std.Symm R := ⟨fun _ _ h p hp q hq => (h q hq p hp).symm⟩
    have hapart : f.numbered.nodes.Pairwise R := leaves_apart hnew ho
    by_contra hne
    have hnodes : Node.expr (.ident a) ≠ .expr (.ident b) := by simpa using hne
    exact hapart.forall (mem_idents.1 ha) (mem_idents.1 hb) hnodes _ rfl _ rfl e
  · obtain ⟨d', hd', hd⟩ := exists_left_of_forall₂ halike _ (File.mem_funcs.1 hd)
    obtain ⟨l, hl, hbrace, hclose⟩ := hw.closes hd' (p := d.body.close) hd.close.symm
    have hleaf : (name.mark.pos, name.text) ∈ f.numbered.nodes.filterMap Node.leaf? :=
      List.mem_filterMap.2 ⟨_, mem_idents.1 hname, rfl⟩
    rw [hnew.leaves] at hleaf
    obtain ⟨x, hx, hxleaf⟩ := List.mem_filterMap.1 hleaf
    obtain ⟨hsemi, hnot, hxpos⟩ := token_of_leaf? hxleaf
    have hne : x ≠ l := fun h => hnot (h ▸ hbrace)
    refine pos_ne_of_ordered ho hx (by simp [hl]) hne hsemi (by simp [hbrace]) ?_
    rw [← hxpos, ← hclose]
    exact e
  · have hplaces : f.numbered.decls.map Decl.places = f.decls.map Decl.places :=
      map_eq_of_forall₂ (halike.imp fun _ _ h => h.places)
    have hw' := hw.apart (List.pairwise_cons.1 (List.pairwise_cons.1 (List.pairwise_cons.1 ho).2).2).2
    rw [← hplaces] at hw'
    exact hw'.sublist f.numbered.funcs_places

/-- A text that is read without a fault is, up to its end, the text of its file. -/
theorem Parsed.exists_fileOf {source : Source} (h : (Parsed.ofSource source).faults = 0) :
    ∃ f u l, Lexer.scan source = u ++ [l] ∧ l.token = .eof ∧ FileOf u f ∧
      (Parsed.ofSource source).file = f.numbered := by
  obtain ⟨f, s, u, e, r, hend, hfile⟩ := yields_file (sound_scan source)
  obtain ⟨f', s', e', ho, -⟩ := Parsed.exists_end source
  obtain ⟨rfl, rfl⟩ : f = f' ∧ s = s' := by
    rw [e, Option.some.injEq, Prod.mk.injEq] at e'
    exact e'
  rw [ho] at h ⊢
  have hscan : Lexer.scan source = u ++ s.ahead := by
    rw [← r.consumed h]
    obtain ⟨l, hl, -⟩ := (Lexer.scan_ordered source).1
    cases hs : Lexer.scan source with
    | nil => simp [hs] at hl
    | cons l ls => rfl
  have hrest : s.rest = [] := by
    by_contra hne
    refine Lexer.scan_dropLast source s.current ?_ hend
    rw [hscan, State.ahead, List.dropLast_append_cons,
      List.dropLast_cons_of_ne_nil hne]
    simp
  exact ⟨f, u, s.current, by rw [hscan, State.ahead, hrest], hend, hfile h, rfl⟩

theorem Parsed.faults_eq_zero {source : Source} (h : (Parsed.ofSource source).reports = []) :
    (Parsed.ofSource source).faults = 0 := by
  obtain ⟨f, s, -, ho, hrun⟩ := Parsed.exists_end source
  rw [ho] at h ⊢
  exact ((Tallied.ofLexemes _).run hrun (sound_scan source)).faults_eq_zero h

theorem Parsed.file_laid {source : Source} (h : (Parsed.ofSource source).reports = []) :
    (Parsed.ofSource source).file.Laid := by
  obtain ⟨f, u, l, hscan, -, hfile, e⟩ := Parsed.exists_fileOf (Parsed.faults_eq_zero h)
  have hordered := (Lexer.scan_ordered source).2
  rw [hscan] at hordered
  rw [e]
  exact hfile.laid (List.pairwise_append.1 hordered).1

/-- Nothing is lost, repeated or put elsewhere: the names and literals that a walk over the file
comes to are, one by one, those that were scanned. -/
theorem Parsed.leaves_of_accepted {source : Source} (h : (Parsed.ofSource source).faults = 0) :
    (Parsed.ofSource source).file.nodes.filterMap Node.leaf? =
      (Lexer.scan source).filterMap Lexeme.leaf? := by
  obtain ⟨f, u, l, hscan, hl, hfile, e⟩ := Parsed.exists_fileOf h
  obtain ⟨_, hcount, -, -⟩ := f.numbered_spec
  have hend : [l].filterMap Lexeme.leaf? = [] := by simp [leaf?_eq_none hl]
  rw [e, (hfile.covers.recounted hcount).leaves, hscan, List.filterMap_append, hend,
    List.append_nil]

/-- A variable with a type of two parts and an initial value. -/
def spreadSource : Source := .ofText "" "package p\nvar a []E = -b(2).t\n".toList

theorem Parsed.leaves_of_spreadSource :
    (Parsed.ofSource spreadSource).faults = 0 ∧
      (Parsed.ofSource spreadSource).file.nodes.filterMap Node.leaf? =
        (Lexer.scan spreadSource).filterMap Lexeme.leaf? ∧
      ((Lexer.scan spreadSource).filterMap Lexeme.leaf?).map Prod.snd =
        ["p", "a", "E", "b", "2", "t"] := by
  have hread : (Parsed.ofSource spreadSource).faults = 0 ∧
      ((Lexer.scan spreadSource).filterMap Lexeme.leaf?).map Prod.snd =
        ["p", "a", "E", "b", "2", "t"] := by cbv
  exact ⟨hread.1, Parsed.leaves_of_accepted hread.1, hread.2⟩

end FlowCheck
