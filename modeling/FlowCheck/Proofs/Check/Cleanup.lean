import FlowCheck.Proofs.Build.Enclosure
import FlowCheck.Proofs.Build.Record
import FlowCheck.Proofs.Check.Occurrence

/-!
# No way around a `finally` block

Whatever leaves the body or a handler of a try statement, be it control, a jump or an error, gets to
the entry of its `finally` block first, and this holds for all ways through the finished graph.
-/
namespace FlowCheck

namespace Graph

/-- A path that starts at place `k` of its first block and passes `l` gets out of `A` in `c`: it finds
a node outside of `A` there, behind `k` if it is still in the block, or it is where the function
returns or is left by an error. -/
def GetsOut (g : Graph) (A : Stmt) (k : ℕ) (l : List BlockId) (c : BlockId) : Prop :=
  g.ret = some c ∨ g.exit = some c ∨
    ∃ j m, (g.nodes c)[j]? = some m ∧ m ∉ A.walk everywhere ∧ (l = [] → k < j)

/-- The `finally` block of `A` begins in the block `f`, and there is no way around it. The tail of a
path is what it passes behind its first block. -/
structure Guards (g : Graph) (A : Stmt) (f : BlockId) : Prop where
  begins : ∀ m ∈ g.nodes f, m ∈ Block.walkOption everywhere A.cleanup?
  /-- From a node of the body or of a handler no path gets out of the statement before it has passed
  the block, and this after it has left the block of the node. -/
  passes : ∀ {b k n l c}, (g.nodes b)[k]? = some n → n ∈ A.guarded → g.Path b l c →
    g.GetsOut A k l c → f ∈ l.tail

end Graph

/-- What is known of the `finally` blocks of a function, given its graph and its dead nodes, if
`entries` says where they begin. -/
structure Sheltered (d : FuncDecl) (g : Graph) (dead : List Nat) (entries : List (Stmt × BlockId)) :
    Prop where
  /-- They begin in blocks of their own, and no other blocks are of this kind. -/
  blocks : entries.map Prod.snd = g.cleanupEntries
  distinct : (entries.map Prod.fst).Nodup
  /-- Just the try statements that are not dead have one. -/
  live : ∀ A, A ∈ entries.map Prod.fst ↔
    A ∈ attempts (d.body.walk everywhere) ∧ (Node.stmt A).id ∉ dead
  guards : ∀ p ∈ entries, g.Guards p.1 p.2

namespace Build

variable {T : List Target} {o e : List BlockId} {s s' : State} {A : Stmt} {f b c : BlockId}
  {K R : BlockId → Prop} {g : Graph} {l : List BlockId}

/-- Past the `finally` block a path from a block of a sealed statement stays inside. -/
theorem path_inside (hleave : ∀ y ∈ g.succs b, y = f ∨ R y)
    (hinside : ∀ x, R x → ∀ y ∈ g.succs x, y = f ∨ R y) (h : g.Path b l c) (hf : f ∉ l) :
    (l = [] ∧ c = b) ∨ c = f ∨ R c := by
  induction h with
  | here => exact .inl ⟨rfl, rfl⟩
  | @step l p c _ hedge ih =>
    rw [List.mem_append, List.mem_singleton, not_or] at hf
    rcases ih hf.1 with ⟨-, rfl⟩ | rfl | hp
    · exact .inr (hleave c hedge)
    · exact absurd rfl hf.2
    · exact .inr (hinside p hp c hedge)

/-- What is sealed stays guarded if the only edges that are still added leave open blocks. -/
theorem Sealed.guards (hA : Sealed T o e s s' A f K R) (hgrown : Grown s s')
    (hnodes : ∀ x, g.nodes x = s'.graph.nodes x)
    (hsuccs : ∀ x, x ∉ e → ∀ y ∈ g.succs x, y ∈ s'.graph.succs x)
    (hold : ∀ x, ∀ n ∈ s.graph.nodes x, n ∉ A.guarded)
    (hends : ∀ x, g.ret = some x ∨ g.exit = some x → ¬Open o s x) : g.Guards A f where
  begins m hm := hA.entry.2 m (hnodes f ▸ hm)
  passes := by
    intro b k n l c hn hguarded hpath hgets
    rw [hnodes] at hn
    have hk : (s.graph.nodes b).length ≤ k := not_lt.mp fun hlt =>
      hold b n (List.mem_of_getElem? (hgrown.getElem?_nodes hn hlt)) hguarded
    obtain ⟨hb, hne, hleave, hrest⟩ := hA.begins b k n hn hk hguarded
    have hkept : ∀ x, K x → ∀ y ∈ g.succs x, y ∈ s'.graph.succs x := fun x hx =>
      hsuccs x (hA.quiet x hx).2.2.1
    suffices hf : f ∈ l by
      cases l with
      | nil => cases hf
      | cons x l =>
        exact (List.mem_cons.mp hf).resolve_left fun hfx => hne (hpath.head.trans hfx.symm)
    by_contra hf
    have harrive := path_inside (R := R) (fun y hy => hleave y (hkept b hb y hy))
      (fun x hx y hy => (hA.inside x hx).2.1 y (hkept x (hA.inside x hx).1 y hy)) hpath hf
    have hc : K c := by
      rcases harrive with ⟨-, rfl⟩ | rfl | hc
      · exact hb
      · exact hA.entry.1
      · exact (hA.inside c hc).1
    have hopen := (hA.quiet c hc).1
    rcases hgets with hret | hexit | ⟨j, m, hm, hout, hlater⟩
    · exact hends c (.inl hret) hopen
    · exact hends c (.inr hexit) hopen
    · rw [hnodes] at hm
      rcases harrive with ⟨hl, rfl⟩ | rfl | hc
      · refine hout (hrest m (List.mem_of_getElem? (i := j - k) ?_))
        rwa [List.getElem?_drop, Nat.add_sub_cancel' (hlater hl).le]
      · exact hout (A.cleanup_subset (hA.entry.2 m (List.mem_of_getElem? hm)))
      · exact hout ((hA.inside c hc).2.2 m (List.mem_of_getElem? hm))

/-! ### The first blocks and the end of the body -/

theorem cleanups_startState (d : FuncDecl) (name : String) :
    (startState d name).graph.cleanupEntries = [] := by
  have hframe : (frameGraph name).cleanupEntries = [] := by
    change (((Graph.ofName name).newBlock .ret).2.newBlock .exit).2.cleanupEntries = []
    rw [Graph.cleanupEntries_newBlock, Graph.cleanupEntries_newBlock]
    rfl
  have hnode {s : State} {b : BlockId} {n : Node} :
      (s.withNode b n).graph.cleanupEntries = s.graph.cleanupEntries :=
    (adds_withNode (E := NoEdge) (N := fun _ _ => True) trivial).cleanups
  rw [startState, hnode, (adds_branched (N := NoNode) _ .plain (by decide) _).cleanups, frameState,
    hnode, ← hframe]
  exact Graph.cleanupEntries_congr (Graph.size_addEdge (frameGraph name) 1 2)
    (Graph.kind_addEdge (frameGraph name) 1 2)

theorem size_startState (d : FuncDecl) (name : String) :
    (startState d name).graph.blocks.size = 4 := by
  rw [startState, size_withNode, size_branched]
  rfl

theorem cursor_startState (d : FuncDecl) (name : String) : (startState d name).cursor = some 3 := rfl

theorem ready_startState (d : FuncDecl) (name : String) : Ready bodyTargets (startState d name) where
  cursor b hb := by
    have hframe : Ready bodyTargets ((frameState d name).branched .plain (some 0)) :=
      .branched (by decide) (fun _ hb => nomatch hb) fun x hx =>
        Option.some_inj.mp hx ▸ Nat.zero_lt_succ 2
    obtain ⟨hlt, hlast, hclear⟩ := hframe.cursor b hb
    refine ⟨?_, hlast, (Graph.succs_addNode _ _ _ b).trans hclear⟩
    rwa [startState, size_withNode]
  laid _ hb := nomatch hb

/-- The end of the body adds at most an edge from the cursor. -/
theorem frame_concluded (s : State) (d : FuncDecl) :
    (s.concluded d).graph.cleanupEntries = s.graph.cleanupEntries ∧
      (∀ x, (s.concluded d).graph.nodes x = s.graph.nodes x) ∧
      ∀ x, x ∉ s.cursor.toList → ∀ y ∈ (s.concluded d).graph.succs x, y ∈ s.graph.succs x := by
  unfold State.concluded
  split_ifs
  · exact ⟨rfl, fun _ => rfl, fun _ _ _ => id⟩
  · have hadds : Adds (fun x _ => s.cursor = some x) NoNode s.fallenOff
        (s.fallenOff.withEdge s.cursor 1) := adds_withEdge fun _ h => h
    refine ⟨hadds.cleanups, fun x => hadds.nodes_eq fun _ => id, fun x hx y hy => ?_⟩
    exact (hadds.mem_succs hy).resolve_right fun hcursor => hx (mem_open x hcursor)
  · exact ⟨rfl, fun _ => rfl, fun _ _ _ => id⟩

/-- It changes neither where the function returns nor where errors leave it, and takes back no
finding. -/
theorem later_concluded (s : State) (d : FuncDecl) : Later s (s.concluded d) := by
  unfold State.concluded
  split_ifs
  · exact ⟨le_rfl, rfl, rfl, List.prefix_append _ _, id⟩
  · have hfallen : Later s s.fallenOff := ⟨le_rfl, rfl, rfl, List.prefix_rfl, id⟩
    exact hfallen.trans (grown_withEdge s.fallenOff s.cursor 1).toLater
  · exact .refl s

end Build

/-! ### Functions -/

/-- The numbers of the statements of a function are apart, also from those of the function and of its
body. -/
theorem FuncDecl.Numbered.statements {d : FuncDecl} (hd : d.Numbered) :
    ((Stmt.walkList everywhere d.body.stmts).map Node.id).Nodup ∧
      ∀ n ∈ Stmt.walkList everywhere d.body.stmts,
        n.id ∉ [(Node.stmt (.block d.body)).id, d.mark.id] := by
  have hwalk : d.walk everywhere = .func d :: (d.headWalk ++ d.body.walk everywhere) := rfl
  rw [FuncDecl.Numbered, hwalk, d.walk_body] at hd
  obtain ⟨hfunc, hrest⟩ := List.nodup_cons.mp hd
  rw [List.map_append] at hrest
  obtain ⟨hblock, hstatements⟩ := List.nodup_cons.mp hrest.of_append_right
  refine ⟨hstatements, fun n hn hmem => ?_⟩
  rcases List.mem_cons.mp hmem with hid | hid
  · exact hblock (hid ▸ List.mem_map_of_mem hn)
  · refine hfunc (List.mem_map.mpr ⟨n, ?_, List.mem_singleton.mp hid⟩)
    exact List.mem_append_right _ (List.mem_cons_of_mem _ hn)

namespace Construction

open Build

variable {facts : Facts} {d : FuncDecl} {g : Graph}

/-- The first blocks have no node of the statements of the function. -/
theorem notMem_startState (hd : d.Numbered) {b : BlockId} {n : Node}
    (hn : n ∈ (startState d d.name.text).graph.nodes b) :
    n ∉ Stmt.walkList everywhere d.body.stmts := by
  intro hmem
  have hcount := mentions_startState d d.name.text n.id
  rw [List.count_eq_zero.mpr (hd.statements.2 n hmem), Nat.le_zero, State.mentions] at hcount
  refine List.count_eq_zero.mp (Nat.eq_zero_of_add_eq_zero_right hcount) ?_
  exact List.mem_map_of_mem (Graph.mem_placed.mpr ⟨b, hn⟩)

theorem sheltered_of_numbered (hd : d.Numbered) (hg : (ofFunc facts d).outcome = .ok g)
    (hjumps : ∀ x ∈ (ofFunc facts d).diagnostics, x.code ≠ .noEnclosingLoop) :
    ∃ entries, Sheltered d g (ofFunc facts d).dead entries := by
  obtain ⟨made, s, hcourse, -, rfl, hdiagnostics, hdead⟩ := exists_course hg
  have hlater := later_concluded s d
  obtain ⟨hcleanups, hnodes, hsuccs⟩ := frame_concluded s d
  rw [hdead, dead_concluded]
  have hclean : Clean s := fun x hx => hjumps x (hdiagnostics ▸ hlater.diagnostics.subset hx)
  have hconf := (hcourse.confined hclean hd.statements.1 (ready_startState d _)).confined
  have hattempts : attempts (d.body.walk everywhere) =
      attempts (Stmt.walkList everywhere d.body.stmts) := by
    rw [d.walk_body, attempts_cons _ rfl]
  refine ⟨made, ?_, hconf.distinct, fun A => ⟨fun hA => ?_, fun ⟨hA, hlive⟩ => ?_⟩, fun p hp => ?_⟩
  · rw [hcleanups, hcourse.entries, cleanups_startState]
    rfl
  · obtain ⟨p, hp, rfl⟩ := List.mem_map.mp hA
    obtain ⟨hpart, hlive⟩ := hconf.within p hp
    rw [hattempts, mem_attempts]
    exact ⟨⟨hpart (Node.stmt p.1).mem_subtree, hcourse.guarding p hp⟩,
      fun hmem => nomatch hlive hmem⟩
  · exact (hcourse.covers A (hattempts ▸ hA)).resolve_left hlive
  · obtain ⟨K, R, hA⟩ := hconf.isSealed p hp
    refine hA.guards hcourse.grown hnodes hsuccs (fun x n hn hguarded => ?_) fun x hx hopen => ?_
    · exact notMem_startState hd hn ((hconf.within p hp).1 (p.1.guarded_subset hguarded))
    · rw [hlater.ret_eq, hlater.exit_eq, hcourse.grown.ret_eq, hcourse.grown.exit_eq,
        (started_startState d _).ret, (started_startState d _).exit] at hx
      rw [Open, cursor_startState, size_startState] at hopen
      rcases hx with hx | hx
      · obtain rfl := Option.some_inj.mp hx
        revert hopen
        decide
      · obtain rfl := Option.some_inj.mp hx
        revert hopen
        decide

/-- Every try statement with a `finally` block that control gets to has an entry of its own, and
there is no way around it, for any function of a parsed file and whatever the facts, as long as every
jump finds a place to go. -/
theorem sheltered_of_mem_funcs {source : Source} (hd : d ∈ (Parsed.ofSource source).file.funcs)
    (hg : (ofFunc facts d).outcome = .ok g)
    (hjumps : ∀ x ∈ (ofFunc facts d).diagnostics, x.code ≠ .noEnclosingLoop) :
    ∃ entries, Sheltered d g (ofFunc facts d).dead entries :=
  sheltered_of_numbered ((Parsed.file_numbered source).numbered_of_mem_funcs hd) hg hjumps

/-- A function that is left by a jump and by errors, in either case through a `finally` block that may
raise errors of its own. -/
def persistentSource : Source := .ofText "" ("package p\nfunc f() throws Error \x7b " ++
  "try \x7b f(); return \x7d finally \x7b f() \x7d \x7d").toList

def persistentFacts : Facts := (Resolution.ofFile (Parsed.ofSource persistentSource).file).facts

theorem built_persistentSource :
    (Parsed.ofSource persistentSource).reports = [] ∧
    (Resolution.ofFile (Parsed.ofSource persistentSource).file).reports = [] ∧
    (Parsed.ofSource persistentSource).file.funcs.map (fun d =>
      ((ofFunc persistentFacts d).outcome.toOption.map Graph.cleanupEntries,
        (ofFunc persistentFacts d).diagnostics.map (·.code))) = [(some [5], [])] := by
  cbv

theorem sheltered_persistentSource : ∃ d ∈ (Parsed.ofSource persistentSource).file.funcs,
    (ofFunc persistentFacts d).diagnostics = [] ∧
      ∃ g, (ofFunc persistentFacts d).outcome = .ok g ∧
        ∃ A ∈ attempts (d.body.walk everywhere), g.Guards A 5 := by
  obtain ⟨d, g, hfuncs, hg, hgraph, hcodes⟩ := exists_graph_of_map built_persistentSource.2.2
  have hd : d ∈ (Parsed.ofSource persistentSource).file.funcs := by simp [hfuncs]
  have hdiagnostics := List.map_eq_nil_iff.mp hcodes
  obtain ⟨entries, hentries⟩ := sheltered_of_mem_funcs hd hg (by simp [hdiagnostics])
  obtain ⟨⟨A, f⟩, rfl, hf⟩ := List.map_eq_singleton_iff.mp (hentries.blocks.trans hgraph)
  obtain rfl : f = 5 := hf
  exact ⟨d, hd, hdiagnostics, g, hg, A, ((hentries.live A).mp List.mem_cons_self).1,
    hentries.guards _ List.mem_cons_self⟩

end Construction

end FlowCheck
