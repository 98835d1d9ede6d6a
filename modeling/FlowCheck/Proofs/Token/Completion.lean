import Mathlib.Logic.Function.Iterate
import FlowCheck.Proofs.Token.Location

/-!
# Scanning to the end of a text

A scanner is called for one lexeme after the other. Every call moves on symbol by symbol, so the
calls together read every symbol of the text once, and with it each of its bytes. A symbol that is a
fault by itself is reported when the scanner arrives at it, whatever it turns out to be part of.
After a call for each byte, one for a semicolon and one for the end of the file at the latest, the
text has ended, and further calls only deliver its end again.
-/
namespace FlowCheck

namespace Symbol

/-- Every symbol takes up at least one byte. -/
theorem length_le_allBytes (symbols : List Symbol) :
    symbols.length ≤ (allBytes symbols).length := by
  induction symbols with
  | nil => exact Nat.le_refl 0
  | cons s symbols ih =>
    have hpos := List.length_pos_iff.2 s.bytes_ne_nil
    rw [allBytes, List.flatMap_cons, List.length_append, List.length_cons, ← allBytes]
    omega

theorem length_dropMark_le (bytes : List UInt8) : (dropMark bytes).length ≤ bytes.length := by
  unfold dropMark
  split
  · simp only [List.length_cons]
    omega
  · exact Nat.le_refl _

theorem ofNat_eq_zero_iff {n : Nat} (h : n < 256) : UInt8.ofNat n = 0 ↔ n = 0 := by
  rw [← UInt8.toNat_inj, UInt8.toNat_ofNat_of_lt' h]
  rfl

/-- Bytes of a longer form are no zeros. -/
theorem not_zero_eq_ofNat {n : Nat} (h : n < 256) (hpos : 0 < n) : ¬0 = UInt8.ofNat n :=
  fun e => Nat.ne_of_gt hpos ((ofNat_eq_zero_iff h).1 e.symm)

/-- No character but NUL has a byte of its value. -/
theorem count_zero_encodeChar (c : Char) :
    (String.utf8EncodeChar c).count 0 = if c = '\x00' then 1 else 0 := by
  have hnul : c = '\x00' ↔ c.val.toNat = 0 := by
    rw [Char.ext_iff, ← UInt32.toNat_inj]
    rfl
  simp only [hnul, String.utf8EncodeChar]
  by_cases h : c.val.toNat ≤ 127
  · simp only [if_pos h, List.count_singleton, beq_iff_eq,
      ofNat_eq_zero_iff (Nat.lt_of_le_of_lt h (by decide))]
  · have hne : ¬c.val.toNat = 0 := by omega
    rw [if_neg h, if_neg hne, List.count_eq_zero]
    split_ifs <;> simp (disch := omega) only [List.mem_cons, List.not_mem_nil, not_zero_eq_ofNat,
      or_self, not_false_eq_true]

/-- A text has a character NUL for every zero among its bytes. -/
theorem Decoded.count_zero {symbols : List Symbol} (h : Decoded symbols) :
    (allBytes symbols).count 0 = symbols.count (.scalar '\x00') := by
  induction h with
  | nil => rfl
  | scalar c rest ih =>
    rw [allBytes, List.flatMap_cons, List.count_append, ← allBytes, ih, bytes,
      count_zero_encodeChar, List.count_cons, Nat.add_comm]
    simp only [beq_iff_eq, scalar.injEq]
  | @illFormed symbols b stray rest ih =>
    have hb : b ≠ 0 := by
      rintro rfl
      exact stray.one (by decide)
    rw [allBytes, List.flatMap_cons, List.count_append, ← allBytes, ih, bytes,
      List.count_singleton, List.count_cons]
    simp [hb]

end Symbol

/-- The place after a symbol at `pos`. -/
def Pos.past (pos : Pos) (s : Symbol) : Pos := if s.char = '\n' then pos.nextLine else pos.nextCol

namespace Cursor

variable {c d : Cursor}

/-! ### Faults of symbols -/

theorem isOfSymbol_of_symbolFault? {s : Symbol} {fault : LexFault}
    (h : symbolFault? s = some fault) : fault.isOfSymbol = true := by
  unfold symbolFault? at h
  split at h
  · cases h
    rfl
  · split at h
    · cases h
      rfl
    · cases h

/-- The faults that the symbols from a place on are by themselves. -/
def symbolReports (pos : Pos) : List Symbol → List LexReport
  | [] => []
  | s :: rest =>
    ((symbolFault? s).map (LexReport.mk pos)).toList ++ symbolReports (pos.past s) rest

/-- The faults that the symbols of a text are by themselves, each at the place that the symbols
before it come to. -/
def ownReports (file : String) (symbols : List Symbol) : List LexReport :=
  symbols.zipIdx.filterMap fun x =>
    (symbolFault? x.1).map (LexReport.mk (Pos.after file (symbols.take x.2)))

theorem symbolReports_after (file : String) (before rest : List Symbol) :
    symbolReports (Pos.after file before) rest =
      (rest.zipIdx before.length).filterMap fun x =>
        (symbolFault? x.1).map (LexReport.mk (Pos.after file ((before ++ rest).take x.2))) := by
  induction rest generalizing before with
  | nil => rfl
  | cons s rest ih =>
    have hpast : (Pos.after file before).past s = Pos.after file (before ++ [s]) :=
      (Pos.after_concat file before s).symm
    rw [symbolReports, hpast, ih, List.length_append, List.length_singleton, List.append_assoc,
      List.singleton_append, List.zipIdx_cons, List.filterMap_cons, List.take_left]
    cases symbolFault? s <;> rfl

theorem symbolReports_start (file : String) (symbols : List Symbol) :
    symbolReports ⟨file, 1, 1⟩ symbols = ownReports file symbols :=
  symbolReports_after file [] symbols

theorem countP_symbolReports (fault : LexFault) (pos : Pos) (symbols : List Symbol) :
    (symbolReports pos symbols).countP (·.fault = fault) =
      symbols.countP (symbolFault? · = some fault) := by
  induction symbols generalizing pos with
  | nil => rfl
  | cons s rest ih =>
    rw [symbolReports, List.countP_append, ih, List.countP_cons, Nat.add_comm]
    cases symbolFault? s <;> simp [List.countP_cons]

theorem countP_ownReports_nul (file : String) (symbols : List Symbol) :
    (ownReports file symbols).countP (·.fault = .nul) = symbols.count (.scalar '\x00') := by
  rw [← symbolReports_start, countP_symbolReports, List.count]
  refine List.countP_congr fun s _ => ?_
  cases s with
  | illFormed b => simp [symbolFault?]
  | scalar c => simp [symbolFault?]

/-- The faults of symbols that were reported at a cursor, and those of the symbols that it has not
arrived at. -/
def told (c : Cursor) : List LexReport :=
  c.reports.reverse.filter (·.fault.isOfSymbol) ++
    match c.rest with
    | [] => []
    | s :: rest => symbolReports (c.pos.past s) rest

/-- A symbol is reported, if it is a fault, as soon as it is the current one. -/
theorem told_arrive (rest : List Symbol) (pos : Pos) (reports : List LexReport) :
    told (arrive rest pos reports) =
      reports.reverse.filter (·.fault.isOfSymbol) ++ symbolReports pos rest := by
  cases rest with
  | nil => rfl
  | cons s rest =>
    cases hs : symbolFault? s with
    | none => simp [told, arrive, symbolReports, hs]
    | some fault => simp [told, arrive, symbolReports, hs, isOfSymbol_of_symbolFault? hs]

theorem told_advance (c : Cursor) : told c.advance = told c := by
  rw [advance, told_arrive, told]
  cases hrest : c.rest with
  | nil => rfl
  | cons s rest => simp only [List.tail_cons, peek, hrest, List.head?_cons, Option.map_some,
      Option.some_inj, Pos.past]

theorem told_report {fault : LexFault} (h : fault.isOfSymbol = false) (c : Cursor) :
    told (c.report fault) = told c := by
  simp [told, report, h]

/-- However the scanner gets on, no fault of a symbol is missed and none is reported twice. -/
theorem Moves.told_eq (h : Moves c d) : told d = told c := by
  induction h with
  | stay c => rfl
  | read _ ih => exact ih.trans (told_advance _)
  | note fault kind _ ih => exact ih.trans (told_report kind _)

/-- What has been read is the part of the text up to what is left. -/
theorem Moves.take_append (h : Moves c d) :
    c.rest.take (c.rest.length - d.rest.length) ++ d.rest = c.rest := by
  obtain ⟨n, hn⟩ := h.after
  rw [← List.suffix_iff_eq_append, hn.rest]
  exact List.drop_suffix n c.rest

end Cursor

namespace Lexer

open Cursor

/-! ### Calls -/

/-- Where a scanner stands between two calls: its cursor, and whether a newline ends a statement
there. -/
structure Standing where
  ends : Bool
  cursor : Cursor

namespace Standing

def start (source : Source) : Standing := ⟨false, .start source⟩

/-- The cursor at which a call stops. -/
def stop (s : Standing) : Cursor := (next s.ends s.cursor).2.2.2

/-- What a call delivers, with the faults found since the last call. -/
def lexeme (s : Standing) : Lexeme :=
  let (token, text, pos, stop) := next s.ends s.cursor
  ⟨token, text, pos, stop.reports.reverse⟩

/-- Where the scanner stands after a call. -/
def after (s : Standing) : Standing :=
  ⟨s.lexeme.token.endsStatement, { s.stop with reports := [] }⟩

/-- The symbols that a call reads. -/
def read (s : Standing) : List Symbol :=
  s.cursor.rest.take (s.cursor.rest.length - s.stop.rest.length)

variable {s : Standing}

theorem moves (s : Standing) : Moves s.cursor s.stop := moves_next s.ends s.cursor

/-- What is left before a call is what the call reads and what is left after it. -/
theorem rest_eq (s : Standing) : s.cursor.rest = s.read ++ s.after.cursor.rest :=
  s.moves.take_append.symm

/-- The faults of symbols not yet delivered are delivered by a call or left for those after it. -/
theorem told_eq (s : Standing) :
    told s.cursor = s.lexeme.reports.filter (·.fault.isOfSymbol) ++ told s.after.cursor :=
  s.moves.told_eq.symm

/-- What every call takes from the front of a list, all calls up to one of them take together. -/
theorem eq_flatMap_append {α : Type} {left taken : Standing → List α}
    (h : ∀ s, left s = taken s ++ left s.after) (s : Standing) (n : Nat) :
    left s = (List.range n).flatMap (fun j => taken (after^[j] s)) ++ left (after^[n] s) := by
  induction n with
  | zero => rfl
  | succ n ih =>
    rw [List.range_succ, List.flatMap_append, List.flatMap_singleton, List.append_assoc,
      Function.iterate_succ_apply', ← h, ← ih]

/-! ### The end of the text -/

/-- Nothing is left to be read, nor to be delivered but the end of the file. -/
structure Over (s : Standing) : Prop where
  ends : s.ends = false
  rest : s.cursor.rest = []
  reports : s.cursor.reports = []

theorem Over.next_eq (h : s.Over) : next s.ends s.cursor = (.eof, "", s.cursor.pos, s.cursor) := by
  obtain ⟨ends, rest, pos, reports⟩ := s
  obtain ⟨rfl, rfl, rfl⟩ := h
  rw [next]
  rfl

theorem Over.lexeme_eq (h : s.Over) : s.lexeme = ⟨.eof, "", s.cursor.pos, []⟩ := by
  simp only [lexeme, h.next_eq, h.reports, List.reverse_nil]

theorem Over.read_eq (h : s.Over) : s.read = [] := by rw [read, h.rest, List.take_nil]

theorem Over.after (h : s.Over) : s.after.Over where
  ends := by rw [Standing.after, h.lexeme_eq]; rfl
  rest := by rw [Standing.after, stop, h.next_eq]; exact h.rest
  reports := rfl

theorem Over.iterate (h : s.Over) (n : Nat) : (Standing.after^[n] s).Over := by
  induction n with
  | zero => exact h
  | succ n ih =>
    rw [Function.iterate_succ_apply']
    exact ih.after

/-- The end of the file is delivered where the text has ended only. -/
theorem rest_of_next_eof (ends : Bool) (c : Cursor) (h : (next ends c).1 = .eof) :
    (next ends c).2.2.2.rest = [] := by
  fun_induction next ends c with
  | case1 c => cases h
  | case2 c hr => exact hr
  | case3 c s rest hr hb ih => exact ih h
  | case4 c => cases h
  | case5 c s rest hr hb hn he ih => exact ih h
  | case6 c s rest hr hb hn hc ih => exact ih h
  | case7 c => cases h
  | case8 c s rest hr hb hn hl hc comment he ih => exact ih h
  | case9 c s rest hr hb hn hl hc t text stop ht => exact absurd h (token?_spec ht).1
  | case10 c s rest hr hb hn hl hc ht ih => exact ih h

theorem over_after (h : s.lexeme.token = .eof) : s.after.Over where
  ends := by rw [after, h]; rfl
  rest := rest_of_next_eof s.ends s.cursor h
  reports := rfl

/-! ### Scans -/

theorem lexemes_succ (fuel : Nat) (s : Standing) :
    lexemes (fuel + 1) s.ends s.cursor =
      if s.lexeme.token = .eof then [s.lexeme]
      else s.lexeme :: lexemes fuel s.after.ends s.after.cursor := rfl

/-- The lexemes of a scan are those of the calls up to the first one that delivers the end of the
file. -/
theorem lexemes_eq_calls {fuel : Nat} (h : Fueled fuel s.ends s.cursor) :
    ∃ last < fuel,
      lexemes fuel s.ends s.cursor =
        (List.range (last + 1)).map (fun j => (Standing.after^[j] s).lexeme) ∧
      (Standing.after^[last] s).lexeme.token = .eof ∧
      ∀ j < last, (Standing.after^[j] s).lexeme.token ≠ .eof := by
  induction fuel generalizing s with
  | zero => rcases h with h | ⟨-, -, h⟩ <;> omega
  | succ fuel ih =>
    rw [lexemes_succ]
    by_cases he : s.lexeme.token = .eof
    · exact ⟨0, Nat.succ_pos fuel, by rw [if_pos he]; rfl, he, fun j hj => absurd hj j.not_lt_zero⟩
    · obtain ⟨last, hlast, hlexemes, heof, hbefore⟩ := ih (s := s.after) (h.next rfl he)
      refine ⟨last + 1, Nat.succ_lt_succ hlast, ?_, heof, fun j hj => ?_⟩
      · rw [if_neg he, hlexemes, List.range_succ_eq_map (n := last + 1), List.map_cons,
          List.map_map]
        rfl
      · cases j with
        | zero => exact he
        | succ j => exact hbefore j (Nat.lt_of_succ_lt_succ hj)

end Standing

/-- Where the scanner of a text stands after `n` calls. -/
def called (source : Source) (n : Nat) : Standing := Standing.after^[n] (.start source)

/-- Once the end of the file has been delivered nothing is left. -/
theorem over_of_eof {source : Source} {last j : Nat}
    (h : (called source last).lexeme.token = .eof) (hj : last < j) : (called source j).Over := by
  obtain ⟨n, rfl⟩ := Nat.exists_eq_add_of_lt hj
  have hlast : (called source (last + 1)).Over := by
    rw [called, Function.iterate_succ_apply']
    exact Standing.over_after h
  have hn : called source (last + n + 1) = Standing.after^[n] (called source (last + 1)) := by
    rw [called, called, ← Function.iterate_add_apply, Nat.add_right_comm, Nat.add_comm n]
  exact hn ▸ hlast.iterate n

/-- The calls on a text get through with its symbols, and `last` is the first of them to deliver the
end of the file. -/
structure Completes (source : Source) (symbols : List Symbol) (last : Nat) : Prop where
  ended : ∀ j, (called source j).lexeme.token = .eof ↔ last ≤ j
  scanned : scan source = (List.range (last + 1)).map fun j => (called source j).lexeme
  moves : ∀ j, Moves (called source j).cursor (called source j).stop
  read : (List.range (last + 1)).flatMap (fun j => (called source j).read) = symbols
  reported : ((scan source).flatMap Lexeme.reports).filter (·.fault.isOfSymbol) =
    ownReports source.file symbols
  idle : ∀ j, last < j → (called source j).read = [] ∧ (called source j).lexeme.reports = []

/-- What is reported at the first symbol belongs to the first call. -/
theorem told_start (source : Source) :
    told (Cursor.start source) = ownReports source.file (Cursor.start source).rest := by
  unfold Cursor.start
  split
  · rfl
  · rw [told_arrive, arrive_rest, symbolReports_start]
    rfl

/-- No text keeps the scanner for good, be it read in full or not at all. -/
theorem completes (source : Source) :
    ∃ last < (Cursor.start source).rest.length + 2,
      Completes source (Cursor.start source).rest last := by
  obtain ⟨last, hlast, hscan, heof, hbefore⟩ :=
    Standing.lexemes_eq_calls (s := .start source) (.inl (Nat.le_refl _))
  have hover {j : Nat} (hj : last < j) : (called source j).Over := over_of_eof heof hj
  have hnone := hover (Nat.lt_succ_self last)
  exact ⟨last, hlast, {
    ended := fun j => by
      constructor
      · exact fun h => Nat.le_of_not_lt fun hj => hbefore j hj h
      · intro h
        rcases Nat.eq_or_lt_of_le h with rfl | hj
        · exact heof
        · rw [(hover hj).lexeme_eq]
    scanned := hscan
    moves := fun j => Standing.moves _
    read := by
      have hread := Standing.eq_flatMap_append Standing.rest_eq (.start source) (last + 1)
      rw [← called, hnone.rest, List.append_nil] at hread
      exact hread.symm
    reported := by
      have htold := Standing.eq_flatMap_append Standing.told_eq (.start source) (last + 1)
      have hleft : told (called source (last + 1)).cursor = [] := by
        rw [told, hnone.rest, hnone.reports]
        rfl
      have hlexemes : scan source = _ := hscan
      rw [← called, hleft, List.append_nil] at htold
      rw [hlexemes, List.flatMap_map, List.filter_flatMap, ← told_start]
      exact htold.symm
    idle := fun j hj => ⟨(hover hj).read_eq, by rw [(hover hj).lexeme_eq]⟩ }⟩

/-- The scanner of a text of `n` bytes delivers the end of the file after at most `n + 2` calls, and
from then on with every call. Until then it reads the symbols of the text one after the other, each
of them once and with them all bytes but a byte order mark, and reports every ill-formed byte and
every NUL once, at its place. -/
theorem calls_complete (file : String) (bytes : List UInt8) :
    ∃ last ≤ bytes.length + 1, ∃ symbols, Symbol.Decoded symbols ∧
      Symbol.allBytes symbols = Symbol.dropMark bytes ∧ Completes { file, bytes } symbols last ∧
      ((scan { file, bytes }).flatMap Lexeme.reports).countP (·.fault = .nul) =
        (Symbol.dropMark bytes).count 0 := by
  obtain ⟨last, hlast, h⟩ := completes { file, bytes }
  have hrest : (Cursor.start { file, bytes }).rest = Symbol.decode (Symbol.dropMark bytes) :=
    arrive_rest ..
  have hdecoded := Symbol.decoded_decode (Symbol.dropMark bytes)
  have hbytes := Symbol.allBytes_decode (Symbol.dropMark bytes)
  rw [hrest] at hlast h
  refine ⟨last, ?_, _, hdecoded, hbytes, h, ?_⟩
  · have hsymbols := Symbol.length_le_allBytes (Symbol.decode (Symbol.dropMark bytes))
    have hmark := Symbol.length_dropMark_le bytes
    rw [hbytes] at hsymbols
    omega
  · rw [← hbytes, hdecoded.count_zero, ← countP_ownReports_nul file, ← h.reported,
      List.countP_filter]
    -- A NUL is a fault of a symbol, so that the filter keeps its reports.
    refine List.countP_congr fun r _ => ?_
    cases r.fault <;> simp [LexFault.isOfSymbol]

end Lexer

end FlowCheck
