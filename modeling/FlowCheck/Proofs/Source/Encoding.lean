import FlowCheck.Source.Cursor

/-!
# Text and its bytes

A text is given to the reader as the UTF-8 form of its characters, and decoding gives the characters
back: the shortest form of a scalar value is never taken for anything else.
-/
namespace FlowCheck

namespace Symbol

/-- The UTF-8 form of a text. -/
def encode (text : List Char) : List UInt8 := text.flatMap String.utf8EncodeChar

theorem toNat_ofNat {n : Nat} (hn : n < 256) : (UInt8.ofNat n).toNat = n := by
  rw [UInt8.toNat_ofNat', Nat.mod_eq_of_lt hn]

theorem not_lt_ofNat {n : Nat} (hn : n < 256) (h : 128 ≤ n) : ¬UInt8.ofNat n < 0x80 := by
  rw [UInt8.lt_iff_toNat_lt, toNat_ofNat hn]
  exact Nat.not_lt.2 h

/-! ### The bytes of one character

The bits of a lead byte and of its continuations are `a`, `b`, `d` and `e`. -/

section

variable {a b d e : Nat}

theorem payload_ofNat (hb : b < 64) : payload (UInt8.ofNat (b + 128)) = b := by
  rw [payload, toNat_ofNat (by omega)]
  omega

theorem isContinuation_ofNat (hb : b < 64) : isContinuation (UInt8.ofNat (b + 128)) = true := by
  simp only [isContinuation, UInt8.le_iff_toNat_le, toNat_ofNat (show b + 128 < 256 by omega),
    Bool.and_eq_true, decide_eq_true_eq, UInt8.reduceToNat]
  omega

theorem twoBytes?_ofNat (ha : 2 ≤ a) (ha' : a < 32) (hb : b < 64) :
    twoBytes? (UInt8.ofNat (a + 192)) (UInt8.ofNat (b + 128)) = some (Char.ofNat (a * 64 + b)) := by
  have hlead : 194 ≤ a + 192 ∧ a + 192 ≤ 223 ∧ (a + 192) % 32 = a := by omega
  simp [twoBytes?, UInt8.le_iff_toNat_le, -UInt8.ofNat_add,
    toNat_ofNat (show a + 192 < 256 by omega), isContinuation_ofNat hb, payload_ofNat hb, hlead]

theorem twoBytes?_eq_none (ha : a < 32) (b : UInt8) :
    twoBytes? (UInt8.ofNat (a + 224)) b = none := by
  have hlead : ¬a + 224 ≤ 223 := by omega
  simp [twoBytes?, UInt8.le_iff_toNat_le, -UInt8.ofNat_add,
    toNat_ofNat (show a + 224 < 256 by omega), hlead]

/-- Neither an overlong form nor a surrogate. -/
theorem threeBytes?_ofNat (ha : a < 16) (hb : b < 64) (hd : d < 64) (hlong : a = 0 → 32 ≤ b)
    (hsurrogate : a = 13 → b < 32) :
    threeBytes? (UInt8.ofNat (a + 224)) (UInt8.ofNat (b + 128)) (UInt8.ofNat (d + 128)) =
      some (Char.ofNat (a * 4096 + b * 64 + d)) := by
  have hlead : 224 ≤ a + 224 ∧ a + 224 ≤ 239 ∧ (a + 224) % 16 = a := by omega
  have hsecond : (if a = 0 then 160 else 128) ≤ b + 128 ∧
      b + 128 ≤ (if a = 13 then 159 else 191) := by
    split <;> split <;> omega
  simp [threeBytes?, UInt8.le_iff_toNat_le, -UInt8.ofNat_add, ← UInt8.toNat_inj,
    apply_ite UInt8.toNat, toNat_ofNat (show a + 224 < 256 by omega),
    toNat_ofNat (show b + 128 < 256 by omega), isContinuation_ofNat hd, payload_ofNat hb,
    payload_ofNat hd, hlead, hsecond]

theorem threeBytes?_eq_none (ha : a < 16) (b d : UInt8) :
    threeBytes? (UInt8.ofNat (a + 240)) b d = none := by
  have hlead : ¬a + 240 ≤ 239 := by omega
  simp [threeBytes?, UInt8.le_iff_toNat_le, -UInt8.ofNat_add,
    toNat_ofNat (show a + 240 < 256 by omega), hlead]

/-- Neither an overlong form nor a value above U+10FFFF. -/
theorem fourBytes?_ofNat (ha : a < 5) (hb : b < 64) (hd : d < 64) (he : e < 64)
    (hlong : a = 0 → 16 ≤ b) (hlarge : a = 4 → b < 16) :
    fourBytes? (UInt8.ofNat (a + 240)) (UInt8.ofNat (b + 128)) (UInt8.ofNat (d + 128))
        (UInt8.ofNat (e + 128)) =
      some (Char.ofNat (a * 262144 + b * 4096 + d * 64 + e)) := by
  have hlead : 240 ≤ a + 240 ∧ a + 240 ≤ 244 ∧ (a + 240) % 8 = a := by omega
  have hsecond : (if a = 0 then 144 else 128) ≤ b + 128 ∧
      b + 128 ≤ (if a = 4 then 143 else 191) := by
    split <;> split <;> omega
  simp [fourBytes?, UInt8.le_iff_toNat_le, -UInt8.ofNat_add, ← UInt8.toNat_inj,
    apply_ite UInt8.toNat, toNat_ofNat (show a + 240 < 256 by omega),
    toNat_ofNat (show b + 128 < 256 by omega), isContinuation_ofNat hd, isContinuation_ofNat he,
    payload_ofNat hb, payload_ofNat hd, payload_ofNat he, hlead, hsecond]

end

/-! ### Texts -/

theorem decode_one {b : UInt8} (h : b < 0x80) (rest : List UInt8) :
    decode (b :: rest) = scalar (Char.ofNat b.toNat) :: decode rest := by
  match rest with
  | [] | [_] | [_, _] | _ :: _ :: _ :: _ => simp only [decode, h, if_true]

theorem decode_two {b₀ b₁ : UInt8} {c : Char} (h : ¬b₀ < 0x80) (h₂ : twoBytes? b₀ b₁ = some c)
    (rest : List UInt8) : decode (b₀ :: b₁ :: rest) = scalar c :: decode rest := by
  match rest with
  | [] | [_] | _ :: _ :: _ => simp only [decode, h, h₂, if_false]

theorem decode_three {b₀ b₁ b₂ : UInt8} {c : Char} (h : ¬b₀ < 0x80) (h₂ : twoBytes? b₀ b₁ = none)
    (h₃ : threeBytes? b₀ b₁ b₂ = some c) (rest : List UInt8) :
    decode (b₀ :: b₁ :: b₂ :: rest) = scalar c :: decode rest := by
  match rest with
  | [] | _ :: _ => simp only [decode, h, h₂, h₃, if_false]

theorem decode_four {b₀ b₁ b₂ b₃ : UInt8} {c : Char} (h : ¬b₀ < 0x80)
    (h₂ : twoBytes? b₀ b₁ = none) (h₃ : threeBytes? b₀ b₁ b₂ = none)
    (h₄ : fourBytes? b₀ b₁ b₂ b₃ = some c) (rest : List UInt8) :
    decode (b₀ :: b₁ :: b₂ :: b₃ :: rest) = scalar c :: decode rest := by
  simp only [decode, h, h₂, h₃, h₄, if_false]

/-- Decoding takes the form of one character off. -/
theorem decode_encodeChar (c : Char) (rest : List UInt8) :
    decode (String.utf8EncodeChar c ++ rest) = scalar c :: decode rest := by
  have hvalid : c.val.toNat < 0xD800 ∨ 0xDFFF < c.val.toNat ∧ c.val.toNat < 0x110000 := c.valid
  have hchar {n : Nat} (h : n = c.val.toNat) : Char.ofNat n = c := by
    rw [h]
    exact Char.ofNat_toNat c
  unfold String.utf8EncodeChar
  dsimp only
  generalize c.val.toNat = v at hvalid hchar ⊢
  split
  · have hlt : UInt8.ofNat v < 0x80 := by
      rw [UInt8.lt_iff_toNat_lt, toNat_ofNat (by omega)]
      exact Nat.lt_succ_of_le ‹_›
    rw [List.singleton_append, decode_one hlt, toNat_ofNat (by omega), hchar rfl]
  split
  · have htwo := twoBytes?_ofNat (a := v / 64 % 32) (b := v % 64) (by omega) (by omega) (by omega)
    rw [hchar (by omega)] at htwo
    exact decode_two (not_lt_ofNat (by omega) (by omega)) htwo rest
  split
  · have hthree := threeBytes?_ofNat (a := v / 4096 % 16) (b := v / 64 % 64) (d := v % 64)
      (by omega) (by omega) (by omega) (by omega) (by omega)
    rw [hchar (by omega)] at hthree
    exact decode_three (not_lt_ofNat (by omega) (by omega)) (twoBytes?_eq_none (by omega) _) hthree
      rest
  · have hfour := fourBytes?_ofNat (a := v / 262144 % 8) (b := v / 4096 % 64) (d := v / 64 % 64)
      (e := v % 64) (by omega) (by omega) (by omega) (by omega) (by omega) (by omega)
    rw [hchar (by omega)] at hfour
    have htwo := twoBytes?_eq_none (a := v / 262144 % 8 + 16) (by omega)
    exact decode_four (not_lt_ofNat (by omega) (by omega)) (htwo _)
      (threeBytes?_eq_none (by omega) _ _) hfour rest

theorem decode_encode (text : List Char) : decode (encode text) = text.map scalar := by
  induction text with
  | nil => rw [encode, List.flatMap_nil, decode, List.map_nil]
  | cons c text ih => rw [encode, List.flatMap_cons, decode_encodeChar, ← encode, ih, List.map_cons]

/-- The first byte of a text that starts with an ASCII character. -/
theorem dropMark_encode {c : Char} (hc : c.toNat < 128) (text : List Char) :
    dropMark (encode (c :: text)) = encode (c :: text) := by
  have hfirst : encode (c :: text) = UInt8.ofNat c.toNat :: encode text := by
    rw [encode, List.flatMap_cons, String.utf8EncodeChar]
    exact congrArg (· ++ _) (if_pos (Nat.le_of_lt_succ hc))
  have hne : UInt8.ofNat c.toNat ≠ 0xEF := by
    intro h
    have := congrArg UInt8.toNat h
    rw [toNat_ofNat (by omega)] at this
    simp at this
    omega
  rw [hfirst, dropMark]
  intro rest h
  exact absurd (List.cons.inj h).1 hne

end Symbol

/-- A text in a file. -/
def Source.ofText (file : String) (text : List Char) : Source :=
  { file, bytes := Symbol.encode text }

end FlowCheck
